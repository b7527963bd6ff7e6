import ScriptGraph.Proofs.Program.Labels

/-!
# Programs with other names and other definitions

Two programs may differ in their names, and in which definitions a body has and in which order. How
they may differ is left open here, as far as it does not matter for what they lower to.

* `Place`, `Heading.places` : what a name stands for in the body that binds it;
* `Variation` : which names may be used for each other, and which bodies may stand for each other;
* `Core.Similar`, `CoreFunction.Similar` : programs that differ so;
* `Core.Similar.exists_use` : a name of a similar expression is used for a name of the expression;
* `SimilarDefinitions.exists_similar` : the counterparts of definitions.
-/

namespace ScriptGraph

/-- What a body binds a name to. -/
inductive Place
  /-- The function itself. -/
  | self
  | param (i : Nat)
  | definition (i : Nat)
deriving DecidableEq

/-- The place in a body whose definitions have been moved. -/
def Place.move (m : Nat → Nat) : Place → Place
  | .definition i => .definition (m i)
  | place => place

@[simp] theorem Place.move_id (place : Place) : place.move id = place := by
  cases place <;> rfl

/-- The names that a function, or a program, binds in its body. -/
structure Heading where
  name : Option String
  params : List String
  definitions : List String

namespace Heading

/-- What the names stand for, with something for each place. -/
def binders {α : Type} (h : Heading) (me : α) (args slots : List α) : Binders α where
  definitions := h.definitions.zip slots
  params := h.params.zip args
  self := h.name.toList.zip [me]

/-- The places that the names stand for. -/
def places (h : Heading) : Binders Place :=
  h.binders .self ((List.range h.params.length).map .param)
    ((List.range h.definitions.length).map .definition)

/-- What is at a place. -/
def At {α : Type} (h : Heading) (me : α) (args slots : List α) (a : α) : Place → Prop
  | .self => h.name ≠ none ∧ a = me
  | .param i => args[i]? = some a
  | .definition i => slots[i]? = some a

theorem rel_binders {α : Type} (h : Heading) (me : α) {args slots : List α}
    (hargs : args.length = h.params.length) (hslots : slots.length = h.definitions.length) :
    (h.binders me args slots).Rel (h.At me args slots) h.places where
  definitions := zip_paired _ <| List.forall₂_iff_get.2 ⟨by simp [hslots], fun i hi _ => by
    simp [At, List.getElem?_eq_getElem hi]⟩
  params := zip_paired _ <| List.forall₂_iff_get.2 ⟨by simp [hargs], fun i hi _ => by
    simp [At, List.getElem?_eq_getElem hi]⟩
  self := by
    cases hname : h.name with
    | none => simp [binders, places, hname]
    | some name =>
      have hme : h.At me args slots me .self := ⟨hname ▸ nofun, rfl⟩
      simp only [binders, places, hname]
      exact .cons ⟨rfl, hme⟩ .nil

theorem find_binders {α : Type} (h : Heading) (me : α) {args slots : List α}
    (hargs : args.length = h.params.length) (hslots : slots.length = h.definitions.length)
    (name : String) :
    Option.Rel (h.At me args slots) ((h.binders me args slots).find name) (h.places.find name) :=
  (h.rel_binders me hargs hslots).find name

end Heading

/-- How two programs may differ. A scope is what there is to say about the bodies around. -/
structure Variation where
  Scope : Type
  /-- Nothing is around. -/
  top : Scope
  /-- The names that may be used for each other. -/
  use : Scope → String → String → Prop
  /-- The names that are known to be bound in the second program. -/
  bound : Scope → String → Prop
  /-- The functions that may stand for each other, by what they bind. Definition `i` of the one is
  definition `m i` of the other. -/
  enter : Scope → Heading → Heading → (m : Nat → Nat) → Scope → Prop
  not_bound_top : ∀ name, ¬bound top name
  params_length : ∀ {s h h' m t}, enter s h h' m t → h'.params.length = h.params.length
  injective : ∀ {s h h' m t}, enter s h h' m t →
    ∀ i < h.definitions.length, ∀ j < h.definitions.length, m i = m j → i = j
  /-- The names stand for the same place in the bodies that are entered, or for nothing in them. -/
  use_enter : ∀ {s h h' m t name name'}, enter s h h' m t → use t name name' →
    (∃ place, h.places.find name = some place ∧ h'.places.find name' = some (place.move m)) ∨
      h.places.find name = none ∧ h'.places.find name' = none ∧ use s name name'
  bound_enter : ∀ {s h h' m t name}, enter s h h' m t → bound t name →
    h'.places.find name ≠ none ∨ bound s name

/-! ## Similar programs -/

/-- The names that a function binds in its body. -/
def CoreFunction.heading (f : CoreFunction) : Heading where
  name := f.name
  params := f.params
  definitions := f.definitions.map CoreDefinition.name

theorem CoreFunction.binders_eq {α : Type} (f : CoreFunction) (me : α) (args slots : List α) :
    f.binders me args slots = f.heading.binders me args slots := rfl

mutual

/-- Expressions that differ in the names and definitions only that a variation allows. -/
inductive Core.Similar (V : Variation) : V.Scope → Core → Core → Prop
  | leaf (s : V.Scope) (draft : Draft) (h : draft.IsLeaf) :
    Core.Similar V s (.leaf draft h) (.leaf draft h)
  | template {s : V.Scope} {ps ps' : List CorePart} (h : SimilarParts V s ps ps')
    (awaits optional : Bool) :
    Core.Similar V s (.template ps awaits optional) (.template ps' awaits optional)
  | call {s : V.Scope} {x x' : Core} {xs xs' : List Core} (h : Core.Similar V s x x')
    (hs : SimilarAll V s xs xs') (style : CallStyle) :
    Core.Similar V s (.call x xs style) (.call x' xs' style)
  | function {s : V.Scope} {f f' : CoreFunction} (h : CoreFunction.Similar V s f f') :
    Core.Similar V s (.function f) (.function f')
  | use {s : V.Scope} {name name' : String} (h : V.use s name name') :
    Core.Similar V s (.use name) (.use name')

inductive SimilarAll (V : Variation) : V.Scope → List Core → List Core → Prop
  | nil (s : V.Scope) : SimilarAll V s [] []
  | cons {s : V.Scope} {x x' : Core} {xs xs' : List Core} (h : Core.Similar V s x x')
    (hs : SimilarAll V s xs xs') : SimilarAll V s (x :: xs) (x' :: xs')

inductive SimilarParts (V : Variation) : V.Scope → List CorePart → List CorePart → Prop
  | nil (s : V.Scope) : SimilarParts V s [] []
  | text {s : V.Scope} {ps ps' : List CorePart} (t : String) (hs : SimilarParts V s ps ps') :
    SimilarParts V s (.text t :: ps) (.text t :: ps')
  | node {s : V.Scope} {x x' : Core} {ps ps' : List CorePart} (h : Core.Similar V s x x')
    (hs : SimilarParts V s ps ps') : SimilarParts V s (.node x :: ps) (.node x' :: ps')

/-- The definitions from `i` on have their counterparts where `m` says. -/
inductive SimilarDefinitions (V : Variation) : V.Scope → (Nat → Nat) → List CoreDefinition → Nat →
    List CoreDefinition → Prop
  | nil (s : V.Scope) (m : Nat → Nat) (ds' : List CoreDefinition) (i : Nat) :
    SimilarDefinitions V s m ds' i []
  | cons {s : V.Scope} {m : Nat → Nat} {ds' : List CoreDefinition} {i : Nat}
    {name name' : String} {x x' : Core} {ds : List CoreDefinition}
    (hd : ds'[m i]? = some (.mk name' x')) (h : Core.Similar V s x x')
    (hs : SimilarDefinitions V s m ds' (i + 1) ds) :
    SimilarDefinitions V s m ds' i (.mk name x :: ds)

/-- Functions, or programs, that differ so. Names in definitions without a counterpart are bound. -/
inductive CoreFunction.Similar (V : Variation) : V.Scope → CoreFunction → CoreFunction → Prop
  | mk {s t : V.Scope} {f f' : CoreFunction} {m : Nat → Nat}
    (henter : V.enter s f.heading f'.heading m t) (hreturns : f'.returns = f.returns)
    (hdefinitions : SimilarDefinitions V t m f'.definitions 0 f.definitions)
    (hadded : ∀ j d, f'.definitions[j]? = some d → (∀ i < f.definitions.length, m i ≠ j) →
      ∀ name ∈ d.value.uses, V.bound t name)
    (hroots : SimilarAll V t f.roots f'.roots) : CoreFunction.Similar V s f f'

end

/-! ## Their names -/

section Uses

variable {V : Variation} {s : V.Scope}

mutual

/-- A name of a similar expression is used for a name of the expression. -/
theorem Core.Similar.exists_use : ∀ {x x' : Core}, x.Similar V s x' → ∀ name' ∈ x'.uses,
    ∃ name ∈ x.uses, V.use s name name'
  | _, _, .leaf _ _ _, _, h => by cases h
  | _, _, .template hps _ _, name', h => hps.exists_use name' h
  | _, _, .call hx hxs _, name', h => by
    rw [Core.uses, List.mem_append] at h
    rcases h with h | h
    · obtain ⟨name, hname, huse⟩ := hx.exists_use name' h
      exact ⟨name, List.mem_append_left _ hname, huse⟩
    · obtain ⟨name, hname, huse⟩ := hxs.exists_use name' h
      exact ⟨name, List.mem_append_right _ hname, huse⟩
  | _, _, .function _, _, h => by cases h
  | _, _, .use huse, name', h => by
    rw [Core.uses, List.mem_singleton] at h
    exact ⟨_, List.mem_singleton_self _, h ▸ huse⟩

theorem SimilarAll.exists_use : ∀ {xs xs' : List Core}, SimilarAll V s xs xs' →
    ∀ name' ∈ coresUses xs', ∃ name ∈ coresUses xs, V.use s name name'
  | _, _, .nil _, _, h => by cases h
  | _, _, .cons hx hxs, name', h => by
    rw [coresUses, List.mem_append] at h
    rcases h with h | h
    · obtain ⟨name, hname, huse⟩ := hx.exists_use name' h
      exact ⟨name, List.mem_append_left _ hname, huse⟩
    · obtain ⟨name, hname, huse⟩ := hxs.exists_use name' h
      exact ⟨name, List.mem_append_right _ hname, huse⟩

theorem SimilarParts.exists_use : ∀ {ps ps' : List CorePart}, SimilarParts V s ps ps' →
    ∀ name' ∈ partsUses ps', ∃ name ∈ partsUses ps, V.use s name name'
  | _, _, .nil _, _, h => by cases h
  | _, _, .text _ hps, name', h => hps.exists_use name' h
  | _, _, .node hx hps, name', h => by
    rw [partsUses, List.mem_append] at h
    rcases h with h | h
    · obtain ⟨name, hname, huse⟩ := hx.exists_use name' h
      exact ⟨name, List.mem_append_left _ hname, huse⟩
    · obtain ⟨name, hname, huse⟩ := hps.exists_use name' h
      exact ⟨name, List.mem_append_right _ hname, huse⟩

end

/-- A definition has a counterpart where `m` says. -/
theorem SimilarDefinitions.exists_similar {m : Nat → Nat} {ds' : List CoreDefinition} {i : Nat}
    {ds : List CoreDefinition} (h : SimilarDefinitions V s m ds' i ds) {k : Nat}
    {d : CoreDefinition} (hd : ds[k]? = some d) :
    ∃ d', ds'[m (i + k)]? = some d' ∧ d.value.Similar V s d'.value := by
  induction ds generalizing i k with
  | nil => cases hd
  | cons d₀ ds ih =>
    cases h with
    | cons hd' hx hs =>
      cases k with
      | zero =>
        cases hd
        exact ⟨_, hd', hx⟩
      | succ k =>
        obtain ⟨d', hd', hx⟩ := ih hs hd
        exact ⟨d', by rwa [Nat.add_right_comm] at hd', hx⟩

end Uses

end ScriptGraph
