import ScriptGraph.Proofs.Builder.Endings
import ScriptGraph.Proofs.Graph.Mirrors
import ScriptGraph.Proofs.Program.Labels

/-!
# Lowering as a relation between builders

* `Builder.Appends` : nodes are added, and nothing else happens;
* `Core.Places` : an expression is lowered to a node, and a builder is left behind;
* `CoreFunction.Places` : so is the body of a function, with its definitions;
* `Core.Places.appends`, `CoreFunction.Places.retains` : what is there stays;
* `Core.lower_places`, `CoreFunction.lower_places` : lowering does this when all names are bound,
  and fails when one is not.
-/

namespace ScriptGraph

variable {σ α β : Type}

/-! ## Growing builders -/

namespace BuilderState

theorem create_modules (s : BuilderState σ) (draft : Draft) {e : NodeId}
    (h : s.graph.moduleStore = some e) : (s.create draft).2.graph.moduleStore = some e := by
  cases draft with
  | ident name =>
    simp only [create]
    split <;> exact h
  | moduleStore => simp only [create, moduleStore, h]
  | module address =>
    simp only [create, moduleStore, h]
    exact h
  | resourceStore | resource key value =>
    simp only [create, resourceStore]
    split <;> exact h
  | _ => exact h

theorem create_resources (s : BuilderState σ) (draft : Draft) {e : NodeId}
    (h : s.graph.resourceStore = some e) : (s.create draft).2.graph.resourceStore = some e := by
  cases draft with
  | ident name =>
    simp only [create]
    split <;> exact h
  | resourceStore => simp only [create, resourceStore, h]
  | resource key value =>
    simp only [create, resourceStore, h]
    exact h
  | moduleStore | module address =>
    simp only [create, moduleStore]
    split <;> exact h
  | _ => exact h

end BuilderState

namespace Builder

/-- Nodes are added, and recipes for bodies. -/
structure Appends (b c : Builder σ) : Prop where
  leads : b.Leads c
  size_le : b.state.graph.size ≤ c.state.graph.size
  old : ∀ e < b.state.graph.size, c.state.graph.node? e = b.state.graph.node? e
  modules : ∀ e, b.state.graph.moduleStore = some e → c.state.graph.moduleStore = some e
  resources : ∀ e, b.state.graph.resourceStore = some e → c.state.graph.resourceStore = some e
  pending : b.pending ⊆ c.pending

/-- What there is stays, but empty slots may be filled. -/
structure Retains (b c : Builder σ) : Prop where
  leads : b.Leads c
  graph : b.state.graph.Retains c.state.graph
  pending : b.pending ⊆ c.pending

variable {b c d : Builder σ}

theorem Appends.refl (b : Builder σ) : b.Appends b :=
  ⟨.refl b, Nat.le_refl _, fun _ _ => rfl, fun _ h => h, fun _ h => h, List.Subset.refl _⟩

theorem Appends.trans (h : b.Appends c) (h' : c.Appends d) : b.Appends d where
  leads := h.leads.trans h'.leads
  size_le := Nat.le_trans h.size_le h'.size_le
  old e he := (h'.old e (Nat.lt_of_lt_of_le he h.size_le)).trans (h.old e he)
  modules e he := h'.modules e (h.modules e he)
  resources e he := h'.resources e (h.resources e he)
  pending := List.Subset.trans h.pending h'.pending

theorem Appends.kindOf?_eq (h : b.Appends c) {e : NodeId} {k : Kind}
    (hk : b.state.graph.kindOf? e = some k) : c.state.graph.kindOf? e = some k := by
  obtain ⟨n, hn, _⟩ := Graph.kindOf?_eq_some.1 hk
  rw [Graph.kindOf?, h.old e (Graph.lt_size hn)]
  exact hk

theorem Retains.refl (b : Builder σ) : b.Retains b :=
  ⟨.refl b, .refl _, List.Subset.refl _⟩

theorem Retains.trans (h : b.Retains c) (h' : c.Retains d) : b.Retains d :=
  ⟨h.leads.trans h'.leads, h.graph.trans h'.graph, List.Subset.trans h.pending h'.pending⟩

theorem Appends.retains (h : b.Appends c) : b.Retains c where
  leads := h.leads
  graph := {
    nodes := fun _ n hn => ⟨n, (h.old _ (Graph.lt_size hn)).trans hn, rfl, rfl, .inl rfl⟩
    modules := h.modules
    resources := h.resources }
  pending := h.pending

theorem Appends.create (b : Builder σ) (draft : Draft) : b.Appends (b.perform (.create draft)) where
  leads := .create b draft
  size_le := (b.state.create_extends draft).size_le
  old _ he := BuilderState.create_old draft he
  modules _ he := b.state.create_modules draft he
  resources _ he := b.state.create_resources draft he
  pending := List.Subset.refl _

theorem Appends.function (b : Builder σ) (arity : Nat) (body : NodeId → List NodeId → Recipe σ) :
    b.Appends (b.perform (.function arity body)) where
  leads := .function b arity body
  size_le := (Graph.extends_pushFunction _ _ _).size_le
  old e he := by
    show (b.state.graph.pushFunction _ _).node? e = _
    rw [Graph.node?_pushFunction, if_pos he]
  modules _ he := he
  resources _ he := he
  pending := List.subset_append_left _ _

theorem fill_graph {slot target : NodeId}
    (hslot : b.state.graph.kindOf? slot = some (.slot none)) :
    (b.perform (.fill slot target)).state.graph =
      b.state.graph.setKind slot (.slot (some target)) := by
  show (b.state.fill slot target).2.graph = _
  rw [BuilderState.fill, hslot]

theorem Retains.fill {slot target : NodeId}
    (hslot : b.state.graph.kindOf? slot = some (.slot none)) :
    b.Retains (b.perform (.fill slot target)) where
  leads := .fill b slot target
  graph := by
    rw [fill_graph hslot]
    refine ⟨fun e n hn => ?_, fun _ h => h, fun _ h => h⟩
    rw [Graph.node?_setKind]
    by_cases he : e = slot
    · subst he
      rw [Graph.kindOf?_of_node hn] at hslot
      rw [if_pos rfl, hn]
      exact ⟨_, rfl, rfl, rfl, .inr ⟨Option.some.inj hslot, target, rfl⟩⟩
    · exact ⟨n, (if_neg he).trans hn, rfl, rfl, .inl rfl⟩
  pending := List.Subset.refl _

/-- Empty slots are made. -/
def addSlots (b : Builder σ) : Nat → Builder σ
  | 0 => b
  | n + 1 => (b.perform (.create .slot)).addSlots n

theorem size_createSlot (b : Builder σ) :
    (b.perform (.create .slot)).state.graph.size = b.state.graph.size + 1 := Array.size_push _

theorem kindOf?_createSlot (b : Builder σ) :
    (b.perform (.create .slot)).state.graph.kindOf? b.state.graph.size = some (.slot none) :=
  Graph.kindOf?_of_node ((b.state.graph.node?_push _ _).trans (if_pos rfl))

theorem addSlots_appends (b : Builder σ) (n : Nat) : b.Appends (b.addSlots n) := by
  induction n generalizing b with
  | zero => exact .refl b
  | succ n ih => exact (Appends.create b .slot).trans (ih _)

theorem size_addSlots (b : Builder σ) (n : Nat) :
    (b.addSlots n).state.graph.size = b.state.graph.size + n := by
  induction n generalizing b with
  | zero => rfl
  | succ n ih => rw [addSlots, ih, size_createSlot, Nat.add_right_comm, Nat.add_assoc]

theorem kindOf?_addSlots (b : Builder σ) (n : Nat) :
    ∀ slot ∈ List.range' b.state.graph.size n,
      (b.addSlots n).state.graph.kindOf? slot = some (.slot none) := by
  induction n generalizing b with
  | zero => exact nofun
  | succ n ih =>
    rw [List.range'_succ, List.forall_mem_cons]
    exact ⟨(addSlots_appends _ n).kindOf?_eq b.kindOf?_createSlot,
      fun slot hslot => ih _ slot (b.size_createSlot ▸ hslot)⟩

end Builder

/-! ## Lowering -/

mutual

/-- With some bodies around it, an expression is lowered to a node. -/
inductive Core.Places (bodies : List (Binders NodeId)) :
    Core → Builder σ → NodeId → Builder σ → Prop
  | leaf (draft : Draft) (h : draft.IsLeaf) (b : Builder σ) :
    Core.Places bodies (.leaf draft h) b (b.state.create draft).1 (b.perform (.create draft))
  | template {ps : List CorePart} {qs : List Part} {b c : Builder σ}
    (h : PlacesParts bodies ps b qs c) (awaits optional : Bool) :
    Core.Places bodies (.template ps awaits optional) b
      (c.state.create (.template qs awaits false optional)).1
      (c.perform (.create (.template qs awaits false optional)))
  | call {x : Core} {xs : List Core} {e : NodeId} {es : List NodeId} {b c d : Builder σ}
    (h : Core.Places bodies x b e c) (hs : PlacesAll bodies xs c es d) (style : CallStyle) :
    Core.Places bodies (.call x xs style) b (d.state.create (.call e es style)).1
      (d.perform (.create (.call e es style)))
  | function (f : CoreFunction) (b : Builder σ) :
    Core.Places bodies (.function f) b b.state.graph.size
      (b.perform (.function f.params.length fun me args => TryBuild.recipe (f.lower bodies me args)))
  | use {name : String} {e : NodeId} (h : innermost bodies name = some e) (b : Builder σ) :
    Core.Places bodies (.use name) b e b

inductive PlacesAll (bodies : List (Binders NodeId)) :
    List Core → Builder σ → List NodeId → Builder σ → Prop
  | nil (b : Builder σ) : PlacesAll bodies [] b [] b
  | cons {x : Core} {xs : List Core} {e : NodeId} {es : List NodeId} {b c d : Builder σ}
    (h : Core.Places bodies x b e c) (hs : PlacesAll bodies xs c es d) :
    PlacesAll bodies (x :: xs) b (e :: es) d

inductive PlacesParts (bodies : List (Binders NodeId)) :
    List CorePart → Builder σ → List Part → Builder σ → Prop
  | nil (b : Builder σ) : PlacesParts bodies [] b [] b
  | text {ps : List CorePart} {qs : List Part} {b c : Builder σ} (t : String)
    (hs : PlacesParts bodies ps b qs c) : PlacesParts bodies (.text t :: ps) b (.text t :: qs) c
  | node {x : Core} {ps : List CorePart} {e : NodeId} {qs : List Part} {b c d : Builder σ}
    (h : Core.Places bodies x b e c) (hs : PlacesParts bodies ps c qs d) :
    PlacesParts bodies (.node x :: ps) b (.node e :: qs) d

end

/-- The values of definitions are lowered and their slots filled, in order. -/
inductive PlacesDefinitions (bodies : List (Binders NodeId)) :
    List NodeId → List CoreDefinition → Builder σ → Builder σ → Prop
  | nil (b : Builder σ) : PlacesDefinitions bodies [] [] b b
  | cons {d : CoreDefinition} {ds : List CoreDefinition} {slot e : NodeId} {slots : List NodeId}
    {b c a : Builder σ} (h : d.value.Places bodies b e c)
    (hslot : c.state.graph.kindOf? slot = some (.slot none))
    (hs : PlacesDefinitions bodies slots ds (c.perform (.fill slot e)) a) :
    PlacesDefinitions bodies (slot :: slots) (d :: ds) b a

/-- The body of a function is lowered, with the function's handle and parameters. Its slots are the
first nodes that are made. -/
def CoreFunction.Places (f : CoreFunction) (bodies : List (Binders NodeId)) (me : NodeId)
    (args : List NodeId) (b : Builder σ) (body : Body) (d : Builder σ) : Prop :=
  let slots := List.range' b.state.graph.size f.definitions.length
  ∃ (c : Builder σ) (es : List NodeId),
    PlacesDefinitions (f.binders me args slots :: bodies) slots f.definitions
      (b.addSlots f.definitions.length) c ∧
    PlacesAll (f.binders me args slots :: bodies) f.roots c es d ∧ body = .ofRoots f.returns es

variable {bodies : List (Binders NodeId)}

mutual

theorem Core.Places.appends : ∀ {x : Core} {b : Builder σ} {e : NodeId} {c : Builder σ},
    x.Places bodies b e c → b.Appends c
  | _, _, _, _, .leaf draft _ b => .create b draft
  | _, _, _, _, .template hps _ _ => hps.appends.trans (.create _ _)
  | _, _, _, _, .call hx hxs _ => (hx.appends.trans hxs.appends).trans (.create _ _)
  | _, _, _, _, .function _ b => .function b _ _
  | _, _, _, _, .use _ b => .refl b

theorem PlacesAll.appends : ∀ {xs : List Core} {b : Builder σ} {es : List NodeId} {c : Builder σ},
    PlacesAll bodies xs b es c → b.Appends c
  | _, _, _, _, .nil b => .refl b
  | _, _, _, _, .cons hx hxs => hx.appends.trans hxs.appends

theorem PlacesParts.appends : ∀ {ps : List CorePart} {b : Builder σ} {qs : List Part}
    {c : Builder σ}, PlacesParts bodies ps b qs c → b.Appends c
  | _, _, _, _, .nil b => .refl b
  | _, _, _, _, .text _ hps => hps.appends
  | _, _, _, _, .node hx hps => hx.appends.trans hps.appends

end

/-! ## What lowering does -/

/-- A computation that uses some names fails for one that is not bound, or all are bound and it
answers what has a property. -/
def TryBuild.Binds (x : TryBuild σ α) (bodies : List (Binders NodeId)) (names : List String)
    (b : Builder σ) (P : Builder σ → α → Prop) : Prop :=
  x.Ends (fun _ => ∃ name ∈ names, innermost bodies name = none) b fun c v =>
    (∀ name ∈ names, innermost bodies name ≠ none) ∧ P c v

namespace TryBuild.Binds

variable {names names' : List String} {b : Builder σ} {P : Builder σ → α → Prop}
  {Q : Builder σ → β → Prop}

theorem pure {v : α} (h : P b v) : Binds (pure v) bodies [] b P := Ends.pure ⟨nofun, h⟩

theorem lift {x : Build σ α} {v : α} {c : Builder σ} (hx : x.Yields b v c) (hc : b.Leads c)
    (hv : P c v) : Binds (ExceptT.lift x) bodies [] b P :=
  Ends.lift hx hc ⟨nofun, hv⟩

theorem bind {x : TryBuild σ α} {f : α → TryBuild σ β} (hx : x.Binds bodies names b P)
    (hf : ∀ v c, P c v → (f v).Binds bodies names' c Q) :
    (x >>= f).Binds bodies (names ++ names') b Q := by
  refine Ends.bind (hx.imp (fun _ ⟨name, hmem, h⟩ => ?_) fun _ _ h => h)
    fun v c _ ⟨hnames, hv⟩ => (hf v c hv).imp (fun _ ⟨name, hmem, h⟩ => ?_)
      fun d w ⟨hnames', hw⟩ => ⟨fun name hmem => ?_, hw⟩
  · exact ⟨name, List.mem_append_left _ hmem, h⟩
  · exact ⟨name, List.mem_append_right _ hmem, h⟩
  · exact (List.mem_append.1 hmem).elim (hnames name) (hnames' name)

theorem andThen {x : TryBuild σ α} {f : α → TryBuild σ β} (hx : x.Binds bodies names b P)
    (hf : ∀ v c, P c v → (f v).Binds bodies [] c Q) : (x >>= f).Binds bodies names b Q :=
  List.append_nil names ▸ hx.bind hf

end TryBuild.Binds

open TryBuild

theorem create_binds (b : Builder σ) (draft : Draft) {P : Builder σ → NodeId → Prop}
    (h : P (b.perform (.create draft)) (b.state.create draft).1) :
    Binds (ExceptT.lift (Build.create draft)) bodies [] b P :=
  .lift (fun next => Builder.run_create draft next b) (.create b draft) h

mutual

theorem Core.lower_places : ∀ (x : Core) (b : Builder σ),
    (x.lower bodies).Binds bodies x.uses b fun c e => x.Places bodies b e c
  | .leaf draft h, b => create_binds b draft (.leaf draft h b)
  | .template ps awaits optional, b =>
    (lowerCoreParts_places ps b).andThen fun _ c hps =>
      create_binds c _ (.template hps awaits optional)
  | .call x xs style, b =>
    (x.lower_places b).bind fun _ c hx => (lowerCores_places xs c).andThen fun _ d hxs =>
      create_binds d _ (.call hx hxs style)
  | .function f, b =>
    .lift (fun next => Builder.run_function _ _ next b) (.function b _ _) (.function f b)
  | .use name, b => by
    rw [Core.lower, Core.uses]
    cases h : innermost bodies name with
    | none => exact Ends.throw ⟨name, List.mem_singleton_self _, h⟩
    | some e =>
      refine Ends.pure ⟨fun name' hname => ?_, .use h b⟩
      rw [List.mem_singleton.1 hname, h]
      exact nofun

theorem lowerCores_places : ∀ (xs : List Core) (b : Builder σ),
    (lowerCores bodies xs).Binds bodies (coresUses xs) b fun c es => PlacesAll bodies xs b es c
  | [], b => .pure (.nil b)
  | x :: xs, b =>
    (x.lower_places b).bind fun _ c hx => (lowerCores_places xs c).andThen fun _ _ hxs =>
      .pure (.cons hx hxs)

theorem lowerCoreParts_places : ∀ (ps : List CorePart) (b : Builder σ),
    (lowerCoreParts bodies ps).Binds bodies (partsUses ps) b fun c qs =>
      PlacesParts bodies ps b qs c
  | [], b => .pure (.nil b)
  | .text t :: ps, b => by
    simp only [lowerCoreParts, CorePart.lower, pure_bind]
    exact (lowerCoreParts_places ps b).andThen fun _ _ hps => .pure (.text t hps)
  | .node x :: ps, b => by
    simp only [lowerCoreParts, CorePart.lower, bind_assoc, pure_bind]
    exact (x.lower_places b).bind fun _ c hx => (lowerCoreParts_places ps c).andThen
      fun _ _ hps => .pure (.node hx hps)

end

theorem makeSlots_binds (n : Nat) (b : Builder σ) : (makeSlots n).Binds bodies [] b
    fun c slots => slots = List.range' b.state.graph.size n ∧ c = b.addSlots n := by
  induction n generalizing b with
  | zero => exact .pure ⟨rfl, rfl⟩
  | succ n ih =>
    refine (create_binds b .slot (P := fun c e => e = b.state.graph.size ∧
      c = b.perform (.create .slot)) ⟨rfl, rfl⟩).andThen fun e c he => ?_
    obtain ⟨rfl, rfl⟩ := he
    refine (ih _).andThen fun slots d hslots => .pure ⟨?_, hslots.2⟩
    rw [hslots.1, List.range'_succ, b.size_createSlot]

theorem fillCoreDefinitions_places : ∀ (ds : List CoreDefinition) (slots : List NodeId)
    (b : Builder σ), slots.length = ds.length → slots.Nodup →
    (∀ slot ∈ slots, b.state.graph.kindOf? slot = some (.slot none)) →
    (fillCoreDefinitions bodies slots ds).Binds bodies (coresUses (ds.map CoreDefinition.value)) b
      fun c _ => PlacesDefinitions bodies slots ds b c
  | [], [], b, _, _, _ => .pure (.nil b)
  | .mk name value :: ds, slot :: slots, b, hlength, hnodup, hempty => by
    rw [List.nodup_cons] at hnodup
    rw [List.forall_mem_cons] at hempty
    have hfill : ((CoreDefinition.mk name value).fill bodies slot).Binds bodies value.uses b
        fun c _ => ∃ d e, value.Places bodies b e d ∧ c = d.perform (.fill slot e) :=
      (value.lower_places b).andThen fun e d he =>
        Ends.fill (he.appends.kindOf?_eq hempty.1) ⟨nofun, d, e, he, rfl⟩
    refine hfill.bind fun _ c hc => ?_
    obtain ⟨d, e, he, rfl⟩ := hc
    have hslot := he.appends.kindOf?_eq hempty.1
    refine (fillCoreDefinitions_places ds slots _ (Nat.succ.inj hlength) hnodup.2
      fun x hx => ?_).imp (fun _ h => h) fun a _ ⟨hnames, ha⟩ => ⟨hnames, .cons he hslot ha⟩
    have hne : x ≠ slot := by
      rintro rfl
      exact hnodup.1 hx
    rw [Builder.fill_graph hslot, Graph.kindOf?_setKind_of_ne hne]
    exact he.appends.kindOf?_eq (hempty.2 x hx)

/-- **The lowering of a body** fails for a name that is not bound, or places the body. -/
theorem CoreFunction.lower_places (f : CoreFunction) (me : NodeId) (args : List NodeId)
    (b : Builder σ) :
    (f.lower bodies me args).Binds
      (f.binders me args (List.range' b.state.graph.size f.definitions.length) :: bodies) f.uses b
      fun c body => f.Places bodies me args b body c := by
  rw [CoreFunction.lower_eq]
  refine (makeSlots_binds f.definitions.length b).bind fun slots c hslots => ?_
  obtain ⟨rfl, rfl⟩ := hslots
  refine (fillCoreDefinitions_places f.definitions _ _ List.length_range' List.nodup_range'
    (b.kindOf?_addSlots _)).bind fun _ c hc => ?_
  exact (lowerCores_places f.roots c).andThen fun es d hes => .pure ⟨c, es, hc, hes, rfl⟩

/-! ## What bodies retain -/

theorem PlacesDefinitions.retains {slots : List NodeId} {ds : List CoreDefinition}
    {b c : Builder σ} (h : PlacesDefinitions bodies slots ds b c) : b.Retains c := by
  induction h with
  | nil b => exact .refl b
  | cons h hslot _ ih => exact (h.appends.retains.trans (.fill hslot)).trans ih

theorem CoreFunction.Places.retains {f : CoreFunction} {me : NodeId} {args : List NodeId}
    {b d : Builder σ} {body : Body} (h : f.Places bodies me args b body d) : b.Retains d := by
  obtain ⟨c, es, hdefinitions, hroots, _⟩ := h
  exact ((b.addSlots_appends _).retains.trans hdefinitions.retains).trans hroots.appends.retains

end ScriptGraph
