import ScriptGraph.Proofs.Builder.Endings
import ScriptGraph.Proofs.Program.Labelling

/-!
# Lowering makes what names stand for

* `TryBuild.Resolves` : a computation fails for a name that is not bound, or all its names are bound
  and what it makes is labelled;
* `Core.lower_resolves` : so does the lowering of an expression;
* `CoreFunction.lower_resolves` : so does that of a body.
-/

namespace ScriptGraph

variable {σ α β : Type}

/-! ## Computations -/

/-- A computation that uses some names fails for one that is not bound, or all are bound and it
answers what has a property. -/
def TryBuild.Resolves (x : TryBuild σ α) (around : List CoreFunction) (names : List String)
    (b : Builder σ) (ρ : Labelling) (P : Builder σ → Labelling → α → Prop) : Prop :=
  x.Ends (fun fault => ∃ name ∈ names, Free around name ∧ fault = .unknownName name) b fun c v =>
    (∀ name ∈ names, ¬Free around name) ∧ ∃ ρ', ρ.Grows ρ' ∧ P c ρ' v

namespace TryBuild.Resolves

variable {around : List CoreFunction} {names names' : List String} {b : Builder σ} {ρ : Labelling}
  {P : Builder σ → Labelling → α → Prop} {Q : Builder σ → Labelling → β → Prop}

theorem pure {v : α} (h : P b ρ v) : Resolves (pure v) around [] b ρ P :=
  Ends.pure ⟨nofun, ρ, .refl ρ, h⟩

theorem lift {x : Build σ α} {v : α} {c : Builder σ} {ρ' : Labelling} (hx : x.Yields b v c)
    (hc : b.Leads c) (hρ : ρ.Grows ρ') (hv : P c ρ' v) :
    Resolves (ExceptT.lift x) around [] b ρ P :=
  Ends.lift hx hc ⟨nofun, ρ', hρ, hv⟩

theorem bind {x : TryBuild σ α} {f : α → TryBuild σ β} (hx : x.Resolves around names b ρ P)
    (hf : ∀ v c ρ', ρ.Grows ρ' → P c ρ' v → (f v).Resolves around names' c ρ' Q) :
    (x >>= f).Resolves around (names ++ names') b ρ Q := by
  refine Ends.bind (hx.imp (fun fault ⟨name, hmem, h⟩ => ?_) fun _ _ h => h)
    fun v c _ ⟨hnames, ρ', hρ, hv⟩ => (hf v c ρ' hρ hv).imp (fun fault ⟨name, hmem, h⟩ => ?_)
      fun d w ⟨hnames', ρ'', hρ', hw⟩ => ⟨fun name hmem => ?_, ρ'', hρ.trans hρ', hw⟩
  · exact ⟨name, List.mem_append_left _ hmem, h⟩
  · exact ⟨name, List.mem_append_right _ hmem, h⟩
  · exact (List.mem_append.1 hmem).elim (hnames name) (hnames' name)

theorem andThen {x : TryBuild σ α} {f : α → TryBuild σ β} (hx : x.Resolves around names b ρ P)
    (hf : ∀ v c ρ', ρ.Grows ρ' → P c ρ' v → (f v).Resolves around [] c ρ' Q) :
    (x >>= f).Resolves around names b ρ Q :=
  List.append_nil names ▸ hx.bind hf

end TryBuild.Resolves

open TryBuild

/-! ## Lowering -/

variable {b : Builder σ} {ρ : Labelling} {holes : List NodeId} {around : List CoreFunction}
  {bodies : List (Binders NodeId)}

/-- A node is made from an expression. -/
def Core.MakesNode (around : List CoreFunction) (holes : List NodeId) (x : Core) (c : Builder σ)
    (ρ : Labelling) (e : NodeId) : Prop :=
  c.Labelled ρ holes ∧ ∃ l, x.denote around = some l ∧ ρ.Has e l

/-- Nodes are made from expressions. -/
def MakesNodes (around : List CoreFunction) (holes : List NodeId) (xs : List Core) (c : Builder σ)
    (ρ : Labelling) (es : List NodeId) : Prop :=
  c.Labelled ρ holes ∧ List.Forall₂ ρ.Has es (xs.filterMap (Core.denote around))

/-- A node is made for an expression that refers to the nodes of its operands. -/
theorem create_resolves (hb : b.Labelled ρ holes) {draft : Draft} {x : Core}
    (hmodules : draft ≠ .moduleStore) (hresources : draft ≠ .resourceStore)
    (hx : x.denote around = some (.code around x)) (hfun : ∀ f, x ≠ .function f)
    (hcall : ∀ callee args style, x = .call callee args style → ∃ f es, draft = .call f es style)
    (hnodes : List.Forall₂ ρ.Has draft.nodes (Label.code around x).leadsTo) :
    Resolves (ExceptT.lift (Build.create draft)) around [] b ρ (x.MakesNode around holes) :=
  .lift (fun next => Builder.run_create draft next b) (.create b draft)
    (Labelling.grows_add (hb.eq_none (BuilderState.create_fresh hmodules hresources)) _)
    ⟨hb.create hmodules hresources hnodes (fun _ f heq => hfun f (Label.code.inj heq).2)
      fun _ callee args style heq => hcall callee args style (Label.code.inj heq).2,
      _, hx, Labelling.has_add ..⟩

theorem leaf_resolves (hb : b.Labelled ρ holes) (draft : Draft) (h : draft.IsLeaf) :
    Resolves (ExceptT.lift (Build.create draft)) around [] b ρ
      ((Core.leaf draft h).MakesNode around holes) := by
  have hnodes : draft.nodes = [] := by
    cases draft with
    | template | call => exact h.elim
    | _ => rfl
  refine create_resolves hb ?_ ?_ rfl nofun nofun (hnodes ▸ .nil)
  · rintro rfl
    exact h
  · rintro rfl
    exact h

theorem function_resolves (hb : b.Labelled ρ holes)
    (hbodies : List.Forall₂ (Binders.Rel ρ.Has) bodies (scopeLabels around)) (f : CoreFunction) :
    ((Core.function f).lower bodies).Resolves around [] b ρ
      ((Core.function f).MakesNode around holes) :=
  .lift (fun next => Builder.run_function _ _ next b) (.function b _ _)
    (Labelling.grows_addFunction hb.lt_size)
    ⟨hb.function f hbodies, _, rfl, Labelling.has_addFunction⟩

theorem use_resolves (hb : b.Labelled ρ holes)
    (hbodies : List.Forall₂ (Binders.Rel ρ.Has) bodies (scopeLabels around)) (name : String) :
    ((Core.use name).lower bodies).Resolves around [name] b ρ
      ((Core.use name).MakesNode around holes) := by
  have hrel := innermost_rel hbodies name
  rw [Core.lower]
  cases hbound : innermost bodies name with
  | none =>
    rw [hbound] at hrel
    cases hfree : innermost (scopeLabels around) name with
    | none => exact Ends.throw ⟨name, List.mem_singleton_self _, hfree, rfl⟩
    | some l =>
      rw [hfree] at hrel
      cases hrel
  | some e =>
    rw [hbound] at hrel
    cases hfree : innermost (scopeLabels around) name with
    | none =>
      rw [hfree] at hrel
      cases hrel
    | some l =>
      rw [hfree] at hrel
      cases hrel with
      | some he =>
        refine Ends.pure ⟨fun name' hname => ?_, ρ, .refl ρ, hb, l, hfree, he⟩
        rw [List.mem_singleton.1 hname, Free, hfree]
        exact nofun

mutual

theorem Core.lower_resolves : ∀ (x : Core) {b : Builder σ} {ρ : Labelling}, b.Labelled ρ holes →
    List.Forall₂ (Binders.Rel ρ.Has) bodies (scopeLabels around) →
    (x.lower bodies).Resolves around x.uses b ρ (x.MakesNode around holes)
  | .leaf draft h, _, _, hb, _ => leaf_resolves hb draft h
  | .template parts awaits optional, _, _, hb, hbodies => by
    refine (lowerCoreParts_resolves parts hb hbodies).andThen fun ps c ρ' _ hps => ?_
    exact create_resolves hps.1 nofun nofun rfl nofun nofun hps.2
  | .call callee args style, _, _, hb, hbodies => by
    refine (callee.lower_resolves hb hbodies).bind fun e c ρ' hρ he => ?_
    refine (lowerCores_resolves args he.1 (Graph.rel_grow hρ hbodies)).andThen
      fun es d ρ'' hρ' hes => ?_
    refine create_resolves hes.1 nofun nofun rfl nofun ?_ ?_
    · rintro _ _ _ ⟨⟩
      exact ⟨e, es, rfl⟩
    obtain ⟨l, hl, hel⟩ := he.2
    show List.Forall₂ _ (e :: es) ((callee :: args).filterMap (Core.denote around))
    rw [List.filterMap_cons_some hl]
    exact .cons (hρ' e l hel) hes.2
  | .function f, _, _, hb, hbodies => function_resolves hb hbodies f
  | .use name, _, _, hb, hbodies => use_resolves hb hbodies name

theorem lowerCores_resolves : ∀ (xs : List Core) {b : Builder σ} {ρ : Labelling},
    b.Labelled ρ holes → List.Forall₂ (Binders.Rel ρ.Has) bodies (scopeLabels around) →
    (lowerCores bodies xs).Resolves around (coresUses xs) b ρ (MakesNodes around holes xs)
  | [], _, _, hb, _ => .pure ⟨hb, .nil⟩
  | x :: xs, _, _, hb, hbodies => by
    refine (x.lower_resolves hb hbodies).bind fun e c ρ' hρ he => ?_
    refine (lowerCores_resolves xs he.1 (Graph.rel_grow hρ hbodies)).andThen
      fun es d ρ'' hρ' hes => ?_
    obtain ⟨l, hl, hel⟩ := he.2
    refine .pure ⟨hes.1, ?_⟩
    rw [List.filterMap_cons_some hl]
    exact .cons (hρ' e l hel) hes.2

theorem lowerCoreParts_resolves : ∀ (ps : List CorePart) {b : Builder σ} {ρ : Labelling},
    b.Labelled ρ holes → List.Forall₂ (Binders.Rel ρ.Has) bodies (scopeLabels around) →
    (lowerCoreParts bodies ps).Resolves around (partsUses ps) b ρ fun c ρ' qs =>
      MakesNodes around holes (ps.filterMap CorePart.core?) c ρ' (qs.filterMap Part.node?)
  | [], _, _, hb, _ => .pure ⟨hb, .nil⟩
  | p :: ps, _, _, hb, hbodies => by
    refine (p.lower_resolves hb hbodies).bind fun q c ρ' hρ hq => ?_
    refine (lowerCoreParts_resolves ps hq.1 (Graph.rel_grow hρ hbodies)).andThen
      fun qs d ρ'' hρ' hqs => ?_
    refine .pure ⟨hqs.1, ?_⟩
    show List.Forall₂ _ (([q] ++ qs).filterMap Part.node?)
      ((([p] ++ ps).filterMap CorePart.core?).filterMap (Core.denote around))
    rw [List.filterMap_append, List.filterMap_append, List.filterMap_append]
    exact List.rel_append (hq.2.imp hρ') hqs.2

theorem CorePart.lower_resolves : ∀ (p : CorePart) {b : Builder σ} {ρ : Labelling},
    b.Labelled ρ holes → List.Forall₂ (Binders.Rel ρ.Has) bodies (scopeLabels around) →
    (p.lower bodies).Resolves around p.uses b ρ fun c ρ' q =>
      MakesNodes around holes ([p].filterMap CorePart.core?) c ρ' ([q].filterMap Part.node?)
  | .text t, _, _, hb, _ => .pure ⟨hb, .nil⟩
  | .node x, _, _, hb, hbodies => by
    refine (x.lower_resolves hb hbodies).andThen fun e c ρ' _ he => .pure ⟨he.1, ?_⟩
    obtain ⟨l, hl, hel⟩ := he.2
    show List.Forall₂ _ [e] ([x].filterMap (Core.denote around))
    rw [List.filterMap_cons_some hl]
    exact .cons hel .nil

end

/-! ## Bodies -/

theorem makeSlots_resolves (n : Nat) (l : Nat → Label) (i : Nat) (hb : b.Labelled ρ holes) :
    (makeSlots n).Resolves around [] b ρ fun c ρ' slots =>
      c.Labelled ρ' (holes ++ slots) ∧ List.Forall₂ ρ'.Has slots ((List.range' i n).map l) := by
  induction n generalizing b ρ holes i with
  | zero => exact .pure ⟨by rwa [List.append_nil], .nil⟩
  | succ n ih =>
    have hslot : Resolves (ExceptT.lift (Build.create .slot)) around [] b ρ fun c ρ' e =>
        c.Labelled ρ' (holes ++ [e]) ∧ ρ'.Has e (l i) :=
      .lift (fun next => Builder.run_create .slot next b) (.create b .slot)
        (Labelling.grows_add (hb.eq_none (Nat.le_refl _)) _)
        ⟨hb.create_slot (l i), Labelling.has_add ..⟩
    refine hslot.andThen fun e c ρ' _ he => (ih (i + 1) he.1).andThen fun es d ρ'' hρ hes => ?_
    refine .pure ⟨?_, .cons (hρ e _ he.2) hes.2⟩
    rw [List.append_cons]
    exact hes.1

/-- The slots are those of these definitions. -/
def SlotsOf (F : CoreFunction) (outer : List CoreFunction) (ρ : Labelling)
    (slots : List NodeId) (definitions : List CoreDefinition) : Prop :=
  List.Forall₂ (fun slot d => ∃ i, ρ.Has slot (.slot (F :: outer) i) ∧ F.definitions[i]? = some d)
    slots definitions

theorem SlotsOf.grow {F : CoreFunction} {outer : List CoreFunction} {ρ' : Labelling}
    {slots : List NodeId} {definitions : List CoreDefinition}
    (h : SlotsOf F outer ρ slots definitions) (hρ : ρ.Grows ρ') :
    SlotsOf F outer ρ' slots definitions :=
  h.imp fun slot _ ⟨i, hslot, hi⟩ => ⟨i, hρ slot _ hslot, hi⟩

theorem slotsOf_definitions {F : CoreFunction} {outer : List CoreFunction} {slots : List NodeId}
    (h : List.Forall₂ ρ.Has slots (F.slotLabels outer)) : SlotsOf F outer ρ slots F.definitions := by
  rw [CoreFunction.slotLabels, List.forall₂_iff_get] at h
  obtain ⟨hlength, hlabels⟩ := h
  rw [List.length_map, List.length_range] at hlength
  refine List.forall₂_iff_get.2 ⟨hlength, fun i hi hi' => ⟨i, ?_, List.getElem?_eq_getElem hi'⟩⟩
  have hlabel := hlabels i hi (by simpa using hi')
  simpa using hlabel

variable {F : CoreFunction} {outer : List CoreFunction}

/-- Definitions are lowered, and their slots filled, in order. -/
theorem fillCoreDefinitions_resolves : ∀ (definitions : List CoreDefinition) {slots : List NodeId}
    {b : Builder σ} {ρ : Labelling}, b.Labelled ρ slots → SlotsOf F outer ρ slots definitions →
    List.Forall₂ (Binders.Rel ρ.Has) bodies (scopeLabels (F :: outer)) →
    (fillCoreDefinitions bodies slots definitions).Resolves (F :: outer)
      (coresUses (definitions.map CoreDefinition.value)) b ρ fun c ρ' _ => c.Labelled ρ' []
  | [], [], _, _, hb, _, _ => .pure hb
  | .mk name value :: definitions, slot :: slots, b, ρ, hb, hslots, hbodies => by
    cases hslots with
    | cons hslot hslots =>
      obtain ⟨i, hslot, hi⟩ := hslot
      have hfill : ((CoreDefinition.mk name value).fill bodies slot).Resolves (F :: outer)
          value.uses b ρ fun c ρ' _ => c.Labelled ρ' slots := by
        refine (value.lower_resolves hb hbodies).andThen fun e c ρ' hρ he => ?_
        obtain ⟨l, hl, hel⟩ := he.2
        have hleads : (Label.slot (F :: outer) i).leadsTo = [l] := by
          simp [Label.leadsTo, hi, CoreDefinition.value, hl]
        exact Ends.fill (he.1.holes slot List.mem_cons_self)
          ⟨List.forall_mem_nil _, ρ', .refl ρ',
            he.1.fill rfl (hρ slot _ hslot) hel hleads (by simp)⟩
      refine hfill.bind fun _ c ρ' hρ hc => ?_
      exact fillCoreDefinitions_resolves definitions hc (SlotsOf.grow hslots hρ)
        (Graph.rel_grow hρ hbodies)

/-- The names of a body stand for nodes that are made from what they stand for in the program. -/
theorem CoreFunction.binders_rel {me : NodeId} {args slots : List NodeId}
    (hme : F.name = none ∨ ρ.Has me (.code outer (.function F)))
    (hargs : List.Forall₂ ρ.Has args (F.paramLabels outer))
    (hslots : List.Forall₂ ρ.Has slots (F.slotLabels outer)) :
    (F.binders me args slots).Rel ρ.Has (F.labels outer) where
  definitions := zip_paired _ hslots
  params := zip_paired _ hargs
  self := by
    rcases hme with hname | hme
    · simp [binders, labels, hname]
    · exact zip_paired _ (.cons hme .nil)

/-- A body is lowered with all its slots filled. -/
theorem CoreFunction.lower_resolves (hb : b.Labelled ρ [])
    (hbodies : List.Forall₂ (Binders.Rel ρ.Has) bodies (scopeLabels outer)) {me : NodeId}
    {args : List NodeId} (hme : F.name = none ∨ ρ.Has me (.code outer (.function F)))
    (hargs : List.Forall₂ ρ.Has args (F.paramLabels outer)) :
    (F.lower bodies me args).Resolves (F :: outer) F.uses b ρ fun c ρ' body =>
      MakesNodes (F :: outer) [] F.roots c ρ' body.roots := by
  rw [CoreFunction.lower_eq]
  show Resolves _ _ ([] ++ F.uses) b ρ _
  refine (makeSlots_resolves _ (Label.slot (F :: outer)) 0 hb).bind fun slots c ρ' hρ hslots => ?_
  have hlabels : List.Forall₂ ρ'.Has slots (F.slotLabels outer) := by
    rw [CoreFunction.slotLabels, List.range_eq_range']
    exact hslots.2
  have hbody : List.Forall₂ (Binders.Rel ρ'.Has) (F.binders me args slots :: bodies)
      (scopeLabels (F :: outer)) :=
    .cons (binders_rel (hme.imp_right (hρ me _)) (hargs.imp hρ) hlabels)
      (Graph.rel_grow hρ hbodies)
  refine (fillCoreDefinitions_resolves F.definitions hslots.1 (slotsOf_definitions hlabels)
    hbody).bind fun _ d ρ'' hρ' hd => ?_
  refine (lowerCores_resolves F.roots hd (Graph.rel_grow hρ' hbody)).andThen
    fun es d ρ'' _ hes => .pure ?_
  rw [Body.roots_ofRoots]
  exact hes

end ScriptGraph
