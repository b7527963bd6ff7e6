import ScriptGraph.Proofs.Builder.StoreReferences

/-!
# What operations make

* `Draft.nodes` : the nodes that a draft refers to;
* `BuilderState.Makes` : what becomes of a draft;
* `BuilderState.create_old`, `BuilderState.create_new`, `BuilderState.create_answer` : the old nodes
  stay, the new ones are made for the draft, and the last of them is the answer;
* `Builder.node?_function` : the function that is made by an operation;
* `Builder.mem_of_take`, `Builder.exists_take` : the recipe that is taken for a function.
-/

namespace ScriptGraph

variable {σ : Type}

/-! ## Drafts -/

/-- The nodes that a draft refers to. -/
def Draft.nodes : Draft → List NodeId
  | .template parts .. => parts.filterMap Part.node?
  | .call callee args _ => callee :: args
  | _ => []

theorem filterMap_node?_commaSeparated (ps : List Part) :
    (commaSeparated ps).filterMap Part.node? = ps.filterMap Part.node? := by
  induction ps using commaSeparated.induct with
  | case1 => rfl
  | case2 p => rfl
  | case3 p rest hrest ih =>
    rw [commaSeparated, List.filterMap_cons, List.filterMap_cons, List.filterMap_cons, ih]
    · rfl
    · exact hrest

@[simp] theorem filterMap_node?_map (es : List NodeId) :
    (es.map Part.node).filterMap Part.node? = es := by
  rw [List.filterMap_map]
  exact List.filterMap_some

theorem filterMap_node?_arguments (args : List NodeId) :
    (commaSeparated (args.map Part.node) ++ [Part.text ")"]).filterMap Part.node? = args := by
  rw [List.filterMap_append, filterMap_node?_commaSeparated, filterMap_node?_map]
  exact List.append_nil args

namespace BuilderState

variable {s : BuilderState σ} {e : NodeId} {n : Node}

theorem moduleStore_old (h : e < s.graph.size) :
    s.moduleStore.2.graph.node? e = s.graph.node? e := by
  unfold moduleStore
  split
  · rfl
  · exact (s.graph.node?_push .modules e).trans (if_neg (Nat.ne_of_lt h))

theorem resourceStore_old (h : e < s.graph.size) :
    s.resourceStore.2.graph.node? e = s.graph.node? e := by
  unfold resourceStore
  split
  · rfl
  · exact (s.graph.node?_push .resources e).trans (if_neg (Nat.ne_of_lt h))

theorem make_old (s : BuilderState σ) {flags : Flags} {kind : Kind} (h : e < s.graph.size) :
    (s.make flags kind).2.graph.node? e = s.graph.node? e :=
  (s.graph.node?_push _ e).trans (if_neg (Nat.ne_of_lt h))

theorem create_old (draft : Draft) (h : e < s.graph.size) :
    (s.create draft).2.graph.node? e = s.graph.node? e := by
  cases draft with
  | ident name =>
    simp only [create]
    split <;> exact make_old _ h
  | moduleStore => exact moduleStore_old h
  | resourceStore => exact resourceStore_old h
  | module address =>
    exact (make_old _ (Nat.lt_of_lt_of_le h s.moduleStore_extends.size_le)).trans
      (moduleStore_old h)
  | resource key value =>
    exact (make_old _ (Nat.lt_of_lt_of_le h s.resourceStore_extends.size_le)).trans
      (resourceStore_old h)
  | _ => exact make_old _ h

theorem eq_of_node?_push {g : Graph} {m : Node} (h : g.size ≤ e) (hn : (g.push m).node? e = some n) :
    e = g.size ∧ n = m := by
  rw [Graph.node?_push] at hn
  split at hn
  · exact ⟨by assumption, (Option.some.inj hn).symm⟩
  · exact absurd (Graph.lt_size hn) (Nat.not_lt.2 h)

theorem eq_or_parameter_of_node?_pushFunction {g : Graph} {scope : Scope} {arity : Nat}
    (h : g.size ≤ e) (hn : (g.pushFunction scope arity).node? e = some n) :
    (e = g.size ∧ n = ⟨scope, {}, .function arity .pending⟩) ∨ ∃ i, n.kind = .parameter i := by
  rw [Graph.node?_pushFunction, if_neg (Nat.not_lt.2 h)] at hn
  split at hn
  · exact .inl ⟨by assumption, (Option.some.inj hn).symm⟩
  · split at hn
    · exact .inr ⟨_, (congrArg Node.kind (Option.some.inj hn)).symm⟩
    · cases hn

theorem moduleStore_new (h : s.graph.size ≤ e) (hn : s.moduleStore.2.graph.node? e = some n) :
    n = .modules := by
  unfold moduleStore at hn
  split at hn
  · exact absurd (Graph.lt_size hn) (Nat.not_lt.2 h)
  · exact (eq_of_node?_push h hn).2

theorem resourceStore_new (h : s.graph.size ≤ e) (hn : s.resourceStore.2.graph.node? e = some n) :
    n = .resources := by
  unfold resourceStore at hn
  split at hn
  · exact absurd (Graph.lt_size hn) (Nat.not_lt.2 h)
  · exact (eq_of_node?_push h hn).2

/-- What a draft makes: stores, and a node in the current scope that refers to the nodes of the
draft or to a store. -/
structure Makes (s : BuilderState σ) (draft : Draft) (g : Graph) (e : NodeId) (n : Node) :
    Prop where
  kind : ∀ arity state, n.kind ≠ .function arity state
  slot : n.kind = .slot none ↔ draft = .slot
  last : draft = .slot → e = s.graph.size ∧ n.scope = s.scope
  parts : ∀ c ∈ n.template.filterMap Part.node?, n.scope = s.scope ∧
    (c ∈ draft.nodes ∨ ∃ m, g.node? c = some m ∧ m.scope = none ∧ m.kind.isStore = true)
  nodes : draft.nodes ⊆ n.template.filterMap Part.node?

variable {draft : Draft} {g : Graph}

section NotSlot

variable (hdraft : draft ≠ .slot) (hkind : ∀ arity state, n.kind ≠ .function arity state)
  (hslot : n.kind ≠ .slot none)

include hdraft hkind hslot

theorem Makes.of_not_slot (hparts : ∀ c ∈ n.template.filterMap Part.node?, n.scope = s.scope ∧
      (c ∈ draft.nodes ∨ ∃ m, g.node? c = some m ∧ m.scope = none ∧ m.kind.isStore = true))
    (hnodes : draft.nodes ⊆ n.template.filterMap Part.node?) : s.Makes draft g e n where
  kind := hkind
  slot := ⟨fun h => absurd h hslot, fun h => absurd h hdraft⟩
  last h := absurd h hdraft
  parts := hparts
  nodes := hnodes

theorem Makes.of_leaf (hnodes : draft.nodes = [])
    (hparts : n.template.filterMap Part.node? = []) : s.Makes draft g e n :=
  .of_not_slot hdraft hkind hslot (fun _ hc => absurd (hparts ▸ hc) List.not_mem_nil)
    (hnodes ▸ List.nil_subset _)

theorem Makes.of_parts (hscope : n.scope = s.scope)
    (hparts : n.template.filterMap Part.node? = draft.nodes) : s.Makes draft g e n :=
  .of_not_slot hdraft hkind hslot (fun _ hc => ⟨hscope, .inl (hparts ▸ hc)⟩)
    (hparts ▸ List.Subset.refl _)

theorem Makes.of_store {store : NodeId} {m : Node} (hscope : n.scope = s.scope)
    (hnodes : draft.nodes = []) (hparts : n.template.filterMap Part.node? = [store])
    (hstore : g.node? store = some m) (hm : m.scope = none) (hstored : m.kind.isStore = true) :
    s.Makes draft g e n :=
  .of_not_slot hdraft hkind hslot
    (fun c hc => by
      rw [hparts, List.mem_singleton] at hc
      exact ⟨hscope, .inr ⟨m, hc ▸ hstore, hm, hstored⟩⟩)
    (hnodes ▸ List.nil_subset _)

end NotSlot

theorem create_new (hs : s.graph.Linked) (draft : Draft) (h : s.graph.size ≤ e)
    (hn : (s.create draft).2.graph.node? e = some n) :
    s.Makes draft (s.create draft).2.graph e n := by
  cases draft with
  | raw code =>
    obtain ⟨_, rfl⟩ := eq_of_node?_push h hn
    refine .of_leaf ?_ ?_ ?_ rfl rfl <;> simp
  | literal code =>
    obtain ⟨_, rfl⟩ := eq_of_node?_push h hn
    refine .of_leaf ?_ ?_ ?_ rfl rfl <;> simp
  | ident name =>
    simp only [create] at hn
    split at hn <;> obtain ⟨_, rfl⟩ := eq_of_node?_push h hn <;>
      (refine .of_leaf ?_ ?_ ?_ rfl rfl <;> simp)
  | template parts awaits inert optional =>
    obtain ⟨_, rfl⟩ := eq_of_node?_push h hn
    refine .of_parts ?_ ?_ ?_ rfl rfl <;> simp
  | call callee args style =>
    obtain ⟨_, rfl⟩ := eq_of_node?_push h hn
    refine .of_parts (by simp) (by simp) (by simp) rfl ?_
    exact congrArg (callee :: ·) (filterMap_node?_arguments args)
  | moduleStore =>
    rw [moduleStore_new h hn]
    refine .of_leaf ?_ ?_ ?_ rfl rfl <;> simp [Node.modules]
  | resourceStore =>
    rw [resourceStore_new h hn]
    refine .of_leaf ?_ ?_ ?_ rfl rfl <;> simp [Node.resources]
  | module address =>
    by_cases hlt : e < s.moduleStore.2.graph.size
    · rw [moduleStore_new h ((make_old _ hlt).symm.trans hn)]
      refine .of_leaf ?_ ?_ ?_ rfl rfl <;> simp [Node.modules]
    · obtain ⟨_, rfl⟩ := eq_of_node?_push (Nat.not_lt.1 hlt) hn
      refine .of_store (by simp) (by simp) (by simp) ?_ rfl rfl
        (Graph.node?_push_of_node (moduleStore_linked hs).2 _) rfl rfl
      exact congrArg List.head? s.moduleStore_scopes
  | resource key value =>
    by_cases hlt : e < s.resourceStore.2.graph.size
    · rw [resourceStore_new h ((make_old _ hlt).symm.trans hn)]
      refine .of_leaf ?_ ?_ ?_ rfl rfl <;> simp [Node.resources]
    · obtain ⟨_, rfl⟩ := eq_of_node?_push (Nat.not_lt.1 hlt) hn
      refine .of_store (by simp) (by simp) (by simp) ?_ rfl rfl
        (Graph.node?_push_of_node (resourceStore_linked hs).2 _) rfl rfl
      exact congrArg List.head? s.resourceStore_scopes
  | placeholder =>
    obtain ⟨_, rfl⟩ := eq_of_node?_push h hn
    refine .of_leaf ?_ ?_ ?_ rfl rfl <;> simp
  | slot =>
    obtain ⟨he, rfl⟩ := eq_of_node?_push h hn
    exact ⟨by simp, ⟨fun _ => rfl, fun _ => rfl⟩, fun _ => ⟨he, rfl⟩, List.forall_mem_nil _,
      List.nil_subset _⟩

/-- What is made for a draft belongs to the current scope or to the top level. -/
theorem create_answer (hs : s.graph.Linked) (draft : Draft) :
    ∃ n, (s.create draft).2.graph.node? (s.create draft).1 = some n ∧
      (n.scope = none ∨ n.scope = s.scope) := by
  have make : ∀ (t : BuilderState σ) flags kind, t.scope = s.scope →
      ∃ n, (t.make flags kind).2.graph.node? (t.make flags kind).1 = some n ∧
        (n.scope = none ∨ n.scope = s.scope) := fun t flags kind ht =>
    ⟨⟨t.scope, flags, kind⟩, (t.graph.node?_push _ _).trans (if_pos rfl), .inr ht⟩
  cases draft with
  | ident name =>
    simp only [create]
    split <;> exact make _ _ _ rfl
  | moduleStore => exact ⟨_, (moduleStore_linked hs).2, .inl rfl⟩
  | resourceStore => exact ⟨_, (resourceStore_linked hs).2, .inl rfl⟩
  | module address => exact make _ _ _ (congrArg List.head? s.moduleStore_scopes)
  | resource key value => exact make _ _ _ (congrArg List.head? s.resourceStore_scopes)
  | _ => exact make _ _ _ rfl

/-- What is made for a draft is new, unless a store was asked for. -/
theorem create_fresh {draft : Draft} (hmodules : draft ≠ .moduleStore)
    (hresources : draft ≠ .resourceStore) : s.graph.size ≤ (s.create draft).1 := by
  cases draft with
  | ident name =>
    simp only [create]
    split <;> exact Nat.le_refl _
  | moduleStore => exact absurd rfl hmodules
  | resourceStore => exact absurd rfl hresources
  | module address => exact s.moduleStore_extends.size_le
  | resource key value => exact s.resourceStore_extends.size_le
  | _ => exact Nat.le_refl _

end BuilderState

namespace Builder

/-! ## Operations -/

theorem Reached.perform {b : Builder σ} (h : b.Reached) (op : Operation σ) :
    (b.perform op).Reached := by
  obtain ⟨shared, ops, rfl⟩ := h
  exact ⟨shared, ops ++ [op], by simp [performAll]⟩

theorem Reached.enter {b c : Builder σ} {f : NodeId} {recipe : Recipe σ} (h : b.Reached)
    (hreq : b.request f = .construct recipe c) : c.Reached :=
  perform_enter hreq ▸ h.perform (.enter f)

theorem Reached.leave {b : Builder σ} {f : NodeId} {rest : List NodeId} (h : b.Reached)
    (hscopes : b.state.scopes = f :: rest) (outcome : Except Fault Body) :
    (b.leave f outcome).Reached :=
  perform_leave hscopes outcome ▸ h.perform (.leave outcome)

theorem Leads.create (b : Builder σ) (draft : Draft) : b.Leads (b.perform (.create draft)) :=
  .single _ (b.state.create_scopes draft)

theorem Leads.function (b : Builder σ) (arity : Nat) (body : NodeId → List NodeId → Recipe σ) :
    b.Leads (b.perform (.function arity body)) :=
  .single _ rfl

theorem Leads.fill (b : Builder σ) (slot target : NodeId) :
    b.Leads (b.perform (.fill slot target)) :=
  .single _ (b.state.fill_scopes slot target)

theorem node?_function (b : Builder σ) (arity : Nat) (body : NodeId → List NodeId → Recipe σ) :
    (b.perform (.function arity body)).state.graph.node? b.state.graph.size =
      some ⟨b.state.scope, {}, .function arity .pending⟩ := by
  show (b.state.graph.pushFunction b.state.scope arity).node? _ = _
  rw [Graph.node?_pushFunction, if_neg (Nat.lt_irrefl _), if_pos rfl]

/-! ## Pending recipes -/

theorem mem_of_take {f : NodeId} {l l' : List (NodeId × Recipe σ)} {r : Recipe σ}
    (h : take f l = some (r, l')) :
    (f, r) ∈ l ∧ l' ⊆ l ∧ ∀ p ∈ l, p.1 ≠ f → p ∈ l' := by
  induction l generalizing l' with
  | nil => cases h
  | cons x l ih =>
    obtain ⟨e, s⟩ := x
    rw [take] at h
    split at h
    · rename_i he
      cases h
      refine ⟨he ▸ List.mem_cons_self, List.subset_cons_self _ _, fun p hp hne => ?_⟩
      exact (List.mem_cons.1 hp).resolve_left fun heq => hne (heq ▸ he)
    · obtain ⟨⟨t, m⟩, ht, heq⟩ := Option.map_eq_some_iff.1 h
      cases heq
      obtain ⟨hmem, hsub, hrest⟩ := ih ht
      refine ⟨List.mem_cons_of_mem _ hmem, List.cons_subset_cons _ hsub, fun p hp hne => ?_⟩
      rcases List.mem_cons.1 hp with rfl | hp
      · exact List.mem_cons_self
      · exact List.mem_cons_of_mem _ (hrest p hp hne)

theorem exists_take {f : NodeId} {l : List (NodeId × Recipe σ)} {r : Recipe σ} (h : (f, r) ∈ l) :
    ∃ r' l', take f l = some (r', l') := by
  induction l with
  | nil => cases h
  | cons x l ih =>
    obtain ⟨e, s⟩ := x
    rw [take]
    split
    · exact ⟨_, _, rfl⟩
    · rename_i he
      obtain ⟨r', l', hl⟩ := ih ((List.mem_cons.1 h).resolve_left fun heq => he (by cases heq; rfl))
      exact ⟨r', _, by rw [hl]; rfl⟩

end Builder

end ScriptGraph
