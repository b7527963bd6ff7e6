import ScriptGraph.Proofs.Builder.Soundness

/-!
# References to stores

* `Node.modules`, `Node.resources` : the two store nodes;
* `Graph.Linked` : a graph knows its store nodes, and each reference to a store names the right one;
* `Builder.perform_linked` : operations keep this;
* `Builder.Reached.linked` : so it holds of every builder.
-/

namespace ScriptGraph

/-- The node that stands for all modules. -/
def Node.modules : Node := ⟨none, { pinned := true, awaits := true }, .moduleStore⟩

/-- The node that stands for all resources. -/
def Node.resources : Node := ⟨none, { pinned := true }, .resourceStore⟩

/-- The store that a reference names, and what this must be. -/
def Kind.store? : Kind → Option (NodeId × Node)
  | .moduleRef store _ => some (store, .modules)
  | .resourceRef store _ _ => some (store, .resources)
  | _ => none

def Kind.isStore : Kind → Bool
  | .moduleStore => true
  | .resourceStore => true
  | _ => false

namespace Graph

/-- The stores are what they are known as, and what they are referred to as. -/
structure Linked (g : Graph) : Prop where
  modules : ∀ s, g.moduleStore = some s → g.node? s = some .modules
  resources : ∀ s, g.resourceStore = some s → g.node? s = some .resources
  reference : ∀ e k s n, g.kindOf? e = some k → k.store? = some (s, n) → g.node? s = some n

variable {g g' : Graph} {e s : NodeId} {k : Kind} {n : Node}

theorem linked_empty : ({} : Graph).Linked where
  modules _ h := nomatch h
  resources _ h := nomatch h
  reference e k s n h _ := by simp [kindOf?, node?] at h

theorem node?_push_of_node (h : g.node? s = some n) (m : Node) :
    (g.push m).node? s = some n := by
  rw [node?_push, if_neg (Nat.ne_of_lt (lt_size h)), h]

theorem Linked.push (h : g.Linked)
    (hn : ∀ s m, n.kind.store? = some (s, m) → g.node? s = some m) : (g.push n).Linked where
  modules s hs := node?_push_of_node (h.modules s hs) n
  resources s hs := node?_push_of_node (h.resources s hs) n
  reference e k s m hk hs := by
    obtain ⟨n', hn', rfl⟩ := kindOf?_eq_some.1 hk
    rw [node?_push] at hn'
    split at hn'
    · cases hn'
      exact node?_push_of_node (hn s m hs) n
    · exact node?_push_of_node
        (h.reference e n'.kind s m (kindOf?_eq_some.2 ⟨n', hn', rfl⟩) hs) n

theorem Linked.pushFunction (h : g.Linked) (scope : Scope) (arity : Nat) :
    (g.pushFunction scope arity).Linked := by
  have hold : ∀ {s n}, g.node? s = some n → (g.pushFunction scope arity).node? s = some n :=
    fun hs => by rw [node?_pushFunction, if_pos (lt_size hs), hs]
  refine ⟨fun s hs => hold (h.modules s hs), fun s hs => hold (h.resources s hs), ?_⟩
  intro e k s m hk hs
  obtain ⟨n, hn, rfl⟩ := kindOf?_eq_some.1 hk
  rw [node?_pushFunction] at hn
  split at hn
  · exact hold (h.reference e n.kind s m (kindOf?_eq_some.2 ⟨n, hn, rfl⟩) hs)
  · split at hn
    · cases hn
      cases hs
    · split at hn
      · cases hn
        cases hs
      · cases hn

theorem Linked.setKind (h : g.Linked) (hk : g.kindOf? e = some k) (hstore : k.isStore = false)
    {k' : Kind} (hplain : k'.store? = none) : (g.setKind e k').Linked := by
  have hold : ∀ {s n}, n.kind.isStore = true → g.node? s = some n →
      (g.setKind e k').node? s = some n := fun {s n} hkind hs => by
    rw [node?_setKind, if_neg, hs]
    rintro rfl
    rw [kindOf?_of_node hs] at hk
    cases hk
    rw [hkind] at hstore
    cases hstore
  refine ⟨fun s hs => hold rfl (h.modules s hs), fun s hs => hold rfl (h.resources s hs), ?_⟩
  intro x k s m hx hs
  by_cases heq : x = e
  · subst heq
    rw [kindOf?_setKind_self hk] at hx
    cases hx
    rw [hplain] at hs
    cases hs
  · rw [kindOf?_setKind_of_ne heq] at hx
    refine hold ?_ (h.reference x k s m hx hs)
    unfold Kind.store? at hs
    split at hs <;> cases hs <;> rfl

theorem Linked.setBodyState (h : g.Linked) (f : NodeId) (state : BodyState) :
    (g.setBodyState f state).Linked := by
  unfold Graph.setBodyState
  split
  · rename_i hk
    exact h.setKind hk rfl rfl
  · exact h

end Graph

/-! ## Operations -/

namespace BuilderState

variable {σ : Type} {s : BuilderState σ}

theorem moduleStore_linked (h : s.graph.Linked) : s.moduleStore.2.graph.Linked ∧
    s.moduleStore.2.graph.node? s.moduleStore.1 = some .modules := by
  unfold moduleStore
  split
  · rename_i e he
    exact ⟨h, h.modules e he⟩
  · have hpush : (s.graph.push .modules).Linked := h.push fun _ _ hs => nomatch hs
    have hnode : (s.graph.push .modules).node? s.graph.size = some .modules := by
      rw [Graph.node?_push, if_pos rfl]
    exact ⟨⟨fun e he => Option.some.inj he ▸ hnode, hpush.resources, hpush.reference⟩, hnode⟩

theorem resourceStore_linked (h : s.graph.Linked) : s.resourceStore.2.graph.Linked ∧
    s.resourceStore.2.graph.node? s.resourceStore.1 = some .resources := by
  unfold resourceStore
  split
  · rename_i e he
    exact ⟨h, h.resources e he⟩
  · have hpush : (s.graph.push .resources).Linked := h.push fun _ _ hs => nomatch hs
    have hnode : (s.graph.push .resources).node? s.graph.size = some .resources := by
      rw [Graph.node?_push, if_pos rfl]
    exact ⟨⟨hpush.modules, fun e he => Option.some.inj he ▸ hnode, hpush.reference⟩, hnode⟩

theorem create_linked (h : s.graph.Linked) (draft : Draft) :
    (s.create draft).2.graph.Linked := by
  have plain : ∀ {t : BuilderState σ} {flags kind}, t.graph.Linked → kind.store? = none →
      (t.make flags kind).2.graph.Linked := fun ht hplain =>
    ht.push fun s m hs => by
      rw [show _ = none from hplain] at hs
      cases hs
  cases draft with
  | ident name =>
    simp only [create]
    split
    · exact plain h rfl
    · exact plain (t := s.warn _) h rfl
  | moduleStore => exact (moduleStore_linked h).1
  | resourceStore => exact (resourceStore_linked h).1
  | module address =>
    obtain ⟨hlinked, hnode⟩ := moduleStore_linked h
    exact hlinked.push fun _ _ hs => by
      cases hs
      exact hnode
  | resource key value =>
    obtain ⟨hlinked, hnode⟩ := resourceStore_linked h
    exact hlinked.push fun _ _ hs => by
      cases hs
      exact hnode
  | _ => exact plain h rfl

theorem fill_linked (h : s.graph.Linked) (slot target : NodeId) :
    (s.fill slot target).2.graph.Linked := by
  unfold fill
  split
  · rename_i hk
    exact h.setKind hk rfl rfl
  · exact h
  · exact h

end BuilderState

namespace Builder

variable {σ : Type} {b : Builder σ}

theorem perform_linked (h : b.state.graph.Linked) (op : Operation σ) :
    (b.perform op).state.graph.Linked := by
  cases op with
  | create draft => exact BuilderState.create_linked h draft
  | function arity body => exact h.pushFunction _ _
  | fill slot target => exact BuilderState.fill_linked h slot target
  | share update => exact h
  | memoize i e => exact h
  | warn ws => exact h
  | enter f =>
    simp only [perform]
    split
    · rename_i hreq
      rw [(request_construct hreq).2]
      exact h.setBodyState _ _
    · exact h
  | leave outcome =>
    simp only [perform]
    split
    · exact h.setBodyState _ _
    · exact h

/-- The stores of every builder are what they are referred to as. -/
theorem Reached.linked (h : b.Reached) : b.state.graph.Linked := by
  obtain ⟨shared, ops, rfl⟩ := h
  induction ops using List.reverseRecOn with
  | nil => exact Graph.linked_empty
  | append_singleton ops op ih =>
    rw [performAll, List.foldl_append]
    exact perform_linked ih op

end Builder

end ScriptGraph
