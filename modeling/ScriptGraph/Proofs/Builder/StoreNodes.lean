import ScriptGraph.Proofs.Builder.StoreReferences

/-!
# Every store has one node

* `Graph.Stocked` : a node that stands for a store is the one that the graph knows as the store;
* `Builder.perform_stocked` : operations keep this;
* `Builder.Reached.stocked` : so it holds of every builder.
-/

namespace ScriptGraph

namespace Graph

/-- A node that stands for a store is the one that is known as the store. -/
structure Stocked (g : Graph) : Prop where
  modules : ∀ e, g.kindOf? e = some .moduleStore → g.moduleStore = some e
  resources : ∀ e, g.kindOf? e = some .resourceStore → g.resourceStore = some e

variable {g g' : Graph} {e : NodeId}

theorem stocked_empty : ({} : Graph).Stocked where
  modules e h := by simp [kindOf?, node?] at h
  resources e h := by simp [kindOf?, node?] at h

theorem Stocked.of_kinds (h : g.Stocked) (hmodules : g'.moduleStore = g.moduleStore)
    (hresources : g'.resourceStore = g.resourceStore)
    (hk : ∀ e k, k.isStore = true → g'.kindOf? e = some k → g.kindOf? e = some k) : g'.Stocked where
  modules e he := hmodules ▸ h.modules e (hk e _ rfl he)
  resources e he := hresources ▸ h.resources e (hk e _ rfl he)

theorem kindOf?_push {n : Node} {k : Kind} (h : (g.push n).kindOf? e = some k) :
    g.kindOf? e = some k ∨ e = g.size ∧ k = n.kind := by
  obtain ⟨m, hm, rfl⟩ := kindOf?_eq_some.1 h
  rw [node?_push] at hm
  split at hm
  · rename_i he
    cases hm
    exact .inr ⟨he, rfl⟩
  · exact .inl (kindOf?_of_node hm)

theorem Stocked.push (h : g.Stocked) {n : Node} (hn : n.kind.isStore = false) :
    (g.push n).Stocked := by
  refine h.of_kinds rfl rfl fun e k hk he => ?_
  rcases kindOf?_push he with hold | ⟨-, rfl⟩
  · exact hold
  · rw [hn] at hk
    cases hk

theorem Stocked.pushFunction (h : g.Stocked) (scope : Scope) (arity : Nat) :
    (g.pushFunction scope arity).Stocked := by
  refine h.of_kinds rfl rfl fun e k hk he => ?_
  obtain ⟨n, hn, rfl⟩ := kindOf?_eq_some.1 he
  rw [node?_pushFunction] at hn
  split at hn
  · exact kindOf?_of_node hn
  · split at hn
    · cases hn
      cases hk
    · split at hn
      · cases hn
        cases hk
      · cases hn

theorem Stocked.setKind (h : g.Stocked) {k : Kind} (hk : k.isStore = false) (x : NodeId) :
    (g.setKind x k).Stocked := by
  refine h.of_kinds rfl rfl fun e k' hk' he => ?_
  obtain ⟨n, hn, rfl⟩ := kindOf?_eq_some.1 he
  rw [node?_setKind] at hn
  split at hn
  · obtain ⟨m, _, rfl⟩ := Option.map_eq_some_iff.1 hn
    rw [hk] at hk'
    cases hk'
  · exact kindOf?_of_node hn

theorem Stocked.setBodyState (h : g.Stocked) (f : NodeId) (state : BodyState) :
    (g.setBodyState f state).Stocked := by
  unfold Graph.setBodyState
  split
  · exact h.setKind rfl f
  · exact h

end Graph

namespace BuilderState

variable {σ : Type} {s : BuilderState σ}

theorem moduleStore_stocked (h : s.graph.Stocked) : s.moduleStore.2.graph.Stocked := by
  unfold moduleStore
  split
  · exact h
  · rename_i hnone
    refine ⟨fun e he => ?_, fun e he => ?_⟩
    · rcases Graph.kindOf?_push (n := .modules) he with hold | ⟨rfl, -⟩
      · rw [h.modules e hold] at hnone
        cases hnone
      · rfl
    · rcases Graph.kindOf?_push (n := .modules) he with hold | ⟨-, heq⟩
      · exact h.resources e hold
      · cases heq

theorem resourceStore_stocked (h : s.graph.Stocked) : s.resourceStore.2.graph.Stocked := by
  unfold resourceStore
  split
  · exact h
  · rename_i hnone
    refine ⟨fun e he => ?_, fun e he => ?_⟩
    · rcases Graph.kindOf?_push (n := .resources) he with hold | ⟨-, heq⟩
      · exact h.modules e hold
      · cases heq
    · rcases Graph.kindOf?_push (n := .resources) he with hold | ⟨rfl, -⟩
      · rw [h.resources e hold] at hnone
        cases hnone
      · rfl

theorem create_stocked (h : s.graph.Stocked) (draft : Draft) :
    (s.create draft).2.graph.Stocked := by
  cases draft with
  | ident name =>
    simp only [create]
    split
    · exact h.push rfl
    · exact h.push rfl
  | moduleStore => exact moduleStore_stocked h
  | resourceStore => exact resourceStore_stocked h
  | module address => exact (moduleStore_stocked h).push rfl
  | resource key value => exact (resourceStore_stocked h).push rfl
  | _ => exact h.push rfl

theorem fill_stocked (h : s.graph.Stocked) (slot target : NodeId) :
    (s.fill slot target).2.graph.Stocked := by
  unfold fill
  split
  · exact h.setKind rfl slot
  · exact h
  · exact h

end BuilderState

namespace Builder

variable {σ : Type} {b : Builder σ}

theorem perform_stocked (h : b.state.graph.Stocked) (op : Operation σ) :
    (b.perform op).state.graph.Stocked := by
  cases op with
  | create draft => exact BuilderState.create_stocked h draft
  | function arity body => exact h.pushFunction _ _
  | fill slot target => exact BuilderState.fill_stocked h slot target
  | share update => exact h
  | memoize i e => exact h
  | warn ws => exact h
  | enter f =>
    simp only [perform]
    split
    · rename_i hreq
      rw [(request_construct hreq).2]
      exact h.setBodyState _ _
    · exact h
  | leave outcome =>
    simp only [perform]
    split
    · exact h.setBodyState _ _
    · exact h

/-- Every builder has one node for each store. -/
theorem Reached.stocked (h : b.Reached) : b.state.graph.Stocked := by
  obtain ⟨shared, ops, rfl⟩ := h
  induction ops using List.reverseRecOn with
  | nil => exact Graph.stocked_empty
  | append_singleton ops op ih =>
    rw [performAll, List.foldl_append]
    exact perform_stocked ih op

end Builder

end ScriptGraph
