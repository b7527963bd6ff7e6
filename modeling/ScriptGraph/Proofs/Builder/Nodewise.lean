import ScriptGraph.Proofs.Builder.StoreReferences

/-!
# Properties of single nodes

Operations make nodes from drafts, make functions and their parameters, fill slots, and change the
states of bodies. So a property of single nodes that every function and every parameter has, and that
a slot keeps when it is filled, is lost by no operation unless a draft is made without it.

* `Graph.Each` : every node of a graph has a property at its place;
* `Lasting` : a property that can only be missing from what is made for a draft;
* `Graph.Each.perform` : operations keep it.
-/

namespace ScriptGraph

variable {σ : Type} {P : NodeId → Node → Prop}

/-- Every node has the property at its place. -/
def Graph.Each (P : NodeId → Node → Prop) (g : Graph) : Prop := ∀ e n, g.node? e = some n → P e n

/-- Every function and every parameter has the property, and a filled slot has it if it had it when it
was empty. -/
structure Lasting (P : NodeId → Node → Prop) : Prop where
  function : ∀ e scope flags arity state, P e ⟨scope, flags, .function arity state⟩
  parameter : ∀ e scope flags i, P e ⟨scope, flags, .parameter i⟩
  fill : ∀ e scope flags target,
    P e ⟨scope, flags, .slot none⟩ → P e ⟨scope, flags, .slot (some target)⟩

namespace Graph

variable {g : Graph} {e : NodeId}

theorem each_empty : ({} : Graph).Each P := fun e n hn => by simp [node?] at hn

theorem Each.push (h : g.Each P) {n : Node} (hn : P g.size n) : (g.push n).Each P := by
  intro x m hm
  rw [node?_push] at hm
  split at hm
  · rename_i hx
    cases hm
    exact hx ▸ hn
  · exact h x m hm

theorem Each.pushFunction (hP : Lasting P) (h : g.Each P) (scope : Scope) (arity : Nat) :
    (g.pushFunction scope arity).Each P := by
  intro x m hm
  rw [node?_pushFunction] at hm
  split at hm
  · exact h x m hm
  · split at hm
    · cases hm
      exact hP.function ..
    · split at hm
      · cases hm
        exact hP.parameter ..
      · cases hm

theorem Each.setKind (h : g.Each P) {k : Kind}
    (hk : ∀ n, g.node? e = some n → P e { n with kind := k }) : (g.setKind e k).Each P := by
  intro x m hm
  rw [node?_setKind] at hm
  split at hm
  · rename_i hx
    obtain ⟨n, hn, rfl⟩ := Option.map_eq_some_iff.1 hm
    subst hx
    exact hk n hn
  · exact h x m hm

theorem Each.setBodyState (hP : Lasting P) (h : g.Each P) (f : NodeId) (state : BodyState) :
    (g.setBodyState f state).Each P := by
  unfold Graph.setBodyState
  split
  · exact h.setKind fun _ _ => hP.function ..
  · exact h

variable {s : BuilderState σ}

theorem Each.make (h : s.graph.Each P) {flags : Flags} {kind : Kind}
    (hn : P s.graph.size ⟨s.scope, flags, kind⟩) : (s.make flags kind).2.graph.Each P := h.push hn

theorem Each.moduleStore (h : s.graph.Each P) (hn : P s.graph.size .modules) :
    s.moduleStore.2.graph.Each P := by
  unfold BuilderState.moduleStore
  split
  · exact h
  · exact h.push hn

theorem Each.resourceStore (h : s.graph.Each P) (hn : P s.graph.size .resources) :
    s.resourceStore.2.graph.Each P := by
  unfold BuilderState.resourceStore
  split
  · exact h
  · exact h.push hn

theorem Each.fill (hP : Lasting P) (h : s.graph.Each P) (slot target : NodeId) :
    (s.fill slot target).2.graph.Each P := by
  unfold BuilderState.fill
  split
  · rename_i hk
    refine h.setKind fun n hn => ?_
    obtain ⟨scope, flags, kind⟩ := n
    rw [kindOf?_of_node hn] at hk
    cases hk
    exact hP.fill _ _ _ _ (h _ _ hn)
  · exact h
  · exact h

/-- Operations keep the property, if making a node from a draft does. -/
theorem Each.perform {b : Builder σ} (hP : Lasting P) (h : b.state.graph.Each P) {op : Operation σ}
    (hcreate : ∀ draft, op = .create draft → (b.state.create draft).2.graph.Each P) :
    (b.perform op).state.graph.Each P := by
  cases op with
  | create draft => exact hcreate draft rfl
  | function arity body => exact h.pushFunction hP _ _
  | fill slot target => exact h.fill hP slot target
  | share update => exact h
  | memoize i e => exact h
  | warn ws => exact h
  | enter f =>
    simp only [Builder.perform]
    split
    · rename_i hreq
      rw [(Builder.request_construct hreq).2]
      exact h.setBodyState hP _ _
    · exact h
  | leave outcome =>
    simp only [Builder.perform]
    split
    · exact h.setBodyState hP _ _
    · exact h

end Graph

end ScriptGraph
