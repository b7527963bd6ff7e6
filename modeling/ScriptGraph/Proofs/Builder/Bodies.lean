import ScriptGraph.Proofs.Builder.Creation

/-!
# Where bodies come from

* `Builder.Keeps` : what there is to a function whose body has come so far;
* `Builder.Supplied` : a builder that has this for all its functions, and no failed bodies;
* `Builder.Supplied.grow`, `Builder.Supplied.enter`, `Builder.Supplied.leave` : operations keep it so;
* `Builder.Supplied.request` : between constructions, a body that is asked for is there or can be
  constructed.
-/

namespace ScriptGraph.Builder

variable {σ : Type} {b c : Builder σ} {f : NodeId}

/-- What there is to a function whose body has come so far. -/
def Keeps (b : Builder σ) (f : NodeId) : BodyState → Prop
  | .pending => ∃ r, (f, r) ∈ b.pending
  | .building => f ∈ b.state.scopes
  | .ready _ => True
  | .failed _ => False

theorem Keeps.imp {state : BodyState} (h : b.Keeps f state)
    (hpending : ∀ r, (f, r) ∈ b.pending → (f, r) ∈ c.pending)
    (hscopes : f ∈ b.state.scopes → f ∈ c.state.scopes) : c.Keeps f state := by
  cases state with
  | pending =>
    obtain ⟨r, hr⟩ := h
    exact ⟨r, hpending r hr⟩
  | building => exact hscopes h
  | ready body => trivial
  | failed fault => exact h

/-- All functions have bodies, or recipes for them. -/
def Supplied (b : Builder σ) : Prop :=
  ∀ f arity state, b.state.graph.kindOf? f = some (.function arity state) → b.Keeps f state

namespace Supplied

theorem grow (h : b.Supplied) (hpending : b.pending ⊆ c.pending)
    (hscopes : c.state.scopes = b.state.scopes)
    (hfunctions : ∀ f arity state, c.state.graph.kindOf? f = some (.function arity state) →
      b.state.graph.kindOf? f = some (.function arity state) ∨ c.Keeps f state) : c.Supplied := by
  intro f arity state hk
  rcases hfunctions f arity state hk with hold | hnew
  · exact (h f arity state hold).imp (fun r hr => hpending hr) fun hf => hscopes ▸ hf
  · exact hnew

theorem advance (h : b.Supplied) {arity : Nat} {state state' : BodyState}
    (hk : b.state.graph.kindOf? f = some (.function arity state))
    (hgraph : c.state.graph = b.state.graph.setBodyState f state') (hself : c.Keeps f state')
    (hothers : ∀ x state, x ≠ f → b.Keeps x state → c.Keeps x state) : c.Supplied := by
  intro x arity' s hx
  rw [hgraph, Graph.setBodyState_eq hk] at hx
  by_cases he : x = f
  · subst he
    rw [Graph.kindOf?_setKind_self hk] at hx
    cases hx
    exact hself
  · rw [Graph.kindOf?_setKind_of_ne he] at hx
    exact hothers x s he (h x arity' s hx)

theorem enter (h : b.Supplied) {recipe : Recipe σ} (hreq : b.request f = .construct recipe c) :
    c.Supplied := by
  unfold Builder.request at hreq
  split at hreq <;> try cases hreq
  rename_i arity hk
  split at hreq <;> cases hreq
  rename_i rest htake
  obtain ⟨_, _, hrest⟩ := mem_of_take htake
  refine h.advance hk rfl List.mem_cons_self fun x state hx hkeeps => ?_
  exact hkeeps.imp (fun r hr => hrest _ hr hx) (List.mem_cons_of_mem _)

theorem leave (h : b.Supplied) (hb : b.state.Sound) {rest : List NodeId}
    (hscopes : b.state.scopes = f :: rest) (body : Body) : (b.leave f (.ok body)).Supplied := by
  obtain ⟨arity, hk⟩ := hb.building f (hscopes ▸ List.mem_cons_self)
  have htail : (b.leave f (.ok body)).state.scopes = rest := by
    show b.state.scopes.tail = rest
    rw [hscopes]
    rfl
  refine h.advance hk rfl trivial fun x state hx hkeeps => hkeeps.imp (fun _ => id) fun hmem => ?_
  rw [htail]
  exact (List.mem_cons.1 (hscopes ▸ hmem)).resolve_left hx

theorem request (h : b.Supplied) (hscopes : b.state.scopes = [])
    (hf : b.state.graph.isFunction f = true) :
    (∃ body, b.state.graph.body? f = some body ∧ b.request f = .answer (.ok body)) ∨
      ∃ recipe c, b.request f = .construct recipe c := by
  obtain ⟨arity, state, hk⟩ := Graph.isFunction_iff.1 hf
  have hkeeps := h f arity state hk
  cases state with
  | pending =>
    obtain ⟨r, hr⟩ := hkeeps
    obtain ⟨r', rest, hrest⟩ := exists_take hr
    exact .inr ⟨r', _, by rw [Builder.request, hk]; simp only [hrest]; rfl⟩
  | building =>
    rw [Keeps, hscopes] at hkeeps
    cases hkeeps
  | ready body =>
    exact .inl ⟨body, Graph.body?_eq_some.2 ⟨arity, hk⟩, by rw [Builder.request, hk]⟩
  | failed fault => exact hkeeps.elim

end Supplied

end ScriptGraph.Builder
