import ScriptGraph.Proofs.Builder.Creation
import ScriptGraph.Proofs.Builder.Nodewise
import ScriptGraph.Proofs.Graph.Acyclic

/-!
# Builders whose handles are their own

A handle that a builder has given out names a node that exists. Where operations are given such
handles only, nodes refer to older nodes; only a slot may be made to refer to a younger one.

* `Operation.handles` : the nodes that an operation is given;
* `Builder.OwnHandles` : operations on existing nodes lead to the builder;
* `Graph.Descends` : nodes other than slots refer to older nodes;
* `Builder.OwnHandles.descends` : this holds where handles are the builder's own;
* `Graph.Descends.not_transGen` : so every cycle passes through a slot.
-/

namespace ScriptGraph

variable {σ : Type}

/-! ## Operations on existing nodes -/

/-- The nodes that an operation is given. -/
def Operation.handles : Operation σ → List NodeId
  | .create draft => draft.nodes
  | .fill slot target => [slot, target]
  | .memoize _ e => [e]
  | .enter f => [f]
  | .leave (.ok body) => body.roots
  | _ => []

/-- Each operation is given nodes that exist when it is performed. -/
def Builder.PerformsOwn : Builder σ → List (Operation σ) → Prop
  | _, [] => True
  | b, op :: ops => (∀ e ∈ op.handles, e < b.state.graph.size) ∧ (b.perform op).PerformsOwn ops

instance Builder.decidablePerformsOwn :
    (b : Builder σ) → (ops : List (Operation σ)) → Decidable (b.PerformsOwn ops)
  | _, [] => inferInstanceAs (Decidable True)
  | b, op :: ops =>
    have := decidablePerformsOwn (b.perform op) ops
    inferInstanceAs (Decidable ((∀ e ∈ op.handles, e < b.state.graph.size) ∧
      (b.perform op).PerformsOwn ops))

/-- Operations on existing nodes lead to the builder from one without nodes. -/
def Builder.OwnHandles (b : Builder σ) : Prop :=
  ∃ shared ops, (Builder.empty shared).PerformsOwn ops ∧ (Builder.empty shared).performAll ops = b

/-! ## References to older nodes -/

/-- A node at a place refers to nodes at earlier places, unless it is a slot. -/
def Node.Descends (p : NodeId) (n : Node) : Prop :=
  (∃ target, n.kind = .slot target) ∨ ∀ x ∈ n.template.filterMap Part.node?, x < p

/-- A forward reference, filled or not. -/
def Graph.IsSlot (g : Graph) (e : NodeId) : Prop := ∃ target, g.kindOf? e = some (.slot target)

/-- Nodes other than slots refer to older nodes. -/
def Graph.Descends (g : Graph) : Prop := ∀ p n, g.node? p = some n → n.Descends p

namespace Graph

variable {g : Graph} {e p x : NodeId}

theorem Descends.lt (h : g.Descends) (hslot : ¬g.IsSlot p) (hx : g.Refers p x) : x < p := by
  have hx' : x ∈ g.children p := hx
  unfold children at hx'
  split at hx'
  · rename_i n hn
    refine (h p n hn).resolve_left (fun ⟨target, hk⟩ => hslot ⟨target, ?_⟩) x hx'
    rw [kindOf?_of_node hn, hk]
  · cases hx'

/-- Every cycle passes through a slot. -/
theorem Descends.not_transGen (h : g.Descends) (e : NodeId) :
    ¬Relation.TransGen (fun p x => g.Refers p x ∧ ¬g.IsSlot p) e e := by
  have hlt : ∀ x, Relation.TransGen (fun p x => g.Refers p x ∧ ¬g.IsSlot p) e x → x < e := by
    intro x hx
    induction hx with
    | single hstep => exact h.lt hstep.2 hstep.1
    | tail _ hstep ih => exact Nat.lt_trans (h.lt hstep.2 hstep.1) ih
  exact fun hcycle => Nat.lt_irrefl e (hlt e hcycle)

end Graph

/-! ## Operations -/

theorem lasting_descends : Lasting fun p n => n.Descends p where
  function _ _ _ _ _ := .inr (List.forall_mem_nil _)
  parameter _ _ _ _ := .inr (List.forall_mem_nil _)
  fill _ _ _ target _ := .inl ⟨some target, rfl⟩

namespace BuilderState

variable {s : BuilderState σ}

/-- What is made for a draft refers to the nodes of the draft, or to a store that was there first. -/
theorem create_descends (hs : s.graph.Linked) (h : s.graph.Descends) {draft : Draft}
    (hown : ∀ e ∈ draft.nodes, e < s.graph.size) : (s.create draft).2.graph.Descends := by
  have hmodules : s.moduleStore.2.graph.Descends :=
    Graph.Each.moduleStore h (.inr (List.forall_mem_nil _))
  have hresources : s.resourceStore.2.graph.Descends :=
    Graph.Each.resourceStore h (.inr (List.forall_mem_nil _))
  cases draft with
  | ident name =>
    simp only [create]
    split <;> exact Graph.Each.make h (.inr (List.forall_mem_nil _))
  | template parts awaits inert optional => exact Graph.Each.make h (.inr hown)
  | call callee args style =>
    refine Graph.Each.make h (.inr fun x hx => hown x ?_)
    exact filterMap_node?_arguments args ▸ hx
  | moduleStore => exact hmodules
  | resourceStore => exact hresources
  | module address =>
    refine Graph.Each.make hmodules (.inr fun x hx => ?_)
    rw [List.mem_singleton.1 hx]
    exact Graph.lt_size (moduleStore_linked hs).2
  | resource key value =>
    refine Graph.Each.make hresources (.inr fun x hx => ?_)
    rw [List.mem_singleton.1 hx]
    exact Graph.lt_size (resourceStore_linked hs).2
  | slot => exact Graph.Each.make h (.inl ⟨none, rfl⟩)
  | _ => exact Graph.Each.make h (.inr (List.forall_mem_nil _))

end BuilderState

namespace Builder

variable {b : Builder σ}

/-- An operation on existing nodes makes no node but a slot refer to a younger one. -/
theorem perform_descends (hb : b.Reached) (h : b.state.graph.Descends) {op : Operation σ}
    (hown : ∀ e ∈ op.handles, e < b.state.graph.size) : (b.perform op).state.graph.Descends := by
  refine Graph.Each.perform lasting_descends h fun draft hop => ?_
  subst hop
  exact BuilderState.create_descends hb.linked h hown

theorem PerformsOwn.descends {ops : List (Operation σ)} (hown : b.PerformsOwn ops)
    (hb : b.Reached) (h : b.state.graph.Descends) : (b.performAll ops).state.graph.Descends := by
  induction ops generalizing b with
  | nil => exact h
  | cons op ops ih => exact ih hown.2 (hb.perform op) (perform_descends hb h hown.1)

/-- Where handles are the builder's own, nodes other than slots refer to older nodes. -/
theorem OwnHandles.descends (h : b.OwnHandles) : b.state.graph.Descends := by
  obtain ⟨shared, ops, hown, rfl⟩ := h
  exact hown.descends (reached_empty shared) Graph.each_empty

end Builder

end ScriptGraph
