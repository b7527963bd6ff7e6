import ScriptGraph.Proofs.Builder.Handles

/-!
# Slots

A slot is made like a literal, and directing it to its target leaves its flags alone. So it may be
written at every use, and no analysis declares it.

* `Graph.StandsFor` : slots lead from one node to another;
* `Graph.Forwards` : every slot has the flags of a literal;
* `Builder.Reached.forwards` : this holds of every builder.
-/

namespace ScriptGraph

/-- A slot, filled or not, has the flags it was made with. -/
def Node.Forwards (n : Node) : Prop := (∃ target, n.kind = .slot target) → n.flags = .literal

namespace Graph

/-- `x` stands for `m`: it is `m`, or a slot directed to what stands for `m`. -/
def StandsFor (g : Graph) : NodeId → NodeId → Prop :=
  Relation.ReflTransGen fun x y => g.kindOf? x = some (.slot (some y))

/-- Every slot has the flags of a literal. -/
def Forwards (g : Graph) : Prop := ∀ e n, g.node? e = some n → n.Forwards

variable {g : Graph} {e : NodeId}

theorem Forwards.flagsOf_slot (h : g.Forwards) (hslot : g.IsSlot e) : g.flagsOf e = .literal := by
  obtain ⟨target, hk⟩ := hslot
  obtain ⟨n, hn, hkind⟩ := kindOf?_eq_some.1 hk
  rw [flagsOf_of_node hn]
  exact h e n hn ⟨target, hkind⟩

end Graph

/-! ## Operations -/

theorem lasting_forwards : Lasting fun _ n => n.Forwards where
  function _ _ _ _ _ h := by simp at h
  parameter _ _ _ _ h := by simp at h
  fill _ _ _ _ h _ := h ⟨none, rfl⟩

namespace BuilderState

variable {σ : Type} {s : BuilderState σ}

theorem create_forwards (h : s.graph.Forwards) (draft : Draft) :
    (s.create draft).2.graph.Forwards := by
  have hmodules : s.moduleStore.2.graph.Forwards :=
    Graph.Each.moduleStore h (by simp [Node.Forwards, Node.modules])
  have hresources : s.resourceStore.2.graph.Forwards :=
    Graph.Each.resourceStore h (by simp [Node.Forwards, Node.resources])
  cases draft with
  | ident name =>
    simp only [create]
    split <;> exact Graph.Each.make h (by simp [Node.Forwards])
  | moduleStore => exact hmodules
  | resourceStore => exact hresources
  | module address => exact Graph.Each.make hmodules (by simp [Node.Forwards])
  | resource key value => exact Graph.Each.make hresources (by simp [Node.Forwards])
  | slot => exact Graph.Each.make h fun _ => rfl
  | _ => exact Graph.Each.make h (by simp [Node.Forwards])

end BuilderState

namespace Builder

variable {σ : Type} {b : Builder σ}

/-- The slots of every builder have the flags of literals. -/
theorem Reached.forwards (h : b.Reached) : b.state.graph.Forwards := by
  obtain ⟨shared, ops, rfl⟩ := h
  induction ops using List.reverseRecOn with
  | nil => exact Graph.each_empty
  | append_singleton ops op ih =>
    rw [performAll, List.foldl_append]
    exact Graph.Each.perform lasting_forwards ih fun draft _ =>
      BuilderState.create_forwards ih draft

end Builder

end ScriptGraph
