import Mathlib
import ScriptGraph.Graph.Basic

/-!
# References without cycles

* `Graph.AcyclicOn` : no node of a list leads back to itself by references between nodes;
* `Graph.acyclicOn_of_older` : this holds where nodes refer to older ones only;
* `Graph.AcyclicOn.wellFounded`, `Graph.AcyclicOn.parents_first` : what passes from all nodes that
  refer to a node to the node itself holds of all nodes of the list.
-/

namespace ScriptGraph.Graph

variable {g : Graph} {order : List NodeId}

/-- One node refers to another, by its parts. -/
def Refers (g : Graph) (p e : NodeId) : Prop := e ∈ g.children p

/-- The same between nodes of a list. -/
def RefersWithin (g : Graph) (order : List NodeId) (p e : {x // x ∈ order}) : Prop := g.Refers p e

/-- No node of the list leads back to itself. -/
def AcyclicOn (g : Graph) (order : List NodeId) : Prop :=
  ∀ e ∈ order, ¬Relation.TransGen g.Refers e e

theorem lt_of_transGen_refers (h : ∀ p, ∀ c ∈ g.children p, c < p) {p e : NodeId}
    (hpe : Relation.TransGen g.Refers p e) : e < p := by
  induction hpe with
  | single hc => exact h _ _ hc
  | tail _ hc ih => exact Nat.lt_trans (h _ _ hc) ih

theorem acyclicOn_of_older (h : ∀ p, ∀ c ∈ g.children p, c < p) : g.AcyclicOn order :=
  fun _ _ hcycle => Nat.lt_irrefl _ (lt_of_transGen_refers h hcycle)

namespace AcyclicOn

variable (h : g.AcyclicOn order)

include h

/-- A finite relation without cycles is well-founded. -/
theorem wellFounded : WellFounded (g.RefersWithin order) := by
  have hfinite : Finite {x // x ∈ order} := order.finite_toSet.to_subtype
  have hlift : ∀ p e, Relation.TransGen (g.RefersWithin order) p e →
      Relation.TransGen g.Refers p e := Relation.TransGen.lift Subtype.val fun _ _ hc => hc
  have htrans : IsTrans _ (Relation.TransGen (g.RefersWithin order)) :=
    ⟨fun _ _ _ => Relation.TransGen.trans⟩
  have hirrefl : Std.Irrefl (Relation.TransGen (g.RefersWithin order)) :=
    ⟨fun e he => h e e.2 (hlift e e he)⟩
  exact Subrelation.wf Relation.TransGen.single
    (Finite.wellFounded_of_trans_of_irrefl (Relation.TransGen (g.RefersWithin order)))

/-- What passes from all parents to a node holds of all nodes. -/
theorem parents_first {P : NodeId → Prop}
    (step : ∀ e ∈ order, (∀ p ∈ order, e ∈ g.children p → P p) → P e) : ∀ e ∈ order, P e := by
  intro e he
  induction he' : (⟨e, he⟩ : {x // x ∈ order}) using h.wellFounded.induction generalizing e with
  | _ x ih =>
    subst he'
    exact step e he fun p hp hc => ih ⟨p, hp⟩ hc p hp rfl

end AcyclicOn

end ScriptGraph.Graph
