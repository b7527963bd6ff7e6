import ScriptGraph.Proofs.Analysis.Resolution
import ScriptGraph.Proofs.Builder.Slots
import ScriptGraph.Proofs.Graph.Copies

/-!
# Graphs without slots

A reference to a slot may as well be one to what the slot stands for.

* `Graph.destination` : the end of a chain of slots;
* `Graph.Directed` : every reachable slot is filled, and no reachable node leads back to itself;
* `Graph.Directed.not_isSlot_destination`, `Graph.standsFor_destination` : the destination of a
  reachable node is the node other than a slot that it stands for;
* `Graph.Resolved.isDeclared_slot` : no slot is declared;
* `Graph.redirected` : the graph in which every reference leads to its destination;
* `Graph.Directed.reaches_redirected_iff` : the same nodes are reachable there, but no slots.
-/

namespace ScriptGraph

namespace Graph

/-! ## Destinations -/

/-- What a slot is directed to, and any other node itself. -/
def next (g : Graph) (e : NodeId) : NodeId :=
  match g.kindOf? e with
  | some (.slot (some target)) => target
  | _ => e

/-- The end of a chain of slots. No chain that ends is longer than there are nodes. -/
def destination (g : Graph) (e : NodeId) : NodeId := g.next^[g.size] e

variable {g : Graph} {roots : List NodeId} {e f m p x : NodeId}

theorem next_of_not_isSlot (he : ¬g.IsSlot e) : g.next e = e := by
  unfold next
  split
  · rename_i target hk
    exact absurd ⟨_, hk⟩ he
  · rfl

theorem next_of_slot (he : g.kindOf? e = some (.slot (some x))) : g.next e = x := by
  rw [next, he]

theorem destination_of_not_isSlot (he : ¬g.IsSlot e) : g.destination e = e :=
  Function.iterate_fixed (next_of_not_isSlot he) g.size

theorem standsFor_next (e : NodeId) : g.StandsFor e (g.next e) := by
  unfold next
  split
  · rename_i hk
    exact .single hk
  · exact .refl

theorem standsFor_iterate (k : Nat) (e : NodeId) : g.StandsFor e (g.next^[k] e) := by
  induction k generalizing e with
  | zero => exact .refl
  | succ k ih => exact (standsFor_next e).trans (ih (g.next e))

theorem standsFor_destination (e : NodeId) : g.StandsFor e (g.destination e) :=
  standsFor_iterate g.size e

theorem children_of_slot (he : g.kindOf? e = some (.slot (some x))) : g.children e = [x] := by
  obtain ⟨n, hn, hk⟩ := kindOf?_eq_some.1 he
  rw [children_of_node hn, Node.template, hk]
  rfl

theorem IsSlot.isFunction (he : g.IsSlot e) : g.isFunction e = false := by
  obtain ⟨target, hk⟩ := he
  rw [Graph.isFunction, hk]

theorem IsSlot.isParameter (he : g.IsSlot e) : g.isParameter e = false := by
  obtain ⟨target, hk⟩ := he
  rw [Graph.isParameter, hk]

theorem successors_of_slot (he : g.kindOf? e = some (.slot (some x))) : g.successors e = [x] := by
  rw [successors_of_not_isFunction (IsSlot.isFunction ⟨_, he⟩), children_of_slot he]

theorem StandsFor.refers (h : g.StandsFor e m) : Relation.ReflTransGen g.Refers e m :=
  Relation.ReflTransGen.mono (fun x y hk => (by simp [children_of_slot hk] : y ∈ g.children x))
    e m h

theorem StandsFor.reaches (h : g.StandsFor x m) (hx : g.Reaches roots x) : g.Reaches roots m := by
  induction h with
  | refl => exact hx
  | @tail y z _ hz ih =>
    exact .step ih (by rw [successors_of_slot hz]; exact List.mem_singleton_self z)

theorem Resolved.isDeclared_slot {body : Body} {a : Analysis} (h : g.Resolved body a)
    (hslots : g.Forwards) {e : NodeId} (he : g.IsSlot e) : a.isDeclared e = false := by
  rw [← Bool.not_eq_true]
  intro hd
  obtain ⟨s, hs, rfl⟩ := h.exists_settled (h.mem_order_of_isDeclared hd)
  rw [h.isDeclared_eq_mustDeclare hs, mustDeclare, hslots.flagsOf_slot he] at hd
  cases hd

/-- Every slot that the roots lead to is filled, and no node leads back to itself there. -/
structure Directed (g : Graph) (roots : List NodeId) : Prop where
  sound : g.Sound
  slots : g.Forwards
  filled : ∀ e, g.Reaches roots e → g.isUnfilledSlot e = false
  acyclic : ∀ e, g.Reaches roots e → ¬Relation.TransGen g.Refers e e

namespace Directed

variable (h : g.Directed roots)

include h

theorem exists_target (hreach : g.Reaches roots e) (he : g.IsSlot e) :
    ∃ x, g.kindOf? e = some (.slot (some x)) := by
  obtain ⟨_ | x, hk⟩ := he
  · have hfilled := h.filled e hreach
    rw [isUnfilledSlot, hk] at hfilled
    cases hfilled
  · exact ⟨x, hk⟩

/-- A chain of slots ends: with as many slots as there are nodes it would come back to one. -/
theorem not_isSlot_destination (hreach : g.Reaches roots e) : ¬g.IsSlot (g.destination e) := by
  intro hslot
  have hslots : ∀ k ≤ g.size, g.IsSlot (g.next^[k] e) := fun k hk => by
    by_contra hnot
    have hfixed := Function.iterate_fixed (next_of_not_isSlot hnot) (g.size - k)
    rw [← Function.iterate_add_apply, Nat.sub_add_cancel hk] at hfixed
    rw [destination, hfixed] at hslot
    exact hnot hslot
  have hstep : ∀ k ≤ g.size, g.Refers (g.next^[k] e) (g.next^[k + 1] e) := fun k hk => by
    obtain ⟨x, hx⟩ := h.exists_target ((standsFor_iterate k e).reaches hreach) (hslots k hk)
    rw [Function.iterate_succ_apply', next_of_slot hx, Refers, children_of_slot hx]
    exact List.mem_singleton_self x
  have hpath : ∀ i j, i < j → j ≤ g.size + 1 →
      Relation.TransGen g.Refers (g.next^[i] e) (g.next^[j] e) := by
    intro i j hij hj
    induction j, hij using Nat.le_induction with
    | base => exact .single (hstep i (by omega))
    | succ j _ ih => exact .tail (ih (by omega)) (hstep j (by omega))
  have hmaps : Set.MapsTo (fun k => g.next^[k] e) (Finset.range (g.size + 1)) (Finset.range g.size) :=
    fun k hk => by
      obtain ⟨target, hk'⟩ := hslots k (Nat.lt_succ_iff.1 (Finset.mem_range.1 hk))
      obtain ⟨n, hn, _⟩ := kindOf?_eq_some.1 hk'
      exact Finset.mem_coe.2 (Finset.mem_range.2 (lt_size hn))
  obtain ⟨i, hi, j, hj, hne, heq⟩ := Finset.exists_ne_map_eq_of_card_lt_of_maps_to
    (by simp) hmaps
  rw [Finset.mem_range] at hi hj
  rcases Nat.lt_or_gt_of_ne hne with hlt | hlt
  · have hcycle := hpath i j hlt (by omega)
    exact h.acyclic _ ((standsFor_iterate i e).reaches hreach) (heq ▸ hcycle)
  · have hcycle := hpath j i hlt (by omega)
    exact h.acyclic _ ((standsFor_iterate j e).reaches hreach) (heq ▸ hcycle)

theorem destination_of_slot (hreach : g.Reaches roots e) (he : g.kindOf? e = some (.slot (some x))) :
    g.destination x = g.destination e := by
  rw [← next_of_slot he, destination, ← Function.iterate_succ_apply, Function.iterate_succ_apply']
  exact next_of_not_isSlot (h.not_isSlot_destination hreach)

end Directed

/-! ## Redirected references -/

/-- Every reference, also of the body of a function, leads to its destination. -/
def redirected (g : Graph) : Graph :=
  { g with nodes := g.nodes.map fun n => { n with kind := n.kind.map g.destination } }

theorem node?_redirected (e : NodeId) : g.redirected.node? e =
    (g.node? e).map fun n => { n with kind := n.kind.map g.destination } := by
  simp [node?, redirected]

@[simp] theorem size_redirected : g.redirected.size = g.size := by simp [size, redirected]

@[simp] theorem scopeOf_redirected (e : NodeId) : g.redirected.scopeOf e = g.scopeOf e := by
  rw [scopeOf, scopeOf, node?_redirected]
  cases g.node? e <;> rfl

@[simp] theorem flagsOf_redirected (e : NodeId) : g.redirected.flagsOf e = g.flagsOf e := by
  rw [flagsOf, flagsOf, node?_redirected]
  cases g.node? e <;> rfl

@[simp] theorem kindOf?_redirected (e : NodeId) :
    g.redirected.kindOf? e = (g.kindOf? e).map (Kind.map g.destination) := by
  rw [kindOf?, kindOf?, node?_redirected]
  cases g.node? e <;> rfl

@[simp] theorem children_redirected (e : NodeId) :
    g.redirected.children e = (g.children e).map g.destination := by
  rw [children, children, node?_redirected]
  cases g.node? e with
  | none => rfl
  | some n =>
    show (n.map g.destination).template.filterMap Part.node? = _
    rw [Node.template_map, filterMap_node?_mapParts]

@[simp] theorem isFunction_redirected (e : NodeId) :
    g.redirected.isFunction e = g.isFunction e := by
  rw [isFunction, isFunction, kindOf?_redirected]
  rcases g.kindOf? e with _ | kind
  · rfl
  · cases kind <;> rfl

@[simp] theorem isParameter_redirected (e : NodeId) :
    g.redirected.isParameter e = g.isParameter e := by
  rw [isParameter, isParameter, kindOf?_redirected]
  rcases g.kindOf? e with _ | kind
  · rfl
  · cases kind <;> rfl

@[simp] theorem body?_redirected (f : NodeId) :
    g.redirected.body? f = (g.body? f).map (Body.map g.destination) := by
  rw [body?, body?, kindOf?_redirected]
  rcases g.kindOf? f with _ | kind
  · rfl
  · cases kind with
    | function arity state => cases state <;> rfl
    | _ => rfl

@[simp] theorem isUnfilledSlot_redirected (e : NodeId) :
    g.redirected.isUnfilledSlot e = g.isUnfilledSlot e := by
  rw [isUnfilledSlot, isUnfilledSlot, kindOf?_redirected]
  rcases g.kindOf? e with _ | kind
  · rfl
  · cases kind with
    | slot target => cases target <;> rfl
    | _ => rfl

theorem successors_redirected (e : NodeId) :
    g.redirected.successors e = (g.successors e).map g.destination := by
  rw [successors, successors, children_redirected, body?_redirected, List.map_append]
  cases g.body? e <;> simp

theorem built_redirected_iff : g.redirected.Built e ↔ g.Built e := by
  rw [Built, Built, size_redirected, isUnfilledSlot_redirected, isFunction_redirected,
    body?_redirected]
  simp

theorem Sound.redirected (hg : g.Sound) : g.redirected.Sound := by
  intro e n hn
  rw [node?_redirected] at hn
  obtain ⟨m, hm, rfl⟩ := Option.map_eq_some_iff.1 hn
  refine ⟨fun f hf => ?_, ?_⟩
  · rw [isFunction_redirected]
    exact (hg e m hm).scope f hf
  · have hk := (hg e m hm).kind
    obtain ⟨scope, flags, kind⟩ := m
    cases kind with
    | function arity state =>
      refine ⟨hk.1, fun i hi => ?_⟩
      obtain ⟨m, hm, hscope, hkind⟩ := hk.2 i hi
      refine ⟨{ m with kind := m.kind.map g.destination }, ?_, hscope, ?_⟩
      · rw [node?_redirected, hm]
        rfl
      · show m.kind.map g.destination = _
        rw [hkind]
        rfl
    | parameter i =>
      obtain ⟨hlit, f, arity, state, hscope, hf, hi, he⟩ := hk
      refine ⟨hlit, f, arity, state.map g.destination, hscope, ?_, hi, he⟩
      rw [kindOf?_redirected, hf]
      rfl
    | moduleStore => exact hk
    | resourceStore => exact hk
    | _ => trivial

/-- A reference of the redirected graph is a path of references. -/
theorem transGen_of_refers_redirected (hx : g.redirected.Refers p x) :
    Relation.TransGen g.Refers p x := by
  rw [Refers, children_redirected] at hx
  obtain ⟨y, hy, rfl⟩ := List.mem_map.1 hx
  exact .head' hy (standsFor_destination y).refers

namespace Directed

variable (h : g.Directed roots)

include h

theorem reaches_redirected (hreach : g.Reaches roots e) :
    g.redirected.Reaches (roots.map g.destination) (g.destination e) := by
  induction hreach with
  | root he => exact .root (List.mem_map_of_mem he)
  | @step e x he hx ih =>
    by_cases hslot : g.IsSlot e
    · obtain ⟨y, hy⟩ := h.exists_target he hslot
      rw [successors_of_slot hy, List.mem_singleton] at hx
      rwa [hx, h.destination_of_slot he hy]
    · rw [destination_of_not_isSlot hslot] at ih
      refine .step ih ?_
      rw [successors_redirected]
      exact List.mem_map_of_mem hx

/-- The reachable nodes of the redirected graph are those of the graph, without the slots. -/
theorem reaches_redirected_iff :
    g.redirected.Reaches (roots.map g.destination) e ↔ g.Reaches roots e ∧ ¬g.IsSlot e := by
  constructor
  · intro hreach
    induction hreach with
    | root he =>
      obtain ⟨r, hr, rfl⟩ := List.mem_map.1 he
      exact ⟨(standsFor_destination r).reaches (.root hr), h.not_isSlot_destination (.root hr)⟩
    | step _ hx ih =>
      rw [successors_redirected] at hx
      obtain ⟨y, hy, rfl⟩ := List.mem_map.1 hx
      have hreach := Reaches.step ih.1 hy
      exact ⟨(standsFor_destination y).reaches hreach, h.not_isSlot_destination hreach⟩
  · rintro ⟨hreach, hslot⟩
    rw [← destination_of_not_isSlot hslot]
    exact h.reaches_redirected hreach

theorem acyclic_redirected (hreach : g.redirected.Reaches (roots.map g.destination) e) :
    ¬Relation.TransGen g.redirected.Refers e e := fun hcycle =>
  h.acyclic e (h.reaches_redirected_iff.1 hreach).1
    (Relation.TransGen.lift' id (fun _ _ hx => transGen_of_refers_redirected hx) e e hcycle)

end Directed

end Graph

end ScriptGraph
