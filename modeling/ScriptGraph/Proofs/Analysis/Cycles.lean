import ScriptGraph.Proofs.Analysis.Decisions
import ScriptGraph.Proofs.Analysis.Propagation
import ScriptGraph.Proofs.Builder.Handles

/-!
# Cycles

* `Graph.Cyclic` : a reachable node leads back to itself by references between nodes; what is in the
  body of a function is no part of the function's references;
* `Graph.Settles.idxOf_lt` : nodes are settled after those that refer to them;
* `Graph.Surveyed.not_cyclic` : so no cycle is left in a graph that can be settled;
* `Graph.Surveyed.code_of_settle` : settling fails for a cycle only where there is one;
* `Graph.CountsLandings.isDeclared_iff`, `Graph.CountsLandings.usesIn_eq` : what a successful analysis
  declares and counts;
* `Graph.Resolved.exists_countsLandings` : where an analysis succeeds, landings can be counted;
* `Builder.cycles_of_analyze` : what an analysis says of cycles.
-/

namespace ScriptGraph

namespace Graph

variable {g : Graph} {bodies : List (Scope × List NodeId)} {roots order : List NodeId}
  {settled : List Settled} {e p : NodeId} {fault : Fault}

/-- A reachable node leads back to itself by references between nodes. -/
def Cyclic (g : Graph) (roots : List NodeId) : Prop :=
  ∃ e, g.Reaches roots e ∧ Relation.TransGen g.Refers e e

theorem Settles.idxOf_lt (h : g.Settles bodies order settled.reverse)
    (he : e ∈ settled.map (·.node)) (hp : p ∈ order) (hc : g.Refers p e) :
    (settled.map (·.node)).idxOf p < (settled.map (·.node)).idxOf e := by
  induction settled using List.reverseRecOn with
  | nil => cases he
  | append_singleton settled s ih =>
    rw [List.reverse_append, List.reverse_singleton, List.singleton_append] at h
    cases h with
    | cons h _ hnew hparents _ =>
      rw [List.map_reverse, List.mem_reverse] at hnew
      have hbefore : p ∈ settled.map (·.node) := by
        rw [List.map_append, List.mem_append] at he
        rcases he with he | he
        · have := h.parents (e := e) (by simpa using he) hp hc
          simpa using this
        · obtain rfl : e = s.node := by simpa using he
          simpa using hparents p hp hc
      rw [List.map_append, List.idxOf_append_of_mem hbefore]
      by_cases hearlier : e ∈ settled.map (·.node)
      · rw [List.idxOf_append_of_mem hearlier]
        exact ih h hearlier
      · rw [List.idxOf_append_of_notMem hearlier]
        exact Nat.lt_add_right _ (List.idxOf_lt_length_of_mem hbefore)

namespace Surveyed

variable (h : g.Surveyed roots order)

include h

theorem closed : ∀ p ∈ order, ∀ c ∈ g.children p, c ∈ order := fun _ hp _ hc => h.child_mem hp hc

/-- A graph that can be settled has no cycle. -/
theorem not_cyclic (hok : g.settle roots order = .ok settled) : ¬g.Cyclic roots := by
  obtain ⟨hs, hperm⟩ := settle_settles h.nodup h.closed hok
  rintro ⟨e, hreach, hcycle⟩
  have hlater : ∀ x, Relation.TransGen g.Refers e x → x ∈ order ∧
      (settled.map (·.node)).idxOf e < (settled.map (·.node)).idxOf x := by
    have he : e ∈ order := (h.mem_iff e).2 hreach
    intro x hx
    induction hx with
    | single hc =>
      have hmem := h.closed _ he _ hc
      exact ⟨hmem, hs.idxOf_lt (hperm.mem_iff.2 hmem) he hc⟩
    | tail _ hc ih =>
      have hmem := h.closed _ ih.1 _ hc
      exact ⟨hmem, Nat.lt_trans ih.2 (hs.idxOf_lt (hperm.mem_iff.2 hmem) ih.1 hc)⟩
  exact Nat.lt_irrefl _ (hlater e hcycle).2

theorem code_of_settle (herror : g.settle roots order = .error fault) :
    (fault.code = "Z-ERR-ANALYSIS-001" ∧ g.Cyclic roots) ∨ fault.code = "Z-ERR-SCOPE-LEAK" := by
  by_cases hcyclic : g.Cyclic roots
  · rcases Graph.settle_eq_error h.nodup h.closed herror with ⟨e, _, _, _, _, hdec⟩ | ⟨rfl, _⟩
    · obtain ⟨_, t, _, _, rfl⟩ := decideNode_eq_error hdec
      exact .inr rfl
    · exact .inl ⟨rfl, hcyclic⟩
  · have hacyclic : g.AcyclicOn order := fun e he hcycle =>
      hcyclic ⟨e, (h.mem_iff e).1 he, hcycle⟩
    obtain ⟨count, hcount⟩ := h.exists_countsLandings hacyclic
    exact .inr (hcount.of_settle_error h hacyclic herror).2

end Surveyed

theorem Resolved.acyclicOn {body : Body} {a : Analysis} (h : g.Resolved body a) :
    g.AcyclicOn a.order := fun e he hcycle =>
  h.surveyed.not_cyclic h.settled ⟨e, (h.surveyed.mem_iff e).1 he, hcycle⟩

theorem CountsLandings.isDeclared_iff {body : Body} {a : Analysis} {count : NodeId → Scope → Nat}
    (hcount : g.CountsLandings body.roots count) (h : g.Resolved body a)
    (hreach : g.Reaches body.roots e) : a.isDeclared e = true ↔ g.Declares e (count e) := by
  obtain ⟨s, hs, rfl⟩ := h.exists_settled ((h.surveyed.mem_iff e).2 hreach)
  rw [← h.declared_eq hs]
  exact (hcount.of_settle_ok h.surveyed h.acyclicOn h.settled).2 s hs

theorem CountsLandings.usesIn_eq {body : Body} {a : Analysis} {count : NodeId → Scope → Nat}
    (hcount : g.CountsLandings body.roots count) (h : g.Resolved body a)
    (hreach : g.Reaches body.roots e) : a.usesIn g body e = count e := by
  obtain ⟨s, hs, rfl⟩ := h.exists_settled ((h.surveyed.mem_iff e).2 hreach)
  exact (hcount.agrees h.surveyed h.acyclicOn h.settles s (List.mem_reverse.2 hs)).2

theorem Resolved.exists_countsLandings {body : Body} {a : Analysis} (h : g.Resolved body a) :
    ∃ count, g.CountsLandings body.roots count ∧
      ∀ e, g.Reaches body.roots e → (a.isDeclared e = true ↔ g.Declares e (count e)) := by
  obtain ⟨count, hcount⟩ := h.surveyed.exists_countsLandings h.acyclicOn
  exact ⟨count, hcount, fun _ hreach => hcount.isDeclared_iff h hreach⟩

end Graph

namespace Builder

variable {σ : Type} {b c : Builder σ}

/-- **Cycles are found exactly.** Where every reachable node is built, settling by counters decides
how an analysis ends. It fails if there is a cycle, for the cycle or for a leak that is met before,
and it does not fail for a cycle if there is none. Where handles are the builder's own, every cycle
passes through a slot and none through a function, however functions refer to each other in their
bodies. After a success the reachable nodes are settled, each once and after all nodes that refer
to it. -/
theorem cycles_of_analyze (hb : b.Reached) {body : Body} {stem : String}
    {out : Except Fault Analysis} (h : b.analyze body stem = (out, c))
    (hbuilt : ∀ e, c.state.graph.Reaches body.roots e → c.state.graph.Built e)
    (hown : c.OwnHandles) :
    (∃ order, c.state.graph.Surveyed body.roots order ∧
      out = (c.state.graph.propagate body.roots order).map fun settled =>
        c.state.graph.analysisOf order settled stem) ∧
    (c.state.graph.Cyclic body.roots → ∃ fault, out = .error fault ∧
      (fault.code = "Z-ERR-ANALYSIS-001" ∨ fault.code = "Z-ERR-SCOPE-LEAK")) ∧
    (∀ fault, out = .error fault → fault.code = "Z-ERR-ANALYSIS-001" →
      c.state.graph.Cyclic body.roots) ∧
    (∀ e, ¬Relation.TransGen
      (fun p x => c.state.graph.Refers p x ∧ ¬c.state.graph.IsSlot p) e e) ∧
    (∀ f, c.state.graph.isFunction f = true → ∀ x, ¬c.state.graph.Refers f x) ∧
    ∀ a, out = .ok a → (a.settled.map (·.node)).Nodup ∧
      (∀ e, e ∈ a.settled.map (·.node) ↔ c.state.graph.Reaches body.roots e) ∧
      ∀ p e, c.state.graph.Reaches body.roots p → c.state.graph.Refers p e →
        (a.settled.map (·.node)).idxOf p < (a.settled.map (·.node)).idxOf e := by
  obtain ⟨order, hfound, hout⟩ := exists_surveyed hb h hbuilt
  have hpropagate : out = (c.state.graph.propagate body.roots order).map fun settled =>
      c.state.graph.analysisOf order settled stem := by
    rw [Graph.propagate_eq hfound.nodup hfound.closed, hout, Graph.analysis]
  have herror : ∀ fault, out = .error fault →
      c.state.graph.settle body.roots order = .error fault := by
    intro fault hfault
    rw [hout, Graph.analysis] at hfault
    cases hs : c.state.graph.settle body.roots order with
    | error fault' =>
      rw [hs] at hfault
      cases hfault
      rfl
    | ok settled =>
      rw [hs] at hfault
      cases hfault
  refine ⟨⟨order, hfound, hpropagate⟩, fun hcyclic => ?_, fun fault hfault hcode => ?_,
    hown.descends.not_transGen, fun f hf x hx => ?_, fun a ha => ?_⟩
  · cases hs : c.state.graph.settle body.roots order with
    | error fault =>
      refine ⟨fault, by rw [hout, Graph.analysis, hs]; rfl, ?_⟩
      exact (hfound.code_of_settle hs).imp_left And.left
    | ok settled => exact absurd hcyclic (hfound.not_cyclic hs)
  · rcases hfound.code_of_settle (herror fault hfault) with ⟨_, hcyclic⟩ | hleak
    · exact hcyclic
    · rw [hleak] at hcode
      exact absurd hcode (by decide)
  · have hx' : x ∈ c.state.graph.children f := hx
    rw [Graph.children_of_isFunction hf] at hx'
    cases hx'
  · subst ha
    have hresolved := analyze_resolved hb h
    have hreach : ∀ e, e ∈ a.settled.map (·.node) ↔ c.state.graph.Reaches body.roots e := fun e =>
      hresolved.settled_perm.mem_iff.trans (hresolved.surveyed.mem_iff e)
    refine ⟨hresolved.settled_perm.nodup_iff.2 hresolved.surveyed.nodup, hreach,
      fun p e hp hpe => ?_⟩
    have hpmem := (hresolved.surveyed.mem_iff p).2 hp
    have hemem := hresolved.surveyed.child_mem hpmem hpe
    exact hresolved.settles.idxOf_lt (hresolved.settled_perm.mem_iff.2 hemem) hpmem hpe

/-- A function that calls itself through a slot, and a list that contains itself through another. -/
def entangledOperations : List (Operation Unit) := [
  .create .slot,
  .function 0 fun _ _ => .done (.error .reentrantBody),
  .fill 0 1,
  .enter 1,
  .create (.call 0 [] .plain),
  .leave (.ok (.value 2)),
  .create .slot,
  .create (.template [.text "[", .node 3, .text "]"] false false false),
  .fill 3 4]

def entangledExample : Builder Unit := (Builder.empty ()).performAll entangledOperations

theorem ownHandles_entangledExample : entangledExample.OwnHandles :=
  ⟨(), entangledOperations, by decide, rfl⟩

theorem built_entangledExample {root : NodeId} {order : List NodeId}
    (h : entangledExample.survey [] [root] = (.ok order, entangledExample)) (e : NodeId)
    (he : entangledExample.state.graph.Reaches [root] e) :
    entangledExample.state.graph.Built e := by
  have hfound := survey_surveyed ⟨(), entangledOperations, rfl⟩ h
  exact hfound.built e ((hfound.mem_iff e).2 he)

/-- The list is a cycle. The function is none, though it leads back to itself through its body. -/
theorem cycles_entangledExample :
    (∃ fault, entangledExample.analyze (.value 4) "_" = (.error fault, entangledExample) ∧
      fault.code = "Z-ERR-ANALYSIS-001" ∧ entangledExample.state.graph.Cyclic [4]) ∧
    ∃ a, entangledExample.analyze (.value 1) "_" = (.ok a, entangledExample) ∧
      ¬entangledExample.state.graph.Cyclic [1] ∧
      Relation.TransGen (fun p x => x ∈ entangledExample.state.graph.successors p) 1 1 := by
  have hreached : entangledExample.Reached := ⟨(), entangledOperations, rfl⟩
  have hlist : entangledExample.analyze (.value 4) "_" = (.error .cyclicGraph, entangledExample) := by
    cbv
  have hsurvey : entangledExample.survey [] [4] = (.ok [4, 3], entangledExample) := by cbv
  have hsurvey' : entangledExample.survey [] [1] = (.ok [1, 2, 0], entangledExample) := by cbv
  obtain ⟨_, _, hcyclic, _⟩ := cycles_of_analyze hreached hlist (built_entangledExample hsurvey)
    ownHandles_entangledExample
  refine ⟨⟨_, hlist, rfl, hcyclic _ rfl rfl⟩, ?_⟩
  obtain ⟨a, c, ha, _⟩ := exists_analysis (.value 1) "_" (congrArg Prod.fst hsurvey') (by cbv)
  obtain rfl : c = entangledExample := (congrArg Prod.snd ha).symm.trans (by cbv)
  obtain ⟨_, hcyclic', _⟩ := cycles_of_analyze hreached ha (built_entangledExample hsurvey')
    ownHandles_entangledExample
  refine ⟨a, ha, fun h => ?_, ?_⟩
  · obtain ⟨fault, hfault, _⟩ := hcyclic' h
    cases hfault
  · exact .head (by decide : 2 ∈ entangledExample.state.graph.successors 1)
      (.head (by decide : 0 ∈ entangledExample.state.graph.successors 2)
        (.single (by decide : 1 ∈ entangledExample.state.graph.successors 0)))

end Builder

end ScriptGraph
