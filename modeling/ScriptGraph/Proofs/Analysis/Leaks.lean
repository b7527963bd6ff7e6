import ScriptGraph.Proofs.Analysis.Resolution
import ScriptGraph.Proofs.Graph.Visibility

/-!
# Leaks

In a graph whose nodes refer to older ones, and whose inert nodes refer to none, an analysis fails
only for a node that is used outside the scope it was made in.

* `Graph.Uses` : a node is used in a scope;
* `Graph.Layered` : a graph of this sort;
* `Graph.Surveyed.settle_eq_error` : what fails is a leak;
* `Graph.Resolved.within_of_usedIn` : what succeeds has none.
-/

namespace ScriptGraph.Graph

variable {g : Graph} {roots order : List NodeId} {e : NodeId} {t : Scope}

/-- A node is used in a scope: by a body, or by a reachable node of the scope that refers to it. -/
inductive Uses (g : Graph) (roots : List NodeId) : Scope → NodeId → Prop
  | root {e : NodeId} (h : e ∈ roots) : Uses g roots none e
  | body {f e : NodeId} {inner : Body} (hf : g.Reaches roots f) (hb : g.body? f = some inner)
    (he : e ∈ inner.roots) : Uses g roots (some f) e
  | child {p e : NodeId} (hp : g.Reaches roots p) (hc : e ∈ g.children p) :
    Uses g roots (g.scopeOf p) e

theorem Uses.reaches (h : g.Uses roots t e) : g.Reaches roots e := by
  cases h with
  | root h => exact .root h
  | body hf hb he => exact .step hf (by rwa [successors_of_body? hb])
  | child hp hc => exact .step hp (List.mem_append_left _ hc)

/-- Nodes refer to older ones, and inert nodes to none. -/
structure Layered (g : Graph) : Prop where
  older : ∀ p, ∀ c ∈ g.children p, c < p
  bare : ∀ p, (g.flagsOf p).inert = true → g.children p = []

theorem Layered.inert_eq_false (h : g.Layered) {p c : NodeId} (hc : c ∈ g.children p) :
    (g.flagsOf p).inert = false := by
  rw [← Bool.not_eq_true]
  intro hi
  rw [h.bare p hi] at hc
  cases hc

/-- A node that is not declared, though it may be, lands in its own scope only. -/
theorem eq_scopeOf_of_mustDeclare {l : Landings} (hi : (g.flagsOf e).inert = false)
    (hd : g.mustDeclare e l = false) (ht : t ∈ l.scopes) : t = g.scopeOf e := by
  simp only [mustDeclare, hi, Bool.not_false, Bool.true_and, Bool.or_eq_false_iff,
    List.any_eq_false, bne_iff_ne, not_not] at hd
  exact hd.2.2 t ht

theorem Layered.uses_of_exactLandings (h : g.Layered) (hreach : ∀ p ∈ order, g.Reaches roots p)
    {settled : List Settled} (hs : g.Settles (g.bodies roots order) order settled)
    (hland : 0 < g.exactLandings (g.bodies roots order) settled e t) : g.Uses roots t e := by
  induction hs generalizing e t with
  | nil =>
    obtain ⟨rs, hrs, he⟩ := rootCount_pos hland
    rcases List.mem_cons.1 hrs with heq | hrs
    · cases heq
      exact .root he
    · obtain ⟨f, hf, hbody⟩ := List.mem_filterMap.1 hrs
      obtain ⟨inner, hb, heq⟩ := Option.map_eq_some_iff.1 hbody
      cases heq
      exact .body (hreach f hf) hb he
  | @cons s earlier hearlier hmem _ _ hdec ih =>
    rw [exactLandings] at hland
    rcases Nat.add_pos_iff_pos_or_pos.1 hland with hbefore | hnew
    · exact ih hbefore
    · have hc : e ∈ g.children s.node := List.count_pos_iff.1 (Nat.pos_of_mul_pos_right hnew)
      have hlast := Nat.pos_of_mul_pos_left hnew
      suffices ht : t = g.scopeOf s.node from ht ▸ .child (hreach _ hmem) hc
      split at hlast
      · split at hlast
        · rename_i hst
          exact hst.symm
        · exact absurd hlast (Nat.lt_irrefl 0)
      · rename_i hd
        obtain ⟨heq, _⟩ := decideNode_eq_ok.1 hdec
        obtain ⟨hproper, hcount⟩ := hearlier.landings_proper s.node
        rw [heq, Bool.not_eq_true] at hd
        refine eq_scopeOf_of_mustDeclare (h.inert_eq_false hc) hd ?_
        rw [hproper.mem_scopes_iff, hcount, Landings.cap]
        omega

namespace Surveyed

/-- Where nodes refer to older ones, settling fails for a leak only. -/
theorem settle_eq_error (h : g.Surveyed roots order) (hl : g.Layered) {fault : Fault}
    (hfault : g.settle roots order = .error fault) :
    ∃ e t, g.Uses roots t e ∧ g.isWithin t (g.scopeOf e) = false ∧
      fault = .scopeLeak (g.label e) e (g.scopeOf e) t := by
  have hclosed : ∀ p ∈ order, ∀ c ∈ g.children p, c ∈ order := fun _ hp _ hc => h.child_mem hp hc
  rcases Graph.settle_eq_error h.nodup hclosed hfault with
    ⟨e, _, earlier, hsettles, _, hdec⟩ | ⟨_, out, hlen, hout⟩
  · obtain ⟨_, t, ht, hout, rfl⟩ := decideNode_eq_error hdec
    obtain ⟨hproper, hcount⟩ := hsettles.landings_proper e
    rw [List.reverse_reverse] at hproper hcount
    rw [hproper.mem_scopes_iff, hcount] at ht
    exact ⟨e, t, hl.uses_of_exactLandings (fun p hp => (h.mem_iff p).1 hp) hsettles
      (Nat.lt_of_lt_of_le ht (Nat.min_le_left ..)), hout, rfl⟩
  · have := Prompt.start.length_le h.nodup (acyclicOn_of_older hl.older) (by simp) hout
    exact absurd hlen (Nat.not_lt.2 this)

end Surveyed

namespace Resolved

variable {body : Body} {a : Analysis} (h : g.Resolved body a) (hl : g.Layered)

include h hl

theorem usesIn_of_uses (hu : g.Uses body.roots t e) : 0 < a.usesIn g body e t := by
  cases hu with
  | root he => exact h.uses_root he
  | body hf hb he => exact h.uses_body_root ((h.surveyed.mem_iff _).2 hf) hb he
  | @child p _ hp hc =>
    have hpo := (h.surveyed.mem_iff p).2 hp
    obtain ⟨s, hs⟩ := h.exists_standsIn hpo
    rw [← h.scopeOf_eq_of_standsIn hpo (hl.inert_eq_false hc) hs] at hs
    exact h.uses_child hpo hc hs

/-- After an analysis, what is not inert is used inside the scope it was made in. -/
theorem within_of_usedIn (hi : (g.flagsOf e).inert = false) (hu : g.Uses body.roots t e) :
    g.isWithin t (g.scopeOf e) = true := by
  have he := (h.surveyed.mem_iff e).2 hu.reaches
  have huses := h.usesIn_of_uses hl hu
  cases hd : a.isDeclared e with
  | true => exact h.within_of_uses he (.inl hd) huses
  | false =>
    rw [(h.uses_of_undeclared he hd hi).2 t huses]
    exact h.sound.isWithin_refl _

end Resolved

end ScriptGraph.Graph
