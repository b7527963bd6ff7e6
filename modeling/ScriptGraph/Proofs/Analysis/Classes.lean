import ScriptGraph.Proofs.Analysis.Resolution

/-!
# What nodes have because of the nodes they refer to

* `Graph.gather` : the nodes of a list with a property of their own, or with one that passes to them
  from nodes further down the list;
* `Graph.classify_awaiting`, `Graph.classify_dependent` : both classes of an analysis are gathered;
* `Graph.Resolved.mem_awaiting_iff`, `Graph.Resolved.mem_dependent_iff` : what this comes to for
  reachable nodes;
* `Graph.Resolved.suspends_iff`, `Graph.Resolved.suspends_of_standsIn` : a scope suspends where an
  awaited node is made or written.
-/

namespace ScriptGraph

namespace Graph

/-- The nodes with a property of their own, or which refer to a later one that passes it on. -/
def gather (g : Graph) (own passes : NodeId → Bool) : List NodeId → List NodeId
  | [] => []
  | e :: rest =>
    let below := gather g own passes rest
    if own e || (g.children e).any fun c => passes c && below.contains c then e :: below else below

theorem classify_awaiting (g : Graph) (declared es : List NodeId) :
    (g.classify declared es).awaiting =
      g.gather (fun e => (g.flagsOf e).awaits) (fun c => !declared.contains c) es := by
  induction es with
  | nil => rfl
  | cons e es ih => rw [classify, gather, ← ih]

theorem classify_dependent (g : Graph) (declared es : List NodeId) :
    (g.classify declared es).dependent =
      g.gather (fun e => (g.flagsOf e).readsResource) (fun _ => true) es := by
  induction es with
  | nil => rfl
  | cons e es ih =>
    rw [classify, gather, ← ih]
    simp only [Bool.true_and]

section Gather

variable {g : Graph} {own passes : NodeId → Bool} {e : NodeId} {es earlier rest : List NodeId}

theorem gather_subset : g.gather own passes es ⊆ es := by
  induction es with
  | nil => exact List.Subset.refl _
  | cons e es ih =>
    rw [gather]
    split
    · exact List.cons_subset_cons e ih
    · exact List.subset_cons_of_subset e ih

theorem mem_gather_append (he : e ∉ earlier) :
    e ∈ g.gather own passes (earlier ++ rest) ↔ e ∈ g.gather own passes rest := by
  induction earlier with
  | nil => exact Iff.rfl
  | cons x earlier ih =>
    rw [List.mem_cons, not_or] at he
    obtain ⟨hne, he⟩ := he
    rw [List.cons_append, gather]
    split
    · rw [List.mem_cons, ih he, or_iff_right hne]
    · exact ih he

theorem mem_gather_cons (he : e ∉ rest) : e ∈ g.gather own passes (e :: rest) ↔
    own e = true ∨ ∃ c ∈ g.children e, passes c = true ∧ c ∈ g.gather own passes rest := by
  have hbelow : e ∉ g.gather own passes rest := fun h => he (gather_subset h)
  rw [gather]
  split
  · rename_i h
    simpa using h
  · rename_i h
    simpa [hbelow] using h

/-- Where nodes are listed after those that refer to them, all of them pass on what they have. -/
theorem mem_gather_iff (hnodup : es.Nodup)
    (hafter : ∀ earlier rest, es = earlier ++ e :: rest → ∀ c ∈ g.children e, c ∉ earlier ++ [e])
    (he : e ∈ es) : e ∈ g.gather own passes es ↔
      own e = true ∨ ∃ c ∈ g.children e, passes c = true ∧ c ∈ g.gather own passes es := by
  obtain ⟨earlier, rest, rfl⟩ := List.append_of_mem he
  have hnew := List.nodup_middle.1 hnodup
  obtain ⟨hnew, -⟩ := List.nodup_cons.1 hnew
  rw [List.mem_append, not_or] at hnew
  rw [mem_gather_append hnew.1, mem_gather_cons hnew.2]
  refine or_congr_right (exists_congr fun c => and_congr_right fun hc => and_congr_right fun _ => ?_)
  rw [← mem_gather_append (hafter earlier rest rfl c hc), List.append_assoc]
  rfl

end Gather

namespace Resolved

variable {g : Graph} {body : Body} {a : Analysis} (h : g.Resolved body a) {e : NodeId} {t : Scope}

include h

theorem not_mem_of_child {earlier rest : List NodeId}
    (hsplit : a.settled.map (·.node) = earlier ++ e :: rest) :
    ∀ c ∈ g.children e, c ∉ earlier ++ [e] := by
  obtain ⟨before, after, hsettled, rfl, hafter⟩ := List.map_eq_append_iff.1 hsplit
  obtain ⟨s, after, rfl, rfl, rfl⟩ := List.map_eq_cons_iff.1 hafter
  have hsettles := h.settles
  rw [hsettled, List.reverse_append, List.reverse_cons, List.append_assoc] at hsettles
  intro c hc hmem
  refine hsettles.of_append.not_mem_children (e := c) ?_ hc
  simpa [or_comm] using hmem

theorem mem_gather_iff {own passes : NodeId → Bool} (he : e ∈ a.order) :
    e ∈ g.gather own passes (a.settled.map (·.node)) ↔
      own e = true ∨ ∃ c ∈ g.children e, passes c = true ∧
        c ∈ g.gather own passes (a.settled.map (·.node)) :=
  Graph.mem_gather_iff (h.settled_perm.nodup_iff.2 h.surveyed.nodup)
    (fun _ _ => h.not_mem_of_child) (h.settled_perm.mem_iff.2 he)

theorem classes_eq : a.classes = g.classify a.declared (a.settled.map (·.node)) := by
  rw [h.analysed]
  rfl

/-- A node awaits inline if it is awaited itself, or refers to one that does and is written out
within it. -/
theorem mem_awaiting_iff (he : e ∈ a.order) : e ∈ a.classes.awaiting ↔
    (g.flagsOf e).awaits = true ∨
      ∃ c ∈ g.children e, a.isDeclared c = false ∧ c ∈ a.classes.awaiting := by
  rw [h.classes_eq, classify_awaiting, h.mem_gather_iff he]
  simp only [Bool.not_eq_true', Analysis.isDeclared]

theorem mem_dependent_iff (he : e ∈ a.order) : e ∈ a.classes.dependent ↔
    (g.flagsOf e).readsResource = true ∨ ∃ c ∈ g.children e, c ∈ a.classes.dependent := by
  rw [h.classes_eq, classify_dependent, h.mem_gather_iff he]
  simp only [true_and]

/-- A scope suspends because of an awaited node that was made in it, or lands in it undeclared. -/
theorem suspends_iff : a.suspends t = true ↔ ∃ e ∈ a.order, (g.flagsOf e).awaits = true ∧
    (g.scopeOf e = t ∨ a.isDeclared e = false ∧ 0 < a.usesIn g body e t) := by
  have hsuspending : a.suspending = a.settled.flatMap g.suspendedBy := by
    conv_lhs => rw [h.analysed]
    rfl
  have hcause : ∀ s ∈ a.settled, t ∈ g.suspendedBy s ↔ (g.flagsOf s.node).awaits = true ∧
      (g.scopeOf s.node = t ∨ a.isDeclared s.node = false ∧ 0 < a.usesIn g body s.node t) := by
    intro s hs
    rw [suspendedBy, h.declared_eq hs]
    by_cases hw : (g.flagsOf s.node).awaits = true
    · rw [if_pos hw, List.mem_cons, and_iff_right hw, eq_comm]
      cases hd : a.isDeclared s.node <;> simp [h.mem_scopes_iff hs]
    · simp [hw]
  rw [Analysis.suspends, List.contains_iff_mem, hsuspending, List.mem_flatMap]
  constructor
  · rintro ⟨s, hs, ht⟩
    exact ⟨s.node, h.settled_perm.mem_iff.1 (List.mem_map_of_mem hs), (hcause s hs).1 ht⟩
  · rintro ⟨e, he, ht⟩
    obtain ⟨s, hs, rfl⟩ := h.exists_settled he
    exact ⟨s, hs, (hcause s hs).2 ht⟩

theorem suspends_of_standsIn (he : e ∈ a.order) (hw : (g.flagsOf e).awaits = true)
    (ht : a.StandsIn g body e t) : a.suspends t = true := by
  refine h.suspends_iff.2 ⟨e, he, hw, ?_⟩
  cases hd : a.isDeclared e with
  | true => exact .inl ((standsIn_of_declared hd).1 ht)
  | false => exact .inr ⟨rfl, (standsIn_of_undeclared hd).1 ht⟩

end Resolved

end Graph

end ScriptGraph
