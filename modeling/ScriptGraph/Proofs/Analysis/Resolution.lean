import ScriptGraph.Proofs.Analysis.Reachability
import ScriptGraph.Proofs.Analysis.Settling
import ScriptGraph.Proofs.Graph.Nesting

/-!
# What a successful analysis finds

* `Graph.Resolved` : an analysis of exactly the reachable nodes;
* `Builder.resolved_of_analyze`, `Builder.analyze_resolved` : every successful analysis of a builder
  is one;
* `Builder.exists_analysis` : when an analysis succeeds;
* `Analysis.usesIn` : how often a node is used in the text of a scope;
* `Analysis.StandsIn` : whether a node is written out in the text of a scope;
* `Graph.Resolved.usesIn_eq` : uses come from bodies and from the nodes that refer to a node;
* `Graph.Resolved.within_of_uses`, `Graph.Resolved.uses_of_undeclared` : what the decisions say
  about uses;
* `Graph.Resolved.found_scope` : the functions around a declaration, a parameter or a node that may
  not be written twice are reachable.
-/

namespace ScriptGraph

/-- An analysis of exactly the nodes that a body leads to. -/
structure Graph.Resolved (g : Graph) (body : Body) (a : Analysis) : Prop where
  surveyed : g.Surveyed body.roots a.order
  settled : g.settle body.roots a.order = .ok a.settled
  analysed : a = g.analysisOf a.order a.settled a.stem

theorem Builder.resolved_of_analyze {σ : Type} {b c : Builder σ} {body : Body} {stem : String}
    {a : Analysis} (hb : b.state.Sound) (h : b.analyze body stem = (.ok a, c)) :
    c.state.graph.Resolved body a := by
  unfold analyze at h
  split at h
  · cases h
  · rename_i order d hsurvey
    split at h
    · cases h
    · rename_i a' ha
      cases h
      unfold Graph.analysis at ha
      cases hs : d.state.graph.settle body.roots order with
      | error fault =>
        rw [hs] at ha
        cases ha
      | ok settled =>
        rw [hs] at ha
        cases ha
        have hfound : d.state.graph.Surveyed body.roots order := surveyed_of_survey hb hsurvey
        exact ⟨hfound, hs, rfl⟩

theorem Builder.analyze_resolved {σ : Type} {b c : Builder σ} {body : Body} {stem : String}
    {a : Analysis} (hb : b.Reached) (h : b.analyze body stem = (.ok a, c)) :
    c.state.graph.Resolved body a :=
  resolved_of_analyze hb.sound h

/-- Names are generated from the given stem. -/
theorem Builder.stem_of_analyze {σ : Type} {b c : Builder σ} {body : Body} {stem : String}
    {a : Analysis} (h : b.analyze body stem = (.ok a, c)) : a.stem = stem := by
  unfold analyze at h
  split at h
  · cases h
  · rename_i order d _
    unfold Graph.analysis at h
    cases hs : d.state.graph.settle body.roots order with
    | error fault =>
      rw [hs] at h
      cases h
    | ok settled =>
      rw [hs] at h
      cases h
      rfl

/-- An analysis succeeds if the walk through the graph and the decisions on its nodes do. -/
theorem Builder.exists_analysis {σ : Type} {b : Builder σ} (body : Body) (stem : String)
    {order : List NodeId} (hs : (b.survey [] body.roots).1 = .ok order)
    (hok : ((b.survey [] body.roots).2.state.graph.settle body.roots order).isOk = true) :
    ∃ a c, b.analyze body stem = (.ok a, c) ∧
      c.state.graph = (b.survey [] body.roots).2.state.graph := by
  rcases hb : b.survey [] body.roots with ⟨fault | order', c⟩
  · rw [hb] at hs
    cases hs
  · rw [hb] at hs hok
    cases hs
    cases hsettle : c.state.graph.settle body.roots order with
    | error fault =>
      rw [hsettle] at hok
      cases hok
    | ok settled =>
      have ha : c.state.graph.analysis body order stem =
          .ok (c.state.graph.analysisOf order settled stem) := by
        rw [Graph.analysis, hsettle]
        rfl
      simp only [analyze, hb, ha]
      exact ⟨_, _, rfl, rfl⟩

/-- How often `e` is used in the text of a scope. -/
def Analysis.usesIn (a : Analysis) (g : Graph) (body : Body) (e : NodeId) (t : Scope) : Nat :=
  g.exactLandings (g.bodies body.roots a.order) a.settled.reverse e t

/-- Whether `e` is written out in the text of a scope: in its own one if it is declared, and where
it is used if not. -/
def Analysis.StandsIn (a : Analysis) (g : Graph) (body : Body) (e : NodeId) (t : Scope) : Prop :=
  if a.isDeclared e then g.scopeOf e = t else 0 < a.usesIn g body e t

namespace Graph.Resolved

variable {g : Graph} {body : Body} {a : Analysis} (h : g.Resolved body a) {e p f : NodeId}
  {t : Scope}

include h

/-! ## Decisions -/

theorem sound : g.Sound := h.surveyed.sound

theorem settles : g.Settles (g.bodies body.roots a.order) a.order a.settled.reverse :=
  (settle_settles h.surveyed.nodup (fun _ hp _ hc => h.surveyed.child_mem hp hc) h.settled).1

theorem settled_perm : (a.settled.map (·.node)).Perm a.order :=
  (settle_settles h.surveyed.nodup (fun _ hp _ hc => h.surveyed.child_mem hp hc) h.settled).2

theorem mem_settled_iff : e ∈ a.settled.reverse.map (·.node) ↔ e ∈ a.order := by
  rw [List.map_reverse, List.mem_reverse]
  exact h.settled_perm.mem_iff

/-- What passes from all parents to a node holds of all reachable nodes. -/
theorem parents_first {P : NodeId → Prop}
    (step : ∀ e ∈ a.order, (∀ p ∈ a.order, e ∈ g.children p → P p) → P e) :
    ∀ e ∈ a.order, P e := fun e he =>
  h.settles.parents_first step e (h.mem_settled_iff.2 he)

/-- What passes from all children to a node holds of all reachable nodes. -/
theorem children_first {P : NodeId → Prop}
    (step : ∀ e ∈ a.order, (∀ c ∈ g.children e, P c) → P e) : ∀ e ∈ a.order, P e := fun e he =>
  h.settles.children_first (fun _ hp _ hc => h.surveyed.child_mem hp hc) step
    (fun _ hx hnot => absurd (h.mem_settled_iff.2 hx) hnot) e (h.mem_settled_iff.2 he)

theorem exists_settled (he : e ∈ a.order) : ∃ s ∈ a.settled, s.node = e :=
  List.mem_map.1 (h.settled_perm.mem_iff.2 he)

theorem mem_declared_iff :
    e ∈ a.declared ↔ ∃ s ∈ a.settled, s.node = e ∧ s.declared = true := by
  have heq : a.declared = Analysis.declaredNodes a.order a.settled := by
    conv_lhs => rw [h.analysed]
    rfl
  rw [heq, Analysis.declaredNodes]
  rw [List.mem_filter, List.contains_iff_mem, List.mem_map]
  constructor
  · rintro ⟨_, s, hs, hn⟩
    rw [List.mem_filter] at hs
    exact ⟨s, hs.1, hn, hs.2⟩
  · rintro ⟨s, hs, hn, hd⟩
    refine ⟨?_, s, List.mem_filter.2 ⟨hs, hd⟩, hn⟩
    rw [← h.settled_perm.mem_iff, ← hn]
    exact List.mem_map_of_mem hs

omit h in
theorem isDeclared_iff : a.isDeclared e = true ↔ e ∈ a.declared := by
  simp [Analysis.isDeclared]

theorem nodup_declared : a.declared.Nodup := by
  rw [h.analysed]
  exact h.surveyed.nodup.filter _

theorem mem_order_of_isDeclared (hd : a.isDeclared e = true) : e ∈ a.order := by
  obtain ⟨s, hs, rfl, _⟩ := h.mem_declared_iff.1 (isDeclared_iff.1 hd)
  exact h.settled_perm.mem_iff.1 (List.mem_map_of_mem hs)

theorem settled_inj {s s' : Settled} (hs : s ∈ a.settled) (hs' : s' ∈ a.settled)
    (hn : s.node = s'.node) : s = s' := by
  have hnodup := h.settled_perm.nodup_iff.2 h.surveyed.nodup
  exact List.inj_on_of_nodup_map hnodup hs hs' hn

theorem declared_eq {s : Settled} (hs : s ∈ a.settled) : s.declared = a.isDeclared s.node := by
  rw [Bool.eq_iff_iff, isDeclared_iff, h.mem_declared_iff]
  constructor
  · exact fun hd => ⟨s, hs, rfl, hd⟩
  · rintro ⟨s', hs', hn, hd⟩
    rw [h.settled_inj hs hs' hn.symm]
    exact hd

/-! ## Uses -/

/-- Uses come from bodies and from the nodes that refer to a node: from where a node stands that is
written inline, and from the scope of a declared one. -/
theorem usesIn_eq (e : NodeId) (t : Scope) : a.usesIn g body e t =
    rootCount (g.bodies body.roots a.order) e t +
      (a.order.map fun p => (g.children p).count e *
        if a.isDeclared p then (if g.scopeOf p = t then 1 else 0) else a.usesIn g body p t).sum := by
  unfold Analysis.usesIn
  rw [h.settles.exactLandings_eq]
  congr 1
  have hmap : (a.settled.reverse.map fun s => (g.children s.node).count e *
      if s.declared then (if g.scopeOf s.node = t then 1 else 0)
      else g.exactLandings (g.bodies body.roots a.order) a.settled.reverse s.node t) =
      (a.settled.reverse.map (·.node)).map fun p => (g.children p).count e *
        if a.isDeclared p then (if g.scopeOf p = t then 1 else 0)
        else g.exactLandings (g.bodies body.roots a.order) a.settled.reverse p t := by
    rw [List.map_map]
    apply List.map_congr_left
    intro s hs
    rw [Function.comp_apply, ← h.declared_eq (List.mem_reverse.1 hs)]
  rw [hmap]
  have hperm : (a.settled.reverse.map (·.node)).Perm a.order := by
    rw [List.map_reverse]
    exact (List.reverse_perm _).trans h.settled_perm
  exact (hperm.map _).sum_eq

theorem settled_landings {s : Settled} (hs : s ∈ a.settled) :
    s.landings.Proper ∧
      ∀ t, s.landings.countAt t = min (a.usesIn g body s.node t) Landings.cap := by
  obtain ⟨_, hp, hc, _⟩ := h.settles.decision (List.mem_reverse.2 hs)
  exact ⟨hp, hc⟩

theorem mem_scopes_iff {s : Settled} (hs : s ∈ a.settled) :
    t ∈ s.landings.scopes ↔ 0 < a.usesIn g body s.node t := by
  obtain ⟨hp, hc⟩ := h.settled_landings hs
  rw [hp.mem_scopes_iff, hc, Landings.cap]
  omega

/-- A declared node or a parameter is used inside its own scope only. -/
theorem within_of_uses (he : e ∈ a.order) (hd : a.isDeclared e = true ∨ g.isParameter e = true)
    (hu : 0 < a.usesIn g body e t) : g.isWithin t (g.scopeOf e) = true := by
  obtain ⟨s, hs, rfl⟩ := h.exists_settled he
  obtain ⟨_, _, _, hleak⟩ := h.settles.decision (List.mem_reverse.2 hs)
  refine hleak ?_ t ((h.mem_scopes_iff hs).2 hu)
  rw [Bool.or_eq_true, h.declared_eq hs]
  exact hd

theorem isDeclared_eq_mustDeclare {s : Settled} (hs : s ∈ a.settled) :
    a.isDeclared s.node = g.mustDeclare s.node s.landings := by
  have hdec := (h.settles.decision (List.mem_reverse.2 hs)).1
  rw [← h.declared_eq hs]
  exact congrArg Settled.declared hdec

/-- A node that is written inline although it may not be written twice is used at most once, in its
own scope. -/
theorem uses_of_undeclared (he : e ∈ a.order) (hd : a.isDeclared e = false)
    (hi : (g.flagsOf e).inert = false) :
    a.usesIn g body e (g.scopeOf e) ≤ 1 ∧ ∀ t, 0 < a.usesIn g body e t → t = g.scopeOf e := by
  obtain ⟨s, hs, rfl⟩ := h.exists_settled he
  obtain ⟨hp, hc⟩ := h.settled_landings hs
  have hmust := h.isDeclared_eq_mustDeclare hs
  rw [hd, mustDeclare, hi] at hmust
  have hmust' := hmust.symm
  simp only [Bool.not_false, Bool.true_and, Bool.or_eq_false_iff, decide_eq_false_iff_not,
    List.any_eq_false, bne_iff_ne, not_not] at hmust'
  obtain ⟨_, htotal, hscopes⟩ := hmust'
  constructor
  · have hle := Landings.countAt_le_total hp.nodup (g.scopeOf s.node)
    rw [hc] at hle
    simp only [Landings.cap] at htotal hle
    omega
  · exact fun t ht => hscopes t ((h.mem_scopes_iff hs).2 ht)

theorem isDeclared_of_pinned (he : e ∈ a.order) (hp : (g.flagsOf e).pinned = true) :
    a.isDeclared e = true := by
  obtain ⟨s, hs, rfl⟩ := h.exists_settled he
  rw [h.isDeclared_eq_mustDeclare hs, mustDeclare, hp, Bool.true_or]

theorem isDeclared_parameter (hp : g.isParameter p = true) : a.isDeclared p = false := by
  rw [← Bool.not_eq_true]
  intro hd
  obtain ⟨s, hs, rfl⟩ := h.exists_settled (h.mem_order_of_isDeclared hd)
  rw [h.isDeclared_eq_mustDeclare hs, mustDeclare, (h.sound.isParameter hp).1] at hd
  simp [Flags.literal] at hd

theorem not_isParameter_of_isDeclared (hd : a.isDeclared e = true) : g.isParameter e = false := by
  rw [← Bool.not_eq_true]
  intro hp
  rw [h.isDeclared_parameter hp] at hd
  cases hd

theorem uses_root (he : e ∈ body.roots) : 0 < a.usesIn g body e none := by
  have hmem : ((none : Scope), body.roots) ∈ g.bodies body.roots a.order := List.mem_cons_self
  have := List.count_pos_iff.2 he
  rw [h.usesIn_eq]
  exact Nat.add_pos_left (Nat.lt_of_lt_of_le this (count_le_rootCount hmem e)) _

theorem uses_body_root (hf : f ∈ a.order) {inner : Body} (hb : g.body? f = some inner)
    (he : e ∈ inner.roots) : 0 < a.usesIn g body e (some f) := by
  have hmem : (some f, inner.roots) ∈ g.bodies body.roots a.order := by
    refine List.mem_cons_of_mem _ (List.mem_filterMap.2 ⟨f, hf, ?_⟩)
    rw [hb]
    rfl
  have := List.count_pos_iff.2 he
  rw [h.usesIn_eq]
  exact Nat.add_pos_left (Nat.lt_of_lt_of_le this (count_le_rootCount hmem e)) _

theorem uses_child (hp : p ∈ a.order) (hc : e ∈ g.children p)
    (ht : a.StandsIn g body p t) : 0 < a.usesIn g body e t := by
  unfold Analysis.StandsIn at ht
  have hle : (g.children p).count e *
      (if a.isDeclared p then (if g.scopeOf p = t then 1 else 0) else a.usesIn g body p t) ≤
      (a.order.map fun p => (g.children p).count e *
        if a.isDeclared p then (if g.scopeOf p = t then 1 else 0) else a.usesIn g body p t).sum :=
    List.le_sum_of_mem (List.mem_map.2 ⟨p, hp, rfl⟩)
  have hpos : 0 < (g.children p).count e *
      (if a.isDeclared p then (if g.scopeOf p = t then 1 else 0) else a.usesIn g body p t) := by
    apply Nat.mul_pos (List.count_pos_iff.2 hc)
    by_cases hd : a.isDeclared p = true
    · rw [if_pos hd] at ht ⊢
      rw [if_pos ht]
      exact Nat.one_pos
    · rw [if_neg hd] at ht ⊢
      exact ht
  rw [h.usesIn_eq]
  omega

/-! ## Where text stands -/

omit h in
theorem standsIn_of_declared (hd : a.isDeclared e = true) :
    a.StandsIn g body e t ↔ g.scopeOf e = t := by
  rw [Analysis.StandsIn, if_pos hd]

omit h in
theorem standsIn_of_undeclared (hd : a.isDeclared e = false) :
    a.StandsIn g body e t ↔ 0 < a.usesIn g body e t := by
  rw [Analysis.StandsIn, hd]
  exact Iff.rfl

/-- A node that may not be written twice stands in its own scope. -/
theorem scopeOf_eq_of_standsIn (he : e ∈ a.order) (hi : (g.flagsOf e).inert = false)
    (ht : a.StandsIn g body e t) : g.scopeOf e = t := by
  cases hd : a.isDeclared e with
  | true => exact (standsIn_of_declared hd).1 ht
  | false => exact ((h.uses_of_undeclared he hd hi).2 t ((standsIn_of_undeclared hd).1 ht)).symm

theorem scopeOf_function (hf : f ∈ a.order) (hfun : g.isFunction f = true)
    (ht : a.StandsIn g body f t) : g.scopeOf f = t :=
  h.scopeOf_eq_of_standsIn hf (by rw [h.sound.flagsOf_function hfun]) ht

/-- Every reachable node is used in a scope that is written. -/
theorem exists_use (he : e ∈ a.order) :
    ∃ t, 0 < a.usesIn g body e t ∧ g.Found a.order t := by
  have hin : ∀ {e t}, e ∈ a.order → 0 < a.usesIn g body e t → g.Found a.order t →
      ∃ t', a.StandsIn g body e t' ∧ g.Found a.order t' := by
    intro e t he hu ht
    cases hd : a.isDeclared e with
    | true =>
      exact ⟨_, (standsIn_of_declared hd).2 rfl,
        ht.outer h.sound (h.within_of_uses he (.inl hd) hu)⟩
    | false => exact ⟨t, (standsIn_of_undeclared hd).2 hu, ht⟩
  induction (h.surveyed.mem_iff e).1 he with
  | root hr => exact ⟨none, h.uses_root hr, found_none g _⟩
  | @step p x hp hx ih =>
    have hpo : p ∈ a.order := (h.surveyed.mem_iff p).2 hp
    obtain ⟨t, hu, ht⟩ := ih hpo
    obtain ⟨t', hstand, ht'⟩ := hin hpo hu ht
    cases hb : g.body? p with
    | none =>
      rw [successors, hb] at hx
      exact ⟨t', h.uses_child hpo (by simpa using hx) hstand, ht'⟩
    | some inner =>
      rw [successors_of_body? hb] at hx
      rw [← h.scopeOf_function hpo (isFunction_of_body? hb) hstand] at ht'
      exact ⟨some p, h.uses_body_root hpo hb hx, ht'.function h.sound hpo⟩

theorem exists_standsIn (he : e ∈ a.order) : ∃ t, a.StandsIn g body e t := by
  cases hd : a.isDeclared e with
  | true => exact ⟨_, (standsIn_of_declared hd).2 rfl⟩
  | false =>
    obtain ⟨t, hu, _⟩ := h.exists_use he
    exact ⟨t, (standsIn_of_undeclared hd).2 hu⟩

/-- The functions around a declaration, a parameter or a node that may not be written twice are
reachable. -/
theorem found_scope (he : e ∈ a.order) (hd : a.isDeclared e = true ∨ g.isParameter e = true ∨
    (g.flagsOf e).inert = false) : g.Found a.order (g.scopeOf e) := by
  obtain ⟨t, hu, ht⟩ := h.exists_use he
  by_cases hleak : a.isDeclared e = true ∨ g.isParameter e = true
  · exact ht.outer h.sound (h.within_of_uses he hleak hu)
  · rw [not_or, Bool.not_eq_true] at hleak
    obtain hd | hd | hi := hd
    · exact absurd hd (by simp [hleak.1])
    · exact absurd hd hleak.2
    · rwa [← (h.uses_of_undeclared he hleak.1 hi).2 t hu]

theorem scope_mem (he : e ∈ a.order) (hd : a.isDeclared e = true ∨ g.isParameter e = true ∨
    (g.flagsOf e).inert = false) (hf : g.scopeOf e = some f) : f ∈ a.order :=
  (hf ▸ h.found_scope he hd).mem h.sound

end Graph.Resolved

end ScriptGraph
