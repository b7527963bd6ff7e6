import ScriptGraph.Proofs.Analysis.Reachability

/-!
# Walks through finished graphs

A survey builds bodies while it walks. The graph that it leaves behind can be walked through again
with nothing left to be built.

* `Graph.Visits` : the nodes that a walk visits, where all bodies are there;
* `Builder.visits_of_survey` : a survey visits the nodes of the graph that it leaves behind;
* `Builder.survey_of_visits` : where these are built, a survey finds them and changes nothing;
* `Builder.survey_of_bodies`, `Builder.graph_analyze_of_bodies` : where all bodies are there, nothing
  is built;
* `Builder.analyze_eq_ok` : what an analysis that succeeds consists of.
-/

namespace ScriptGraph

/-- A walk that has visited `order` and is to visit a queue ends when it has visited `found`. -/
inductive Graph.Visits (g : Graph) : List NodeId → List NodeId → List NodeId → Prop
  | done (order : List NodeId) : Visits g order [] order
  | skip {order queue found : List NodeId} {e : NodeId} (he : e ∈ order)
    (h : Visits g order queue found) : Visits g order (e :: queue) found
  | visit {order queue found : List NodeId} {e : NodeId} (he : e ∉ order)
    (h : Visits g (order ++ [e]) (queue ++ g.successors e) found) : Visits g order (e :: queue) found

theorem Graph.Visits.subset {g : Graph} {order queue found : List NodeId}
    (h : g.Visits order queue found) : order ⊆ found := by
  induction h with
  | done => exact List.Subset.refl _
  | skip _ _ ih => exact ih
  | visit _ _ ih => exact fun x hx => ih (List.mem_append_left _ hx)

namespace Builder

variable {σ : Type} {b c : Builder σ} {order queue found : List NodeId}

/-- A survey visits the nodes of the graph that it leaves behind, in the order of a walk. -/
theorem visits_of_survey (hb : b.state.Sound) (h : b.survey order queue = (.ok found, c)) :
    c.state.graph.Visits order queue found := by
  have hleads : ∀ (d : Builder σ) order queue, d.survey order queue = (.ok found, c) →
      d.state.Sound → d.state.graph.Extends c.state.graph := fun d order queue hd hs => by
    have hext := (d.survey_leads order queue).extends hs
    rwa [hd] at hext
  fun_induction survey b order queue with
  | case1 b order =>
    cases h
    exact .done _
  | case2 b order e rest he ih => exact .skip he (ih hb h)
  | case3 | case4 | case5 => cases h
  | case6 b order e rest he hin hslot hfun body hforce ih =>
    have hs := (b.force_leads e).sound hb
    have hbody := (hleads _ _ _ h hs).body?_eq (force_ok hb hforce)
    refine .visit he ?_
    rw [Graph.successors_of_body? hbody]
    exact ih hs h
  | case7 b order e rest he hin hslot hfun ih =>
    rw [Bool.not_eq_true] at hslot hfun
    have hbuilt : b.state.graph.Built e :=
      ⟨Nat.lt_of_not_le hin, hslot, fun hf => absurd hf (by simp [hfun])⟩
    refine .visit he ?_
    rw [(hleads _ _ _ h hb).successors_eq hbuilt, Graph.successors_of_not_isFunction hfun]
    exact ih hb h

theorem force_of_body? {f : NodeId} {body : Body} (h : b.state.graph.body? f = some body) :
    b.force f = (.ok body, b) := by
  obtain ⟨arity, hk⟩ := Graph.body?_eq_some.1 h
  exact force_answer (by rw [request, hk])

theorem survey_of_visits (h : b.state.graph.Visits order queue found)
    (hbuilt : ∀ e ∈ found, b.state.graph.Built e) : b.survey order queue = (.ok found, b) := by
  induction h with
  | done order => rw [survey]
  | skip he _ ih => rw [survey, dif_pos he, ih hbuilt]
  | @visit order queue found e he hrest ih =>
    obtain ⟨hlt, hslot, hbody⟩ := hbuilt e (hrest.subset (by simp))
    rw [survey, dif_neg he, dif_neg (Nat.not_le.2 hlt), if_neg (by simp [hslot])]
    by_cases hf : b.state.graph.isFunction e = true
    · obtain ⟨body, hbody⟩ := hbody hf
      have hih := ih hbuilt
      rw [Graph.successors_of_body? hbody] at hih
      rw [if_pos hf, force_of_body? hbody]
      exact hih
    · have hih := ih hbuilt
      rw [Graph.successors_of_not_isFunction (Bool.not_eq_true _ ▸ hf)] at hih
      rw [if_neg hf]
      exact hih

/-- Where the bodies of all reachable functions are there, a survey builds nothing. -/
theorem survey_of_bodies {roots order queue : List NodeId} (hb : b.state.Sound)
    (hw : b.state.graph.Walk roots order queue)
    (hbodies : ∀ f, b.state.graph.Reaches roots f → b.state.graph.isFunction f = true →
      ∃ inner, b.state.graph.body? f = some inner) : (b.survey order queue).2 = b := by
  fun_induction survey b order queue with
  | case1 | case3 | case4 => rfl
  | case2 b order e rest he ih => exact ih hb (hw.skip he) hbodies
  | case5 b order e rest _ _ _ hfun fault hforce =>
    obtain ⟨inner, hinner⟩ := hbodies e (hw.reached e (.inr List.mem_cons_self)) hfun
    rw [force_of_body? hinner]
  | case6 b order e rest he _ _ hfun body hforce ih =>
    obtain ⟨inner, hinner⟩ := hbodies e (hw.reached e (.inr List.mem_cons_self)) hfun
    have hwalk := walk_force hb hw he hfun hforce
    rw [force_of_body? hinner] at ih hwalk ⊢
    exact ih hb hwalk hbodies
  | case7 b order e rest he hin hslot hfun ih =>
    exact ih hb (walk_children hw he hin hslot hfun) hbodies

theorem graph_analyze_of_bodies {body : Body} {stem : String} {out : Except Fault Analysis}
    (hb : b.state.Sound)
    (hbodies : ∀ f, b.state.graph.Reaches body.roots f → b.state.graph.isFunction f = true →
      ∃ inner, b.state.graph.body? f = some inner)
    (h : b.analyze body stem = (out, c)) : c.state.graph = b.state.graph := by
  have hsurvey := survey_of_bodies hb (.start _ _) hbodies
  unfold analyze at h
  rcases hs : b.survey [] body.roots with ⟨fault | order, d⟩ <;> rw [hs] at h hsurvey
  · cases h
    exact congrArg (·.state.graph) hsurvey
  · dsimp only at h hsurvey
    subst hsurvey
    split at h <;> cases h <;> rfl

/-- An analysis that succeeds is a survey, the decisions on what it has found, and warnings. -/
theorem analyze_eq_ok {body : Body} {stem : String} {a : Analysis} :
    b.analyze body stem = (.ok a, c) ↔ ∃ d, b.survey [] body.roots = (.ok a.order, d) ∧
      d.state.graph.analysis body a.order stem = .ok a ∧
      c = d.warn ((d.state.graph.idleSlots a.order).map .slotNeverFilled) := by
  have horder : ∀ {g : Graph} {order : List NodeId}, g.analysis body order stem = .ok a →
      a.order = order := fun {g order} h => by
    unfold Graph.analysis at h
    cases hs : g.settle body.roots order with
    | error fault =>
      rw [hs] at h
      cases h
    | ok settled =>
      rw [hs] at h
      cases h
      rfl
  unfold analyze
  constructor
  · intro h
    split at h
    · cases h
    · rename_i order d hsurvey
      split at h
      · cases h
      · rename_i a' ha
        cases h
        obtain rfl := horder ha
        exact ⟨d, hsurvey, ha, rfl⟩
  · rintro ⟨d, hsurvey, ha, rfl⟩
    rw [hsurvey]
    dsimp only
    rw [ha]

end Builder

end ScriptGraph
