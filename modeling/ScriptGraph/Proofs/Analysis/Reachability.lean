import ScriptGraph.Proofs.Builder.Soundness

/-!
# The nodes that a survey finds

* `Graph.Reaches` : the nodes that roots lead to;
* `Graph.Surveyed` : a list of exactly these nodes, each once, with their bodies built;
* `Builder.survey_surveyed` : the survey ends with such a list, or with a fault;
* `Builder.Surveyable.survey` : with the fault of a reachable function, where references are to
  existing nodes.
-/

namespace ScriptGraph

/-- The nodes that roots lead to, by parts and bodies. -/
inductive Graph.Reaches (g : Graph) (roots : List NodeId) : NodeId → Prop
  | root {e : NodeId} (h : e ∈ roots) : Reaches g roots e
  | step {e x : NodeId} (h : Reaches g roots e) (hx : x ∈ g.successors e) : Reaches g roots x

namespace Graph

theorem Reaches.grow {g g' : Graph} {roots : List NodeId} {e : NodeId} (h : g.Reaches roots e)
    (hg : g.Extends g') : g'.Reaches roots e := by
  induction h with
  | root h => exact .root h
  | step _ hx ih => exact .step ih (hg.successors_subset hx)

/-- A walk that has visited `order` and is to visit `queue`. -/
structure Walk (g : Graph) (roots order queue : List NodeId) : Prop where
  nodup : order.Nodup
  built : ∀ e ∈ order, g.Built e
  rooted : ∀ e ∈ roots, e ∈ order ∨ e ∈ queue
  closed : ∀ e ∈ order, ∀ x ∈ g.successors e, x ∈ order ∨ x ∈ queue
  reached : ∀ e, e ∈ order ∨ e ∈ queue → g.Reaches roots e

namespace Walk

variable {g g' : Graph} {roots order queue : List NodeId} {e : NodeId}

theorem start (g : Graph) (roots : List NodeId) : g.Walk roots [] roots where
  nodup := .nil
  built := fun _ h => nomatch h
  rooted := fun _ h => .inr h
  closed := fun _ h => nomatch h
  reached := fun _ h => .root (h.resolve_left List.not_mem_nil)

theorem grow (h : g.Walk roots order queue) (hg : g.Extends g') :
    g'.Walk roots order queue where
  nodup := h.nodup
  built := fun e he => hg.built (h.built e he)
  rooted := h.rooted
  closed := fun e he x hx => h.closed e he x (hg.successors_eq (h.built e he) ▸ hx)
  reached := fun e he => (h.reached e he).grow hg

/-- A node that was visited before is skipped. -/
theorem skip (h : g.Walk roots order (e :: queue)) (he : e ∈ order) :
    g.Walk roots order queue := by
  have hdrop : ∀ x, x ∈ order ∨ x ∈ e :: queue → x ∈ order ∨ x ∈ queue := by
    rintro x (hx | hx)
    · exact .inl hx
    · rcases List.mem_cons.1 hx with rfl | hx
      · exact .inl he
      · exact .inr hx
  exact {
    nodup := h.nodup
    built := h.built
    rooted := fun x hx => hdrop x (h.rooted x hx)
    closed := fun y hy x hx => hdrop x (h.closed y hy x hx)
    reached := fun x hx => h.reached x (hx.imp_right (List.mem_cons_of_mem e)) }

theorem visit (h : g.Walk roots order (e :: queue)) (he : e ∉ order) (hb : g.Built e) :
    g.Walk roots (order ++ [e]) (queue ++ g.successors e) := by
  have hmove : ∀ x, x ∈ order ∨ x ∈ e :: queue →
      x ∈ order ++ [e] ∨ x ∈ queue ++ g.successors e := by
    rintro x (hx | hx)
    · exact .inl (List.mem_append_left _ hx)
    · rcases List.mem_cons.1 hx with rfl | hx
      · exact .inl (by simp)
      · exact .inr (List.mem_append_left _ hx)
  have hreach : g.Reaches roots e := h.reached e (.inr List.mem_cons_self)
  refine ⟨?_, fun x hx => ?_, fun x hx => hmove x (h.rooted x hx), fun y hy x hx => ?_,
    fun x hx => ?_⟩
  · rw [List.nodup_append]
    refine ⟨h.nodup, by simp, ?_⟩
    rintro x hx y hy rfl
    exact he (List.mem_singleton.1 hy ▸ hx)
  · rcases List.mem_append.1 hx with hx | hx
    · exact h.built x hx
    · exact List.mem_singleton.1 hx ▸ hb
  · rcases List.mem_append.1 hy with hy | hy
    · exact hmove x (h.closed y hy x hx)
    · rw [List.mem_singleton.1 hy] at hx
      exact .inr (List.mem_append_right _ hx)
  · rcases hx with hx | hx <;> rcases List.mem_append.1 hx with hx | hx
    · exact h.reached x (.inl hx)
    · exact List.mem_singleton.1 hx ▸ hreach
    · exact h.reached x (.inr (List.mem_cons_of_mem e hx))
    · exact .step hreach hx

end Walk

/-- Exactly the reachable nodes, each once and with its body built. -/
structure Surveyed (g : Graph) (roots order : List NodeId) : Prop where
  sound : g.Sound
  nodup : order.Nodup
  built : ∀ e ∈ order, g.Built e
  mem_iff : ∀ e, e ∈ order ↔ g.Reaches roots e

theorem Walk.surveyed {g : Graph} {roots order : List NodeId} (h : g.Walk roots order [])
    (hg : g.Sound) : g.Surveyed roots order where
  sound := hg
  nodup := h.nodup
  built := h.built
  mem_iff e := by
    refine ⟨fun he => h.reached e (.inl he), fun he => ?_⟩
    induction he with
    | root he => exact (h.rooted _ he).resolve_right List.not_mem_nil
    | step _ hx ih => exact (h.closed _ ih _ hx).resolve_right List.not_mem_nil

namespace Surveyed

variable {g : Graph} {roots order : List NodeId} (h : g.Surveyed roots order) {e x : NodeId}

include h

theorem root_mem (he : e ∈ roots) : e ∈ order := (h.mem_iff e).2 (.root he)

theorem successor_mem (he : e ∈ order) (hx : x ∈ g.successors e) : x ∈ order :=
  (h.mem_iff x).2 (.step ((h.mem_iff e).1 he) hx)

theorem child_mem (he : e ∈ order) (hx : x ∈ g.children e) : x ∈ order :=
  h.successor_mem he (List.mem_append_left _ hx)

theorem body_mem {body : Body} (he : e ∈ order) (hb : g.body? e = some body)
    (hx : x ∈ body.roots) : x ∈ order :=
  h.successor_mem he (by rw [successors_of_body? hb]; exact hx)

theorem exists_body (he : e ∈ order) (hf : g.isFunction e = true) : ∃ body, g.body? e = some body :=
  (h.built e he).2.2 hf

theorem lt_size (he : e ∈ order) : e < g.size := (h.built e he).1

end Surveyed

end Graph

namespace Builder

variable {σ : Type}

theorem walk_force {b : Builder σ} {roots order rest : List NodeId} {f : NodeId} {body : Body}
    (hb : b.state.Sound) (hw : b.state.graph.Walk roots order (f :: rest)) (hf : f ∉ order)
    (hfun : b.state.graph.isFunction f = true) (hbody : (b.force f).1 = .ok body) :
    (b.force f).2.state.graph.Walk roots (order ++ [f]) (rest ++ body.roots) := by
  have hext := (b.force_leads f).extends hb
  have hbody' := force_ok hb hbody
  obtain ⟨arity, state, hk⟩ := Graph.isFunction_iff.1 (hext.isFunction hfun)
  obtain ⟨n, hn, _⟩ := Graph.kindOf?_eq_some.1 hk
  rw [← Graph.successors_of_body? hbody']
  exact (hw.grow hext).visit hf
    ⟨Graph.lt_size hn, by simp [Graph.isUnfilledSlot, hk], fun _ => ⟨body, hbody'⟩⟩

theorem walk_children {b : Builder σ} {roots order rest : List NodeId} {e : NodeId}
    (hw : b.state.graph.Walk roots order (e :: rest)) (he : e ∉ order)
    (hin : ¬b.state.graph.size ≤ e) (hslot : ¬b.state.graph.isUnfilledSlot e = true)
    (hfun : ¬b.state.graph.isFunction e = true) :
    b.state.graph.Walk roots (order ++ [e]) (rest ++ b.state.graph.children e) := by
  rw [Bool.not_eq_true] at hslot hfun
  rw [← Graph.successors_of_not_isFunction hfun]
  exact hw.visit he ⟨Nat.lt_of_not_le hin, hslot, fun hf => absurd hf (by simp [hfun])⟩

theorem survey_walk {b c : Builder σ} {roots order queue found : List NodeId}
    (hb : b.state.Sound) (hw : b.state.graph.Walk roots order queue)
    (h : b.survey order queue = (.ok found, c)) :
    c.state.graph.Walk roots found [] := by
  fun_induction survey b order queue with
  | case1 b order =>
    cases h
    exact hw
  | case2 b order e rest he ih => exact ih hb (hw.skip he) h
  | case3 | case4 => cases h
  | case5 => cases h
  | case6 b order e rest he hin hslot hfun body hforce ih =>
    exact ih ((b.force_leads e).sound hb) (walk_force hb hw he hfun hforce) h
  | case7 b order e rest he hin hslot hfun ih =>
    exact ih hb (walk_children hw he hin hslot hfun) h

/-- A survey that succeeds finds exactly the reachable nodes of the graph it leaves behind. -/
theorem surveyed_of_survey {b c : Builder σ} {roots order : List NodeId} (hb : b.state.Sound)
    (h : b.survey [] roots = (.ok order, c)) : c.state.graph.Surveyed roots order := by
  have hc : c.state.Sound := by
    have := (b.survey_leads [] roots).sound hb
    rwa [h] at this
  exact (survey_walk hb (.start _ roots) h).surveyed hc.graph

theorem survey_surveyed {b c : Builder σ} {roots order : List NodeId} (hb : b.Reached)
    (h : b.survey [] roots = (.ok order, c)) : c.state.graph.Surveyed roots order :=
  surveyed_of_survey hb.sound h

/-- Builders in which a survey meets existing nodes only, none of them an empty slot, as long as the
bodies that it asks for can be constructed. -/
structure Surveyable (I : Builder σ → Prop) : Prop where
  sound : ∀ b, I b → b.state.Sound
  filled : ∀ b e, I b → b.state.graph.isUnfilledSlot e = false
  children : ∀ b e, I b → ∀ c ∈ b.state.graph.children e, c < b.state.graph.size
  force : ∀ b f body, I b → b.state.graph.isFunction f = true → (b.force f).1 = .ok body →
    I (b.force f).2 ∧ ∀ r ∈ body.roots, r < (b.force f).2.state.graph.size

/-- Only a reachable function whose body cannot be constructed ends a survey. -/
theorem Surveyable.survey {I : Builder σ → Prop} (h : Surveyable I) {b : Builder σ}
    {roots order queue : List NodeId} (hb : I b) (hw : b.state.graph.Walk roots order queue)
    (hqueue : ∀ e ∈ queue, e < b.state.graph.size) :
    (∃ found, (b.survey order queue).1 = .ok found) ∧ I (b.survey order queue).2 ∨
      ∃ c f fault, I c ∧ c.state.graph.Reaches roots f ∧ c.state.graph.isFunction f = true ∧
        (c.force f).1 = .error fault ∧ (b.survey order queue).1 = .error fault := by
  fun_induction Builder.survey b order queue with
  | case1 b order => exact .inl ⟨⟨order, rfl⟩, hb⟩
  | case2 b order e rest he ih =>
    exact ih hb (hw.skip he) fun x hx => hqueue x (List.mem_cons_of_mem _ hx)
  | case3 b order e rest _ hin => exact absurd (hqueue e List.mem_cons_self) (Nat.not_lt.2 hin)
  | case4 b order e rest _ _ hslot => cases (h.filled b e hb).symm.trans hslot
  | case5 b order e rest _ _ _ hfun fault hfault =>
    exact .inr ⟨b, e, fault, hb, hw.reached e (.inr List.mem_cons_self), hfun, hfault, rfl⟩
  | case6 b order e rest he _ _ hfun body hbody ih =>
    obtain ⟨hforce, hroots⟩ := h.force b e body hb hfun hbody
    refine ih hforce (walk_force (h.sound b hb) hw he hfun hbody) fun x hx => ?_
    rcases List.mem_append.1 hx with hx | hx
    · exact Nat.lt_of_lt_of_le (hqueue x (List.mem_cons_of_mem _ hx))
        ((b.force_leads e).extends (h.sound b hb)).size_le
    · exact hroots x hx
  | case7 b order e rest he hin hslot hfun ih =>
    refine ih hb (walk_children hw he hin hslot hfun) fun x hx => ?_
    rcases List.mem_append.1 hx with hx | hx
    · exact hqueue x (List.mem_cons_of_mem _ hx)
    · exact h.children b e hb x hx

end Builder

end ScriptGraph
