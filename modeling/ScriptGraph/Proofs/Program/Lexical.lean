import ScriptGraph.Program.Lowering
import ScriptGraph.Proofs.Builder.Bodies
import ScriptGraph.Proofs.Builder.Drafts
import ScriptGraph.Proofs.Graph.Visibility

/-!
# Builders in which all names are lexical

* `Builder.Sees` : a node that may be used in the current scope;
* `Builder.Lexical` : a builder made by lowering: references are lexical, a list of holes are its
  empty slots, and the bodies that are still to be built come from programs;
* `Builder.Lexical.append`, `Builder.Lexical.fill`, `Builder.Lexical.enter`,
  `Builder.Lexical.leave` : operations keep it so.
-/

namespace ScriptGraph

variable {σ : Type}

/-! ## Bodies of programs -/

/-- What a function's body is lowered from, inside the function. -/
def loweredBody (env : Bindings) (name : Option String) (params : List String)
    (definitions : List Definition) (body : Option Form) (f : NodeId) (args : List NodeId) :
    TryBuild σ Body :=
  withDefinitions (definitions.map Definition.name) (env.bindFunction name f params args)
    (fun env slots => fillDefinitions env slots definitions) (fun env => lowerForm env body)

/-- The recipe of `f`'s body is that of a function in a program, with names for nodes that may be
used where the function was made. -/
def Graph.Lowered (g : Graph) (f : NodeId) (r : Recipe σ) : Prop :=
  g.isFunction f = true ∧ ∃ env name params definitions body,
    (∀ p ∈ env, g.Sees (g.scopeOf f) p.2) ∧
      r = (loweredBody env name params definitions body f (g.params f)).recipe

namespace Graph

variable {g g' : Graph} {f : NodeId} {r : Recipe σ}

theorem Extends.params_eq (h : g.Extends g') (hf : g.isFunction f = true) :
    g'.params f = g.params f := by
  obtain ⟨arity, state, hk⟩ := isFunction_iff.1 hf
  obtain ⟨k', hk', hgrow⟩ := h.kind hk
  rw [params_of_kind hk]
  cases hgrow <;> exact params_of_kind hk'

theorem lt_size_of_isFunction (hf : g.isFunction f = true) : f < g.size := by
  obtain ⟨arity, state, hk⟩ := isFunction_iff.1 hf
  obtain ⟨n, hn, _⟩ := kindOf?_eq_some.1 hk
  exact lt_size hn

theorem Lowered.grow (h : g.Lowered f r) (hext : g.Extends g') (hg : g.Sound) (hg' : g'.Sound) :
    g'.Lowered f r := by
  obtain ⟨hf, env, name, params, definitions, body, henv, rfl⟩ := h
  have hlt := lt_size_of_isFunction hf
  refine ⟨hext.isFunction hf, env, name, params, definitions, body, fun p hp => ?_, ?_⟩
  · rw [hext.scopeOf_eq hlt]
    exact (henv p hp).grow hext hg hg' fun f' hf' => Nat.lt_trans (hg.scope_lt hf') hlt
  · rw [hext.params_eq hf]

end Graph

/-! ## Lexical builders -/

namespace Builder

/-- A node that may be used in the current scope. -/
def Sees (b : Builder σ) (e : NodeId) : Prop := b.state.graph.Sees b.state.scope e

/-- A builder that lowering leads to. The empty slots are those of the definitions whose values are
still to be lowered. -/
structure Lexical (b : Builder σ) (holes : List NodeId) : Prop where
  reached : b.Reached
  nested : b.state.graph.Nested
  nodup : holes.Nodup
  slots : ∀ e, b.state.graph.kindOf? e = some (.slot none) ↔ e ∈ holes
  scope : ∀ e ∈ holes, b.state.graph.scopeOf e = b.state.scope
  bodies : b.Supplied
  pending : ∀ p ∈ b.pending, b.state.graph.Lowered p.1 p.2

theorem Lexical.sound {b : Builder σ} {holes : List NodeId} (h : b.Lexical holes) :
    b.state.Sound := h.reached.sound

theorem Sees.leads {b c : Builder σ} {e : NodeId} (h : b.Sees e) (hb : b.state.Sound)
    (hc : b.Leads c) : c.Sees e := by
  have hscope : c.state.scope = b.state.scope := congrArg List.head? hc.2
  rw [Sees, hscope]
  exact Graph.Sees.grow h (hc.extends hb) hb.graph (hc.sound hb).graph fun f hf => (hb.scope hf).1

theorem lexical_empty (shared : σ) : (empty shared).Lexical [] where
  reached := reached_empty shared
  nested := ⟨fun e c hc => by simp [Graph.children, Graph.node?, empty] at hc,
    fun f body hb => by simp [Graph.body?, Graph.kindOf?, Graph.node?, empty] at hb⟩
  nodup := .nil
  slots e := by simp [Graph.kindOf?, Graph.node?, empty]
  scope _ h := nomatch h
  bodies f arity state h := by simp [Graph.kindOf?, Graph.node?, empty] at h
  pending _ h := nomatch h

namespace Lexical

variable {b c : Builder σ} {holes : List NodeId}

theorem lt_size_of_hole (h : b.Lexical holes) {e : NodeId} (he : e ∈ holes) :
    e < b.state.graph.size := by
  obtain ⟨n, hn, _⟩ := Graph.kindOf?_eq_some.1 ((h.slots e).2 he)
  exact Graph.lt_size hn

theorem append (h : b.Lexical holes) (hleads : b.Leads c) {recipes : List (NodeId × Recipe σ)}
    (hpending : c.pending = b.pending ++ recipes) (fresh : List NodeId) (hnodup : fresh.Nodup)
    (hold : ∀ e < b.state.graph.size, c.state.graph.node? e = b.state.graph.node? e)
    (hsees : ∀ e n, b.state.graph.size ≤ e → c.state.graph.node? e = some n →
      ∀ x ∈ n.template.filterMap Part.node?, c.state.graph.Sees n.scope x)
    (hfunction : ∀ e arity state, b.state.graph.size ≤ e →
      c.state.graph.kindOf? e = some (.function arity state) →
      state = .pending ∧ ∃ r, (e, r) ∈ recipes)
    (hfresh : ∀ e, e ∈ fresh ↔
      b.state.graph.size ≤ e ∧ c.state.graph.kindOf? e = some (.slot none))
    (hscope : ∀ e ∈ fresh, c.state.graph.scopeOf e = b.state.scope)
    (hrecipes : ∀ p ∈ recipes, c.state.graph.Lowered p.1 p.2) : c.Lexical (holes ++ fresh) := by
  have hs := h.sound
  have hext := hleads.extends hs
  have hc := hleads.reached h.reached
  have hcscope : c.state.scope = b.state.scope := congrArg List.head? hleads.2
  have hkind : ∀ e < b.state.graph.size, c.state.graph.kindOf? e = b.state.graph.kindOf? e :=
    fun e he => congrArg (Option.map Node.kind) (hold e he)
  refine ⟨hc, ?_, ?_, fun e => ?_, fun e he => ?_, ?_, fun p hp => ?_⟩
  · refine h.nested.append hext hs.graph hc.sound.graph hold hsees fun f body hf hb => ?_
    obtain ⟨arity, hk⟩ := Graph.body?_eq_some.1 hb
    exact nomatch (hfunction f arity _ hf hk).1
  · rw [List.nodup_append]
    refine ⟨h.nodup, hnodup, ?_⟩
    rintro e he _ hf rfl
    exact absurd (h.lt_size_of_hole he) (Nat.not_lt.2 ((hfresh e).1 hf).1)
  · rw [List.mem_append, hfresh, ← h.slots]
    rcases Nat.lt_or_ge e b.state.graph.size with he | he
    · rw [hkind e he]
      exact ⟨.inl, fun hor => hor.resolve_right fun hr => absurd he (Nat.not_lt.2 hr.1)⟩
    · refine ⟨fun hk => .inr ⟨he, hk⟩, fun hor => (hor.resolve_left fun hk => ?_).2⟩
      exact absurd (h.lt_size_of_hole ((h.slots e).1 hk)) (Nat.not_lt.2 he)
  · rw [hcscope]
    rcases List.mem_append.1 he with he | he
    · rw [hext.scopeOf_eq (h.lt_size_of_hole he)]
      exact h.scope e he
    · exact hscope e he
  · refine h.bodies.grow (hpending ▸ List.subset_append_left _ _) hleads.2 fun f arity state hk => ?_
    rcases Nat.lt_or_ge f b.state.graph.size with hf | hf
    · exact .inl ((hkind f hf).symm.trans hk)
    · obtain ⟨rfl, r, hr⟩ := hfunction f arity state hf hk
      exact .inr ⟨r, hpending ▸ List.mem_append_right _ hr⟩
  · rcases List.mem_append.1 (hpending ▸ hp) with hp | hp
    · exact (h.pending p hp).grow hext hs.graph hc.sound.graph
    · exact hrecipes p hp

variable (h : b.Lexical holes)

include h

theorem sees_create (draft : Draft) :
    (b.perform (.create draft)).Sees (b.state.create draft).1 := by
  obtain ⟨n, hn, hscope⟩ := BuilderState.create_answer h.reached.linked draft
  have hsound := (h.reached.perform (.create draft)).sound
  have hcurrent : (b.perform (.create draft)).state.scope = b.state.scope :=
    congrArg List.head? (b.state.create_scopes draft)
  refine ⟨Graph.lt_size hn, ?_⟩
  show Graph.isWithin _ _ (Graph.scopeOf (b.state.create draft).2.graph _) = true
  rw [Graph.scopeOf_of_node hn, hcurrent]
  rcases hscope with hscope | hscope <;> rw [hscope]
  · exact hsound.graph.isWithin_none _
  · exact hsound.graph.isWithin_refl _

/-- A node is made that refers to what may be used. An empty slot is a hole. -/
theorem create_append {draft : Draft} (hnodes : ∀ x ∈ draft.nodes, b.Sees x) (fresh : List NodeId)
    (hnodup : fresh.Nodup) (hfresh : ∀ e, e ∈ fresh ↔ draft = .slot ∧ e = b.state.graph.size) :
    (b.perform (.create draft)).Lexical (holes ++ fresh) := by
  have hleads := Leads.create b draft
  have hsound := (hleads.reached h.reached).sound
  have hscope : (b.perform (.create draft)).state.scope = b.state.scope :=
    congrArg List.head? hleads.2
  have hnew : ∀ e n, b.state.graph.size ≤ e →
      (b.perform (.create draft)).state.graph.node? e = some n →
      b.state.Makes draft (b.perform (.create draft)).state.graph e n := fun e n he hn =>
    BuilderState.create_new h.reached.linked draft he hn
  obtain ⟨m, hm, _⟩ := BuilderState.create_answer h.reached.linked draft
  refine h.append hleads (List.append_nil _).symm fresh hnodup
    (fun e he => BuilderState.create_old draft he) (fun e n he hn x hx => ?_)
    (fun e arity state he hk => ?_) (fun e => ?_) (fun e he => ?_) nofun
  · obtain ⟨hown, hx | ⟨m, hm, htop, _⟩⟩ := (hnew e n he hn).parts x hx
    · rw [hown, ← hscope]
      exact (hnodes x hx).leads h.sound hleads
    · refine ⟨Graph.lt_size hm, ?_⟩
      rw [Graph.scopeOf_of_node hm, htop]
      exact hsound.graph.isWithin_none _
  · obtain ⟨n, hn, hk⟩ := Graph.kindOf?_eq_some.1 hk
    exact absurd hk ((hnew e n he hn).kind arity state)
  · rw [hfresh]
    constructor
    · rintro ⟨rfl, rfl⟩
      refine ⟨Nat.le_refl _, ?_⟩
      rw [← (hnew _ m (Nat.le_refl _) hm).slot.2 rfl]
      exact Graph.kindOf?_of_node hm
    · rintro ⟨he, hk⟩
      obtain ⟨n, hn, hk⟩ := Graph.kindOf?_eq_some.1 hk
      have hslot := (hnew e n he hn).slot.1 hk
      exact ⟨hslot, ((hnew e n he hn).last hslot).1⟩
  · obtain ⟨rfl, rfl⟩ := (hfresh e).1 he
    exact (Graph.scopeOf_of_node hm).trans ((hnew _ m (Nat.le_refl _) hm).last rfl).2

theorem create {draft : Draft} (hdraft : draft ≠ .slot) (hnodes : ∀ x ∈ draft.nodes, b.Sees x) :
    (b.perform (.create draft)).Lexical holes := by
  have happend := h.create_append hnodes [] .nil fun e =>
    ⟨nofun, fun he => absurd he.1 hdraft⟩
  rwa [List.append_nil] at happend

theorem create_slot :
    (b.perform (.create .slot)).Lexical (holes ++ [b.state.graph.size]) :=
  h.create_append (fun _ hx => absurd hx List.not_mem_nil) _ (List.nodup_singleton _)
    fun e => by simp

/-- A function is made that is lowered when its body is asked for. -/
theorem function {env : Bindings} (henv : ∀ p ∈ env, b.Sees p.2) (name : Option String)
    (params : List String) (definitions : List Definition) (body : Option Form) :
    (b.perform (.function params.length fun me args =>
      (loweredBody env name params definitions body me args).recipe)).Lexical holes := by
  generalize hop : (Operation.function params.length fun me args =>
    (loweredBody env name params definitions body me args).recipe : Operation σ) = op
  have hleads : b.Leads (b.perform op) := hop ▸ .function b _ _
  have hgraph : (b.perform op).state.graph =
      b.state.graph.pushFunction b.state.scope params.length := by subst hop; rfl
  have hnew : ∀ e n, b.state.graph.size ≤ e → (b.perform op).state.graph.node? e = some n →
      (e = b.state.graph.size ∧ n = ⟨b.state.scope, {}, .function params.length .pending⟩) ∨
      ∃ i, n.kind = .parameter i := fun e n he hn =>
    BuilderState.eq_or_parameter_of_node?_pushFunction he (hgraph ▸ hn)
  have hf : (b.perform op).state.graph.node? b.state.graph.size =
      some ⟨b.state.scope, {}, .function params.length .pending⟩ := hop ▸ b.node?_function _ _
  have hpending : (b.perform op).pending = b.pending ++ [(b.state.graph.size,
      (loweredBody env name params definitions body b.state.graph.size
        ((b.perform op).state.graph.params b.state.graph.size)).recipe)] := by subst hop; rfl
  have happend := h.append hleads hpending [] .nil (fun e he => ?_)
    (fun e n he hn x hx => ?_) (fun e arity state he hk => ?_) (fun e => ?_) (List.forall_mem_nil _)
      (fun p hp => ?_)
  · rwa [List.append_nil] at happend
  · rw [hgraph, Graph.node?_pushFunction, if_pos he]
  · rcases hnew e n he hn with ⟨_, rfl⟩ | ⟨i, hi⟩
    · cases hx
    · simp [Node.template, hi] at hx
  · obtain ⟨n, hn, hk⟩ := Graph.kindOf?_eq_some.1 hk
    rcases hnew e n he hn with ⟨rfl, rfl⟩ | ⟨i, hi⟩
    · cases hk
      exact ⟨rfl, _, List.mem_singleton_self _⟩
    · rw [hi] at hk
      cases hk
  · refine ⟨fun he => absurd he List.not_mem_nil, fun h => ?_⟩
    obtain ⟨he, hk⟩ := h
    obtain ⟨n, hn, hk⟩ := Graph.kindOf?_eq_some.1 hk
    rcases hnew e n he hn with ⟨_, rfl⟩ | ⟨i, hi⟩
    · cases hk
    · rw [hi] at hk
      cases hk
  · rw [List.mem_singleton] at hp
    subst hp
    refine ⟨Graph.isFunction_iff.2 ⟨_, _, Graph.kindOf?_of_node hf⟩, env, name, params,
      definitions, body, fun p hp => ?_, rfl⟩
    have hscope : (b.perform op).state.scope = b.state.scope := congrArg List.head? hleads.2
    rw [Graph.scopeOf_of_node hf, ← hscope]
    exact (henv p hp).leads h.sound hleads

theorem sees_function (arity : Nat) (body : NodeId → List NodeId → Recipe σ) :
    (b.perform (.function arity body)).Sees b.state.graph.size := by
  have hf := b.node?_function arity body
  refine ⟨Graph.lt_size hf, ?_⟩
  rw [Graph.scopeOf_of_node hf]
  exact (h.reached.perform (.function arity body)).sound.graph.isWithin_refl _

theorem fill {slot target : NodeId} {rest : List NodeId} (hs : holes = slot :: rest)
    (ht : b.Sees target) : (b.perform (.fill slot target)).Lexical rest := by
  have hmem : slot ∈ holes := hs ▸ List.mem_cons_self
  have hk : b.state.graph.kindOf? slot = some (.slot none) := (h.slots slot).2 hmem
  have hleads := Leads.fill b slot target
  have hgraph : (b.perform (.fill slot target)).state.graph =
      b.state.graph.setKind slot (.slot (some target)) := by
    show (b.state.fill slot target).2.graph = _
    rw [BuilderState.fill, hk]
  have hkind : ∀ e, e ≠ slot →
      (b.perform (.fill slot target)).state.graph.kindOf? e = b.state.graph.kindOf? e :=
    fun e he => by rw [hgraph, Graph.kindOf?_setKind_of_ne he]
  have hslot : (b.perform (.fill slot target)).state.graph.kindOf? slot =
      some (.slot (some target)) := by rw [hgraph, Graph.kindOf?_setKind_self hk]
  have hext := hleads.extends h.sound
  have hc := hleads.reached h.reached
  have hnodup := h.nodup
  rw [hs, List.nodup_cons] at hnodup
  refine ⟨hc, ?_, hnodup.2, fun e => ?_, fun e he => ?_, ?_, fun p hp => ?_⟩
  · rw [hgraph]
    refine h.nested.setKind h.sound.graph hk (.fill target) (fun n hn x hx => ?_) (by simp)
    simp only [Node.template, hn, List.filterMap_cons, Part.node?, List.filterMap_nil,
      List.mem_singleton] at hx
    rw [hx, h.scope slot hmem]
    exact ht
  · by_cases he : e = slot
    · subst he
      rw [hslot]
      exact ⟨by simp, fun hmem => absurd hmem hnodup.1⟩
    · rw [hkind e he, h.slots, hs, List.mem_cons]
      exact ⟨fun hor => hor.resolve_left he, .inr⟩
  · have hmem : e ∈ holes := hs ▸ List.mem_cons_of_mem _ he
    rw [hext.scopeOf_eq (h.lt_size_of_hole hmem), h.scope e hmem]
    exact (congrArg List.head? hleads.2).symm
  · refine h.bodies.grow (List.Subset.refl _) hleads.2 fun f arity state hf => .inl ?_
    have hne : f ≠ slot := by
      rintro rfl
      rw [hslot] at hf
      cases hf
    exact hkind f hne ▸ hf
  · exact (h.pending p hp).grow hext h.sound.graph hc.sound.graph

end Lexical

/-! ## Constructing bodies -/

namespace Lexical

variable {b c : Builder σ} {f : NodeId} {recipe : Recipe σ}

theorem advance (h : b.Lexical []) (hc : c.Reached) {arity : Nat} {state state' : BodyState}
    (hk : b.state.graph.kindOf? f = some (.function arity state))
    (hgraph : c.state.graph = b.state.graph.setBodyState f state')
    (hstage : state.stage < state'.stage)
    (hroots : ∀ body, state' = .ready body → ∀ r ∈ body.roots, b.state.graph.Sees (some f) r)
    (hbodies : c.Supplied) (hpending : c.pending ⊆ b.pending) : c.Lexical [] := by
  rw [Graph.setBodyState_eq hk] at hgraph
  have hgrow : (Kind.function arity state).Grows (.function arity state') := .advance hstage
  have hext : b.state.graph.Extends c.state.graph := hgraph ▸ Graph.extends_setKind hk hgrow
  have hf : c.state.graph.kindOf? f = some (.function arity state') := by
    rw [hgraph, Graph.kindOf?_setKind_self hk]
  have hkind : ∀ e, e ≠ f → c.state.graph.kindOf? e = b.state.graph.kindOf? e :=
    fun e he => by rw [hgraph, Graph.kindOf?_setKind_of_ne he]
  refine ⟨hc, ?_, .nil, fun e => ?_, List.forall_mem_nil _, hbodies, fun p hp => ?_⟩
  · rw [hgraph]
    refine h.nested.setKind h.sound.graph hk hgrow (fun n hn x hx => ?_) (fun _ body heq => ?_)
    · simp [Node.template, hn] at hx
    · cases heq
      exact hroots body rfl
  · by_cases he : e = f
    · subst he
      simp [hf]
    · rw [hkind e he]
      exact h.slots e
  · exact (h.pending p (hpending hp)).grow hext h.sound.graph hc.sound.graph

theorem enter (h : b.Lexical []) (hreq : b.request f = .construct recipe c) :
    c.Lexical [] ∧ c.state.graph.Lowered f recipe := by
  have hc := h.reached.enter hreq
  obtain ⟨⟨arity, hk⟩, hstate⟩ := request_construct hreq
  obtain ⟨hmem, hsub⟩ := mem_of_request hreq
  have hstage : BodyState.pending.stage < BodyState.building.stage := Nat.one_pos
  have hext : b.state.graph.Extends c.state.graph := hstate ▸ (h.sound.enter hk).2
  exact ⟨h.advance hc hk (congrArg _ hstate) hstage (by simp) (h.bodies.enter hreq) hsub,
    (h.pending _ hmem).grow hext h.sound.graph hc.sound.graph⟩

theorem leave (h : b.Lexical []) {rest : List NodeId} (hscopes : b.state.scopes = f :: rest)
    {body : Body} (hroots : ∀ r ∈ body.roots, b.Sees r) : (b.leave f (.ok body)).Lexical [] := by
  have hc := h.reached.leave hscopes (.ok body)
  obtain ⟨arity, hk⟩ := h.sound.building f (hscopes ▸ List.mem_cons_self)
  have hscope : b.state.scope = some f := congrArg List.head? hscopes
  have hstage : BodyState.building.stage < (BodyState.ready body).stage := Nat.lt_add_one 1
  refine h.advance hc hk rfl hstage (fun body' heq => ?_) (h.bodies.leave h.sound hscopes body)
    (List.Subset.refl _)
  cases heq
  exact hscope ▸ hroots

end Lexical

end Builder

end ScriptGraph
