import ScriptGraph.Proofs.Builder.Creation
import ScriptGraph.Proofs.Builder.History

/-!
# How bodies are constructed

In the history of a run, what happens fits what has happened before.

* `running` : the functions under construction after some events, innermost first;
* `Node.MadeIn` : where a new node belongs;
* `Event.Fits`, `Conducted` : what is asked of each event;
* `Builder.Recorded` : a builder is as its past says; kept by each event, and so by `Builder.Runs`;
* `Builder.conducted_of_run` : every history of a run is conducted this way.
-/

namespace ScriptGraph

variable {σ : Type}

/-! ## What is asked of a history -/

def runningAfter (fs : List NodeId) : Event σ → List NodeId
  | .started f => f :: fs
  | .ended _ _ => fs.tail
  | _ => fs

/-- The functions whose construction has begun and not ended, innermost first. -/
def running (past : List (Event σ)) : List NodeId := past.foldl runningAfter []

/-- A node that is made while `scope` is under construction belongs to it. The exceptions are the
stores, which belong to the top level, and the parameters of a function that is made there. -/
inductive Node.MadeIn (g : Graph) (first : NodeId) (scope : Scope) (e : NodeId) (n : Node) : Prop
  | own (h : n.scope = scope)
  | store (hkind : n.kind.isStore = true) (h : n.scope = none)
  | parameter {f : NodeId} (hnew : first ≤ f) (hf : g.scopeOf f = scope) (hparam : e ∈ g.params f)
    (h : n.scope = some f)

/-- What is asked of an event after a past. -/
def Event.Fits (past : List (Event σ)) : Event σ → Prop
  | .performed op before => ∀ e n, (before.perform op).state.graph.node? e = some n →
    before.state.graph.size ≤ e → n.MadeIn (before.perform op).state.graph
      before.state.graph.size (running past).head? e
  | .started f => Event.started f ∉ past
  | .ended f _ => (running past).head? = some f
  | .answered f answer before after => after.state.scope = before.state.scope ∧
    (∀ outcome, Event.ended f outcome ∈ past → answer = outcome) ∧
    (f ∈ running past →
      (∃ fault, answer = .error fault ∧ fault.code = "Z-ERR-BODY-001") ∧ after = before)

/-- Every event fits what happened before it. -/
def Conducted (hist : List (Event σ)) : Prop :=
  ∀ past event later, hist = past ++ event :: later → event.Fits past

@[simp] theorem running_concat (past : List (Event σ)) (event : Event σ) :
    running (past ++ [event]) = runningAfter (running past) event := by
  rw [running, List.foldl_append]
  rfl

theorem Conducted.nil : Conducted ([] : List (Event σ)) :=
  fun past event later h => absurd h.symm (by simp)

theorem Conducted.concat {past : List (Event σ)} {event : Event σ} (h : Conducted past)
    (hfits : event.Fits past) : Conducted (past ++ [event]) := by
  intro past' event' later heq
  rcases List.eq_nil_or_concat later with rfl | ⟨later, last, rfl⟩
  · obtain ⟨rfl, hlast⟩ := List.append_inj' heq rfl
    cases hlast
    exact hfits
  · rw [List.concat_eq_append, ← List.cons_append, ← List.append_assoc] at heq
    exact h past' event' later (List.append_inj' heq rfl).1

/-! ## New nodes -/

namespace BuilderState

variable {s : BuilderState σ} {e : NodeId} {n : Node} {g : Graph}

theorem create_madeIn (draft : Draft) (h : s.graph.size ≤ e)
    (hn : (s.create draft).2.graph.node? e = some n) : n.MadeIn g s.graph.size s.scope e := by
  cases draft with
  | ident name =>
    simp only [create] at hn
    split at hn <;> obtain ⟨_, rfl⟩ := eq_of_node?_push h hn <;> exact .own rfl
  | moduleStore =>
    rw [moduleStore_new h hn]
    exact .store rfl rfl
  | resourceStore =>
    rw [resourceStore_new h hn]
    exact .store rfl rfl
  | module address =>
    by_cases hlt : e < s.moduleStore.2.graph.size
    · rw [moduleStore_new h ((make_old _ hlt).symm.trans hn)]
      exact .store rfl rfl
    · obtain ⟨_, rfl⟩ := eq_of_node?_push (Nat.not_lt.1 hlt) hn
      exact .own (congrArg List.head? s.moduleStore_scopes)
  | resource key value =>
    by_cases hlt : e < s.resourceStore.2.graph.size
    · rw [resourceStore_new h ((make_old _ hlt).symm.trans hn)]
      exact .store rfl rfl
    · obtain ⟨_, rfl⟩ := eq_of_node?_push (Nat.not_lt.1 hlt) hn
      exact .own (congrArg List.head? s.resourceStore_scopes)
  | _ =>
    obtain ⟨_, rfl⟩ := eq_of_node?_push h hn
    exact .own rfl

theorem makeFunction_madeIn (arity : Nat) (h : s.graph.size ≤ e)
    (hn : (s.makeFunction arity).2.graph.node? e = some n) :
    n.MadeIn (s.makeFunction arity).2.graph s.graph.size s.scope e := by
  have hfun : (s.makeFunction arity).2.graph.node? s.graph.size =
      some ⟨s.scope, {}, .function arity .pending⟩ :=
    (s.graph.node?_pushFunction ..).trans (by rw [if_neg (Nat.lt_irrefl _), if_pos rfl])
  change (s.graph.pushFunction s.scope arity).node? e = _ at hn
  rw [Graph.node?_pushFunction, if_neg (Nat.not_lt.2 h)] at hn
  by_cases he : e = s.graph.size
  · rw [if_pos he] at hn
    cases hn
    exact .own rfl
  · rw [if_neg he] at hn
    split at hn
    · rename_i hlt
      cases hn
      refine .parameter (Nat.le_refl _) (Graph.scopeOf_of_node hfun) ?_ rfl
      have hgt : s.graph.size + 1 ≤ e := Nat.lt_of_le_of_ne h (Ne.symm he)
      rw [Graph.params_of_kind (Graph.kindOf?_of_node hfun), List.mem_range'_1]
      exact ⟨hgt, (Nat.sub_lt_iff_lt_add' hgt).1 hlt⟩
    · cases hn

theorem size_fill (s : BuilderState σ) (slot target : NodeId) :
    (s.fill slot target).2.graph.size = s.graph.size := by
  unfold fill
  split
  · exact Graph.size_setKind ..
  · rfl
  · rfl

end BuilderState

namespace Builder

theorem perform_madeIn (b : Builder σ) {op : Operation σ} (hop : op.Flat) {e : NodeId} {n : Node}
    (hn : (b.perform op).state.graph.node? e = some n) (h : b.state.graph.size ≤ e) :
    n.MadeIn (b.perform op).state.graph b.state.graph.size b.state.scope e := by
  have hold : ¬(b.perform op).state.graph.size ≤ b.state.graph.size := fun hle =>
    Nat.not_lt.2 (hle.trans h) (Graph.lt_size hn)
  cases op with
  | create draft => exact BuilderState.create_madeIn draft h hn
  | function arity body => exact BuilderState.makeFunction_madeIn arity h hn
  | fill slot target => exact absurd (b.state.size_fill slot target).le hold
  | share update | memoize i x | warn ws => exact absurd (Nat.le_refl _) hold
  | enter f | leave outcome => exact hop.elim

end Builder

/-! ## Builders with a past -/

/-- The state of a body whose construction has ended. -/
def settledState : Except Fault Body → BodyState
  | .ok body => .ready body
  | .error fault => .failed fault

theorem Graph.Extends.settled {g g' : Graph} (h : g.Extends g') {f : NodeId} {arity : Nat}
    {outcome : Except Fault Body}
    (hk : g.kindOf? f = some (.function arity (settledState outcome))) :
    g'.kindOf? f = some (.function arity (settledState outcome)) := by
  obtain ⟨k', hk', hgrow⟩ := h.kind hk
  cases hgrow with
  | refl => exact hk'
  | @advance _ _ state' hlt =>
    cases outcome <;> cases state' <;> simp [settledState, BodyState.stage] at hlt

theorem Graph.Extends.begun {g g' : Graph} (h : g.Extends g') {f : NodeId}
    (hk : ∃ arity state, g.kindOf? f = some (.function arity state) ∧ 0 < state.stage) :
    ∃ arity state, g'.kindOf? f = some (.function arity state) ∧ 0 < state.stage := by
  obtain ⟨arity, state, hk, hstage⟩ := hk
  obtain ⟨k', hk', hgrow⟩ := h.kind hk
  cases hgrow with
  | refl => exact ⟨arity, state, hk', hstage⟩
  | advance hlt => exact ⟨arity, _, hk', Nat.lt_trans hstage hlt⟩

namespace Builder

variable {b c d e : Builder σ} {f : NodeId} {past : List (Event σ)} {outcome : Except Fault Body}

theorem request_settled {arity : Nat}
    (h : b.state.graph.kindOf? f = some (.function arity (settledState outcome))) :
    b.request f = .answer outcome := by
  cases outcome <;> simp [request, h, settledState]

theorem graph_leave (b : Builder σ) {arity : Nat} {state : BodyState}
    (hk : b.state.graph.kindOf? f = some (.function arity state)) (outcome : Except Fault Body) :
    (b.leave f outcome).state.graph =
      b.state.graph.setKind f (.function arity (settledState outcome)) := by
  cases outcome <;> exact Graph.setBodyState_eq hk _

theorem request_building {arity : Nat}
    (h : b.state.graph.kindOf? f = some (.function arity .building)) :
    b.request f = .answer (.error .reentrantBody) := by
  simp [request, h]

/-- A builder is as its past says: the functions that were begun are not pending, those that have
ended are settled, and every node was made by an operation. -/
structure Recorded (past : List (Event σ)) (b : Builder σ) : Prop where
  sound : b.state.Sound
  scopes : b.state.scopes = running past
  begun : ∀ f, Event.started f ∈ past → ∃ arity state,
    b.state.graph.kindOf? f = some (.function arity state) ∧ 0 < state.stage
  settled : ∀ f outcome, Event.ended f outcome ∈ past → ∃ arity,
    b.state.graph.kindOf? f = some (.function arity (settledState outcome))
  made : ∀ e < b.state.graph.size, ∃ op before, Event.performed op before ∈ past ∧
    before.state.graph.size ≤ e ∧ e < (before.perform op).state.graph.size
  conducted : Conducted past

namespace Recorded

theorem empty (shared : σ) : Recorded [] (.empty shared) where
  sound := (reached_empty shared).sound
  scopes := rfl
  begun := nofun
  settled := nofun
  made e he := absurd he (Nat.not_lt_zero e)
  conducted := .nil

variable (h : Recorded past b)

include h

/-- One more event, which may change the builder. -/
theorem next {event : Event σ} (hsound : c.state.Sound)
    (hext : b.state.graph.Extends c.state.graph)
    (hscopes : c.state.scopes = runningAfter b.state.scopes event)
    (hbegun : ∀ f, event = .started f → ∃ arity state,
      c.state.graph.kindOf? f = some (.function arity state) ∧ 0 < state.stage)
    (hsettled : ∀ f outcome, event = .ended f outcome → ∃ arity,
      c.state.graph.kindOf? f = some (.function arity (settledState outcome)))
    (hmade : c.state.graph.size = b.state.graph.size ∨ ∃ op, event = .performed op b ∧
      c = b.perform op)
    (hfits : event.Fits past) : Recorded (past ++ [event]) c where
  sound := hsound
  scopes := by rw [hscopes, running_concat, h.scopes]
  begun f hf := by
    rcases List.mem_append.1 hf with hf | hf
    · exact hext.begun (h.begun f hf)
    · exact hbegun f (List.mem_singleton.1 hf).symm
  settled f outcome hf := by
    rcases List.mem_append.1 hf with hf | hf
    · obtain ⟨arity, hk⟩ := h.settled f outcome hf
      exact ⟨arity, hext.settled hk⟩
    · exact hsettled f outcome (List.mem_singleton.1 hf).symm
  made e he := by
    by_cases hold : e < b.state.graph.size
    · obtain ⟨op, before, hmem, hwhen⟩ := h.made e hold
      exact ⟨op, before, List.mem_append_left _ hmem, hwhen⟩
    · rcases hmade with hsize | ⟨op, rfl, rfl⟩
      · exact absurd (hsize ▸ he) hold
      · exact ⟨op, b, by simp, Nat.not_lt.1 hold, he⟩
  conducted := h.conducted.concat hfits

theorem perform {op : Operation σ} (hop : op.Flat) :
    Recorded (past ++ [Event.performed op b]) (b.perform op) := by
  obtain ⟨hsound, hext⟩ := perform_sound_extends h.sound op
  refine h.next hsound hext (b.perform_scopes hop) nofun nofun (.inr ⟨op, rfl, rfl⟩) ?_
  intro e n hn he
  rw [← h.scopes]
  exact b.perform_madeIn hop hn he

theorem answer (hreq : b.request f = .answer outcome) :
    Recorded (past ++ [Event.answered f outcome b b]) b := by
  refine h.next h.sound (.refl _) rfl nofun nofun (.inl rfl) ⟨rfl, fun result hr => ?_, fun hf => ?_⟩
  · obtain ⟨_, hk⟩ := h.settled f result hr
    cases hreq.symm.trans (request_settled hk)
    rfl
  · obtain ⟨_, hk⟩ := h.sound.building f (h.scopes ▸ hf)
    cases hreq.symm.trans (request_building hk)
    exact ⟨⟨_, rfl, rfl⟩, rfl⟩

theorem start {recipe : Recipe σ} (hreq : b.request f = .construct recipe c) :
    Recorded (past ++ [Event.started f]) c := by
  obtain ⟨⟨arity, hk⟩, hc⟩ := request_construct hreq
  obtain ⟨hsound, hext⟩ := h.sound.enter hk
  rw [← hc] at hsound hext
  have hgraph : c.state.graph = b.state.graph.setKind f (.function arity .building) := by
    rw [hc]
    exact Graph.setBodyState_eq hk _
  refine h.next hsound hext (request_scopes hreq) ?_ nofun (.inl ?_) fun hmem => ?_
  · rintro _ ⟨⟩
    rw [hgraph]
    exact ⟨arity, _, Graph.kindOf?_setKind_self hk, Nat.one_pos⟩
  · rw [hgraph]
    exact Graph.size_setKind ..
  · obtain ⟨_, _, hk', hstage⟩ := h.begun f hmem
    cases hk.symm.trans hk'
    exact absurd hstage (Nat.lt_irrefl 0)

theorem finish {rest : List NodeId} (hs : b.state.scopes = f :: rest)
    (outcome : Except Fault Body) :
    Recorded (past ++ [Event.ended f outcome]) (b.leave f outcome) := by
  obtain ⟨arity, hk⟩ := h.sound.building f (hs ▸ List.mem_cons_self)
  obtain ⟨hsound, hext⟩ := h.sound.leave hs outcome
  have hgraph := b.graph_leave hk outcome
  refine h.next hsound hext rfl nofun ?_ (.inl ?_) ?_
  · rintro _ _ ⟨⟩
    rw [hgraph]
    exact ⟨arity, Graph.kindOf?_setKind_self hk⟩
  · rw [hgraph]
    exact Graph.size_setKind ..
  · show (running past).head? = some f
    rw [← h.scopes, hs]
    rfl

/-- The request that began the construction is answered with the outcome. -/
theorem report {before : Builder σ} {arity : Nat}
    (hk : b.state.graph.kindOf? f = some (.function arity (settledState outcome)))
    (hs : b.state.scopes = before.state.scopes) :
    Recorded (past ++ [Event.answered f outcome before b]) b := by
  refine h.next h.sound (.refl _) rfl nofun nofun (.inl rfl)
    ⟨congrArg List.head? hs, fun result hr => ?_, fun hf => ?_⟩
  · obtain ⟨_, hk'⟩ := h.settled f result hr
    have := (request_settled hk).symm.trans (request_settled hk')
    cases this
    rfl
  · obtain ⟨_, hk'⟩ := h.sound.building f (h.scopes ▸ hf)
    cases outcome <;> cases hk.symm.trans hk'

end Recorded

/-! ## Runs -/

namespace Runs

variable {t : Agenda σ} {hist : List (Event σ)} {out : Except Fault Body}

theorem recorded (h : Runs t b hist out d) (hb : Recorded past b) : Recorded (past ++ hist) d := by
  induction h generalizing past with
  | stop => rwa [List.append_nil]
  | silent _ _ ih => exact ih hb
  | perform hm _ ih => simpa using ih (hb.perform (flat_of_move hm))
  | answer _ hreq _ ih => simpa using ih (hb.answer hreq)
  | @construct t b c e d f next recipe result inner hist out _ hreq hinner _ ihinner ih =>
    have hstart := ihinner (hb.start hreq)
    have hscopes : e.state.scopes = f :: b.state.scopes := hinner.leads.2.trans (request_scopes hreq)
    have hfinish := hstart.finish hscopes result
    obtain ⟨arity, hk⟩ := hfinish.settled f result (by simp)
    have hafter : (e.leave f result).state.scopes = b.state.scopes := by
      show e.state.scopes.tail = _
      rw [hscopes]
      rfl
    simpa using ih (hfinish.report hk hafter)

end Runs

/-- **Bodies are constructed once and in their own scope.** The operations and requests of a recipe,
and of the constructions that it causes at any depth, make up one history. In it the construction of
each body begins at most once; once it has ended, with a body or a fault, every request is answered
by this; a request in between is answered by a fault and changes nothing; no request changes the
current scope; and a node that is made belongs to the function whose construction began last and is
still going on, unless it is a store or the parameter of a new function. All constructions end, and
all nodes are made by the operations of the history. -/
theorem conducted_of_run (r : Recipe σ) (shared : σ) :
    ∃ hist, Runs (.run r) (.empty shared) hist (run r (.empty shared)).1 (run r (.empty shared)).2 ∧
      (∀ hist' out d, Runs (.run r) (.empty shared) hist' out d → hist' = hist) ∧
      Conducted hist ∧ running hist = [] ∧
      ∀ e < (run r (.empty shared)).2.state.graph.size, ∃ op before,
        Event.performed op before ∈ hist ∧ before.state.graph.size ≤ e ∧
          e < (before.perform op).state.graph.size := by
  obtain ⟨hist, h⟩ := exists_runs r (.empty shared)
  have hrecorded := h.recorded (Recorded.empty shared)
  rw [List.nil_append] at hrecorded
  refine ⟨hist, h, fun _ _ _ h' => (h.unique h').1, hrecorded.conducted, ?_, hrecorded.made⟩
  exact hrecorded.scopes.symm.trans h.leads.2

end Builder

end ScriptGraph
