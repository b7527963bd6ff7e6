import ScriptGraph.Proofs.Builder.Operation

/-!
# Histories of runs

* `Event` : what happens to a builder while a recipe runs;
* `Agenda`, `Agenda.move` : what is still to be done, and what is done next;
* `Builder.Runs` : an agenda is worked off, with an outcome and what happens on the way;
* `Builder.Runs.leads` : this is a sequence of operations;
* `Builder.exists_runs`, `Builder.Runs.unique` : every run of a recipe has one history.
-/

namespace ScriptGraph

/-- What happens while recipes run. -/
inductive Event (σ : Type)
  | performed (op : Operation σ) (before : Builder σ)
  /-- The construction of a body begins. -/
  | started (f : NodeId)
  /-- The construction that was begun last ends. -/
  | ended (f : NodeId) (outcome : Except Fault Body)
  /-- A request for a body is answered. -/
  | answered (f : NodeId) (answer : Except Fault Body) (before after : Builder σ)

/-- What is still to be done: a recipe, or the walk of a survey and then a recipe. -/
inductive Agenda (σ : Type)
  | run (r : Recipe σ)
  | walk (next : Except Fault (List NodeId) → Recipe σ) (order queue : List NodeId)

/-- What is done next. -/
inductive Move (σ : Type)
  | stop (result : Except Fault Body)
  | silent (rest : Agenda σ)
  | perform (op : Operation σ) (rest : Agenda σ)
  | ask (f : NodeId) (next : Except Fault Body → Agenda σ)

/-- How a walk goes on once the function `e` has answered. -/
def Agenda.walkOn {σ : Type} (next : Except Fault (List NodeId) → Recipe σ)
    (order rest : List NodeId) (e : NodeId) : Except Fault Body → Agenda σ
  | .error fault => .run (next (.error fault))
  | .ok body => .walk next (order ++ [e]) (rest ++ body.roots)

def Agenda.move {σ : Type} (b : Builder σ) : Agenda σ → Move σ
  | .run (.done result) => .stop result
  | .run (.look next) => .silent (.run (next b.state))
  | .run (.share update next) => .perform (.share update) (.run next)
  | .run (.create draft next) => .perform (.create draft) (.run (next (b.state.create draft).1))
  | .run (.function arity body next) =>
    .perform (.function arity body) (.run (next (b.makeFunction arity body).1))
  | .run (.body f next) => .ask f fun answer => .run (next answer)
  | .run (.fill slot target next) =>
    .perform (.fill slot target) (.run (next (b.state.fill slot target).1))
  | .run (.memoize i e next) => .perform (.memoize i e) (.run next)
  | .run (.warn ws next) => .perform (.warn ws) (.run next)
  | .run (.survey roots next) => .silent (.walk next [] roots)
  | .walk next order [] => .silent (.run (next (.ok order)))
  | .walk next order (e :: rest) =>
    if e ∈ order then .silent (.walk next order rest)
    else if b.state.graph.size ≤ e then
      .silent (.run (next (.error (.noSuchNode b.state.graph.size e))))
    else if b.state.graph.isUnfilledSlot e then .silent (.run (next (.error .unfilledSlot)))
    else if b.state.graph.isFunction e then .ask e (.walkOn next order rest e)
    else .silent (.walk next (order ++ [e]) (rest ++ b.state.graph.children e))

/-- A walk asks a function for its body. -/
theorem Agenda.move_function {σ : Type} {next : Except Fault (List NodeId) → Recipe σ}
    {b : Builder σ} {order rest : List NodeId} {e : NodeId} (he : e ∉ order)
    (hin : ¬b.state.graph.size ≤ e) (hslot : ¬b.state.graph.isUnfilledSlot e = true)
    (hfun : b.state.graph.isFunction e = true) :
    (Agenda.walk next order (e :: rest)).move b = .ask e (.walkOn next order rest e) := by
  rw [Agenda.move, if_neg he, if_neg hin, if_neg hslot, if_pos hfun]

namespace Builder

variable {σ : Type}

/-- An agenda is worked off: what happens on the way, the outcome, and the builder that is left. A
request that begins a construction is answered after all that the construction does. -/
inductive Runs : Agenda σ → Builder σ → List (Event σ) → Except Fault Body → Builder σ → Prop
  | stop {t : Agenda σ} {b : Builder σ} {result : Except Fault Body} (h : t.move b = .stop result) :
    Runs t b [] result b
  | silent {t t' : Agenda σ} {b d : Builder σ} {hist : List (Event σ)} {out : Except Fault Body}
    (h : t.move b = .silent t') (hrest : Runs t' b hist out d) : Runs t b hist out d
  | perform {t t' : Agenda σ} {b d : Builder σ} {op : Operation σ} {hist : List (Event σ)}
    {out : Except Fault Body} (h : t.move b = .perform op t')
    (hrest : Runs t' (b.perform op) hist out d) : Runs t b (.performed op b :: hist) out d
  | answer {t : Agenda σ} {b d : Builder σ} {f : NodeId} {next : Except Fault Body → Agenda σ}
    {answer : Except Fault Body} {hist : List (Event σ)} {out : Except Fault Body}
    (h : t.move b = .ask f next) (hreq : b.request f = .answer answer)
    (hrest : Runs (next answer) b hist out d) : Runs t b (.answered f answer b b :: hist) out d
  | construct {t : Agenda σ} {b c e d : Builder σ} {f : NodeId} {next : Except Fault Body → Agenda σ}
    {recipe : Recipe σ} {result : Except Fault Body} {inner hist : List (Event σ)}
    {out : Except Fault Body} (h : t.move b = .ask f next)
    (hreq : b.request f = .construct recipe c) (hinner : Runs (.run recipe) c inner result e)
    (hrest : Runs (next result) (e.leave f result) hist out d) :
    Runs t b (.started f :: inner ++
      .ended f result :: .answered f result b (e.leave f result) :: hist) out d

namespace Runs

variable {t t' : Agenda σ} {b c d d' : Builder σ} {f : NodeId} {next : Except Fault Body → Agenda σ}
  {result out out' : Except Fault Body} {hist hist' : List (Event σ)}

/-! ## One run -/

theorem of_stop (h : Runs t b hist out d) (hm : t.move b = .stop result) :
    hist = [] ∧ out = result ∧ d = b := by
  cases h with
  | stop h =>
    cases hm.symm.trans h
    exact ⟨rfl, rfl, rfl⟩
  | silent h | perform h | answer h | construct h => cases hm.symm.trans h

theorem of_silent (h : Runs t b hist out d) (hm : t.move b = .silent t') :
    Runs t' b hist out d := by
  cases h with
  | silent h hrest =>
    cases hm.symm.trans h
    exact hrest
  | stop h | perform h | answer h | construct h => cases hm.symm.trans h

theorem of_perform {op : Operation σ} (h : Runs t b hist out d) (hm : t.move b = .perform op t') :
    ∃ rest, hist = .performed op b :: rest ∧ Runs t' (b.perform op) rest out d := by
  cases h with
  | perform h hrest =>
    cases hm.symm.trans h
    exact ⟨_, rfl, hrest⟩
  | stop h | silent h | answer h | construct h => cases hm.symm.trans h

theorem of_answer (h : Runs t b hist out d) (hm : t.move b = .ask f next)
    (hreq : b.request f = .answer result) :
    ∃ rest, hist = .answered f result b b :: rest ∧ Runs (next result) b rest out d := by
  cases h with
  | answer h hreq' hrest =>
    cases hm.symm.trans h
    cases hreq.symm.trans hreq'
    exact ⟨_, rfl, hrest⟩
  | construct h hreq' =>
    cases hm.symm.trans h
    cases hreq.symm.trans hreq'
  | stop h | silent h | perform h => cases hm.symm.trans h

theorem of_construct {recipe : Recipe σ} (h : Runs t b hist out d) (hm : t.move b = .ask f next)
    (hreq : b.request f = .construct recipe c) :
    ∃ inner result e rest, Runs (.run recipe) c inner result e ∧
      hist = .started f :: inner ++
        .ended f result :: .answered f result b (e.leave f result) :: rest ∧
      Runs (next result) (e.leave f result) rest out d := by
  cases h with
  | construct h hreq' hinner hrest =>
    cases hm.symm.trans h
    cases hreq.symm.trans hreq'
    exact ⟨_, _, _, _, hinner, rfl, hrest⟩
  | answer h hreq' =>
    cases hm.symm.trans h
    cases hreq.symm.trans hreq'
  | stop h | silent h | perform h => cases hm.symm.trans h

theorem flat_of_move {op : Operation σ} (h : t.move b = .perform op t') : op.Flat := by
  cases t with
  | run r => cases r <;> cases h <;> trivial
  | walk next order queue =>
    cases queue with
    | nil => cases h
    | cons e rest =>
      rw [Agenda.move] at h
      split_ifs at h

/-- A run performs operations, and ends the constructions it begins. -/
theorem leads (h : Runs t b hist out d) : b.Leads d := by
  induction h with
  | stop => exact .refl _
  | silent _ _ ih => exact ih
  | perform hm _ ih => exact (Leads.single _ (perform_scopes _ (flat_of_move hm))).trans ih
  | answer _ _ _ ih => exact ih
  | construct _ hreq _ _ ihinner ih => exact (Leads.construct hreq ihinner _).trans ih

/-- What happens and comes out is determined by the agenda and the builder. -/
theorem unique (h : Runs t b hist out d) (h' : Runs t b hist' out' d') :
    hist' = hist ∧ out' = out ∧ d' = d := by
  induction h generalizing hist' out' d' with
  | stop hm => exact h'.of_stop hm
  | silent hm _ ih => exact ih (h'.of_silent hm)
  | perform hm _ ih =>
    obtain ⟨_, rfl, hrest⟩ := h'.of_perform hm
    obtain ⟨rfl, rfl, rfl⟩ := ih hrest
    exact ⟨rfl, rfl, rfl⟩
  | answer hm hreq _ ih =>
    obtain ⟨_, rfl, hrest⟩ := h'.of_answer hm hreq
    obtain ⟨rfl, rfl, rfl⟩ := ih hrest
    exact ⟨rfl, rfl, rfl⟩
  | construct hm hreq _ _ ihinner ih =>
    obtain ⟨_, _, _, _, hinner, rfl, hrest⟩ := h'.of_construct hm hreq
    obtain ⟨rfl, rfl, rfl⟩ := ihinner hinner
    obtain ⟨rfl, rfl, rfl⟩ := ih hrest
    exact ⟨rfl, rfl, rfl⟩

end Runs

/-! ## Every run -/

/-- The recipe has a history of what it does to the builder. -/
def Told (r : Recipe σ) (b : Builder σ) : Prop :=
  ∃ hist, Runs (.run r) b hist (Builder.run r b).1 (Builder.run r b).2

theorem exists_of_ask {t : Agenda σ} {b d : Builder σ} {f : NodeId}
    {next : Except Fault Body → Agenda σ} {hist : List (Event σ)} {out : Except Fault Body}
    (hm : t.move b = .ask f next)
    (hinner : ∀ recipe c, b.request f = .construct recipe c → Told recipe c)
    (hrest : Runs (next (b.force f).1) (b.force f).2 hist out d) :
    ∃ hist', Runs t b hist' out d := by
  cases hreq : b.request f with
  | answer result =>
    rw [force_answer hreq] at hrest
    exact ⟨_, .answer hm hreq hrest⟩
  | construct recipe c =>
    obtain ⟨inner, hrun⟩ := hinner recipe c hreq
    rw [force_construct hreq] at hrest
    exact ⟨_, .construct hm hreq hrun hrest⟩

/-- The walk of a survey can be told if the recipes that it may run can. -/
theorem exists_of_walk {q : Pool σ}
    (hall : ∀ recipe (c : Builder σ), Pool.Smaller ⟨recipe :: c.recipes⟩ q → Told recipe c)
    {next : Except Fault (List NodeId) → Recipe σ} (b : Builder σ) (order queue : List NodeId)
    (hb : Pool.Smaller ⟨b.recipes⟩ q) {d : Builder σ} {hist : List (Event σ)}
    {out : Except Fault Body}
    (hrest : Runs (.run (next (b.survey order queue).1)) (b.survey order queue).2 hist out d) :
    ∃ hist', Runs (.walk next order queue) b hist' out d := by
  have hinner : ∀ (b : Builder σ) (e : NodeId), Pool.Smaller ⟨b.recipes⟩ q →
      ∀ recipe c, b.request e = .construct recipe c → Told recipe c :=
    fun b e hb recipe c hreq => hall recipe c (hb.perm_left (request_perm hreq))
  fun_induction survey b order queue with
  | case1 b order => exact ⟨hist, .silent rfl hrest⟩
  | case2 b order e rest he ih =>
    obtain ⟨hist', h⟩ := ih hb hrest
    exact ⟨hist', .silent (by simp only [Agenda.move, if_pos he]) h⟩
  | case3 b order e rest he hin =>
    exact ⟨hist, .silent (by simp only [Agenda.move, if_neg he, if_pos hin]) hrest⟩
  | case4 b order e rest he hin hslot =>
    exact ⟨hist, .silent (by simp only [Agenda.move, if_neg he, if_neg hin, if_pos hslot]) hrest⟩
  | case5 b order e rest he hin hslot hfun fault hforce =>
    apply exists_of_ask (Agenda.move_function he hin hslot hfun) (hinner b e hb)
    rw [hforce]
    exact hrest
  | case6 b order e rest he hin hslot hfun body hforce ih =>
    obtain ⟨hist', h⟩ := ih (force_smaller_of hb e) hrest
    apply exists_of_ask (Agenda.move_function he hin hslot hfun) (hinner b e hb)
    rw [hforce]
    exact h
  | case7 b order e rest he hin hslot hfun ih =>
    obtain ⟨hist', h⟩ := ih hb hrest
    exact ⟨hist', .silent (by
      simp only [Agenda.move, if_neg he, if_neg hin, if_neg hslot, if_neg hfun]) h⟩

/-- Every run of a recipe has a history. -/
theorem exists_runs (r : Recipe σ) (b : Builder σ) : Told r b := by
  suffices hpool : ∀ (q : Pool σ) r (b : Builder σ), q = ⟨r :: b.recipes⟩ → Told r b from
    hpool _ r b rfl
  intro q
  induction q using WellFounded.induction (WellFoundedRelation.wf (α := Pool σ)) with
  | _ q ih =>
    rintro r b rfl
    cases r with
    | done result =>
      rw [Told, run_done]
      exact ⟨[], .stop rfl⟩
    | look next =>
      obtain ⟨hist, h⟩ := ih _ (.step (.look ..)) (next b.state) b rfl
      rw [Told, run_look]
      exact ⟨hist, .silent rfl h⟩
    | share update next =>
      obtain ⟨hist, h⟩ := ih _ (.step (.share ..)) next (b.perform (.share update)) rfl
      rw [Told, run_share]
      exact ⟨_, .perform rfl h⟩
    | create draft next =>
      obtain ⟨hist, h⟩ := ih _ (.step (.create ..)) (next _) (b.perform (.create draft)) rfl
      rw [Told, run_create]
      exact ⟨_, .perform rfl h⟩
    | function arity body next =>
      obtain ⟨hist, h⟩ := ih _ (b.makeFunction_smaller arity body next) (next _)
        (b.perform (.function arity body)) rfl
      rw [Told, run_function]
      exact ⟨_, .perform rfl h⟩
    | body f next =>
      obtain ⟨hist, h⟩ :=
        ih _ (b.afterForce_smaller f next) (next (b.force f).1) (b.force f).2 rfl
      rw [Told, run_body]
      exact exists_of_ask rfl (fun recipe c hreq =>
        ih _ (Pool.Smaller.drop.perm_left (request_perm hreq)) recipe c rfl) h
    | fill slot target next =>
      obtain ⟨hist, h⟩ := ih _ (.step (.fill ..)) (next _) (b.perform (.fill slot target)) rfl
      rw [Told, run_fill]
      exact ⟨_, .perform rfl h⟩
    | memoize i e next =>
      obtain ⟨hist, h⟩ := ih _ (.step (.memoize ..)) next (b.perform (.memoize i e)) rfl
      rw [Told, run_memoize]
      exact ⟨_, .perform rfl h⟩
    | warn ws next =>
      obtain ⟨hist, h⟩ := ih _ (.step (.warn ..)) next (b.perform (.warn ws)) rfl
      rw [Told, run_warn]
      exact ⟨_, .perform rfl h⟩
    | survey roots next =>
      obtain ⟨hist, h⟩ := ih _ (b.afterSurvey_smaller roots next) (next (b.survey [] roots).1)
        (b.survey [] roots).2 rfl
      rw [Told, run_survey]
      obtain ⟨hist', h'⟩ :=
        exists_of_walk (fun recipe c hlt => ih _ hlt recipe c rfl) b [] roots .drop h
      exact ⟨hist', .silent rfl h'⟩

end Builder

end ScriptGraph
