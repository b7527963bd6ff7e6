import Mathlib
import ScriptGraph.Analysis.Basic

/-!
# Builders and their operations

Everything a recipe does to a builder is a sequence of a few operations; constructing a body is one
of them at its start and one at its end, with the operations of its recipe between.

* `Operation`, `Builder.perform`, `Builder.performAll` : the operations and what they do;
* `Recipe.Drafts` : all nodes that a recipe makes have a property as drafts;
* `Builder.Follows` : a relation between builders that follows what recipes do, so it holds between
  a builder and what is left after a recipe was run (`Follows.run`), a body was asked for
  (`Follows.force`), the reachable nodes were looked for (`Follows.survey`) or analysed
  (`Follows.analyze`);
* `Builder.Reached` : the builders that operations lead to from an empty one, also those in the
  middle of a construction;
* `Builder.Leads` : one builder leads to another and the functions under construction are the same;
* `Builder.run_leads`, `Builder.force_leads`, `Builder.survey_leads`, `Builder.analyze_leads`.
-/

namespace ScriptGraph

/-- What can be done to a builder. -/
inductive Operation (σ : Type)
  | create (draft : Draft)
  | function (arity : Nat) (body : NodeId → List NodeId → Recipe σ)
  | fill (slot target : NodeId)
  | share (update : σ → σ)
  | memoize (instanceId : Nat) (e : NodeId)
  | warn (warnings : List Warning)
  /-- Begins the construction of a body, if it is still to be done. -/
  | enter (f : NodeId)
  /-- Ends the construction that was begun last. -/
  | leave (outcome : Except Fault Body)

/-- Every node that the recipe makes, now or in the body of a function, is made from a draft with
the property. -/
def Recipe.Drafts {σ : Type} (p : Draft → Prop) : Recipe σ → Prop
  | .done _ => True
  | .look next => ∀ s, (next s).Drafts p
  | .share _ next => next.Drafts p
  | .create draft next => p draft ∧ ∀ e, (next e).Drafts p
  | .function _ inner next => (∀ f args, (inner f args).Drafts p) ∧ ∀ e, (next e).Drafts p
  | .body _ next => ∀ r, (next r).Drafts p
  | .fill _ _ next => ∀ r, (next r).Drafts p
  | .memoize _ _ next => next.Drafts p
  | .warn _ next => next.Drafts p
  | .survey _ next => ∀ r, (next r).Drafts p

theorem Recipe.drafts_of_forall {σ : Type} {p : Draft → Prop} (h : ∀ draft, p draft) (r : Recipe σ) :
    r.Drafts p := by
  induction r with
  | done => trivial
  | create draft _ ih => exact ⟨h draft, ih⟩
  | function _ _ _ ihb ihn => exact ⟨ihb, ihn⟩
  | look _ ih | share _ _ ih | body _ _ ih | fill _ _ _ ih | memoize _ _ _ ih | warn _ _ ih
  | survey _ _ ih => exact ih

/-- The operation makes nodes from drafts with the property, at once or later. -/
def Operation.Drafts {σ : Type} (p : Draft → Prop) : Operation σ → Prop
  | .create draft => p draft
  | .function _ inner => ∀ f args, (inner f args).Drafts p
  | _ => True

/-- The operation neither begins nor ends a construction. -/
def Operation.Flat {σ : Type} : Operation σ → Prop
  | .enter _ => False
  | .leave _ => False
  | _ => True

/-! ## The order of pools -/

namespace Pool

variable {σ : Type}

theorem Smaller.perm_left {k k' l : List (Recipe σ)} (h : Smaller ⟨k⟩ ⟨l⟩) (p : k.Perm k') :
    Smaller ⟨k'⟩ ⟨l⟩ := by
  unfold Smaller at h ⊢
  dsimp only at h ⊢
  induction h with
  | single h => exact .single (h.perm p (.refl _))
  | tail _ h ih => exact .tail ih h

end Pool

namespace Builder

variable {σ : Type}

def perform (b : Builder σ) : Operation σ → Builder σ
  | .create draft => b.update (b.state.create draft).2
  | .function arity body => (b.makeFunction arity body).2
  | .fill slot target => b.update (b.state.fill slot target).2
  | .share update => b.update { b.state with shared := update b.state.shared }
  | .memoize i e => b.update { b.state with memo := (i, e) :: b.state.memo }
  | .warn ws => b.warn ws
  | .enter f =>
    match b.request f with
    | .construct _ c => c
    | .answer _ => b
  | .leave outcome =>
    match b.state.scopes with
    | f :: _ => b.leave f outcome
    | [] => b

def performAll (b : Builder σ) (ops : List (Operation σ)) : Builder σ := ops.foldl perform b

/-- Operations lead to the builder from one without nodes. -/
def Reached (b : Builder σ) : Prop := ∃ shared ops, (empty shared).performAll ops = b

/-- Operations lead from `b` to `c`, and the constructions begun on the way are ended. -/
def Leads (b c : Builder σ) : Prop :=
  (∃ ops, b.performAll ops = c) ∧ c.state.scopes = b.state.scopes

theorem Leads.refl (b : Builder σ) : b.Leads b := ⟨⟨[], rfl⟩, rfl⟩

theorem Leads.trans {b c d : Builder σ} (h : b.Leads c) (h' : c.Leads d) : b.Leads d := by
  obtain ⟨⟨ops, rfl⟩, hs⟩ := h
  obtain ⟨⟨ops', rfl⟩, hs'⟩ := h'
  exact ⟨⟨ops ++ ops', by simp [performAll]⟩, hs'.trans hs⟩

theorem Leads.reached {b c : Builder σ} (h : b.Leads c) (hb : b.Reached) : c.Reached := by
  obtain ⟨shared, ops, rfl⟩ := hb
  obtain ⟨⟨ops', rfl⟩, _⟩ := h
  exact ⟨shared, ops ++ ops', by simp [performAll]⟩

theorem reached_empty (shared : σ) : (empty shared).Reached := ⟨shared, [], rfl⟩

theorem Leads.single {b : Builder σ} (op : Operation σ)
    (h : (b.perform op).state.scopes = b.state.scopes) : b.Leads (b.perform op) :=
  ⟨⟨[op], rfl⟩, h⟩

end Builder

/-! ## What operations do to the functions under construction -/

namespace BuilderState

variable {σ : Type}

@[simp] theorem moduleStore_scopes (s : BuilderState σ) : s.moduleStore.2.scopes = s.scopes := by
  unfold moduleStore
  split <;> rfl

@[simp] theorem resourceStore_scopes (s : BuilderState σ) :
    s.resourceStore.2.scopes = s.scopes := by
  unfold resourceStore
  split <;> rfl

@[simp] theorem create_scopes (s : BuilderState σ) (draft : Draft) :
    (s.create draft).2.scopes = s.scopes := by
  cases draft with
  | ident name =>
    simp only [create]
    split <;> rfl
  | moduleStore => exact s.moduleStore_scopes
  | resourceStore => exact s.resourceStore_scopes
  | module address => exact s.moduleStore_scopes
  | resource key value => exact s.resourceStore_scopes
  | _ => rfl

@[simp] theorem moduleStore_memo (s : BuilderState σ) : s.moduleStore.2.memo = s.memo := by
  unfold moduleStore
  split <;> rfl

@[simp] theorem resourceStore_memo (s : BuilderState σ) : s.resourceStore.2.memo = s.memo := by
  unfold resourceStore
  split <;> rfl

@[simp] theorem create_memo (s : BuilderState σ) (draft : Draft) :
    (s.create draft).2.memo = s.memo := by
  cases draft with
  | ident name =>
    simp only [create]
    split <;> rfl
  | moduleStore => exact s.moduleStore_memo
  | resourceStore => exact s.resourceStore_memo
  | module address => exact s.moduleStore_memo
  | resource key value => exact s.resourceStore_memo
  | _ => rfl

@[simp] theorem fill_memo (s : BuilderState σ) (slot target : NodeId) :
    (s.fill slot target).2.memo = s.memo := by
  unfold fill
  split <;> rfl

@[simp] theorem fill_scopes (s : BuilderState σ) (slot target : NodeId) :
    (s.fill slot target).2.scopes = s.scopes := by
  unfold fill
  split <;> rfl

end BuilderState

namespace Builder

variable {σ : Type}

theorem request_scopes {b c : Builder σ} {f : NodeId} {recipe : Recipe σ}
    (h : b.request f = .construct recipe c) : c.state.scopes = f :: b.state.scopes := by
  unfold request at h
  split at h <;> try cases h
  split at h <;> cases h
  rfl

theorem perform_enter {b c : Builder σ} {f : NodeId} {recipe : Recipe σ}
    (h : b.request f = .construct recipe c) : b.perform (.enter f) = c := by
  simp only [perform, h]

theorem perform_leave {b : Builder σ} {f : NodeId} {rest : List NodeId}
    (h : b.state.scopes = f :: rest) (outcome : Except Fault Body) :
    b.perform (.leave outcome) = b.leave f outcome := by
  simp only [perform, h]

/-- Only recording changes what is recorded for instances. -/
theorem perform_memo_eq (b : Builder σ) {op : Operation σ} (h : ∀ i e, op ≠ .memoize i e) :
    (b.perform op).state.memo = b.state.memo := by
  cases op with
  | create draft => exact b.state.create_memo draft
  | fill slot target => exact b.state.fill_memo slot target
  | memoize i e => exact absurd rfl (h i e)
  | enter f =>
    rw [perform]
    split
    · rename_i recipe c hreq
      unfold request at hreq
      split at hreq <;> try cases hreq
      split at hreq <;> cases hreq
      rfl
    · rfl
  | leave outcome =>
    rw [perform]
    split <;> rfl
  | _ => rfl

theorem perform_memo (b : Builder σ) (op : Operation σ) :
    b.state.memo ⊆ (b.perform op).state.memo := by
  cases op with
  | memoize i e => exact List.subset_cons_self _ _
  | _ =>
    rw [perform_memo_eq]
    · exact List.Subset.refl _
    · exact nofun

theorem Leads.memo_subset {b c : Builder σ} (h : b.Leads c) : b.state.memo ⊆ c.state.memo := by
  obtain ⟨ops, rfl⟩ := h.1
  clear h
  induction ops generalizing b with
  | nil => exact List.Subset.refl _
  | cons op ops ih => exact List.Subset.trans (b.perform_memo op) ih

theorem makeFunction_smaller (b : Builder σ) (arity : Nat) (body : NodeId → List NodeId → Recipe σ)
    (next : NodeId → Recipe σ) :
    Pool.Smaller ⟨next (b.makeFunction arity body).1 :: (b.makeFunction arity body).2.recipes⟩
      ⟨.function arity body next :: b.recipes⟩ := by
  have hrecipes : (b.makeFunction arity body).2.recipes = b.recipes ++
      [body b.state.graph.size ((b.state.makeFunction arity).2.graph.params b.state.graph.size)] := by
    simp [recipes, makeFunction, BuilderState.makeFunction]
  rw [hrecipes]
  apply Pool.Smaller.replace [next _, body _ _] ((List.perm_append_singleton _ _).cons _)
  intro s hs
  rcases List.mem_cons.1 hs with rfl | hs
  · exact .functionNext ..
  · rw [List.mem_singleton.1 hs]
    exact .functionBody ..

theorem survey_recipes (b : Builder σ) (order queue : List NodeId) :
    (b.survey order queue).2.recipes = b.recipes ∨
      Pool.Smaller ⟨(b.survey order queue).2.recipes⟩ ⟨b.recipes⟩ := by
  have hforce : ∀ (b : Builder σ) e, (b.force e).2.recipes = b.recipes ∨
      Pool.Smaller ⟨(b.force e).2.recipes⟩ ⟨b.recipes⟩ := fun b e =>
    (b.force_smaller e).imp (congrArg recipes) id
  fun_induction survey b order queue with
  | case1 | case3 | case4 => exact .inl rfl
  | case2 b order e rest _ ih => exact ih
  | case5 b order e rest _ _ _ _ fault _ => exact hforce b e
  | case6 b order e rest _ _ _ _ body _ ih =>
    rcases ih with ih | ih <;> rcases hforce b e with h | h
    · exact .inl (ih.trans h)
    · exact .inr (ih ▸ h)
    · exact .inr (h ▸ ih)
    · exact .inr (ih.trans h)
  | case7 b order e rest _ _ _ _ ih => exact ih

theorem force_smaller_of {b : Builder σ} {q : Pool σ} (hb : Pool.Smaller ⟨b.recipes⟩ q)
    (f : NodeId) : Pool.Smaller ⟨(b.force f).2.recipes⟩ q := by
  rcases b.force_smaller f with heq | hlt
  · rwa [heq]
  · exact hlt.trans hb

/-- What runs after a request is less than the request, whatever the request does. -/
theorem afterForce_smaller (b : Builder σ) (f : NodeId) (next : Except Fault Body → Recipe σ) :
    Pool.Smaller ⟨next (b.force f).1 :: (b.force f).2.recipes⟩ ⟨.body f next :: b.recipes⟩ := by
  rcases b.force_smaller f with heq | hlt
  · rw [heq]
    exact .step (.body ..)
  · exact (hlt.cons _).trans (.step (.body ..))

theorem afterSurvey_smaller (b : Builder σ) (roots : List NodeId)
    (next : Except Fault (List NodeId) → Recipe σ) :
    Pool.Smaller ⟨next (b.survey [] roots).1 :: (b.survey [] roots).2.recipes⟩
      ⟨.survey roots next :: b.recipes⟩ := by
  rcases b.survey_recipes [] roots with heq | hlt
  · rw [heq]
    exact .step (.survey ..)
  · exact (hlt.cons _).trans (.step (.survey ..))

/-! ## Running -/

/-- A relation between a builder and a later one follows recipes that make nodes from drafts with a
property: it follows their operations, and constructions as far as their recipes are of this sort. -/
structure Follows (p : Draft → Prop) (R : Builder σ → Builder σ → Prop) : Prop where
  refl : ∀ b, R b b
  trans : ∀ {b c d}, R b c → R c d → R b d
  perform : ∀ b op, op.Flat → op.Drafts p → R b (b.perform op)
  construct : ∀ {b c d f recipe}, b.request f = .construct recipe c →
    (recipe.Drafts p → R c d) → ∀ outcome, R b (d.leave f outcome)

namespace Follows

variable {p : Draft → Prop} {R : Builder σ → Builder σ → Prop} (h : Follows p R)

include h

theorem force_of {b : Builder σ} {f : NodeId}
    (hrun : ∀ recipe c, b.request f = .construct recipe c → recipe.Drafts p →
      R c (Builder.run recipe c).2) : R b (b.force f).2 := by
  cases hreq : b.request f with
  | answer result =>
    rw [force_answer hreq]
    exact h.refl b
  | construct recipe c =>
    rw [force_construct hreq]
    exact h.construct hreq (hrun recipe c hreq) _

/-- A survey is followed if the recipes of a pool are, among which are those it may run. -/
theorem survey_of {q : Pool σ}
    (hrun : ∀ recipe (c : Builder σ), Pool.Smaller ⟨recipe :: c.recipes⟩ q → recipe.Drafts p →
      R c (Builder.run recipe c).2)
    (b : Builder σ) (order queue : List NodeId) (hb : Pool.Smaller ⟨b.recipes⟩ q) :
    R b (b.survey order queue).2 := by
  have hforce : ∀ (b : Builder σ) (e : NodeId), Pool.Smaller ⟨b.recipes⟩ q → R b (b.force e).2 :=
    fun b e hb => h.force_of fun recipe c hreq =>
      hrun recipe c (Pool.Smaller.perm_left hb (request_perm hreq))
  fun_induction survey b order queue with
  | case1 | case3 | case4 => exact h.refl _
  | case2 b order e rest _ ih => exact ih hb
  | case5 b order e rest _ _ _ _ fault _ => exact hforce b e hb
  | case6 b order e rest _ _ _ _ body _ ih =>
    exact h.trans (hforce b e hb) (ih (force_smaller_of hb e))
  | case7 b order e rest _ _ _ _ ih => exact ih hb

theorem run {r : Recipe σ} (hr : r.Drafts p) (b : Builder σ) : R b (Builder.run r b).2 := by
  suffices hpool : ∀ (q : Pool σ) r (b : Builder σ), q = ⟨r :: b.recipes⟩ → r.Drafts p →
      R b (Builder.run r b).2 from hpool _ r b rfl hr
  intro q
  induction q using WellFounded.induction (WellFoundedRelation.wf (α := Pool σ)) with
  | _ q ih =>
    rintro r b rfl hr
    have next : ∀ {r' : Recipe σ} {c : Builder σ}, r'.Drafts p → R b c →
        Pool.Smaller ⟨r' :: c.recipes⟩ ⟨r :: b.recipes⟩ → R b (Builder.run r' c).2 :=
      fun hr' hbc hlt => h.trans hbc (ih _ hlt _ _ rfl hr')
    cases r with
    | done result =>
      rw [run_done]
      exact h.refl b
    | look k =>
      rw [run_look]
      exact next (hr _) (h.refl b) (.step (.look ..))
    | share update k =>
      rw [run_share]
      exact next hr (h.perform b (.share update) trivial trivial) (.step (.share ..))
    | create draft k =>
      rw [run_create]
      exact next (hr.2 _) (h.perform b (.create draft) trivial hr.1) (.step (.create ..))
    | function arity body k =>
      rw [run_function]
      exact next (hr.2 _) (h.perform b (.function arity body) trivial hr.1)
        (b.makeFunction_smaller arity body k)
    | body f k =>
      rw [run_body]
      have hforce : R b (b.force f).2 := h.force_of fun recipe c hreq =>
        ih _ (Pool.Smaller.drop.perm_left (request_perm hreq)) recipe c rfl
      exact next (hr _) hforce (b.afterForce_smaller f k)
    | fill slot target k =>
      rw [run_fill]
      exact next (hr _) (h.perform b (.fill slot target) trivial trivial) (.step (.fill ..))
    | memoize i e k =>
      rw [run_memoize]
      exact next hr (h.perform b (.memoize i e) trivial trivial) (.step (.memoize ..))
    | warn ws k =>
      rw [run_warn]
      exact next hr (h.perform b (.warn ws) trivial trivial) (.step (.warn ..))
    | survey roots k =>
      rw [run_survey]
      have hsurvey : R b (b.survey [] roots).2 :=
        h.survey_of (fun recipe c hlt => ih _ hlt recipe c rfl) b [] roots .drop
      exact next (hr _) hsurvey (b.afterSurvey_smaller roots k)

theorem force (b : Builder σ) (f : NodeId) : R b (b.force f).2 :=
  h.force_of fun _ c _ hrecipe => h.run hrecipe c

theorem survey (b : Builder σ) (order queue : List NodeId) : R b (b.survey order queue).2 :=
  h.survey_of (q := ⟨.done (.ok (.statements [])) :: b.recipes⟩)
    (fun _ c _ hrecipe => h.run hrecipe c) b order queue .drop

theorem analyze (b : Builder σ) (body : Body) (stem : String) : R b (b.analyze body stem).2 := by
  have hsurvey := h.survey b [] body.roots
  unfold Builder.analyze
  split
  · rename_i heq
    rwa [heq] at hsurvey
  · rename_i order c heq
    rw [heq] at hsurvey
    split
    · exact hsurvey
    · exact h.trans hsurvey (h.perform _ (.warn _) trivial trivial)

end Follows

/-! ## Leading on -/

/-- A construction is begun, something happens, and the construction is ended. -/
theorem Leads.construct {b c d : Builder σ} {f : NodeId} {recipe : Recipe σ}
    (h : b.request f = .construct recipe c) (hd : c.Leads d) (outcome : Except Fault Body) :
    b.Leads (d.leave f outcome) := by
  obtain ⟨⟨ops, rfl⟩, hs⟩ := hd
  have hscopes : (c.performAll ops).state.scopes = f :: b.state.scopes :=
    hs.trans (request_scopes h)
  refine ⟨⟨.enter f :: ops ++ [Operation.leave outcome], ?_⟩, ?_⟩
  · show (ops ++ [Operation.leave outcome]).foldl perform (b.perform (.enter f)) = _
    rw [perform_enter h, List.foldl_append]
    exact perform_leave hscopes outcome
  · show ((c.performAll ops).state.scopes).tail = b.state.scopes
    rw [hscopes]
    rfl

theorem perform_scopes (b : Builder σ) {op : Operation σ} (h : op.Flat) :
    (b.perform op).state.scopes = b.state.scopes := by
  cases op with
  | create draft => exact b.state.create_scopes draft
  | fill slot target => exact b.state.fill_scopes slot target
  | enter f => exact h.elim
  | leave outcome => exact h.elim
  | _ => rfl

theorem follows_leads : Follows (σ := σ) (fun _ => True) Leads where
  refl := .refl
  trans := .trans
  perform b op hop _ := .single op (b.perform_scopes hop)
  construct hreq hd outcome := .construct hreq (hd (Recipe.drafts_of_forall (fun _ => trivial) _))
    outcome

theorem run_leads (r : Recipe σ) (b : Builder σ) : b.Leads (run r b).2 :=
  follows_leads.run (Recipe.drafts_of_forall (fun _ => trivial) r) b

theorem force_leads (b : Builder σ) (f : NodeId) : b.Leads (b.force f).2 := follows_leads.force b f

theorem survey_leads (b : Builder σ) (order queue : List NodeId) :
    b.Leads (b.survey order queue).2 := follows_leads.survey b order queue

theorem analyze_leads (b : Builder σ) (body : Body) (stem : String) :
    b.Leads (b.analyze body stem).2 := follows_leads.analyze b body stem

theorem Reached.of_analyze {b c : Builder σ} {body : Body} {stem : String}
    {result : Except Fault Analysis} (hb : b.Reached) (h : b.analyze body stem = (result, c)) :
    c.Reached := by
  have hleads := b.analyze_leads body stem
  rw [h] at hleads
  exact hleads.reached hb

end Builder

end ScriptGraph
