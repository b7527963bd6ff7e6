import ScriptGraph.Builder.Pool

/-!
# Running recipes

* `Builder.run` : runs a recipe; the rules are `run_done`, `run_look`, …, `run_body`;
* `Builder.force` : the body of a function, constructed at the first request.

The rule of a survey is `run_survey`, in `ScriptGraph.Analysis.Survey`.
-/

namespace ScriptGraph.Builder

variable {σ : Type}

mutual

/-- Runs a recipe. What is pending afterwards is smaller than the recipe and what was pending. -/
def runBounded (r : Recipe σ) (b : Builder σ) :
    { out : Except Fault Body × Builder σ // Pool.Smaller ⟨out.2.recipes⟩ ⟨r :: b.recipes⟩ } :=
  match r with
  | .done result => ⟨(result, b), .drop⟩
  | .look next =>
    let out := runBounded (next b.state) b
    ⟨out.1, out.2.trans (.step (.look ..))⟩
  | .share update next =>
    let b' := b.update { b.state with shared := update b.state.shared }
    let out := runBounded next b'
    ⟨out.1, out.2.trans (.step (.share ..))⟩
  | .create draft next =>
    let (e, state) := b.state.create draft
    let out := runBounded (next e) (b.update state)
    ⟨out.1, out.2.trans (.step (.create ..))⟩
  | .function arity body next =>
    have hstep : Pool.Smaller ⟨next (b.makeFunction arity body).1 ::
        (b.makeFunction arity body).2.recipes⟩ ⟨.function arity body next :: b.recipes⟩ :=
      .replace ([next (b.makeFunction arity body).1,
          body (b.makeFunction arity body).1
            ((b.state.makeFunction arity).2.graph.params (b.makeFunction arity body).1)])
        (by
          simp only [recipes, makeFunction, List.map_append, List.map_cons, List.map_nil]
          exact (List.perm_append_singleton _ _).cons _)
        (by
          intro s hs
          simp only [List.mem_cons, List.not_mem_nil, or_false] at hs
          rcases hs with rfl | rfl
          · exact .functionNext ..
          · exact .functionBody ..)
    let made := b.makeFunction arity body
    let out := runBounded (next made.1) made.2
    ⟨out.1, out.2.trans hstep⟩
  | .body f next =>
    match h : b.request f with
    | .answer result =>
      let out := runBounded (next result) b
      ⟨out.1, out.2.trans (.step (.body ..))⟩
    | .construct recipe c =>
      have henter : Pool.Smaller ⟨recipe :: c.recipes⟩ ⟨.body f next :: b.recipes⟩ :=
        Pool.Smaller.drop.perm ((request_perm h).symm.cons _)
      let inner := runBounded recipe c
      have hleave : Pool.Smaller
          ⟨next inner.1.1 :: (inner.1.2.leave f inner.1.1).recipes⟩ ⟨.body f next :: b.recipes⟩ :=
        ((inner.2.perm (request_perm h).symm).cons _).trans (.step (.body ..))
      let out := runBounded (next inner.1.1) (inner.1.2.leave f inner.1.1)
      ⟨out.1, out.2.trans hleave⟩
  | .fill slot target next =>
    let (answer, state) := b.state.fill slot target
    let out := runBounded (next answer) (b.update state)
    ⟨out.1, out.2.trans (.step (.fill ..))⟩
  | .memoize i e next =>
    let out := runBounded next (b.update { b.state with memo := (i, e) :: b.state.memo })
    ⟨out.1, out.2.trans (.step (.memoize ..))⟩
  | .warn ws next =>
    let out := runBounded next (b.warn ws)
    ⟨out.1, out.2.trans (.step (.warn ..))⟩
  | .survey roots next => walkBounded roots next b [] roots
termination_by ((⟨r :: b.recipes⟩ : Pool σ), 1, 0, 0)
decreasing_by
  · exact Prod.Lex.left _ _ (Pool.Smaller.step (.look ..))
  · exact Prod.Lex.left _ _ (Pool.Smaller.step (.share ..))
  · exact Prod.Lex.left _ _ (Pool.Smaller.step (.create ..))
  · exact Prod.Lex.left _ _ hstep
  · exact Prod.Lex.left _ _ (Pool.Smaller.step (.body ..))
  · exact Prod.Lex.left _ _ henter
  · exact Prod.Lex.left _ _ hleave
  · exact Prod.Lex.left _ _ (Pool.Smaller.step (.fill ..))
  · exact Prod.Lex.left _ _ (Pool.Smaller.step (.memoize ..))
  · exact Prod.Lex.left _ _ (Pool.Smaller.step (.warn ..))
  · exact Prod.Lex.right _ (Prod.Lex.left _ _ Nat.zero_lt_one)

/-- Continues the walk of a survey that has visited `order` and is to visit `queue`, then goes on
with its outcome. -/
def walkBounded (roots : List NodeId) (next : Except Fault (List NodeId) → Recipe σ)
    (b : Builder σ) (order queue : List NodeId) :
    { out : Except Fault Body × Builder σ //
      Pool.Smaller ⟨out.2.recipes⟩ ⟨.survey roots next :: b.recipes⟩ } :=
  match queue with
  | [] =>
    let out := runBounded (next (.ok order)) b
    ⟨out.1, out.2.trans (.step (.survey ..))⟩
  | e :: rest =>
    if _hskip : e ∈ order then walkBounded roots next b order rest
    else if _hin : b.state.graph.size ≤ e then
      let out := runBounded (next (.error (.noSuchNode b.state.graph.size e))) b
      ⟨out.1, out.2.trans (.step (.survey ..))⟩
    else if b.state.graph.isUnfilledSlot e then
      let out := runBounded (next (.error .unfilledSlot)) b
      ⟨out.1, out.2.trans (.step (.survey ..))⟩
    else if b.state.graph.isFunction e then
      match h : b.request e with
      | .answer (.error fault) =>
        let out := runBounded (next (.error fault)) b
        ⟨out.1, out.2.trans (.step (.survey ..))⟩
      | .answer (.ok body) => walkBounded roots next b (order ++ [e]) (rest ++ body.roots)
      | .construct recipe c =>
        have _henter : Pool.Smaller ⟨recipe :: c.recipes⟩ ⟨.survey roots next :: b.recipes⟩ :=
          Pool.Smaller.drop.perm ((request_perm h).symm.cons _)
        let inner := runBounded recipe c
        have hinner : Pool.Smaller ⟨(inner.1.2.leave e inner.1.1).recipes⟩ ⟨b.recipes⟩ :=
          inner.2.perm (request_perm h).symm
        match inner.1.1 with
        | .error fault =>
          let out := runBounded (next (.error fault)) (inner.1.2.leave e inner.1.1)
          ⟨out.1, out.2.trans ((hinner.cons _).trans (.step (.survey ..)))⟩
        | .ok body =>
          let out := walkBounded roots next (inner.1.2.leave e inner.1.1) (order ++ [e])
            (rest ++ body.roots)
          ⟨out.1, out.2.trans (hinner.cons _)⟩
    else walkBounded roots next b (order ++ [e]) (rest ++ b.state.graph.children e)
termination_by ((⟨.survey roots next :: b.recipes⟩ : Pool σ), 0, b.unvisited order, queue.length)
decreasing_by
  · exact Prod.Lex.left _ _ (Pool.Smaller.step (.survey ..))
  · exact Prod.Lex.right _ (Prod.Lex.right _ (Prod.Lex.right _ (by simp)))
  · exact Prod.Lex.left _ _ (Pool.Smaller.step (.survey ..))
  · exact Prod.Lex.left _ _ (Pool.Smaller.step (.survey ..))
  · exact Prod.Lex.left _ _ (Pool.Smaller.step (.survey ..))
  · exact Prod.Lex.right _ (Prod.Lex.right _ (Prod.Lex.left _ _ (unvisited_append_lt _hskip _hin)))
  · exact Prod.Lex.left _ _ _henter
  · exact Prod.Lex.left _ _ ((hinner.cons _).trans (.step (.survey ..)))
  · exact Prod.Lex.left _ _ (hinner.cons _)
  · exact Prod.Lex.right _ (Prod.Lex.right _ (Prod.Lex.left _ _ (unvisited_append_lt _hskip _hin)))

end

/-- Runs a recipe: its outcome, and the builder afterwards. -/
def run (r : Recipe σ) (b : Builder σ) : Except Fault Body × Builder σ := (runBounded r b).1

/-! ## The rules -/

@[simp] theorem run_done (result : Except Fault Body) (b : Builder σ) :
    run (.done result) b = (result, b) := by
  rw [run, runBounded]

@[simp] theorem run_look (next : BuilderState σ → Recipe σ) (b : Builder σ) :
    run (.look next) b = run (next b.state) b := by
  rw [run, runBounded, run]

@[simp] theorem run_share (f : σ → σ) (next : Recipe σ) (b : Builder σ) :
    run (.share f next) b = run next (b.update { b.state with shared := f b.state.shared }) := by
  rw [run, runBounded, run]

@[simp] theorem run_create (draft : Draft) (next : NodeId → Recipe σ) (b : Builder σ) :
    run (.create draft next) b =
      run (next (b.state.create draft).1) (b.update (b.state.create draft).2) := by
  rw [run, runBounded, run]

@[simp] theorem run_function (arity : Nat) (body : NodeId → List NodeId → Recipe σ)
    (next : NodeId → Recipe σ) (b : Builder σ) :
    run (.function arity body next) b =
      run (next (b.makeFunction arity body).1) (b.makeFunction arity body).2 := by
  rw [run, runBounded, run]

@[simp] theorem run_fill (slot target : NodeId) (next : Except Fault Unit → Recipe σ)
    (b : Builder σ) :
    run (.fill slot target next) b =
      run (next (b.state.fill slot target).1) (b.update (b.state.fill slot target).2) := by
  rw [run, runBounded, run]

@[simp] theorem run_memoize (i : Nat) (e : NodeId) (next : Recipe σ) (b : Builder σ) :
    run (.memoize i e next) b =
      run next (b.update { b.state with memo := (i, e) :: b.state.memo }) := by
  rw [run, runBounded, run]

@[simp] theorem run_warn (ws : List Warning) (next : Recipe σ) (b : Builder σ) :
    run (.warn ws next) b = run next (b.warn ws) := by
  rw [run, runBounded, run]

/-- The body of a function, constructed at the first request. -/
def force (b : Builder σ) (f : NodeId) : Except Fault Body × Builder σ :=
  match b.request f with
  | .answer result => (result, b)
  | .construct recipe c =>
    let (result, c) := run recipe c
    (result, c.leave f result)

theorem force_answer {b : Builder σ} {f : NodeId} {result : Except Fault Body}
    (h : b.request f = .answer result) : b.force f = (result, b) := by
  rw [force, h]

theorem force_construct {b c : Builder σ} {f : NodeId} {recipe : Recipe σ}
    (h : b.request f = .construct recipe c) :
    b.force f = ((run recipe c).1, (run recipe c).2.leave f (run recipe c).1) := by
  rw [force, h]

@[simp] theorem run_body (f : NodeId) (next : Except Fault Body → Recipe σ) (b : Builder σ) :
    run (.body f next) b = run (next (b.force f).1) (b.force f).2 := by
  rw [run, runBounded]
  split
  · rename_i h
    rw [force_answer h, run]
  · rename_i recipe c h
    rw [force_construct h]
    rfl

end ScriptGraph.Builder
