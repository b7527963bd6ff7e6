import ScriptGraph.Builder.Run

/-!
# The reachable nodes

`Builder.survey` walks from the roots to all nodes a script can be made of, breadth first. It
follows the references of a node and enters the bodies of functions, which are constructed when
they are met. A handle without a node, an empty slot or a body that cannot be constructed ends the
walk.

A recipe may ask for a survey too, even one that meets the function whose body it constructs
(`run_survey`).
-/

namespace ScriptGraph.Builder

variable {σ : Type}

theorem force_smaller (b : Builder σ) (f : NodeId) :
    (b.force f).2 = b ∨ Pool.Smaller ⟨(b.force f).2.recipes⟩ ⟨b.recipes⟩ := by
  unfold force
  split
  · exact .inl rfl
  · rename_i recipe c h
    exact .inr ((runBounded recipe c).2.perm (request_perm h).symm)

/-- Continues a walk that has visited `order` and is to visit `queue`. -/
def survey (b : Builder σ) (order queue : List NodeId) : Except Fault (List NodeId) × Builder σ :=
  match queue with
  | [] => (.ok order, b)
  | e :: rest =>
    if _hskip : e ∈ order then survey b order rest
    else if _hin : b.state.graph.size ≤ e then
      (.error (.noSuchNode b.state.graph.size e), b)
    else if b.state.graph.isUnfilledSlot e then (.error .unfilledSlot, b)
    else if b.state.graph.isFunction e then
      match (b.force e).1 with
      | .error fault => (.error fault, (b.force e).2)
      | .ok body => survey (b.force e).2 (order ++ [e]) (rest ++ body.roots)
    else survey b (order ++ [e]) (rest ++ b.state.graph.children e)
termination_by ((⟨b.recipes⟩ : Pool σ), b.unvisited order, queue.length)
decreasing_by
  · exact Prod.Lex.right _ (Prod.Lex.right _ (by simp))
  · rcases b.force_smaller e with h | h
    · rw [h]
      exact Prod.Lex.right _ (Prod.Lex.left _ _ (unvisited_append_lt _hskip _hin))
    · exact Prod.Lex.left _ _ h
  · exact Prod.Lex.right _ (Prod.Lex.left _ _ (unvisited_append_lt _hskip _hin))

/-- The walk inside a recipe is the walk of `survey`. -/
theorem walkBounded_eq (roots : List NodeId) (next : Except Fault (List NodeId) → Recipe σ)
    (b : Builder σ) (order queue : List NodeId) :
    (walkBounded roots next b order queue).1 =
      run (next (b.survey order queue).1) (b.survey order queue).2 := by
  fun_induction survey b order queue with
  | case1 b order => rw [walkBounded, run]
  | case2 b order e rest hskip ih => rw [walkBounded, dif_pos hskip, ih]
  | case3 b order e rest hskip hin => rw [walkBounded, dif_neg hskip, dif_pos hin, run]
  | case4 b order e rest hskip hin hslot =>
    rw [walkBounded, dif_neg hskip, dif_neg hin, if_pos hslot, run]
  | case5 b order e rest hskip hin hslot hfun fault hforce =>
    rw [walkBounded, dif_neg hskip, dif_neg hin, if_neg hslot, if_pos hfun]
    split
    · rename_i h
      rw [force_answer h] at hforce ⊢
      cases hforce
      rfl
    · rename_i h
      rw [force_answer h] at hforce
      cases hforce
    · rename_i recipe c h
      rw [force_construct h] at hforce ⊢
      dsimp only at hforce ⊢
      split
      · rename_i h'
        cases h'.symm.trans hforce
        rfl
      · rename_i h'
        cases h'.symm.trans hforce
  | case6 b order e rest hskip hin hslot hfun body hforce ih =>
    rw [walkBounded, dif_neg hskip, dif_neg hin, if_neg hslot, if_pos hfun]
    split
    · rename_i h
      rw [force_answer h] at hforce
      cases hforce
    · rename_i h
      rw [force_answer h] at hforce ih ⊢
      cases hforce
      exact ih
    · rename_i recipe c h
      rw [force_construct h] at hforce ih ⊢
      dsimp only at hforce ih ⊢
      split
      · rename_i h'
        cases h'.symm.trans hforce
      · rename_i h'
        cases h'.symm.trans hforce
        exact ih
  | case7 b order e rest hskip hin hslot hfun ih =>
    rw [walkBounded, dif_neg hskip, dif_neg hin, if_neg hslot, if_neg hfun, ih]

@[simp] theorem run_survey (roots : List NodeId) (next : Except Fault (List NodeId) → Recipe σ)
    (b : Builder σ) :
    run (.survey roots next) b = run (next (b.survey [] roots).1) (b.survey [] roots).2 := by
  rw [run, runBounded, walkBounded_eq]

end ScriptGraph.Builder
