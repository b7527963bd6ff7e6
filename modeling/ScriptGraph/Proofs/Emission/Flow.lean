import ScriptGraph.Proofs.Emission.Sites
import ScriptGraph.Proofs.Builder.Growth

/-!
# What is written was to be written

* `marked` : the nodes that the marks of one sort are about;
* `Analysis.Yields.count_written` : what is written out or named was used, declared or still to be
  written;
* `Analysis.Yields.count_bound` : what is declared belongs to a function that is written out;
* `Analysis.Yields.count_written_declared` : a declared node is written out where it is declared;
* `Analysis.Yields.mem_mention_iff` : what is mentioned comes from nodes that are written out.
-/

namespace ScriptGraph

variable {a : Analysis} {g : Graph} {tasks : List Task} {sites : List Site}

/-! ## What tasks are about -/

theorem filterMap_cons_toList {α β : Type} (f : α → Option β) (x : α) (xs : List α) :
    (x :: xs).filterMap f = (f x).toList ++ xs.filterMap f := by
  rw [List.filterMap_cons]
  cases f x <;> rfl

theorem filterMap_bodyTasks (a : Analysis) (scope : Scope) (roots : List NodeId)
    (around : List Frame) :
    (a.bodyTasks scope roots around).filterMap Task.use? = roots ∧
      (a.bodyTasks scope roots around).filterMap Task.write? = [] ∧
      (a.bodyTasks scope roots around).filterMap Task.declare? = a.declarationsOf scope := by
  simp [Analysis.bodyTasks, List.filterMap_map, Function.comp_def]

theorem filterMap_uses (es : List NodeId) (around : List Frame) :
    (es.map (Task.use · around)).filterMap Task.use? = es ∧
      (es.map (Task.use · around)).filterMap Task.write? = [] ∧
      (es.map (Task.use · around)).filterMap Task.declare? = [] := by
  simp [List.filterMap_map, Function.comp_def]

/-! ## Counting marks -/

@[simp] theorem marked_nil (sort : Mark → Option NodeId) : marked sort [] = [] := rfl

@[simp] theorem marked_append (sort : Mark → Option NodeId) (sites sites' : List Site) :
    marked sort (sites ++ sites') = marked sort sites ++ marked sort sites' :=
  List.filterMap_append

@[simp] theorem marked_cons (sort : Mark → Option NodeId) (s : Site) (sites : List Site) :
    marked sort (s :: sites) = (sort s.mark).toList ++ marked sort sites :=
  filterMap_cons_toList ..

@[simp] theorem marked_map {α : Type} (sort : Mark → Option NodeId) (f : α → Mark)
    (around : List Frame) (xs : List α) :
    marked sort (xs.map fun x => ⟨f x, around⟩) = xs.filterMap fun x => sort (f x) := by
  rw [marked, List.filterMap_map]
  rfl

theorem mem_marked_written {e : NodeId} :
    e ∈ marked Mark.written? sites ↔ ∃ around, ⟨.written e, around⟩ ∈ sites := by
  rw [marked, List.mem_filterMap]
  constructor
  · rintro ⟨⟨mark, around⟩, hs, hmark⟩
    cases mark with
    | written e' =>
      cases hmark
      exact ⟨around, hs⟩
    | _ => cases hmark
  · rintro ⟨around, hs⟩
    exact ⟨_, hs, rfl⟩

theorem mem_marked_binding {e : NodeId} :
    e ∈ marked Mark.binding? sites ↔ ∃ around, ⟨.binding e, around⟩ ∈ sites := by
  rw [marked, List.mem_filterMap]
  constructor
  · rintro ⟨⟨mark, around⟩, hs, hmark⟩
    cases mark with
    | binding e' =>
      cases hmark
      exact ⟨around, hs⟩
    | _ => cases hmark
  · rintro ⟨around, hs⟩
    exact ⟨_, hs, rfl⟩

namespace Analysis.Yields

variable (h : a.Yields g tasks sites) (e : NodeId)

include h

/-- Each use gives a name or a node written out, and so on for all that is written out. -/
theorem count_written :
    (marked Mark.written? sites).count e + (marked Mark.name? sites).count e =
      (tasks.filterMap Task.use?).count e + (tasks.filterMap Task.write?).count e +
        (marked Mark.binding? sites).count e +
        ((marked Mark.written? sites).map fun p => (g.successors p).count e).sum := by
  induction h with
  | done => simp
  | named hd _ ih =>
    simp [filterMap_cons_toList, List.count_cons] at ih ⊢
    omega
  | inlined hd _ ih =>
    simp [filterMap_cons_toList, List.count_cons] at ih ⊢
    omega
  | parameter hp _ ih =>
    simp [filterMap_cons_toList, List.count_cons] at ih ⊢
    omega
  | @function f body around tasks inside sites hb _ _ ihi ih =>
    obtain ⟨huse, hwrite, _⟩ := filterMap_bodyTasks a (some f) body.roots (.function f :: around)
    rw [huse, hwrite] at ihi
    simp [filterMap_cons_toList, List.count_cons, Graph.successors_of_body? hb] at ih ihi ⊢
    omega
  | @expansion e around tasks inside sites hf hp _ _ ihi ih =>
    obtain ⟨huse, hwrite, _⟩ := filterMap_uses (g.children e) around
    rw [huse, hwrite] at ihi
    simp [filterMap_cons_toList, List.count_cons, Graph.successors_of_not_isFunction hf] at ih ihi ⊢
    omega
  | declare _ ih =>
    simp [filterMap_cons_toList, List.count_cons] at ih ⊢
    omega

theorem count_bound (hg : ∀ p, g.isFunction p = false → a.declarationsOf (some p) = []) :
    (marked Mark.binding? sites).count e = (tasks.filterMap Task.declare?).count e +
      ((marked Mark.written? sites).map fun p => (a.declarationsOf (some p)).count e).sum := by
  induction h with
  | done => simp
  | named _ _ ih | inlined _ _ ih | parameter _ _ ih =>
    simp [filterMap_cons_toList] at ih ⊢
    omega
  | @function f body around tasks inside sites hb _ _ ihi ih =>
    rw [(filterMap_bodyTasks a (some f) body.roots (.function f :: around)).2.2] at ihi
    simp [filterMap_cons_toList] at ih ihi ⊢
    omega
  | @expansion e around tasks inside sites hf hp _ _ ihi ih =>
    rw [(filterMap_uses (g.children e) around).2.2] at ihi
    simp [filterMap_cons_toList, hg e hf] at ih ihi ⊢
    omega
  | declare _ ih =>
    simp [filterMap_cons_toList, List.count_cons] at ih ⊢
    omega

theorem count_parameter : (marked Mark.parameter? sites).count e =
    ((marked Mark.written? sites).map fun p => (g.params p).count e).sum := by
  induction h with
  | done => simp
  | named _ _ ih | inlined _ _ ih | parameter _ _ ih | declare _ ih => simpa using ih
  | @function f body around tasks inside sites hb _ _ ihi ih =>
    simp at ih ihi ⊢
    omega
  | @expansion e around tasks inside sites hf hp _ _ ihi ih =>
    have hparams : g.params e = [] := List.eq_nil_iff_forall_not_mem.2 fun p hp => by
      rw [Graph.isFunction_of_mem_params hp] at hf
      cases hf
    simp [hparams] at ih ihi ⊢
    omega

theorem count_written_declared (hd : a.isDeclared e = true) (hp : g.isParameter e = false) :
    (marked Mark.written? sites).count e =
      (tasks.filterMap Task.write?).count e + (marked Mark.binding? sites).count e := by
  induction h with
  | done => simp
  | named _ _ ih =>
    simp [filterMap_cons_toList] at ih ⊢
    omega
  | @inlined x _ _ _ hx _ ih =>
    have hne : x ≠ e := by
      rintro rfl
      rw [hd] at hx
      cases hx
    simp [filterMap_cons_toList, hne] at ih ⊢
    omega
  | @parameter x _ _ _ hx _ ih =>
    have hne : x ≠ e := by
      rintro rfl
      rw [hp] at hx
      cases hx
    simp [hne] at ih ⊢
    omega
  | @function f body around tasks inside sites hb _ _ ihi ih =>
    rw [(filterMap_bodyTasks a (some f) body.roots (.function f :: around)).2.1] at ihi
    simp [List.count_cons] at ih ihi ⊢
    omega
  | @expansion x around tasks inside sites hf hp _ _ ihi ih =>
    rw [(filterMap_uses (g.children x) around).2.1] at ihi
    simp [List.count_cons] at ih ihi ⊢
    omega
  | declare _ ih =>
    simp [filterMap_cons_toList, List.count_cons] at ih ⊢
    omega

omit e in
/-- What a script mentions at a place comes from a node that is written out there. -/
theorem mem_mention_iff {m : Mention} {around : List Frame} :
    ⟨.mention m, around⟩ ∈ sites ↔ ∃ e, ⟨.written e, around⟩ ∈ sites ∧ m ∈ g.ownMentions e := by
  induction h with
  | done => simp
  | named _ _ ih | inlined _ _ ih | parameter _ _ ih | declare _ ih => simpa using ih
  | @function f body around' tasks inside sites hb _ _ ihi ih =>
    obtain ⟨arity, hk⟩ := Graph.body?_eq_some.1 hb
    have hf : g.ownMentions f = [] := by rw [Graph.ownMentions, hk]
    simp [ihi, ih, or_and_right, exists_or, hf]
  | @expansion e around' tasks inside sites hf hp _ _ ihi ih =>
    have hhere : m ∈ g.ownMentions e ∧ around' = around ↔
        around = around' ∧ m ∈ g.ownMentions e := by rw [and_comm, eq_comm]
    simp [ihi, ih, or_and_right, exists_or]
    rw [hhere, or_left_comm]

end Analysis.Yields

end ScriptGraph
