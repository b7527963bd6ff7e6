import Mathlib.Data.List.Count
import ScriptGraph.Proofs.Operators.Phrase

/-!
# How the words of a tree are read

Members, keys and arguments belong to what stands directly before them, the first arguments behind a
`new` to the `new`, and an assignment takes all that follows as its value. Read like this, the words
of a tree may give another tree.

* `Phrase.read` : reads words, with what is still open;
* `Tree.Grouped` : trees whose operators take what they would be read to take;
* `Tree.Grouped.read_write` : the words of such a tree are read as the tree;
* `Tree.exists_grouped` : the words of any tree are those of such a tree;
* `Tree.exists_unique_grouped` : each text of a tree is that of exactly one such tree.
-/

namespace ScriptGraph

/-! ## Reading -/

/-- What is open while words are read. -/
inductive Pending
  /-- A `new` whose arguments are yet to come. -/
  | new
  /-- A target whose value is yet to come. -/
  | target (t : Tree)

def Pending.isNew : Pending → Bool
  | .new => true
  | .target _ => false

namespace Tree

/-- The whole, when its last operand is complete. A `new` without arguments is dropped. -/
def close : List Pending → Tree → Tree
  | [], x => x
  | .new :: ps, x => close ps x
  | .target t :: ps, x => close ps (.assign t x)

/-- What the last `new` is applied to, and what was open before it. -/
def split : List Pending → Tree → Option (Tree × List Pending)
  | [], _ => none
  | .new :: ps, x => some (x, ps)
  | .target t :: ps, x => split ps (.assign t x)

/-- Arguments go to the last `new`, or else to the last operand. -/
def apply (ps : List Pending) (x : Tree) (args : List Tree) : Tree × List Pending :=
  match split ps x with
  | some (c, outer) => (.construct c args, outer)
  | none => (.call x args false, ps)

end Tree

mutual

def Phrase.read : Phrase → List Pending → Tree
  | .new rest, ps => rest.read (.new :: ps)
  | .await rest, ps => Tree.close ps (.await (rest.read []))
  | .name n rest, ps => rest.read (.ident n) ps
  | .group inner rest, ps => rest.read (inner.read []) ps

/-- Reads on behind the operand `x`. -/
def Tail.read : Tail → Tree → List Pending → Tree
  | .done, x, ps => Tree.close ps x
  | .member property optional rest, x, ps => rest.read (.member x property optional) ps
  | .index key rest, x, ps => rest.read (.index x (key.read [])) ps
  | .call args true rest, x, ps => rest.read (.call x (Phrase.readAll args) true) ps
  | .call args false rest, x, ps =>
    rest.read (Tree.apply ps x (Phrase.readAll args)).1 (Tree.apply ps x (Phrase.readAll args)).2
  | .assign rest, x, ps => rest.read (.target x :: ps)

def Phrase.readAll : List Phrase → List Tree
  | [] => []
  | w :: rest => w.read [] :: Phrase.readAll rest

end

/-! ## Trees that are read as they are -/

namespace Tree

def isAssignment : Tree → Bool
  | .assign _ _ => true
  | _ => false

def isAwait : Tree → Bool
  | .await _ => true
  | _ => false

/-- Trees whose operators take what they are read to take. An assignment is no object, callee or
target; and where `inNew` is set, which is in a constructor, arguments would go to the `new`. -/
inductive Grouped : Bool → Tree → Prop
  | ident {inNew} (name) : Grouped inNew (.ident name)
  | member {inNew object} (property optional) (h : Grouped inNew object)
    (hobject : object.isAssignment = false) : Grouped inNew (.member object property optional)
  | index {inNew object key} (h : Grouped inNew object) (hobject : object.isAssignment = false)
    (hkey : Grouped false key) : Grouped inNew (.index object key)
  | call {callee args} (h : Grouped false callee) (hcallee : callee.isAssignment = false)
    (hargs : ∀ t ∈ args, Grouped false t) : Grouped false (.call callee args false)
  | callOptional {inNew callee args} (h : Grouped inNew callee)
    (hcallee : callee.isAssignment = false) (hargs : ∀ t ∈ args, Grouped false t) :
    Grouped inNew (.call callee args true)
  | construct {inNew constructor args} (h : Grouped true constructor)
    (hargs : ∀ t ∈ args, Grouped false t) : Grouped inNew (.construct constructor args)
  | assign {inNew target value} (h : Grouped inNew target) (htarget : target.isAssignment = false)
    (hvalue : Grouped inNew value) : Grouped inNew (.assign target value)
  | await {inNew value} (h : Grouped false value) : Grouped inNew (.await value)

variable {t x y c : Tree} {ps qs outer : List Pending} {inNew : Bool}

/-- Only an assignment or something awaited can be written differently where it stands alone. -/
theorem write_standalone (hassign : t.isAssignment = false) (hawait : t.isAwait = false) (k : Tail) :
    t.write .standalone k = t.write .operand k := by
  cases t with
  | assign target value => cases hassign
  | await value => cases hawait
  | _ => simp only [write]

/-- The last operand of a tree, with the targets before it. -/
def unwind : Tree → List Pending → Tree × List Pending
  | .assign target value, ps => unwind value (.target target :: ps)
  | x, ps => (x, ps)

theorem unwind_of_operand (h : t.isAssignment = false) (ps : List Pending) :
    t.unwind ps = (t, ps) := by
  cases t with
  | assign target value => cases h
  | _ => rfl

theorem close_unwind (t : Tree) (ps : List Pending) :
    close (t.unwind ps).2 (t.unwind ps).1 = close ps t := by
  induction t generalizing ps with
  | assign target value _ ih => exact ih _
  | _ => rfl

theorem split_unwind (t : Tree) (ps : List Pending) :
    split (t.unwind ps).2 (t.unwind ps).1 = split ps t := by
  induction t generalizing ps with
  | assign target value _ ih => exact ih _
  | _ => rfl

/-- Without a `new`, arguments belong to what stands before them. -/
theorem split_eq_none : split ps x = none ↔ ps.any Pending.isNew = false := by
  induction ps generalizing x with
  | nil => simp [split]
  | cons p ps ih => cases p <;> simp [split, Pending.isNew, ih]

theorem readAll_writeAll {ts : List Tree}
    (h : ∀ t ∈ ts, (t.write .standalone .done).read [] = t) :
    Phrase.readAll (writeAll ts) = ts := by
  induction ts with
  | nil => rfl
  | cons t ts ih =>
    obtain ⟨ht, hts⟩ := List.forall_mem_cons.1 h
    rw [writeAll, Phrase.readAll, ht, ih hts]

/-- Words that are read as they are: what follows them is read behind the last operand, unless an
open `new` would take arguments from within. -/
def ReadsBack (inNew : Bool) (t : Tree) : Prop :=
  ∀ ps, (inNew = false → ps.any Pending.isNew = false) → ∀ k,
    (t.write .operand k).read ps = k.read (t.unwind ps).1 (t.unwind ps).2

/-- The same of a tree that stands alone. -/
def ReadsAlone (t : Tree) : Prop :=
  ∀ ps, ps.any Pending.isNew = false → (t.write .standalone .done).read ps = close ps t

theorem ReadsBack.alone (h : ReadsBack false t) (hassign : t.isAssignment = false)
    (hawait : t.isAwait = false) : ReadsAlone t := fun ps hps => by
  rw [write_standalone hassign hawait, h ps fun _ => hps, Tail.read, close_unwind]

theorem ReadsAlone.read_write (h : ReadsAlone t) : (t.write .standalone .done).read [] = t :=
  h [] rfl

/-- A grouped tree is read back, wherever it stands. -/
theorem Grouped.readsBack (h : t.Grouped inNew) :
    ReadsBack inNew t ∧ (inNew = false → ReadsAlone t) := by
  induction h with
  | ident name =>
    have hback : ∀ inNew, ReadsBack inNew (.ident name) := fun _ _ _ _ => rfl
    exact ⟨hback _, fun _ => (hback _).alone rfl rfl⟩
  | @member inNew object property optional _ hobject ih =>
    have hback : ReadsBack inNew (.member object property optional) := fun ps hps k => by
      rw [write, ih.1 ps hps, unwind_of_operand hobject]
      rfl
    exact ⟨hback, fun hn => (hn ▸ hback).alone rfl rfl⟩
  | @index inNew object key _ hobject _ ih ihkey =>
    have hback : ReadsBack inNew (.index object key) := fun ps hps k => by
      rw [write, ih.1 ps hps, unwind_of_operand hobject, Tail.read, (ihkey.2 rfl).read_write]
      rfl
    exact ⟨hback, fun hn => (hn ▸ hback).alone rfl rfl⟩
  | @call callee args _ hcallee _ ih ihargs =>
    have hback : ReadsBack false (.call callee args false) := fun ps hps k => by
      rw [write, ih.1 ps hps, unwind_of_operand hcallee, Tail.read,
        readAll_writeAll fun t ht => ((ihargs t ht).2 rfl).read_write, apply,
        split_eq_none.2 (hps rfl)]
      rfl
    exact ⟨hback, fun _ => hback.alone rfl rfl⟩
  | @callOptional inNew callee args _ hcallee _ ih ihargs =>
    have hback : ReadsBack inNew (.call callee args true) := fun ps hps k => by
      rw [write, ih.1 ps hps, unwind_of_operand hcallee, Tail.read,
        readAll_writeAll fun t ht => ((ihargs t ht).2 rfl).read_write]
      rfl
    exact ⟨hback, fun hn => (hn ▸ hback).alone rfl rfl⟩
  | @construct inNew constructor args _ _ ih ihargs =>
    have hback : ∀ inNew, ReadsBack inNew (.construct constructor args) := fun _ ps _ k => by
      rw [write, Phrase.read, ih.1 (.new :: ps) nofun, Tail.read,
        readAll_writeAll fun t ht => ((ihargs t ht).2 rfl).read_write, apply, split_unwind]
      rfl
    exact ⟨hback _, fun _ => (hback _).alone rfl rfl⟩
  | @assign inNew target value _ htarget _ iht ihv =>
    refine ⟨fun ps hps k => ?_, fun hn ps hps => ?_⟩
    · rw [write, iht.1 ps hps, unwind_of_operand htarget, Tail.read, ihv.1 (.target target :: ps) hps]
      rfl
    · rw [write, iht.1 ps fun _ => hps, unwind_of_operand htarget, Tail.read,
        ihv.2 hn (.target target :: ps) hps, close]
  | @await inNew value _ ih =>
    have hvalue : (value.write .operand .done).read [] = value := by
      rw [ih.1 [] fun _ => rfl, Tail.read, close_unwind, close]
    refine ⟨fun ps _ k => ?_, fun _ ps _ => ?_⟩
    · rw [write, Phrase.read, Phrase.read, hvalue]
      rfl
    · rw [write, Phrase.read, hvalue]

theorem Grouped.read_write (h : t.Grouped false) : (t.write .standalone .done).read [] = t :=
  (h.readsBack.2 rfl).read_write

/-! ## What any tree is read as -/

/-- What was read, in front of what is yet to be read. -/
def resume : List Pending → Phrase → Phrase
  | [], w => w
  | .new :: ps, w => resume ps (.new w)
  | .target t :: ps, w => resume ps (t.write .operand (.assign w))

/-- The targets that are open are grouped. -/
inductive Ready : List Pending → Prop
  | nil : Ready []
  | new {ps : List Pending} (h : Ready ps) : Ready (.new :: ps)
  | target {ps : List Pending} {t : Tree} (h : Ready ps) (ht : t.Grouped (ps.any Pending.isNew))
    (hop : t.isAssignment = false) : Ready (.target t :: ps)

theorem resume_close (h : ps.any Pending.isNew = false) (x : Tree) (pos : Position) (k : Tail) :
    resume ps (x.write pos k) = (close ps x).write pos k := by
  induction ps generalizing x with
  | nil => rfl
  | cons p ps ih =>
    cases p with
    | new => cases h
    | target t => exact ih h (.assign t x)

theorem Ready.close (hr : Ready ps) (h : ps.any Pending.isNew = false) (hx : x.Grouped false) :
    (Tree.close ps x).Grouped false := by
  induction hr generalizing x with
  | nil => exact hx
  | new => cases h
  | @target ps t _ ht hop ih =>
    have hps : ps.any Pending.isNew = false := h
    rw [hps] at ht
    exact ih h (.assign ht hop hx)

theorem Ready.split (hr : Ready ps) (hx : x.Grouped true) (h : split ps x = some (c, outer)) :
    Ready outer ∧ c.Grouped true ∧
      ps.countP Pending.isNew = outer.countP Pending.isNew + 1 ∧
      ∀ k, resume ps (x.write .operand k) = resume outer (.new (c.write .operand k)) := by
  induction hr generalizing x with
  | nil => cases h
  | @new ps hr _ =>
    cases h
    exact ⟨hr, hx, List.countP_cons_of_pos rfl, fun _ => rfl⟩
  | @target ps t _ ht hop ih =>
    have hps : ps.any Pending.isNew = true := by
      rw [← Bool.not_eq_false]
      intro hnone
      rw [Tree.split, split_eq_none.2 hnone] at h
      cases h
    rw [hps] at ht
    exact ih (.assign ht hop hx) h

/-- Words before `k` are read as the operand `x` behind what is open in `qs`. -/
structure Reads (words : Tail → Phrase) (ps : List Pending) (x : Tree) (qs : List Pending)
    (news : Nat) : Prop where
  ready : Ready qs
  grouped : x.Grouped (qs.any Pending.isNew)
  operand : x.isAssignment = false
  few : qs.countP Pending.isNew ≤ news
  read : ∀ k, (words k).read ps = k.read x qs
  write : ∀ k, resume ps (words k) = resume qs (x.write .operand k)

namespace Reads

variable {words words' : Tail → Phrase} {ws : List Phrase} {args : List Tree} {n m : Nat}

theorem member (h : Reads words ps x qs n) (property : Identifier) (optional : Bool) :
    Reads (fun k => words (.member property optional k)) ps (.member x property optional) qs n where
  ready := h.ready
  grouped := .member property optional h.grouped h.operand
  operand := rfl
  few := h.few
  read _ := h.read _
  write k := by rw [h.write, Tree.write]

theorem index (h : Reads words ps x qs n) {w : Phrase} (hkey : (w.read []).Grouped false)
    (hw : (w.read []).write .standalone .done = w) :
    Reads (fun k => words (.index w k)) ps (.index x (w.read [])) qs n where
  ready := h.ready
  grouped := .index h.grouped h.operand hkey
  operand := rfl
  few := h.few
  read _ := h.read _
  write k := by rw [h.write, Tree.write, hw]

theorem callOptional (h : Reads words ps x qs n) (hargs : ∀ t ∈ Phrase.readAll ws, t.Grouped false)
    (hws : writeAll (Phrase.readAll ws) = ws) :
    Reads (fun k => words (.call ws true k)) ps (.call x (Phrase.readAll ws) true) qs n where
  ready := h.ready
  grouped := .callOptional h.grouped h.operand hargs
  operand := rfl
  few := h.few
  read _ := h.read _
  write k := by rw [h.write, Tree.write, hws]

theorem apply (h : Reads words ps x qs n) (hargs : ∀ t ∈ Phrase.readAll ws, t.Grouped false)
    (hws : writeAll (Phrase.readAll ws) = ws) :
    Reads (fun k => words (.call ws false k)) ps (Tree.apply qs x (Phrase.readAll ws)).1
      (Tree.apply qs x (Phrase.readAll ws)).2 (n - 1) := by
  have hread : ∀ k, (words (.call ws false k)).read ps =
      k.read (Tree.apply qs x (Phrase.readAll ws)).1 (Tree.apply qs x (Phrase.readAll ws)).2 :=
    fun k => h.read _
  cases hs : Tree.split qs x with
  | none =>
    have hnone := split_eq_none.1 hs
    have hgrouped := h.grouped
    rw [Tree.apply, hs] at hread ⊢
    refine ⟨h.ready, ?_, rfl, ?_, hread, fun k => ?_⟩
    · rw [hnone] at hgrouped ⊢
      exact .call hgrouped h.operand hargs
    · rw [List.countP_eq_zero.2 (by simpa using hnone)]
      exact Nat.zero_le _
    · rw [h.write, Tree.write, hws]
  | some out =>
    obtain ⟨c, outer⟩ := out
    have hsome : qs.any Pending.isNew = true := by
      rw [← Bool.not_eq_false]
      intro hnone
      rw [split_eq_none.2 hnone] at hs
      cases hs
    obtain ⟨hready, hc, hcount, hwrite⟩ := h.ready.split (hsome ▸ h.grouped) hs
    rw [Tree.apply, hs] at hread ⊢
    refine ⟨hready, .construct hc hargs, rfl, ?_, hread, fun k => ?_⟩
    · have := h.few
      dsimp only
      omega
    · rw [h.write, hwrite, Tree.write, hws]

theorem mono (h : Reads words ps x qs n) (hn : n ≤ m) : Reads words ps x qs m :=
  { h with few := Nat.le_trans h.few hn }

theorem new (h : Reads words (.new :: ps) x qs n) : Reads (fun k => .new (words k)) ps x qs n where
  ready := h.ready
  grouped := h.grouped
  operand := h.operand
  few := h.few
  read _ := h.read _
  write _ := h.write _

theorem assign (h : Reads words ps x qs n) {rs : List Pending}
    (h' : Reads words' (.target x :: qs) y rs m) :
    Reads (fun k => words (.assign (words' k))) ps y rs m where
  ready := h'.ready
  grouped := h'.grouped
  operand := h'.operand
  few := h'.few
  read k := by rw [h.read, Tail.read, h'.read]
  write k := by rw [h.write, ← h'.write, resume]

end Reads

theorem isAwait_apply (ps : List Pending) (x : Tree) (args : List Tree) :
    (Tree.apply ps x args).1.isAwait = false := by
  unfold Tree.apply
  split <;> rfl

/-- The words of a tree as an operand are read as a grouped one. -/
def ReadsOperand (t : Tree) : Prop :=
  ∀ ps, Ready ps → ∃ x qs, Reads (t.write .operand) ps x qs (ps.countP Pending.isNew) ∧
    (t.isAssignment = false → x.isAwait = t.isAwait)

/-- The words of a tree that stands alone are read as a grouped tree, which has the same words. -/
def ReadsWhole (t : Tree) : Prop :=
  ∀ ps, Ready ps → ps.any Pending.isNew = false →
    ((t.write .standalone .done).read ps).Grouped false ∧
      resume ps (t.write .standalone .done) =
        ((t.write .standalone .done).read ps).write .standalone .done

theorem Reads.no_new {words : Tail → Phrase} {n : Nat} (h : Reads words ps x qs n) (hn : n = 0) :
    qs.any Pending.isNew = false := by
  have hzero := Nat.le_zero.1 (hn ▸ h.few)
  simpa using List.countP_eq_zero.1 hzero

theorem countP_isNew (h : ps.any Pending.isNew = false) : ps.countP Pending.isNew = 0 :=
  List.countP_eq_zero.2 (by simpa using h)

theorem ReadsOperand.whole (h : ReadsOperand t) (hassign : t.isAssignment = false)
    (hawait : t.isAwait = false) : ReadsWhole t := fun ps hr hps => by
  obtain ⟨x, qs, hx, hsame⟩ := h ps hr
  have hqs := hx.no_new (countP_isNew hps)
  have hgrouped := hx.grouped
  rw [hqs] at hgrouped
  rw [write_standalone hassign hawait, hx.read, hx.write, Tail.read]
  refine ⟨hx.ready.close hqs hgrouped, ?_⟩
  rw [← write_standalone hx.operand ((hsame hassign).trans hawait), resume_close hqs]

theorem ReadsWhole.args {args : List Tree} (h : ∀ t ∈ args, ReadsWhole t) :
    (∀ t ∈ Phrase.readAll (writeAll args), t.Grouped false) ∧
      writeAll (Phrase.readAll (writeAll args)) = writeAll args := by
  induction args with
  | nil => exact ⟨nofun, rfl⟩
  | cons t args ih =>
    obtain ⟨ht, hargs⟩ := List.forall_mem_cons.1 h
    obtain ⟨hgrouped, hwrite⟩ := ht [] .nil rfl
    obtain ⟨hall, hrest⟩ := ih hargs
    exact ⟨List.forall_mem_cons.2 ⟨hgrouped, hall⟩,
      by rw [writeAll, Phrase.readAll, writeAll, hrest, ← hwrite, resume]⟩

/-- Whatever tree the words come from, they are read as a grouped one with the same words. -/
theorem readsOperand_readsWhole (t : Tree) : ReadsOperand t ∧ ReadsWhole t := by
  induction t with
  | ident name =>
    have hop : ReadsOperand (.ident name) := fun ps hr =>
      ⟨.ident name, ps, ⟨hr, .ident name, rfl, Nat.le_refl _, fun _ => rfl, fun _ => rfl⟩,
        fun _ => rfl⟩
    exact ⟨hop, hop.whole rfl rfl⟩
  | member object property optional ih =>
    have hop : ReadsOperand (.member object property optional) := fun ps hr => by
      obtain ⟨x, qs, hx, _⟩ := ih.1 ps hr
      exact ⟨.member x property optional, qs, hx.member property optional, fun _ => rfl⟩
    exact ⟨hop, hop.whole rfl rfl⟩
  | index object key ih ihkey =>
    have hop : ReadsOperand (.index object key) := fun ps hr => by
      obtain ⟨x, qs, hx, _⟩ := ih.1 ps hr
      obtain ⟨hkey, hw⟩ := ihkey.2 [] .nil rfl
      exact ⟨.index x _, qs, hx.index hkey hw.symm, fun _ => rfl⟩
    exact ⟨hop, hop.whole rfl rfl⟩
  | call callee args optional ih ihargs =>
    obtain ⟨hargs, hws⟩ := ReadsWhole.args fun t ht => (ihargs t ht).2
    have hop : ReadsOperand (.call callee args optional) := fun ps hr => by
      obtain ⟨x, qs, hx, _⟩ := ih.1 ps hr
      cases optional with
      | true => exact ⟨.call x _ true, qs, hx.callOptional hargs hws, fun _ => rfl⟩
      | false =>
        have happly := hx.apply hargs hws
        exact ⟨_, _, happly.mono (Nat.sub_le _ 1), fun _ => isAwait_apply ..⟩
    exact ⟨hop, hop.whole rfl rfl⟩
  | construct constructor args ih ihargs =>
    obtain ⟨hargs, hws⟩ := ReadsWhole.args fun t ht => (ihargs t ht).2
    have hop : ReadsOperand (.construct constructor args) := fun ps hr => by
      obtain ⟨x, qs, hx, _⟩ := ih.1 (.new :: ps) hr.new
      have happly := (hx.apply hargs hws).new
      rw [List.countP_cons_of_pos rfl, Nat.add_sub_cancel] at happly
      exact ⟨_, _, happly, fun _ => isAwait_apply ..⟩
    exact ⟨hop, hop.whole rfl rfl⟩
  | assign target value iht ihv =>
    refine ⟨fun ps hr => ?_, fun ps hr hps => ?_⟩
    · obtain ⟨x, qs, hx, _⟩ := iht.1 ps hr
      obtain ⟨y, rs, hy, _⟩ := ihv.1 (.target x :: qs) (hx.ready.target hx.grouped hx.operand)
      exact ⟨y, rs, (hx.assign hy).mono hx.few, nofun⟩
    · obtain ⟨x, qs, hx, _⟩ := iht.1 ps hr
      have hqs := hx.no_new (countP_isNew hps)
      obtain ⟨hgrouped, hw⟩ := ihv.2 (.target x :: qs) (hx.ready.target hx.grouped hx.operand) hqs
      rw [write, hx.read, hx.write, Tail.read]
      exact ⟨hgrouped, hw⟩
  | await value ih =>
    obtain ⟨x, qs, hx, _⟩ := ih.1 [] .nil
    have hqs := hx.no_new rfl
    have hread : (value.write .operand .done).read [] = close qs x := hx.read .done
    have hgrouped : (close qs x).Grouped false := hx.ready.close hqs (hqs ▸ hx.grouped)
    have hwrite : value.write .operand .done = (close qs x).write .operand .done := by
      rw [← resume_close hqs, ← hx.write]
      rfl
    refine ⟨fun ps hr => ⟨.await (close qs x), ps, ⟨hr, .await hgrouped, rfl, Nat.le_refl _,
      fun k => ?_, fun k => ?_⟩, fun _ => rfl⟩, fun ps hr hps => ?_⟩
    · rw [write, Phrase.read, Phrase.read, hread]
      rfl
    · rw [write, write, hwrite]
    · rw [write, Phrase.read, hread, hwrite]
      refine ⟨hr.close hps (.await hgrouped), ?_⟩
      rw [← resume_close hps, write]

theorem exists_grouped (t : Tree) :
    ∃ u : Tree, u.Grouped false ∧ u.write .standalone .done = t.write .standalone .done := by
  obtain ⟨hgrouped, hwrite⟩ := t.readsOperand_readsWhole.2 [] .nil rfl
  exact ⟨_, hgrouped, hwrite.symm⟩

/-- The text of a tree that stands alone. -/
def text (t : Tree) : List Char := (t.write .standalone .done).text

/-- **Each text is that of exactly one grouped tree.** -/
theorem exists_unique_grouped (t : Tree) : ∃! u : Tree, u.Grouped false ∧ u.text = t.text := by
  obtain ⟨u, hu, hw⟩ := t.exists_grouped
  refine ⟨u, ⟨hu, by rw [text, hw, text]⟩, fun v ⟨hv, htext⟩ => ?_⟩
  have hsame : v.text ++ [] = t.text ++ [] := by rw [htext]
  obtain ⟨hwords, _⟩ := Phrase.text_inj _ _ stops_nil stops_nil hsame
  rw [← hv.read_write, ← hu.read_write, hwords, hw]

end Tree

end ScriptGraph
