import Mathlib.Data.List.Basic
import ScriptGraph.Emission.Position
import ScriptGraph.Text.Basic

/-!
# Operator trees and their words

* `Tree` : names combined by operators;
* `Phrase`, `Tail` : what a script has where an operand is expected, and behind an operand;
* `Tree.write` : the words of a tree, in front of what follows it;
* `Phrase.text` : words as text; `Phrase.text_inj` : the text determines the words.

The words do not say which operands an operator takes, except where there are parentheses.
-/

namespace ScriptGraph

/-- A name that can be written as it is. -/
abbrev Identifier : Type := { name : String // isIdentifier name = true }

/-! ## Trees -/

/-- Names combined by operators. -/
inductive Tree
  | ident (name : Identifier)
  | member (object : Tree) (property : Identifier) (optional : Bool)
  | index (object key : Tree)
  | call (callee : Tree) (args : List Tree) (optional : Bool)
  | construct (constructor : Tree) (args : List Tree)
  | assign (target value : Tree)
  | await (value : Tree)

namespace Tree

/-- Induction over a tree and the trees in its lists of arguments. -/
@[elab_as_elim, induction_eliminator]
theorem induct {P : Tree → Prop} (ident : ∀ name, P (.ident name))
    (member : ∀ object property optional, P object → P (.member object property optional))
    (index : ∀ object key, P object → P key → P (.index object key))
    (call : ∀ callee args optional, P callee → (∀ t ∈ args, P t) → P (.call callee args optional))
    (construct : ∀ constructor args, P constructor → (∀ t ∈ args, P t) →
      P (.construct constructor args))
    (assign : ∀ target value, P target → P value → P (.assign target value))
    (await : ∀ value, P value → P (.await value)) (t : Tree) : P t :=
  @Tree.rec P (fun ts => ∀ t ∈ ts, P t) ident member index call construct assign await nofun
    (fun _ _ ht hts => List.forall_mem_cons.2 ⟨ht, hts⟩) t

end Tree

/-! ## Words -/

mutual

/-- What a script has where an operand is expected. -/
inductive Phrase
  | new (rest : Phrase)
  | await (rest : Phrase)
  | name (n : Identifier) (rest : Tail)
  /-- Something in parentheses. -/
  | group (inner : Phrase) (rest : Tail)

/-- What a script has behind an operand. -/
inductive Tail
  | done
  | member (property : Identifier) (optional : Bool) (rest : Tail)
  | index (key : Phrase) (rest : Tail)
  | call (args : List Phrase) (optional : Bool) (rest : Tail)
  | assign (rest : Phrase)

end

mutual

/-- The words of a tree that stands in a position, in front of what follows it. -/
def Tree.write : Tree → Position → Tail → Phrase
  | .ident name, _, k => .name name k
  | .member object property optional, _, k => object.write .operand (.member property optional k)
  | .index object key, _, k => object.write .operand (.index (key.write .standalone .done) k)
  | .call callee args optional, _, k => callee.write .operand (.call (writeAll args) optional k)
  | .construct constructor args, _, k =>
    .new (constructor.write .operand (.call (writeAll args) false k))
  | .assign target value, pos, k => target.write .operand (.assign (value.write pos k))
  | .await value, .standalone, k => .await (value.write .operand k)
  | .await value, .operand, k => .group (.await (value.write .operand .done)) k

/-- The words of trees that stand alone. -/
def Tree.writeAll : List Tree → List Phrase
  | [] => []
  | t :: rest => t.write .standalone .done :: writeAll rest

end

/-! ## Text -/

mutual

/-- Words as text. -/
def Phrase.text : Phrase → List Char
  | .new rest => ['n', 'e', 'w', ' '] ++ rest.text
  | .await rest => ['a', 'w', 'a', 'i', 't', ' '] ++ rest.text
  | .name n rest => n.val.toList ++ rest.text
  | .group inner rest => '(' :: (inner.text ++ ')' :: rest.text)

def Tail.text : Tail → List Char
  | .done => []
  | .member property optional rest =>
    (if optional then ['?', '.'] else ['.']) ++ (property.val.toList ++ rest.text)
  | .index key rest => '[' :: (key.text ++ ']' :: rest.text)
  | .call args optional rest =>
    (if optional then ['?', '.', '('] else ['(']) ++ (Phrase.textOfArgs args ++ ')' :: rest.text)
  | .assign rest => '=' :: rest.text

/-- Arguments, with commas between them. -/
def Phrase.textOfArgs : List Phrase → List Char
  | [] => []
  | w :: rest => w.text ++ Phrase.textOfMore rest

def Phrase.textOfMore : List Phrase → List Char
  | [] => []
  | w :: rest => ',' :: (w.text ++ Phrase.textOfMore rest)

end

/-- What may follow a complete expression. -/
def Stops (r : List Char) : Prop := ∀ c ∈ r.head?, c ∈ [')', ']', ',', ';']

theorem stops_cons {c : Char} {r : List Char} (h : c ∈ [')', ']', ',', ';']) : Stops (c :: r) := by
  rintro _ ⟨⟩
  exact h

theorem stops_nil : Stops [] := fun _ h => nomatch h

theorem Identifier.part (n : Identifier) : ∀ c ∈ n.val.toList, isIdentifierPart c = true :=
  isIdentifierPart_of_mem n.property

theorem Identifier.exists_cons (n : Identifier) :
    ∃ c cs, n.val.toList = c :: cs ∧ isIdentifierStart c = true := by
  obtain ⟨c, cs, hcs, hc, _⟩ := isIdentifier_iff.1 n.property
  exact ⟨c, cs, hcs, hc⟩

/-- A word ends where the next character cannot be part of it. -/
theorem word_inj {a b x y : List Char} (ha : ∀ c ∈ a, isIdentifierPart c = true)
    (hb : ∀ c ∈ b, isIdentifierPart c = true) (hx : ∀ c ∈ x.head?, isIdentifierPart c = false)
    (hy : ∀ c ∈ y.head?, isIdentifierPart c = false) (h : a ++ x = b ++ y) : a = b ∧ x = y := by
  induction a generalizing b with
  | nil =>
    cases b with
    | nil => exact ⟨rfl, h⟩
    | cons c b =>
      have hc := hx c (by rw [show x = c :: (b ++ y) from h]; rfl)
      rw [hb c List.mem_cons_self] at hc
      cases hc
  | cons c a ih =>
    cases b with
    | nil =>
      have hc := hy c (by rw [← show c :: (a ++ x) = y from h]; rfl)
      rw [ha c List.mem_cons_self] at hc
      cases hc
    | cons d b =>
      obtain ⟨rfl, hrest⟩ := List.cons.inj h
      obtain ⟨rfl, hxy⟩ := ih (fun c hc => ha c (List.mem_cons_of_mem _ hc))
        (fun c hc => hb c (List.mem_cons_of_mem _ hc)) hrest
      exact ⟨rfl, hxy⟩

theorem Tail.sign_head (k : Tail) {r : List Char} (hr : Stops r) :
    ∀ c ∈ (k.text ++ r).head?, c ∈ ['.', '?', '[', '(', '=', ')', ']', ',', ';'] := by
  intro c hc
  cases k with
  | done =>
    have := hr c hc
    simp only [List.mem_cons, List.not_mem_nil, or_false] at this ⊢
    tauto
  | member property optional rest =>
    cases optional <;>
    · obtain rfl := Option.some.inj hc
      decide
  | call args optional rest =>
    cases optional <;>
    · obtain rfl := Option.some.inj hc
      decide
  | index key rest | assign rest =>
    obtain rfl := Option.some.inj hc
    decide

theorem Tail.not_part_head (k : Tail) {r : List Char} (hr : Stops r) :
    ∀ c ∈ (k.text ++ r).head?, isIdentifierPart c = false := fun c hc => by
  have hall : ['.', '?', '[', '(', '=', ')', ']', ',', ';'].all (!isIdentifierPart ·) = true := by
    decide
  simpa using List.all_eq_true.1 hall c (k.sign_head hr c hc)

/-- A name is not followed by a blank. -/
theorem Phrase.name_ne_keyword {n : Identifier} {k : Tail} {r x : List Char} (hr : Stops r)
    (keyword : List Char) (hkeyword : keyword.all isIdentifierPart = true) :
    n.val.toList ++ (k.text ++ r) ≠ keyword ++ ' ' :: x := by
  intro h
  obtain ⟨_, hrest⟩ := word_inj n.part (List.all_eq_true.1 hkeyword) (k.not_part_head hr)
    (by rintro _ ⟨⟩; decide) h
  have hblank := k.sign_head hr ' ' (by rw [hrest]; rfl)
  exact absurd hblank (by decide)

theorem Identifier.ne_sign (n : Identifier) {c : Char} (hc : isIdentifierPart c = false)
    (x y : List Char) : n.val.toList ++ x ≠ c :: y := by
  obtain ⟨d, cs, hd, _⟩ := n.exists_cons
  rw [hd]
  intro h
  obtain ⟨rfl, _⟩ := List.cons.inj h
  rw [n.part d (by rw [hd]; exact List.mem_cons_self)] at hc
  cases hc

theorem Tail.eq_done {k : Tail} {r r' : List Char} (hr : Stops r) (h : r = k.text ++ r') :
    k = .done := by
  have hhead := fun c hc => hr c (h ▸ hc)
  cases k with
  | done => rfl
  | member property optional rest =>
    cases optional with
    | false => exact absurd (hhead '.' rfl) (by decide)
    | true => exact absurd (hhead '?' rfl) (by decide)
  | index key rest => exact absurd (hhead '[' rfl) (by decide)
  | call args optional rest =>
    cases optional with
    | false => exact absurd (hhead '(' rfl) (by decide)
    | true => exact absurd (hhead '?' rfl) (by decide)
  | assign rest => exact absurd (hhead '=' rfl) (by decide)

theorem Tail.member_ne_call (p : Identifier) (optional optional' : Bool) (x y : List Char) :
    (if optional then ['?', '.'] else ['.']) ++ (p.val.toList ++ x) ≠
      (if optional' then ['?', '.', '('] else ['(']) ++ y := by
  cases optional <;> cases optional'
  · simp
  · simp
  · simp
  · simpa using p.ne_sign (c := '(') (by decide) x y

theorem Phrase.stops_more (ws : List Phrase) (r : List Char) :
    Stops (Phrase.textOfMore ws ++ ')' :: r) := by
  cases ws with
  | nil => exact stops_cons (by decide)
  | cons w ws => exact stops_cons (by decide)

theorem Phrase.text_ne_close (w : Phrase) (x y : List Char) : w.text ++ x ≠ ')' :: y := by
  cases w with
  | name n k =>
    rw [Phrase.text, List.append_assoc]
    exact n.ne_sign (by decide) _ _
  | new w | await w | group w k => simp [Phrase.text]

mutual

/-- The text determines the words, and where they end. -/
theorem Phrase.text_inj : (w v : Phrase) → {r r' : List Char} → Stops r → Stops r' →
    w.text ++ r = v.text ++ r' → w = v ∧ r = r'
  | .new w, .new v, r, r', hr, hr', h => by
    simp only [Phrase.text, List.cons_append, List.nil_append, List.cons.injEq, true_and] at h
    obtain ⟨rfl, hrest⟩ := Phrase.text_inj w v hr hr' h
    exact ⟨rfl, hrest⟩
  | .await w, .await v, r, r', hr, hr', h => by
    simp only [Phrase.text, List.cons_append, List.nil_append, List.cons.injEq, true_and] at h
    obtain ⟨rfl, hrest⟩ := Phrase.text_inj w v hr hr' h
    exact ⟨rfl, hrest⟩
  | .name n k, .name m l, r, r', hr, hr', h => by
    simp only [Phrase.text, List.append_assoc] at h
    obtain ⟨hname, hrest⟩ := word_inj n.part m.part (k.not_part_head hr) (l.not_part_head hr') h
    obtain ⟨rfl, hend⟩ := Tail.text_inj k l hr hr' hrest
    exact ⟨by rw [Subtype.ext (String.toList_inj.1 hname)], hend⟩
  | .group w k, .group v l, r, r', hr, hr', h => by
    simp only [Phrase.text, List.cons_append, List.append_assoc, List.cons.injEq, true_and] at h
    obtain ⟨rfl, hrest⟩ := Phrase.text_inj w v (stops_cons (by decide)) (stops_cons (by decide)) h
    obtain ⟨rfl, hend⟩ := Tail.text_inj k l hr hr' (List.cons.inj hrest).2
    exact ⟨rfl, hend⟩
  | .new _, .await _, _, _, _, _, h | .await _, .new _, _, _, _, _, h
  | .new _, .group _ _, _, _, _, _, h | .group _ _, .new _, _, _, _, _, h
  | .await _, .group _ _, _, _, _, _, h | .group _ _, .await _, _, _, _, _, h => by
    simp [Phrase.text] at h
  | .name n k, .new v, r, r', hr, _, h => by
    simp only [Phrase.text, List.append_assoc] at h
    exact absurd h (Phrase.name_ne_keyword hr ['n', 'e', 'w'] (by decide))
  | .new w, .name m l, r, r', _, hr', h => by
    simp only [Phrase.text, List.append_assoc] at h
    exact absurd h.symm (Phrase.name_ne_keyword hr' ['n', 'e', 'w'] (by decide))
  | .name n k, .await v, r, r', hr, _, h => by
    simp only [Phrase.text, List.append_assoc] at h
    exact absurd h (Phrase.name_ne_keyword hr ['a', 'w', 'a', 'i', 't'] (by decide))
  | .await w, .name m l, r, r', _, hr', h => by
    simp only [Phrase.text, List.append_assoc] at h
    exact absurd h.symm (Phrase.name_ne_keyword hr' ['a', 'w', 'a', 'i', 't'] (by decide))
  | .name n _, .group _ _, _, _, _, _, h => by
    simp only [Phrase.text, List.append_assoc] at h
    exact absurd h (n.ne_sign (by decide) _ _)
  | .group _ _, .name m _, _, _, _, _, h => by
    simp only [Phrase.text, List.append_assoc] at h
    exact absurd h.symm (m.ne_sign (by decide) _ _)
termination_by structural w => w

theorem Tail.text_inj : (k l : Tail) → {r r' : List Char} → Stops r → Stops r' →
    k.text ++ r = l.text ++ r' → k = l ∧ r = r'
  | .done, l, r, r', hr, _, h => by
    obtain rfl := Tail.eq_done hr h
    exact ⟨rfl, h⟩
  | k, .done, r, r', _, hr', h => by
    obtain rfl := Tail.eq_done hr' h.symm
    exact ⟨rfl, h⟩
  | .member p o k, .member q o' l, r, r', hr, hr', h => by
    simp only [Tail.text, List.append_assoc] at h
    have hsame : o = o' := by
      cases o <;> cases o' <;> simp at h ⊢
    subst hsame
    rw [List.append_cancel_left_eq] at h
    obtain ⟨hname, hrest⟩ := word_inj p.part q.part (k.not_part_head hr) (l.not_part_head hr') h
    obtain ⟨rfl, hend⟩ := Tail.text_inj k l hr hr' hrest
    exact ⟨by rw [Subtype.ext (String.toList_inj.1 hname)], hend⟩
  | .index w k, .index v l, r, r', hr, hr', h => by
    simp only [Tail.text, List.cons_append, List.append_assoc, List.cons.injEq, true_and] at h
    obtain ⟨rfl, hrest⟩ := Phrase.text_inj w v (stops_cons (by decide)) (stops_cons (by decide)) h
    obtain ⟨rfl, hend⟩ := Tail.text_inj k l hr hr' (List.cons.inj hrest).2
    exact ⟨rfl, hend⟩
  | .call ws o k, .call vs o' l, r, r', hr, hr', h => by
    simp only [Tail.text, List.append_assoc] at h
    have hsame : o = o' := by
      cases o <;> cases o' <;> simp at h ⊢
    subst hsame
    rw [List.append_cancel_left_eq] at h
    obtain ⟨rfl, hrest⟩ := Phrase.textOfArgs_inj ws vs h
    obtain ⟨rfl, hend⟩ := Tail.text_inj k l hr hr' hrest
    exact ⟨rfl, hend⟩
  | .assign w, .assign v, r, r', hr, hr', h => by
    simp only [Tail.text, List.cons_append, List.cons.injEq, true_and] at h
    obtain ⟨rfl, hrest⟩ := Phrase.text_inj w v hr hr' h
    exact ⟨rfl, hrest⟩
  | .index _ _, .assign _, _, _, _, _, h | .assign _, .index _ _, _, _, _, _, h => by
    simp [Tail.text] at h
  | .member _ o _, .index _ _, _, _, _, _, h | .index _ _, .member _ o _, _, _, _, _, h
  | .member _ o _, .assign _, _, _, _, _, h | .assign _, .member _ o _, _, _, _, _, h
  | .call _ o _, .index _ _, _, _, _, _, h | .index _ _, .call _ o _, _, _, _, _, h
  | .call _ o _, .assign _, _, _, _, _, h | .assign _, .call _ o _, _, _, _, _, h => by
    cases o <;> simp [Tail.text] at h
  | .member p o _, .call _ o' _, _, _, _, _, h => by
    simp only [Tail.text, List.append_assoc] at h
    exact absurd h (Tail.member_ne_call p o o' _ _)
  | .call _ o _, .member q o' _, _, _, _, _, h => by
    simp only [Tail.text, List.append_assoc] at h
    exact absurd h.symm (Tail.member_ne_call q o' o _ _)
termination_by structural k => k

theorem Phrase.textOfMore_inj : (ws vs : List Phrase) → {r r' : List Char} →
    Phrase.textOfMore ws ++ ')' :: r = Phrase.textOfMore vs ++ ')' :: r' → ws = vs ∧ r = r'
  | [], [], _, _, h => ⟨rfl, (List.cons.inj h).2⟩
  | w :: ws, v :: vs, r, r', h => by
    simp only [Phrase.textOfMore, List.cons_append, List.append_assoc, List.cons.injEq,
      true_and] at h
    obtain ⟨rfl, hrest⟩ := Phrase.text_inj w v (Phrase.stops_more ws r) (Phrase.stops_more vs r') h
    obtain ⟨rfl, hend⟩ := Phrase.textOfMore_inj ws vs hrest
    exact ⟨rfl, hend⟩
  | [], v :: vs, _, _, h => by simp [Phrase.textOfMore] at h
  | w :: ws, [], _, _, h => by simp [Phrase.textOfMore] at h
termination_by structural ws => ws

theorem Phrase.textOfArgs_inj : (ws vs : List Phrase) → {r r' : List Char} →
    Phrase.textOfArgs ws ++ ')' :: r = Phrase.textOfArgs vs ++ ')' :: r' → ws = vs ∧ r = r'
  | [], [], _, _, h => ⟨rfl, (List.cons.inj h).2⟩
  | w :: ws, v :: vs, r, r', h => by
    simp only [Phrase.textOfArgs, List.append_assoc] at h
    obtain ⟨rfl, hrest⟩ := Phrase.text_inj w v (Phrase.stops_more ws r) (Phrase.stops_more vs r') h
    obtain ⟨rfl, hend⟩ := Phrase.textOfMore_inj ws vs hrest
    exact ⟨rfl, hend⟩
  | [], v :: vs, _, r', h => by
    simp only [Phrase.textOfArgs, List.append_assoc] at h
    exact absurd h.symm (v.text_ne_close _ _)
  | w :: ws, [], r, _, h => by
    simp only [Phrase.textOfArgs, List.append_assoc] at h
    exact absurd h (w.text_ne_close _ _)
termination_by structural ws => ws

end

end ScriptGraph
