import Mathlib.Data.List.DropRight
import ScriptGraph.Proofs.Emission.Splicing

/-!
# Texts that delimit what stands between them

* `Opens`, `Closes` : nothing before a text, or after it, reaches into the text as an operand;
* `opens_of_opensExpression`, `closes_of_closesExpression` : what the parts of a template tell about
  the whole text;
* `opens_append_equalsPart` : a part that is an equals sign only tells nothing, since the operator's
  other characters may be before it;
* `KeepsDelimiters`, `KeepsDelimiters.replaceAll` : delimiters stay where they are when marks are
  replaced.
-/

namespace ScriptGraph

variable {x y cs blanks sep : List Char}

/-! ## Blanks at the ends -/

theorem exists_trimEnd (cs : List Char) :
    ∃ blanks, (∀ c ∈ blanks, isBlank c = true) ∧ cs = trimEnd cs ++ blanks :=
  ⟨cs.rtakeWhile isBlank, fun _ => List.mem_rtakeWhile_imp,
    List.rdropWhile_append_rtakeWhile.symm⟩

theorem exists_trimStart (cs : List Char) :
    ∃ blanks, (∀ c ∈ blanks, isBlank c = true) ∧ cs = blanks ++ trimStart cs :=
  ⟨cs.takeWhile isBlank, fun _ => List.mem_takeWhile_imp, List.takeWhile_append_dropWhile.symm⟩

theorem trimEnd_append (x : List Char) (h : trimEnd y ≠ []) :
    trimEnd (x ++ y) = x ++ trimEnd y := by
  have hne : ¬(y.reverse.dropWhile isBlank).isEmpty := by simpa [trimEnd] using h
  simp only [trimEnd, List.reverse_append, List.dropWhile_append, if_neg hne, List.reverse_reverse]

theorem trimStart_append (h : trimStart x ≠ []) (y : List Char) :
    trimStart (x ++ y) = trimStart x ++ y := by
  have hne : ¬(x.dropWhile isBlank).isEmpty := by simpa [trimStart] using h
  rw [trimStart, List.dropWhile_append, if_neg hne, trimStart]

theorem trimEnd_append_blanks (h : ∀ c ∈ blanks, isBlank c = true) (x : List Char) :
    trimEnd (x ++ blanks) = trimEnd x := by
  have hall : (blanks.reverse.dropWhile isBlank).isEmpty := by
    simpa [List.dropWhile_eq_nil_iff] using h
  simp only [trimEnd, List.reverse_append, List.dropWhile_append, if_pos hall]

theorem trimEnd_eq_nil_iff : trimEnd cs = [] ↔ ∀ c ∈ cs, isBlank c = true :=
  List.rdropWhile_eq_nil_iff

/-! ## Delimiters -/

/-- What stands before an expression that nothing on its left reaches into. A `return` stands after
the declarations of a body. -/
def openers : List (List Char) :=
  ["=>".toList, ['('], ['['], [','], ['\x7b'], [':'], [';'], ";return".toList]

def closers : List Char := [')', ']', ',', '\x7d', ';', ':']

/-- The comparisons and compound assignments. They end with an equals sign, as an assignment does,
but what follows is an operand. -/
def equalsOperators : List (List Char) :=
  ["==".toList, "===".toList, "!=".toList, "!==".toList, "<=".toList, ">=".toList, "+=".toList,
    "-=".toList, "*=".toList, "/=".toList, "%=".toList, "**=".toList, "<<=".toList, ">>=".toList,
    ">>>=".toList, "&=".toList, "|=".toList, "^=".toList, "&&=".toList, "||=".toList, "??=".toList]

/-- What a text ends with that opens an expression. -/
def leftDelimiters : List (List Char) := ['='] :: openers

/-- An expression after the text is delimited on its left. -/
inductive Opens (before : List Char) : Prop
  | start (h : trimEnd before = [])
  | opener (sep : List Char) (hsep : sep ∈ openers) (h : sep <:+ trimEnd before)
  | equals (h : ['='] <:+ trimEnd before) (hop : ∀ op ∈ equalsOperators, ¬op <:+ trimEnd before)

/-- An expression before the text is delimited on its right. -/
def Closes (after : List Char) : Prop := ∀ c, (trimStart after).head? = some c → c ∈ closers

/-- The part of a template is an equals sign, perhaps with blanks behind it. -/
def IsEqualsPart (part : List Char) : Prop := trimEnd part = ['=']

instance (part : List Char) : Decidable (IsEqualsPart part) :=
  inferInstanceAs (Decidable (trimEnd part = ['=']))

/-- As far as the last part of the text tells, an expression after it is delimited. -/
def SeemsToOpen (before : List Char) : Prop :=
  Opens before ∨ ∃ x part, IsEqualsPart part ∧ before = x ++ part

theorem mem_leftDelimiters_of_mem_openers (h : sep ∈ openers) : sep ∈ leftDelimiters :=
  List.mem_cons_of_mem _ h

theorem trimEnd_of_mem_leftDelimiters :
    ∀ sep ∈ leftDelimiters, trimEnd sep = sep ∧ sep ≠ [] := by
  have hall : leftDelimiters.all (fun sep => trimEnd sep = sep ∧ sep ≠ []) = true := by decide
  exact fun sep hsep => by simpa using List.all_eq_true.1 hall sep hsep

theorem exists_of_suffix_trimEnd (h : sep <:+ trimEnd cs) :
    ∃ front blanks, (∀ c ∈ blanks, isBlank c = true) ∧ cs = front ++ (sep ++ blanks) := by
  obtain ⟨front, hfront⟩ := h
  obtain ⟨blanks, hblanks, hcs⟩ := exists_trimEnd cs
  exact ⟨front, blanks, hblanks, by rw [hcs, ← hfront, List.append_assoc]⟩

theorem trimEnd_append_delimiter (hsep : sep ∈ leftDelimiters)
    (hblanks : ∀ c ∈ blanks, isBlank c = true) (x : List Char) :
    trimEnd (x ++ (sep ++ blanks)) = x ++ sep := by
  obtain ⟨htrim, hne⟩ := trimEnd_of_mem_leftDelimiters sep hsep
  rw [← List.append_assoc, trimEnd_append_blanks hblanks, trimEnd_append x (htrim.symm ▸ hne),
    htrim]

theorem Opens.append_blanks (h : Opens x) (hblanks : ∀ c ∈ blanks, isBlank c = true) :
    Opens (x ++ blanks) := by
  have htrim := trimEnd_append_blanks hblanks x
  cases h with
  | start h => exact .start (htrim.trans h)
  | opener sep hsep h => exact .opener sep hsep (htrim.symm ▸ h)
  | equals h hop => exact .equals (htrim.symm ▸ h) (htrim.symm ▸ hop)

theorem opens_append_opener (x : List Char) (hsep : sep ∈ openers) : Opens (x ++ sep) := by
  obtain ⟨htrim, hne⟩ := trimEnd_of_mem_leftDelimiters sep (mem_leftDelimiters_of_mem_openers hsep)
  refine .opener sep hsep ?_
  rw [trimEnd_append x (htrim.symm ▸ hne), htrim]
  exact List.suffix_append ..

theorem opens_append_arrow (x : List Char) : Opens (x ++ "=>".toList) :=
  opens_append_opener x List.mem_cons_self

theorem opens_append_char (x : List Char) {c : Char}
    (hc : c ∈ ['(', '[', ',', '\x7b', ':', ';']) : Opens (x ++ [c]) := by
  refine opens_append_opener x ?_
  revert c
  simp [openers]

theorem exists_of_mem_equalsOperators : ∀ op ∈ equalsOperators, ∃ front, op = front ++ ['='] ∧
    front ≠ [] ∧ ∀ c ∈ front, c ∈ operatorChars := by
  have hall : equalsOperators.all (fun op => op = op.dropLast ++ ['='] ∧ op.dropLast ≠ [] ∧
      op.dropLast.all operatorChars.contains = true) = true := by decide
  intro op hop
  obtain ⟨heq, hne, hchars⟩ := of_decide_eq_true (List.all_eq_true.1 hall op hop)
  exact ⟨op.dropLast, heq, hne, by simpa using hchars⟩

theorem opens_append_equals (x : List Char) {c : Char} (hc : c ∉ operatorChars) :
    Opens (x ++ [c] ++ ['=']) := by
  have htrim : trimEnd (x ++ [c] ++ ['=']) = x ++ [c] ++ ['='] := by simp [trimEnd, isBlank]
  refine .equals ?_ fun op hop hsuffix => ?_
  · rw [htrim]
    exact List.suffix_append ..
  · obtain ⟨front, rfl, hne, hchars⟩ := exists_of_mem_equalsOperators op hop
    rw [htrim, List.suffix_append_inj_of_length_eq rfl, List.suffix_concat_iff] at hsuffix
    obtain ⟨front, rfl, _⟩ := hsuffix.1.resolve_left hne
    exact hc (hchars c (List.mem_append_right _ (List.mem_singleton_self c)))

theorem closes_cons {c : Char} (hc : c ∈ closers) (y : List Char) : Closes (c :: y) := by
  have hblank : ∀ c ∈ closers, isBlank c = false := by simp [closers, isBlank]
  intro d hd
  rw [trimStart, List.dropWhile_cons_of_neg (by simp [hblank c hc])] at hd
  exact Option.some.inj hd ▸ hc

theorem Closes.blanks_append (h : Closes y) (hblanks : ∀ c ∈ blanks, isBlank c = true) :
    Closes (blanks ++ y) := by
  have hnil : (blanks.dropWhile isBlank).isEmpty := by
    simpa [List.dropWhile_eq_nil_iff] using hblanks
  rwa [Closes, trimStart, List.dropWhile_append, if_pos hnil]

/-! ## Parts of templates -/

theorem IsEqualsPart.trimEnd_append {part : List Char} (h : IsEqualsPart part) (x : List Char) :
    trimEnd (x ++ part) = x ++ ['='] := by
  rw [IsEqualsPart] at h
  rw [ScriptGraph.trimEnd_append x (by simp [h]), h]

/-- No opener ends with an equals sign, so the operators alone decide. -/
theorem opens_iff_of_equals (h : ['='] <:+ trimEnd x) :
    Opens x ↔ ∀ op ∈ equalsOperators, ¬op <:+ trimEnd x := by
  refine ⟨fun hopens => ?_, .equals h⟩
  cases hopens with
  | start hnil => exact absurd (List.suffix_nil.1 (hnil ▸ h)) (by simp)
  | opener sep hsep hsuffix =>
    have hlast : ∀ sep ∈ openers, sep ≠ [] ∧ ¬['='] <:+ sep := by decide
    obtain ⟨hne, hnot⟩ := hlast sep hsep
    exact absurd (List.suffix_of_suffix_length_le h hsuffix (List.length_pos_of_ne_nil hne)) hnot
  | equals _ hop => exact hop

/-- After a part that is an equals sign only, an expression is delimited unless the operator's other
characters are before the part. -/
theorem opens_append_equalsPart {part : List Char} (hpart : IsEqualsPart part) (x : List Char) :
    Opens (x ++ part) ↔ ¬∃ front, front ++ ['='] ∈ equalsOperators ∧ front <:+ x := by
  have htrim := hpart.trimEnd_append x
  rw [opens_iff_of_equals (htrim ▸ List.suffix_append ..), htrim]
  refine ⟨?_, fun h op hop hsuffix => ?_⟩
  · rintro h ⟨front, hop, hsuffix⟩
    exact h _ hop ((List.suffix_append_inj_of_length_eq rfl).2 ⟨hsuffix, rfl⟩)
  · obtain ⟨front, rfl, -⟩ := exists_of_mem_equalsOperators op hop
    exact h ⟨front, hop, ((List.suffix_append_inj_of_length_eq rfl).1 hsuffix).1⟩

/-- A part that seems to open an expression does, or it is an equals sign only. -/
theorem opens_of_opensExpression {t : String} (h : opensExpression t = true) (x : List Char) :
    Opens (x ++ t.toList) ∨ IsEqualsPart t.toList := by
  obtain ⟨blanks, hblanks, htext⟩ := exists_trimEnd t.toList
  have hopens : Opens (x ++ trimEnd t.toList) → Opens (x ++ t.toList) := fun h => by
    rw [htext, ← List.append_assoc]
    exact h.append_blanks hblanks
  unfold opensExpression at h
  unfold IsEqualsPart
  generalize trimEnd t.toList = u at h hopens ⊢
  obtain ⟨r, rfl⟩ := List.reverse_surjective u
  rw [List.reverse_reverse] at h
  split at h
  · rename_i front
    refine .inl (hopens ?_)
    rw [List.reverse_cons, List.reverse_cons, List.append_assoc, ← List.append_assoc x]
    exact opens_append_arrow (x ++ front.reverse)
  · rename_i before
    cases before with
    | nil => exact .inr rfl
    | cons c front =>
      have hc : c ∉ operatorChars := by simpa using h
      refine .inl (hopens ?_)
      rw [List.reverse_cons, List.reverse_cons, ← List.append_assoc, ← List.append_assoc]
      exact opens_append_equals (x ++ front.reverse) hc
  · rename_i c front _ _
    refine .inl (hopens ?_)
    rw [List.reverse_cons, ← List.append_assoc]
    exact opens_append_char (x ++ front.reverse) (by simpa using h)
  · cases h

theorem closes_of_closesExpression {t : String} (h : closesExpression t = true) (y : List Char) :
    Closes (t.toList ++ y) := by
  intro c hc
  unfold closesExpression at h
  obtain ⟨d, hd, hmem⟩ := (Option.any_eq_true _ _).1 h
  have hne : trimStart t.toList ≠ [] := fun hnil => by simp [hnil] at hd
  rw [trimStart_append hne, List.head?_append, hd] at hc
  obtain rfl : d = c := Option.some.inj hc
  simpa [closers] using hmem

/-! ## Replacing marks -/

theorem replaceAll_nil (old new : List Char) : replaceAll old new [] = [] := rfl

/-- What is left at the end of a text by replacing was there before, or it is behind `new`. -/
theorem replaceFrom_tail {old new : List Char} (hnew : new ≠ []) (skip : Nat) (cs : List Char) :
    replaceFrom old new skip cs = cs.drop skip ∨ ∃ y s, replaceFrom old new skip cs = y ++ s ∧
      s <:+ cs ∧ y ≠ [] ∧ y.getLast? = new.getLast? := by
  induction cs generalizing skip with
  | nil => exact .inl (by cases skip <;> rfl)
  | cons c cs ih =>
    cases skip with
    | succ skip =>
      rw [replaceFrom, List.drop_succ_cons]
      obtain heq | ⟨y, s, heq, hs, hy⟩ := ih skip
      · exact .inl heq
      · exact .inr ⟨y, s, heq, hs.trans (List.suffix_cons ..), hy⟩
    | zero =>
      rw [replaceFrom]
      split
      · refine .inr ?_
        obtain heq | ⟨y, s, heq, hs, hy, hlast⟩ := ih (old.length - 1)
        · exact ⟨new, _, by rw [heq], (List.drop_suffix ..).trans (List.suffix_cons ..), hnew, rfl⟩
        · refine ⟨new ++ y, s, by rw [heq, List.append_assoc], hs.trans (List.suffix_cons ..),
            by simp [hy], ?_⟩
          rw [List.getLast?_append_of_ne_nil _ hy, hlast]
      · obtain heq | ⟨y, s, heq, hs, hy, hlast⟩ := ih 0
        · exact .inl (by rw [heq]; rfl)
        · refine .inr ⟨c :: y, s, by rw [heq]; rfl, hs.trans (List.suffix_cons ..), by simp, ?_⟩
          rw [← List.singleton_append, List.getLast?_append_of_ne_nil _ hy, hlast]

/-- An end of the new text that has no last character of `new` was there before. -/
theorem suffix_of_suffix_replaceAll {old new p : List Char} (hnew : new ≠ [])
    (hp : ∀ c ∈ p, new.getLast? ≠ some c) (h : p <:+ replaceAll old new cs) : p <:+ cs := by
  obtain heq | ⟨y, s, heq, hs, hy, hlast⟩ := replaceFrom_tail hnew 0 cs
  · rwa [replaceAll, heq] at h
  · rw [replaceAll, heq] at h
    have hsy : s <:+ y ++ s := List.suffix_append ..
    by_cases hlen : p.length ≤ s.length
    · exact (List.suffix_of_suffix_length_le h hsy hlen).trans hs
    -- Otherwise it would reach into the part behind which `s` stands.
    exfalso
    obtain ⟨q, rfl⟩ := List.suffix_of_suffix_length_le hsy h (Nat.le_of_not_le hlen)
    have hq : q ≠ [] := by
      rintro rfl
      exact hlen (Nat.le_refl _)
    have hqy : q <:+ y := ((List.suffix_append_inj_of_length_eq rfl).1 h).1
    refine hp (q.getLast hq) (List.mem_append_left _ (List.getLast_mem hq)) ?_
    obtain ⟨z, rfl⟩ := hqy
    rw [← hlast, List.getLast?_append_of_ne_nil _ hq, List.getLast?_eq_some_getLast hq]

section Marks

/-- The characters of marks. -/
def markChars : List Char := moduleMark ++ resourceMark

theorem notMem_markChars {c : Char} (h : isBlank c = true ∨ c ∈ closers) : c ∉ markChars := by
  have hall : markChars.all (fun c => !isBlank c && !closers.contains c) = true := by decide
  intro hc
  have hout := List.all_eq_true.1 hall c hc
  rcases h with h | h
  · simp [h] at hout
  · simp [h] at hout

theorem exists_notMem_markChars : ∀ sep ∈ leftDelimiters,
    '\x00' ∉ sep ∧ ∃ c ∈ sep, c ∉ markChars := by
  have hall : leftDelimiters.all (fun sep => !sep.contains '\x00' &&
      sep.any (!markChars.contains ·)) = true := by decide
  exact fun sep hsep => by simpa using List.all_eq_true.1 hall sep hsep

variable {mark new before after : List Char} (hmark : mark = moduleMark ∨ mark = resourceMark)

include hmark

theorem isMark_of : Layout.IsMark mark := by
  rcases hmark with rfl | rfl
  · exact Layout.isMark_moduleMark
  · exact Layout.isMark_resourceMark

theorem mark_ne_nil : mark ≠ [] := by
  rintro rfl
  cases (isMark_of hmark).1

theorem splits_of_markChars (hnull : '\x00' ∉ sep) (hout : ∃ c ∈ sep, c ∉ markChars) :
    Splits mark sep := by
  obtain ⟨hhead, hlast, -⟩ := isMark_of hmark
  obtain ⟨c, hc, hout⟩ := hout
  refine ⟨fun d hd h => ?_, fun d hd h => ?_, c, hc, fun h => hout ?_⟩
  · exact hnull (Option.some.inj (hhead.symm.trans h) ▸ hd)
  · exact hnull (Option.some.inj (hlast.symm.trans h) ▸ hd)
  · rcases hmark with rfl | rfl
    · exact List.mem_append_left _ h
    · exact List.mem_append_right _ h

theorem replaceAll_closers (hne : sep ≠ []) (hsep : ∀ c ∈ sep, isBlank c = true ∨ c ∈ closers)
    (x y : List Char) :
    replaceAll mark new (x ++ (sep ++ y)) =
      replaceAll mark new x ++ (sep ++ replaceAll mark new y) := by
  have hout : ∀ c ∈ sep, c ∉ markChars := fun c hc => notMem_markChars (hsep c hc)
  have hnull : '\x00' ∉ sep := fun h => hout _ h List.mem_cons_self
  obtain ⟨c, hc⟩ := List.exists_mem_of_ne_nil sep hne
  have hsplits := splits_of_markChars hmark hnull ⟨c, hc, hout c hc⟩
  exact replaceAll_append hsplits (mark_ne_nil hmark) x y

theorem replaceAll_blanks (hblanks : ∀ c ∈ blanks, isBlank c = true) (y : List Char) :
    replaceAll mark new (blanks ++ y) = blanks ++ replaceAll mark new y := by
  by_cases hne : blanks = []
  · rw [hne, List.nil_append, List.nil_append]
  · exact replaceAll_closers hmark hne (fun c hc => .inl (hblanks c hc)) [] y

theorem replaceAll_of_blanks (hblanks : ∀ c ∈ blanks, isBlank c = true) :
    replaceAll mark new blanks = blanks := by
  have h : replaceAll mark new (blanks ++ []) = _ := replaceAll_blanks hmark hblanks []
  rwa [List.append_nil, replaceAll_nil, List.append_nil] at h

theorem replaceAll_delimiter (hsep : sep ∈ leftDelimiters)
    (hblanks : ∀ c ∈ blanks, isBlank c = true) (x y : List Char) :
    replaceAll mark new (x ++ (sep ++ blanks) ++ y) =
      replaceAll mark new x ++ (sep ++ blanks) ++ replaceAll mark new y := by
  obtain ⟨hnull, c, hc, hout⟩ := exists_notMem_markChars sep hsep
  have hnull' : '\x00' ∉ sep ++ blanks := fun h => (List.mem_append.1 h).elim hnull fun h =>
    notMem_markChars (.inl (hblanks _ h)) List.mem_cons_self
  have hsplits := splits_of_markChars hmark hnull' ⟨c, List.mem_append_left _ hc, hout⟩
  rw [List.append_assoc, replaceAll_append hsplits (mark_ne_nil hmark), ← List.append_assoc]

theorem replaceAll_of_ends (hsep : sep ∈ leftDelimiters)
    (hblanks : ∀ c ∈ blanks, isBlank c = true) (x : List Char) :
    replaceAll mark new (x ++ (sep ++ blanks)) = replaceAll mark new x ++ (sep ++ blanks) := by
  have h : replaceAll mark new (x ++ (sep ++ blanks) ++ []) = _ :=
    replaceAll_delimiter hmark hsep hblanks x []
  rwa [List.append_nil, replaceAll_nil, List.append_nil] at h

/-- Where an expression is delimited on its left, it stays so. -/
theorem opens_replaceAll (h : Opens before) {last : Char} (hlast : new.getLast? = some last)
    (hnew : last ∉ operatorChars) : Opens (replaceAll mark new before) := by
  cases h with
  | start h =>
    rw [replaceAll_of_blanks hmark (trimEnd_eq_nil_iff.1 h)]
    exact .start h
  | opener sep hsep h =>
    have hsep' := mem_leftDelimiters_of_mem_openers hsep
    obtain ⟨front, blanks, hblanks, rfl⟩ := exists_of_suffix_trimEnd h
    rw [replaceAll_of_ends hmark hsep' hblanks, ← List.append_assoc]
    exact (opens_append_opener _ hsep).append_blanks hblanks
  | equals h hop =>
    have hsep : ['='] ∈ leftDelimiters := List.mem_cons_self
    obtain ⟨front, blanks, hblanks, rfl⟩ := exists_of_suffix_trimEnd h
    rw [trimEnd_append_delimiter hsep hblanks] at hop
    rw [replaceAll_of_ends hmark hsep hblanks]
    refine .equals ?_ fun op hmem hsuffix => hop op hmem ?_
    · rw [trimEnd_append_delimiter hsep hblanks]
      exact List.suffix_append ..
    · rw [trimEnd_append_delimiter hsep hblanks] at hsuffix
      obtain ⟨p, rfl, _, hchars⟩ := exists_of_mem_equalsOperators op hmem
      rw [List.suffix_append_inj_of_length_eq rfl] at hsuffix ⊢
      refine ⟨suffix_of_suffix_replaceAll (by rintro rfl; cases hlast) (fun c hc heq => ?_)
        hsuffix.1, rfl⟩
      exact hnew (Option.some.inj (hlast.symm.trans heq) ▸ hchars c hc)

theorem replaceAll_equalsPart {part : List Char} (hpart : IsEqualsPart part) (x : List Char) :
    replaceAll mark new (x ++ part) = replaceAll mark new x ++ part := by
  obtain ⟨blanks, hblanks, htext⟩ := exists_trimEnd part
  rw [htext, hpart]
  exact replaceAll_of_ends hmark List.mem_cons_self hblanks x

theorem replaceAll_append_of_left (h : SeemsToOpen before) (y : List Char) :
    replaceAll mark new (before ++ y) = replaceAll mark new before ++ replaceAll mark new y := by
  have hends : trimEnd before = [] ∨ ∃ sep ∈ leftDelimiters, sep <:+ trimEnd before := by
    obtain (h | ⟨sep, hsep, h⟩ | ⟨h, -⟩) | ⟨x, part, hpart, rfl⟩ := h
    · exact .inl h
    · exact .inr ⟨sep, mem_leftDelimiters_of_mem_openers hsep, h⟩
    · exact .inr ⟨['='], List.mem_cons_self, h⟩
    · refine .inr ⟨['='], List.mem_cons_self, ?_⟩
      rw [hpart.trimEnd_append]
      exact List.suffix_append ..
  obtain h | ⟨sep, hsep, h⟩ := hends
  · have hblanks := trimEnd_eq_nil_iff.1 h
    rw [replaceAll_blanks hmark hblanks, replaceAll_of_blanks hmark hblanks]
  · obtain ⟨x, blanks, hblanks, rfl⟩ := exists_of_suffix_trimEnd h
    rw [replaceAll_delimiter hmark hsep hblanks, replaceAll_of_ends hmark hsep hblanks]

/-- Where an expression is delimited on its right, it stays so, and no mark reaches out of it. -/
theorem closes_replaceAll (h : Closes after) : Closes (replaceAll mark new after) ∧
    ∀ x, replaceAll mark new (x ++ after) = replaceAll mark new x ++ replaceAll mark new after := by
  obtain ⟨blanks, hblanks, hafter⟩ := exists_trimStart after
  cases hrest : trimStart after with
  | nil =>
    obtain rfl : after = blanks := by rw [hafter, hrest, List.append_nil]
    have hsame : replaceAll mark new after = after := replaceAll_of_blanks hmark hblanks
    refine ⟨hsame.symm ▸ h, fun x => ?_⟩
    rw [hsame]
    by_cases hne : after = []
    · rw [hne, List.append_nil, List.append_nil]
    · have hall : replaceAll mark new (x ++ (after ++ [])) = _ :=
        replaceAll_closers hmark hne (fun c hc => .inl (hblanks c hc)) x []
      rwa [List.append_nil, replaceAll_nil, List.append_nil] at hall
  | cons c y =>
    have hc : c ∈ closers := h c (by rw [hrest]; rfl)
    have hsep : ∀ d ∈ blanks ++ [c], isBlank d = true ∨ d ∈ closers :=
      List.forall_mem_append.2 ⟨fun d hd => .inl (hblanks d hd), fun d hd =>
        .inr (List.mem_singleton.1 hd ▸ hc)⟩
    have hall : ∀ x, replaceAll mark new (x ++ after) =
        replaceAll mark new x ++ (blanks ++ [c] ++ replaceAll mark new y) := fun x => by
      rw [hafter, hrest, ← List.singleton_append, ← List.append_assoc blanks]
      exact replaceAll_closers hmark (by simp) hsep x y
    have hsame : replaceAll mark new after = blanks ++ [c] ++ replaceAll mark new y := hall []
    refine ⟨?_, fun x => by rw [hall, hsame]⟩
    rw [hsame, List.append_assoc, List.singleton_append]
    exact (closes_cons hc _).blanks_append hblanks

theorem replaceAll_parenthesis {c : Char} (hc : c = '(' ∨ c = ')') (x y : List Char) :
    replaceAll mark new (x ++ c :: y) = replaceAll mark new x ++ c :: replaceAll mark new y := by
  have hout : c ≠ '\x00' ∧ c ∉ markChars := by
    rcases hc with rfl | rfl <;> decide
  exact replaceAll_append (splits_of_markChars hmark (fun h => hout.1 (List.mem_singleton.1 h).symm)
    ⟨c, List.mem_singleton_self c, hout.2⟩) (mark_ne_nil hmark) x y

end Marks

/-- A change of text that leaves delimiters and parentheses where they are, and changes what they
delimit and enclose separately. -/
structure KeepsDelimiters (change : List Char → List Char) : Prop where
  opens : ∀ {before}, Opens before → Opens (change before)
  equals : ∀ {part}, IsEqualsPart part → ∀ before, change (before ++ part) = change before ++ part
  closes : ∀ {after}, Closes after → Closes (change after)
  delimits : ∀ {before after}, SeemsToOpen before → Closes after →
    ∀ cs, change (before ++ cs ++ after) = change before ++ change cs ++ change after
  encloses : ∀ before cs after, change (before ++ parenthesized cs ++ after) =
    change before ++ parenthesized (change cs) ++ change after

namespace KeepsDelimiters

theorem id : KeepsDelimiters fun cs => cs where
  opens h := h
  equals _ _ := rfl
  closes h := h
  delimits _ _ _ := rfl
  encloses _ _ _ := rfl

variable {change change' : List Char → List Char} {before : List Char}

theorem seemsToOpen (h : KeepsDelimiters change) (hbefore : SeemsToOpen before) :
    SeemsToOpen (change before) := by
  obtain hopens | ⟨x, part, hpart, rfl⟩ := hbefore
  · exact .inl (h.opens hopens)
  · exact .inr ⟨change x, part, hpart, h.equals hpart x⟩

theorem comp (h : KeepsDelimiters change) (h' : KeepsDelimiters change') :
    KeepsDelimiters fun cs => change' (change cs) where
  opens hbefore := h'.opens (h.opens hbefore)
  equals hpart before := by rw [h.equals hpart, h'.equals hpart]
  closes hafter := h'.closes (h.closes hafter)
  delimits hbefore hafter cs := by
    rw [h.delimits hbefore hafter, h'.delimits (h.seemsToOpen hbefore) (h.closes hafter)]
  encloses before cs after := by rw [h.encloses, h'.encloses]

/-- Marks can be replaced by a text that ends with no character of an operator. -/
theorem replaceAll {mark new : List Char} (hmark : mark = moduleMark ∨ mark = resourceMark)
    {last : Char} (hlast : new.getLast? = some last) (hnew : last ∉ operatorChars) :
    KeepsDelimiters (replaceAll mark new) where
  opens hbefore := opens_replaceAll hmark hbefore hlast hnew
  equals hpart before := replaceAll_equalsPart hmark hpart before
  closes hafter := (closes_replaceAll hmark hafter).1
  delimits hbefore hafter cs := by
    rw [(closes_replaceAll hmark hafter).2, replaceAll_append_of_left hmark hbefore]
  encloses before cs after := by
    have htext : before ++ parenthesized cs ++ after = before ++ '(' :: (cs ++ ')' :: after) := by
      simp [parenthesized]
    rw [htext, replaceAll_parenthesis hmark (.inl rfl), replaceAll_parenthesis hmark (.inr rfl)]
    simp [parenthesized]

end KeepsDelimiters

end ScriptGraph
