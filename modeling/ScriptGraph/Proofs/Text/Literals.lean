import ScriptGraph.Ecma.Token
import ScriptGraph.Proofs.Text.Markup

/-!
# String literals are read back

* `Ecma.readQuoted` : the string of a double-quoted literal at the front of a text;
* `Ecma.Escapes` : the ways in which a character of a string is written, `Ecma.escapes_escapeChar`;
* `Ecma.readQuoted_quotedChars` : a string is read back from its literal, whatever follows it;
* `Ecma.readToken_quotedChars` : the literal is one token;
* `quoted_faithful` : a literal stands for its string, and nothing in it ends a line or an element of
  a page.
-/

namespace ScriptGraph

namespace Ecma

/-! ## Reading -/

/-- The character with a number in hexadecimal digits. There is none for a surrogate. -/
def hexChar? (digits : List Char) : Option Char :=
  if digits.all isHexDigit ∧ (hexNumber digits).isValidChar then some (Char.ofNat (hexNumber digits))
  else none

/-- The characters that stand behind a backslash for one character. -/
def simpleEscapes : List (Char × Char) :=
  [('\\', '\\'), ('"', '"'), ('n', '\n'), ('r', '\r'), ('t', '\t')]

/-- An answer with one more character in front of the string. -/
def withChar (c : Char) (r : List Char × List Char) : List Char × List Char := (c :: r.1, r.2)

/-- A string up to its closing quotation mark, and what follows. No line ends within it, and no digit
follows the escape of a zero character. -/
def readText : List Char → Option (List Char × List Char)
  | [] => none
  | '"' :: rest => some ([], rest)
  | '\\' :: '0' :: rest =>
    if rest.head?.any Char.isDigit then none else (readText rest).map (withChar '\x00')
  | '\\' :: 'x' :: a :: b :: rest =>
    (hexChar? [a, b]).bind fun c => (readText rest).map (withChar c)
  | '\\' :: 'u' :: a :: b :: c :: d :: rest =>
    (hexChar? [a, b, c, d]).bind fun c => (readText rest).map (withChar c)
  | '\\' :: d :: rest => (simpleEscapes.lookup d).bind fun c => (readText rest).map (withChar c)
  | c :: rest => if isLineEnd c then none else (readText rest).map (withChar c)

/-- The string of a double-quoted literal at the front of a text, and what follows. -/
def readQuoted : List Char → Option (List Char × List Char)
  | '"' :: rest => readText rest
  | _ => none

variable {cs rest : List Char} {c : Char}

/-! ## How a character is written -/

/-- How a character is written in front of `next`. -/
inductive Escapes (c : Char) (next : Option Char) : List Char → Prop
  | plain (hquote : c ≠ '"') (hslash : c ≠ '\\') (hline : isLineEnd c = false)
    (hprinted : 0x20 ≤ c.toNat) : Escapes c next [c]
  | simple {d : Char} (hd : simpleEscapes.lookup d = some c) : Escapes c next ['\\', d]
  | zero (hc : c = '\x00') (hnext : next.any Char.isDigit = false) : Escapes c next ['\\', '0']
  | two {a b : Char} (h : hexChar? [a, b] = some c) (hdigit : c.isDigit = false) :
    Escapes c next ['\\', 'x', a, b]
  | four {a b d e : Char} (h : hexChar? [a, b, d, e] = some c) (hdigit : c.isDigit = false) :
    Escapes c next ['\\', 'u', a, b, d, e]

theorem of_simpleEscapes {d : Char} (h : simpleEscapes.lookup d = some c) :
    (d ≠ '0' ∧ d ≠ 'x' ∧ d ≠ 'u' ∧ d ≠ '\r') ∧ (0x20 ≤ d.toNat ∧ d.toNat < 0x80) ∧
      c.isDigit = false := by
  obtain ⟨before, after, heq, -⟩ := List.lookup_eq_some_iff.1 h
  have hall : ∀ p ∈ simpleEscapes, (p.1 ≠ '0' ∧ p.1 ≠ 'x' ∧ p.1 ≠ 'u' ∧ p.1 ≠ '\r') ∧
      (0x20 ≤ p.1.toNat ∧ p.1.toNat < 0x80) ∧ p.2.isDigit = false := by decide
  exact hall (d, c) (heq ▸ List.mem_append_right _ List.mem_cons_self)

theorem hexValue?_upperHexDigit {d : Nat} (h : d < 16) : hexValue? (upperHexDigit d) = some d := by
  interval_cases d <;> rfl

theorem hexChar?_control (h : c.toNat < 0x20) :
    hexChar? [upperHexDigit (c.toNat / 16), upperHexDigit (c.toNat % 16)] = some c := by
  have hhigh := hexValue?_upperHexDigit (d := c.toNat / 16) (by omega)
  have hlow := hexValue?_upperHexDigit (d := c.toNat % 16) (by omega)
  have hnumber :
      hexNumber [upperHexDigit (c.toNat / 16), upperHexDigit (c.toNat % 16)] = c.toNat := by
    simp [hexNumber, hhigh, hlow]
    omega
  have hvalid : c.toNat.isValidChar := c.valid
  simp [hexChar?, hnumber, isHexDigit, hhigh, hlow, hvalid]

theorem isDigit_of_control (h : c.toNat < 0x20) : c.isDigit = false := by
  rw [← Bool.not_eq_true, Char.isDigit_iff_toNat]
  exact fun hdigit => absurd (Nat.lt_of_le_of_lt hdigit.1 h) (by decide)

theorem escapes_escapeChar (c : Char) (next : Option Char) : Escapes c next (escapeChar c next) := by
  have hnumber {n : Nat} (h : c.toNat = n) : c = Char.ofNat n := h ▸ (Char.ofNat_toNat c).symm
  unfold escapeChar
  by_cases hslash : c = '\\'
  · rw [if_pos hslash]
    subst hslash
    exact .simple rfl
  by_cases hquote : c = '"'
  · rw [if_neg hslash, if_pos hquote]
    subst hquote
    exact .simple rfl
  rw [if_neg hslash, if_neg hquote]
  by_cases hline : c = '\n'
  · rw [if_pos hline]
    subst hline
    exact .simple rfl
  by_cases hreturn : c = '\r'
  · rw [if_neg hline, if_pos hreturn]
    subst hreturn
    exact .simple rfl
  by_cases htab : c = '\t'
  · rw [if_neg hline, if_neg hreturn, if_pos htab]
    subst htab
    exact .simple rfl
  rw [if_neg hline, if_neg hreturn, if_neg htab]
  by_cases hless : c = '<'
  · rw [if_pos hless]
    exact .two (hless ▸ rfl) (hless ▸ rfl)
  rw [if_neg hless]
  by_cases hzero : c.toNat = 0
  · rw [if_pos hzero]
    by_cases hdigit : next.any Char.isDigit = true
    · rw [if_pos hdigit]
      exact .two (hnumber hzero ▸ rfl) (hnumber hzero ▸ rfl)
    · rw [if_neg hdigit]
      exact .zero (hnumber hzero) (Bool.not_eq_true _ ▸ hdigit)
  rw [if_neg hzero]
  by_cases hls : c.toNat = 0x2028
  · rw [if_pos hls]
    exact .four (hnumber hls ▸ rfl) (hnumber hls ▸ rfl)
  by_cases hps : c.toNat = 0x2029
  · rw [if_neg hls, if_pos hps]
    exact .four (hnumber hps ▸ rfl) (hnumber hps ▸ rfl)
  rw [if_neg hls, if_neg hps]
  by_cases hcontrol : c.toNat < 0x20
  · rw [if_pos hcontrol]
    exact .two (hexChar?_control hcontrol) (isDigit_of_control hcontrol)
  · rw [if_neg hcontrol]
    exact .plain hquote hslash (by simp [isLineEnd, hline, hreturn, hls, hps]) (by omega)

/-- A character is written with a backslash in front unless it is written as it is. -/
theorem Escapes.head?_isDigit {next : Option Char} (h : Escapes c next cs) :
    (cs ++ rest).head?.any Char.isDigit = c.isDigit := by
  cases h with
  | plain => rfl
  | simple hd => exact (of_simpleEscapes hd).2.2.symm
  | zero hc => exact hc ▸ rfl
  | two h hdigit => exact hdigit.symm
  | four h hdigit => exact hdigit.symm

/-- What is written for a character is read as the character, in front of a text that begins with a
digit exactly if the next character is one. -/
theorem Escapes.readText {next : Option Char} (h : Escapes c next cs)
    (hnext : next.any Char.isDigit = rest.head?.any Char.isDigit) :
    readText (cs ++ rest) = (readText rest).map (withChar c) := by
  cases h with
  | plain hquote hslash hline =>
    rw [List.singleton_append, Ecma.readText, hline]
    · rfl
    · exact hquote
    all_goals
      intros
      contradiction
  | @simple d hd =>
    obtain ⟨⟨hzero, hx, hu, -⟩, -⟩ := of_simpleEscapes hd
    rw [List.cons_append, List.singleton_append, Ecma.readText, hd]
    · rfl
    · exact hzero
    · exact fun _ _ _ hd => absurd hd hx
    · exact fun _ _ _ _ _ hd => absurd hd hu
  | zero hc hdigit =>
    rw [List.cons_append, List.singleton_append, Ecma.readText, ← hnext, hdigit, hc]
    rfl
  | @two a b h =>
    show Ecma.readText ('\\' :: 'x' :: a :: b :: rest) = _
    rw [Ecma.readText, h]
    rfl
  | @four a b d e h =>
    show Ecma.readText ('\\' :: 'u' :: a :: b :: d :: e :: rest) = _
    rw [Ecma.readText, h]
    rfl

/-- What is written for a string begins with a digit exactly if the string does. -/
theorem head?_escapeChars (s t : List Char) :
    (escapeChars s ++ '"' :: t).head?.any Char.isDigit = s.head?.any Char.isDigit := by
  cases s with
  | nil => rfl
  | cons c s =>
    rw [escapeChars, List.append_assoc]
    exact (escapes_escapeChar c s.head?).head?_isDigit

/-- What is written for the characters of a string is read as the string. -/
theorem readText_escapeChars (s t : List Char) :
    readText (escapeChars s ++ '"' :: t) = some (s, t) := by
  induction s with
  | nil => rw [escapeChars, List.nil_append, readText]
  | cons c s ih =>
    rw [escapeChars, List.append_assoc,
      (escapes_escapeChar c s.head?).readText (head?_escapeChars s t).symm, ih]
    rfl

/-- A string is read back from its literal, and the reading stops at the end of the literal. -/
theorem readQuoted_quotedChars (s t : List Char) :
    readQuoted (quotedChars s ++ t) = some (s, t) := by
  rw [quotedChars, List.append_assoc]
  exact readText_escapeChars s t

/-! ## The token of a literal -/

theorem readString_escape {mark : Char} {after : List Char} (h : skipEscape false cs = some after) :
    readString mark ('\\' :: cs) = readString mark after := by
  rw [readString]
  split
  · rename_i heq
    rw [h] at heq
    cases heq
    rfl
  · rename_i heq
    rw [h] at heq
    cases heq

theorem isHexDigit_of_hexChar? {digits : List Char} (h : hexChar? digits = some c) :
    ∀ d ∈ digits, isHexDigit d = true := by
  unfold hexChar? at h
  split at h
  · rename_i hdigits
    exact List.all_eq_true.1 hdigits.1
  · cases h

theorem Escapes.readString {next : Option Char} (h : Escapes c next cs) (rest : List Char) :
    readString '"' (cs ++ rest) = readString '"' rest := by
  cases h with
  | plain hquote hslash hline =>
    have hends : ¬(c = '\n' ∨ c = '\r') := by
      rintro (rfl | rfl) <;> cases hline
    rw [List.singleton_append, Ecma.readString, if_neg hquote, if_neg hends]
    exact hslash
  | @simple d hd =>
    obtain ⟨⟨-, hx, hu, hreturn⟩, -⟩ := of_simpleEscapes hd
    refine readString_escape (show skipEscape false (d :: rest) = some rest from ?_)
    rw [skipEscape]
    · simp
    all_goals simp_all
  | zero => exact readString_escape (by simp [skipEscape])
  | two h =>
    have hdigits := isHexDigit_of_hexChar? h
    exact readString_escape (by simp_all [skipEscape])
  | four h =>
    have hdigits := isHexDigit_of_hexChar? h
    refine readString_escape
      (show skipEscape false ('u' :: _ :: _ :: _ :: _ :: rest) = some rest from ?_)
    rw [skipEscape, codePoint?]
    · simp_all
    · rintro rfl
      exact absurd (hdigits '\x7b' List.mem_cons_self) (by decide)

/-- The token of a literal ends where the literal ends. -/
theorem readToken_quotedChars (s t : List Char) :
    readToken (quotedChars s ++ t) = some (.string (String.ofList (escapeChars s)), t) := by
  have hread : readString '"' (escapeChars s ++ '"' :: t) = some t := by
    induction s with
    | nil =>
      rw [escapeChars, List.nil_append, readString, if_pos rfl]
      decide
    | cons c s ih =>
      rw [escapeChars, List.append_assoc, (escapes_escapeChar c s.head?).readString, ih]
  have hlength : (escapeChars s ++ '"' :: t).length - t.length - 1 = (escapeChars s).length := by
    simp only [List.length_append, List.length_cons]
    omega
  have hquote :
      ¬('"'.isDigit = true ∨ '"' = '.' ∧ (escapeChars s ++ '"' :: t).head?.any Char.isDigit) := by
    rintro (h | ⟨h, -⟩) <;> cases h
  rw [quotedChars, List.append_assoc]
  show readToken ('"' :: (escapeChars s ++ '"' :: t)) = _
  rw [readToken, if_neg (by decide), if_neg (by decide), if_neg hquote, if_pos (.inl rfl), hread,
    Option.map_some, hlength, List.take_left']
  rfl

/-! ## The characters of a literal -/

theorem isHexDigit_bounds (h : isHexDigit c = true) : 0x20 ≤ c.toNat ∧ c.toNat < 0x80 := by
  unfold isHexDigit hexValue? at h
  split_ifs at h with hdigit hlower hupper
  · obtain ⟨hlow, hhigh⟩ := Char.isDigit_iff_toNat.1 hdigit
    exact ⟨Nat.le_trans (by decide) hlow, Nat.lt_of_le_of_lt hhigh (by decide)⟩
  · exact ⟨Nat.le_trans (by decide) hlower.1, Nat.lt_of_le_of_lt hlower.2 (by decide)⟩
  · exact ⟨Nat.le_trans (by decide) hupper.1, Nat.lt_of_le_of_lt hupper.2 (by decide)⟩
  · cases h

/-- The character neither is a control character nor ends a line. -/
def IsPrinted (c : Char) : Prop := 0x20 ≤ c.toNat ∧ isLineEnd c = false

theorem isPrinted_of_ascii (h : 0x20 ≤ c.toNat ∧ c.toNat < 0x80) : IsPrinted c := by
  have hchar {d : Char} (hd : d.toNat < 0x20) : c ≠ d := by
    rintro rfl
    omega
  refine ⟨h.1, ?_⟩
  have hline := hchar (d := '\n') (by decide)
  have hreturn := hchar (d := '\r') (by decide)
  simp only [isLineEnd, Bool.or_eq_false_iff, beq_eq_false_iff_ne]
  exact ⟨⟨⟨hline, hreturn⟩, by omega⟩, by omega⟩

theorem Escapes.isPrinted {next : Option Char} (h : Escapes c next cs) : ∀ d ∈ cs, IsPrinted d := by
  have hslash : IsPrinted '\\' := isPrinted_of_ascii (by decide)
  have hletter {d : Char} (hd : d = '0' ∨ d = 'x' ∨ d = 'u') : IsPrinted d :=
    isPrinted_of_ascii (by rcases hd with rfl | rfl | rfl <;> decide)
  have hdigits {digits : List Char} (h : hexChar? digits = some c) : ∀ d ∈ digits, IsPrinted d :=
    fun d hd => isPrinted_of_ascii (isHexDigit_bounds (isHexDigit_of_hexChar? h d hd))
  cases h with
  | plain hquote hslash hline hprinted => exact List.forall_mem_singleton.2 ⟨hprinted, hline⟩
  | simple hd =>
    have hletter := isPrinted_of_ascii (of_simpleEscapes hd).2.1
    exact List.forall_mem_cons.2 ⟨hslash, List.forall_mem_singleton.2 hletter⟩
  | zero =>
    exact List.forall_mem_cons.2 ⟨hslash, List.forall_mem_singleton.2 (hletter (by simp))⟩
  | two h =>
    exact List.forall_mem_cons.2
      ⟨hslash, List.forall_mem_cons.2 ⟨hletter (by simp), hdigits h⟩⟩
  | four h =>
    exact List.forall_mem_cons.2
      ⟨hslash, List.forall_mem_cons.2 ⟨hletter (by simp), hdigits h⟩⟩

theorem isPrinted_of_mem_quotedChars (s : List Char) : ∀ c ∈ quotedChars s, IsPrinted c := by
  have hquote : IsPrinted '"' := isPrinted_of_ascii (by decide)
  have hchars : ∀ c ∈ escapeChars s, IsPrinted c := by
    induction s with
    | nil => exact nofun
    | cons c s ih =>
      rw [escapeChars]
      exact List.forall_mem_append.2 ⟨(escapes_escapeChar c s.head?).isPrinted, ih⟩
  rw [quotedChars, List.forall_mem_append]
  exact ⟨List.forall_mem_cons.2 ⟨hquote, hchars⟩, List.forall_mem_singleton.2 hquote⟩

end Ecma

/-- **A string literal stands for its string**: in front of any text it is one token, from which the
string is read back. It has no `<`, no control character and no separator of lines. -/
theorem quoted_faithful (s : String) (t : List Char) :
    Ecma.readQuoted ((quoted s).toList ++ t) = some (s.toList, t) ∧
    (∃ text, Ecma.readToken ((quoted s).toList ++ t) = some (.string text, t)) ∧
    ∀ c ∈ (quoted s).toList, c ≠ '<' ∧ 0x20 ≤ c.toNat ∧ c.toNat ≠ 0x2028 ∧ c.toNat ≠ 0x2029 := by
  refine ⟨?_, ?_, fun c hc => ⟨?_, ?_⟩⟩
  · rw [quoted, String.toList_ofList]
    exact Ecma.readQuoted_quotedChars s.toList t
  · rw [quoted, String.toList_ofList]
    exact ⟨_, Ecma.readToken_quotedChars s.toList t⟩
  · rintro rfl
    exact lt_notMem_quoted s hc
  · rw [quoted, String.toList_ofList] at hc
    obtain ⟨hcontrol, hline⟩ := Ecma.isPrinted_of_mem_quotedChars s.toList c hc
    simp only [Ecma.isLineEnd, Bool.or_eq_false_iff, beq_eq_false_iff_ne] at hline
    exact ⟨hcontrol, hline.1.2, hline.2⟩

end ScriptGraph
