import ScriptGraph.Proofs.Text.Printed

/-!
# Numbers among tokens

* `Ecma.Tokens` : the tokens of a text up to a place;
* `Ecma.Apart` : a text is read apart from what follows it;
* `Ecma.NumberForm` : the forms of number literals, in parentheses below zero;
* `Ecma.NumberForm.apart` : such a literal is read apart from what follows, unless this goes on with a
  name, or with a point behind digits;
* `Ecma.not_apart_point` : a point behind digits belongs to the number;
* `Binary64.numberForm_literal`, `numberForm_bigIntegerLiteral`, `Json.numberForm_numberLiteral` :
  numbers are written in these forms.
-/

namespace ScriptGraph

namespace Ecma

/-! ## Tokens -/

/-- The tokens of a text up to a place, and what follows there. Space may stand between tokens. -/
inductive Tokens : List Char → List Token → List Char → Prop
  | done {cs} : Tokens cs [] cs
  | space {c cs ts rest} (hc : isSpace c = true) (h : Tokens cs ts rest) : Tokens (c :: cs) ts rest
  | token {c cs t mid ts rest} (ht : readToken (c :: cs) = some (t, mid)) (h : Tokens mid ts rest) :
    Tokens (c :: cs) (t :: ts) rest

variable {cs ds tail rest : List Char} {c : Char} {ts : List Token}

/-- In front of `rest`, the tokens of a text are those that it has alone. So one of them ends where
`rest` begins. -/
def Apart (text rest : List Char) : Prop :=
  ∃ ts, Tokens text ts [] ∧ Tokens (text ++ rest) ts rest

theorem apart_nil (rest : List Char) : Apart [] rest := ⟨[], .done, .done⟩

theorem Tokens.length_le (h : Tokens cs [] rest) : rest.length ≤ cs.length := by
  generalize hts : ([] : List Token) = ts at h
  induction h with
  | done => exact Nat.le_refl _
  | space _ _ ih => exact Nat.le_succ_of_le (ih hts)
  | token => cases hts

/-! ## Digits -/

/-- One digit or more. -/
def IsDigits (ds : List Char) : Prop := ds ≠ [] ∧ ∀ c ∈ ds, c.isDigit = true

/-- The letters with which numbers to another base are marked. -/
def baseMarks : List Char := ['x', 'X', 'o', 'O', 'b', 'B']

def decimalDigits : List Char := ['0', '1', '2', '3', '4', '5', '6', '7', '8', '9']

theorem mem_decimalDigits (h : c.isDigit = true) : c ∈ decimalDigits := by
  obtain ⟨hlow, hhigh⟩ := Char.isDigit_iff_toNat.1 h
  change 48 ≤ c.toNat at hlow
  change c.toNat ≤ 57 at hhigh
  rw [← Char.ofNat_toNat c]
  interval_cases c.toNat <;> decide

theorem of_isDigit (h : c.isDigit = true) : isNameStart c = false ∧ isNamePart c = true ∧
    isSpace c = false ∧ c ∉ baseMarks ∧ c ∉ ['\\', '#'] := by
  have hmem := mem_decimalDigits h
  fin_cases hmem <;> decide

/-- The text does not go on with digits. -/
def EndsDigits (cs : List Char) : Prop := ∀ c ∈ cs.head?, c.isDigit = false ∧ c ≠ '_'

/-- The text does not go on with a name. -/
def EndsWord (cs : List Char) : Prop := ∀ c ∈ cs.head?, isNamePart c = false ∧ c ≠ '\\'

theorem EndsWord.endsDigits (h : EndsWord cs) : EndsDigits cs := by
  intro c hc
  have hpart := (h c hc).1
  refine ⟨?_, ?_⟩
  · rw [← Bool.not_eq_true]
    intro hdigit
    rw [(of_isDigit hdigit).2.1] at hpart
    cases hpart
  · rintro rfl
    exact absurd hpart (by decide)

theorem IsDigits.ne_underscore (h : IsDigits ds) (hc : c ∈ ds) : c ≠ '_' := by
  rintro rfl
  exact absurd (h.2 '_' hc) (by decide)

theorem readDigits_append (h : IsDigits ds) (hrest : EndsDigits rest) :
    readDigits Char.isDigit (ds ++ rest) = some rest := by
  have hds : ∀ c ∈ ds, (c.isDigit || c == '_') = true := fun c hc => by rw [h.2 c hc, Bool.true_or]
  have hstop : ∀ c ∈ rest.head?, ¬(c.isDigit || c == '_') = true := by
    intro c hc
    simp [hrest c hc]
  have htake : rest.takeWhile (fun c => c.isDigit || c == '_') = [] := by
    cases rest with
    | nil => rfl
    | cons c rest => exact List.takeWhile_cons_of_neg (hstop c rfl)
  have hdrop : rest.dropWhile (fun c => c.isDigit || c == '_') = rest := by
    cases rest with
    | nil => rfl
    | cons c rest => exact List.dropWhile_cons_of_neg (hstop c rfl)
  rw [readDigits, List.takeWhile_append_of_pos hds, List.dropWhile_append_of_pos hds, htake, hdrop,
    List.append_nil, if_neg]
  simp only [List.isEmpty_iff, not_or]
  refine ⟨h.1, fun hhead => h.ne_underscore (List.mem_of_head? hhead) rfl,
    fun hlast => h.ne_underscore (List.mem_of_getLast? hlast) rfl, ?_⟩
  rw [List.any_eq_true]
  rintro ⟨p, hp, hdoubled⟩
  have hne : p.1 ≠ '_' := h.ne_underscore (List.of_mem_zip hp).1
  simp [hne] at hdoubled

/-! ## Numbers -/

/-- What may follow the digits of a number: the mark of a big integer, or a fraction, an exponent or
both. -/
inductive NumberTail : List Char → Prop
  | none : NumberTail []
  | big : NumberTail ['n']
  | fraction {ds : List Char} (h : IsDigits ds) : NumberTail ('.' :: ds)
  | exponent {ds : List Char} {sign : Char} (hsign : sign ∈ ['+', '-']) (h : IsDigits ds) :
    NumberTail ('e' :: sign :: ds)
  | both {fs ds : List Char} {sign : Char} (hf : IsDigits fs) (hsign : sign ∈ ['+', '-'])
    (h : IsDigits ds) : NumberTail ('.' :: fs ++ 'e' :: sign :: ds)

/-- The forms of numbers without a sign. -/
inductive Numeral : List Char → Prop
  | of {ds tail : List Char} (h : IsDigits ds) (htail : NumberTail tail) : Numeral (ds ++ tail)

theorem NumberTail.head (h : NumberTail tail) : tail = [] ∨ ∃ c ∈ ['n', '.', 'e'], ∃ cs, tail = c :: cs := by
  cases h with
  | none => exact .inl rfl
  | big => exact .inr ⟨'n', by decide, _, rfl⟩
  | fraction => exact .inr ⟨'.', by decide, _, rfl⟩
  | exponent => exact .inr ⟨'e', by decide, _, rfl⟩
  | both => exact .inr ⟨'.', by decide, _, rfl⟩

theorem readExponent_of_endsWord (h : EndsWord rest) : readExponent rest = some rest := by
  cases rest with
  | nil => rfl
  | cons c rest =>
    have hc : ¬(c = 'e' ∨ c = 'E') := by
      rintro (rfl | rfl)
      · exact absurd (h 'e' rfl).1 (by decide)
      · exact absurd (h 'E' rfl).1 (by decide)
    rw [readExponent.eq_def]
    exact if_neg hc

theorem readFraction_of_ne (h : rest.head? ≠ some '.') : readFraction rest = some rest := by
  unfold readFraction
  split
  · exact absurd rfl h
  · exact absurd rfl h
  · rfl

theorem readFraction_append (h : IsDigits ds) (hrest : EndsDigits rest) :
    readFraction ('.' :: (ds ++ rest)) = some rest := by
  obtain ⟨d, ds', rfl⟩ := List.exists_cons_of_ne_nil h.1
  rw [List.cons_append, readFraction, if_pos (h.2 d List.mem_cons_self), ← List.cons_append,
    readDigits_append h hrest]

theorem readExponent_append {sign : Char} (hsign : sign ∈ ['+', '-']) (h : IsDigits ds)
    (hrest : EndsDigits rest) : readExponent ('e' :: sign :: (ds ++ rest)) = some rest := by
  rcases List.mem_pair.1 hsign with rfl | rfl
  · exact readDigits_append h hrest
  · exact readDigits_append h hrest

theorem readAfterInteger_of_ne {mid : List Char} (h : cs.head? ≠ some 'n')
    (hf : readFraction cs = some mid) : readAfterInteger cs = readExponent mid := by
  unfold readAfterInteger
  split
  · exact absurd rfl h
  · rw [hf]
    rfl

theorem endsDigits_cons (h : c.isDigit = false ∧ c ≠ '_') (cs : List Char) :
    EndsDigits (c :: cs) := fun _ hc => Option.some.inj hc ▸ h

/-- What follows the digits of a number is read up to its end. -/
theorem NumberTail.readAfterInteger (h : NumberTail tail) (hrest : EndsWord rest)
    (hpoint : tail = [] → rest.head? ≠ some '.') :
    readAfterInteger (tail ++ rest) = some rest := by
  have hmark (cs : List Char) : EndsDigits ('e' :: cs) := endsDigits_cons (by decide) cs
  cases h with
  | none =>
    have hn : rest.head? ≠ some 'n' := fun h => absurd (hrest 'n' h).1 (by decide)
    rw [List.nil_append, readAfterInteger_of_ne hn (readFraction_of_ne (hpoint rfl))]
    exact readExponent_of_endsWord hrest
  | big => rfl
  | fraction h =>
    rw [List.cons_append,
      readAfterInteger_of_ne (by simp) (readFraction_append h hrest.endsDigits)]
    exact readExponent_of_endsWord hrest
  | exponent hsign h =>
    rw [List.cons_append, List.cons_append,
      readAfterInteger_of_ne (by simp) (readFraction_of_ne (by simp))]
    exact readExponent_append hsign h hrest.endsDigits
  | both hf hsign h =>
    rw [List.cons_append, List.cons_append, List.append_assoc, List.cons_append, List.cons_append,
      readAfterInteger_of_ne (by simp) (readFraction_append hf (hmark _))]
    exact readExponent_append hsign h hrest.endsDigits

/-- A text that begins with digits is no number to another base, if no letter follows them that
marks one. -/
theorem readUnmarked_append (h : IsDigits ds)
    (htail : ∀ c ∈ tail.head?, c ∉ baseMarks) (hdigits : EndsDigits tail) :
    readUnmarked (ds ++ tail) = readAfterInteger tail := by
  have hread : readDigits Char.isDigit (ds ++ tail) = some tail :=
    readDigits_append h hdigits
  obtain ⟨d, ds', rfl⟩ := List.exists_cons_of_ne_nil h.1
  have hsecond : ∀ c ∈ (ds' ++ tail).head?, c ∉ baseMarks := by
    intro c hc
    cases ds' with
    | nil => exact htail c hc
    | cons d' ds' =>
      obtain rfl : d' = c := Option.some.inj hc
      exact (of_isDigit (h.2 d' (List.mem_cons_of_mem _ List.mem_cons_self))).2.2.2.1
  have hcons {c : Char} {cs : List Char} (heq : d :: (ds' ++ tail) = '0' :: c :: cs)
      (hc : c ∈ baseMarks) : False :=
    hsecond c (by rw [(List.cons.inj heq).2]; rfl) hc
  rw [List.cons_append] at hread ⊢
  unfold readUnmarked
  split
  · exact (hcons ‹_› (by decide)).elim
  · exact (hcons ‹_› (by decide)).elim
  · exact (hcons ‹_› (by decide)).elim
  · exact (hcons ‹_› (by decide)).elim
  · exact (hcons ‹_› (by decide)).elim
  · exact (hcons ‹_› (by decide)).elim
  · rename_i heq
    have hdigit := h.2 d List.mem_cons_self
    rw [(List.cons.inj heq).1] at hdigit
    cases hdigit
  · rw [hread]
    rfl

theorem NumberTail.head_append (h : NumberTail tail) (hrest : EndsWord rest) :
    ∀ c ∈ (tail ++ rest).head?, c ∉ baseMarks ∧ c.isDigit = false ∧ c ≠ '_' := by
  intro c hc
  cases h with
  | none =>
    refine ⟨fun hmem => ?_, hrest.endsDigits c hc⟩
    have hpart : isNamePart c = true := by
      fin_cases hmem <;> decide
    exact absurd (hrest c hc).1 (hpart ▸ Bool.false_ne_true.symm)
  | _ => exact Option.some.inj hc ▸ by decide

/-- **A number is read up to its end**, if what follows does not go on with a name, or with a point
behind digits. -/
theorem Numeral.readNumber (h : Numeral cs) (hrest : EndsWord rest)
    (hpoint : (∀ c ∈ cs, c.isDigit = true) → rest.head? ≠ some '.') :
    readNumber (cs ++ rest) = some rest := by
  cases h with
  | of hds htail =>
    rename_i ds tail
    have hhead := htail.head_append hrest
    have hall : tail = [] → rest.head? ≠ some '.' := by
      rintro rfl
      exact hpoint (by simpa using hds.2)
    have hend : ¬(rest.head?.any fun c => isNamePart c || c == '\\') = true := by
      intro hany
      obtain ⟨c, hc, hc'⟩ := (Option.any_eq_true _ _).1 hany
      simp [hrest c hc] at hc'
    rw [Ecma.readNumber, List.append_assoc, readUnmarked_append hds (fun c hc => (hhead c hc).1)
      (fun c hc => (hhead c hc).2), htail.readAfterInteger hrest hall]
    exact if_neg hend

theorem readToken_of_isDigit (h : c.isDigit = true) (cs : List Char) :
    readToken (c :: cs) = (readNumber (c :: cs)).map fun rest => (.number, rest) := by
  obtain ⟨hstart, -, -, -, hne⟩ := of_isDigit h
  simp only [List.mem_cons, List.not_mem_nil, or_false, not_or] at hne
  rw [readToken, if_neg (by simp [hstart, hne]), if_neg hne.2, if_pos (.inl h)]

theorem Numeral.exists_digit (h : Numeral cs) : ∃ d cs', cs = d :: cs' ∧ d.isDigit = true := by
  cases h with
  | of hds htail =>
    obtain ⟨d, ds, rfl⟩ := List.exists_cons_of_ne_nil hds.1
    exact ⟨d, _, rfl, hds.2 d List.mem_cons_self⟩

theorem Numeral.readToken (h : Numeral cs) (hrest : EndsWord rest)
    (hpoint : (∀ c ∈ cs, c.isDigit = true) → rest.head? ≠ some '.') :
    readToken (cs ++ rest) = some (.number, rest) := by
  have hread := h.readNumber hrest hpoint
  obtain ⟨d, cs, rfl, hd⟩ := h.exists_digit
  rw [List.cons_append] at hread ⊢
  rw [readToken_of_isDigit hd, hread]
  rfl

/-! ## Names -/

theorem readName_of_ne (hne : c ≠ '\\') (cs : List Char) :
    readName (c :: cs) = if isNamePart c then (readName cs).map fun r => (c :: r.1, r.2.1, r.2.2)
      else some ([], false, c :: cs) := by
  rw [readName.eq_def]
  split
  · cases ‹_ = _›
  · rename_i heq
    exact absurd (List.cons.inj heq).1 hne
  · rename_i heq
    obtain ⟨rfl, rfl⟩ := List.cons.inj heq
    rfl

theorem readName_append (h : ∀ c ∈ cs, isNamePart c = true ∧ c ≠ '\\') (hrest : EndsWord rest) :
    readName (cs ++ rest) = some (cs, false, rest) := by
  induction cs with
  | nil =>
    cases rest with
    | nil => rw [List.append_nil, readName]
    | cons c rest =>
      obtain ⟨hpart, hne⟩ := hrest c rfl
      rw [List.nil_append, readName_of_ne hne, hpart]
      rfl
  | cons c cs ih =>
    obtain ⟨⟨hpart, hne⟩, hcs⟩ := List.forall_mem_cons.1 h
    rw [List.cons_append, readName_of_ne hne, if_pos hpart, ih hcs]
    rfl

theorem readToken_name (h : (cs.all fun c => isNamePart c && c != '\\') = true)
    (hstart : cs.head?.any isNameStart = true) (hrest : EndsWord rest) :
    readToken (cs ++ rest) = some (.name (String.ofList cs) false, rest) := by
  have hparts : ∀ c ∈ cs, isNamePart c = true ∧ c ≠ '\\' := fun c hc => by
    simpa using List.all_eq_true.1 h c hc
  obtain ⟨c, hc, hc'⟩ := (Option.any_eq_true _ _).1 hstart
  obtain ⟨tail, rfl⟩ := List.head?_eq_some_iff.1 hc
  rw [List.cons_append, readToken, if_pos (.inl hc'), ← List.cons_append, readNamed,
    readName_append hparts hrest]
  exact if_pos hstart

/-! ## Punctuators -/

theorem readToken_single (h : c ∈ ['(', ')', '[', ']', ',']) (cs : List Char) :
    readToken (c :: cs) = some (.punctuator (String.singleton c), cs) := by
  fin_cases h <;> rfl

theorem readToken_minus (h : c ≠ '-') (h' : c ≠ '=') (cs : List Char) :
    readToken ('-' :: c :: cs) = some (.punctuator "-", c :: cs) := by
  have hminus : ('-' == c) = false := beq_false_of_ne h.symm
  have hequals : ('=' == c) = false := beq_false_of_ne h'.symm
  have hlength : "-".length = 1 := rfl
  simp [readToken, isNameStart, punctuators, punctuatorAt, List.find?, List.isPrefixOf, hminus,
    hequals, hlength]

theorem readToken_equals (h : c ≠ '=') (h' : c ≠ '>') (cs : List Char) :
    readToken ('=' :: c :: cs) = some (.punctuator "=", c :: cs) := by
  have hequals : ('=' == c) = false := beq_false_of_ne h.symm
  have hgreater : ('>' == c) = false := beq_false_of_ne h'.symm
  have hlength : "=".length = 1 := rfl
  simp [readToken, isNameStart, punctuators, punctuatorAt, List.find?, List.isPrefixOf, hequals,
    hgreater, hlength]

theorem readToken_point (h : c ≠ '.') (hdigit : c.isDigit = false) (cs : List Char) :
    readToken ('.' :: c :: cs) = some (.punctuator ".", c :: cs) := by
  have hpoint : ('.' == c) = false := beq_false_of_ne h.symm
  have hlength : ".".length = 1 := rfl
  simp [readToken, isNameStart, punctuators, punctuatorAt, List.find?, List.isPrefixOf, hpoint,
    hdigit, hlength]

theorem readToken_optional (hdigit : c.isDigit = false) (cs : List Char) :
    readToken ('?' :: '.' :: c :: cs) = some (.punctuator "?.", c :: cs) := by
  have hlength : "?.".length = 2 := rfl
  simp [readToken, isNameStart, punctuators, punctuatorAt, List.find?, List.isPrefixOf, hdigit,
    hlength]

/-! ## Literals of numbers -/

/-- The forms of number literals without a sign. -/
inductive Magnitude : List Char → Prop
  | numeral {cs : List Char} (h : Numeral cs) : Magnitude cs
  | nan : Magnitude ['N', 'a', 'N']
  | infinity : Magnitude ['I', 'n', 'f', 'i', 'n', 'i', 't', 'y']

/-- The forms of number literals. Below zero they are in parentheses. -/
inductive NumberForm : List Char → Prop
  | magnitude {cs : List Char} (h : Magnitude cs) : NumberForm cs
  | negative {cs : List Char} (h : Magnitude cs) : NumberForm (parenthesized ('-' :: cs))

/-- A literal without a sign is one token. -/
theorem Magnitude.exists_token (h : Magnitude cs) : ∃ t, ∀ rest, EndsWord rest →
    ((∀ c ∈ cs, c.isDigit = true) → rest.head? ≠ some '.') → readToken (cs ++ rest) = some (t, rest) := by
  cases h with
  | numeral h => exact ⟨_, fun rest hrest hpoint => h.readToken hrest hpoint⟩
  | nan => exact ⟨_, fun rest hrest _ => readToken_name (by decide) (by decide) hrest⟩
  | infinity => exact ⟨_, fun rest hrest _ => readToken_name (by decide) (by decide) hrest⟩

/-- The characters with which literals of numbers begin. -/
def numberHeads : List Char := '(' :: 'N' :: 'I' :: decimalDigits

theorem of_mem_numberHeads (h : c ∈ numberHeads) : c ≠ '-' ∧ c ≠ '=' ∧ c ≠ '>' := by
  fin_cases h <;> decide

theorem Magnitude.exists_cons (h : Magnitude cs) : ∃ c cs', cs = c :: cs' ∧ c ∈ numberHeads := by
  cases h with
  | numeral h =>
    obtain ⟨d, cs, rfl, hd⟩ := h.exists_digit
    exact ⟨d, cs, rfl, .tail _ (.tail _ (.tail _ (mem_decimalDigits hd)))⟩
  | nan => exact ⟨'N', _, rfl, by decide⟩
  | infinity => exact ⟨'I', _, rfl, by decide⟩

theorem NumberForm.exists_cons (h : NumberForm cs) : ∃ c cs', cs = c :: cs' ∧ c ∈ numberHeads := by
  cases h with
  | magnitude h => exact h.exists_cons
  | negative => exact ⟨'(', _, rfl, by decide⟩

theorem IsDigits.isPrinted (h : IsDigits ds) : ∀ c ∈ ds, IsPrinted c := fun c hc =>
  IsNumberChar.isPrinted (.inl (h.2 c hc))

theorem NumberTail.isPrinted (h : NumberTail tail) : ∀ c ∈ tail, IsPrinted c := by
  have hsign {sign : Char} (h : sign ∈ ['+', '-']) : IsPrinted sign := by
    fin_cases h <;> exact isPrinted_of_ascii (by decide)
  have hpoint : IsPrinted '.' := isPrinted_of_ascii (by decide)
  have hmark : IsPrinted 'e' := isPrinted_of_ascii (by decide)
  cases h with
  | none => exact nofun
  | big => exact List.forall_mem_singleton.2 (isPrinted_of_ascii (by decide))
  | fraction h => exact List.forall_mem_cons.2 ⟨hpoint, h.isPrinted⟩
  | exponent hs h =>
    exact List.forall_mem_cons.2 ⟨hmark, List.forall_mem_cons.2 ⟨hsign hs, h.isPrinted⟩⟩
  | both hf hs h =>
    exact List.forall_mem_append.2 ⟨List.forall_mem_cons.2 ⟨hpoint, hf.isPrinted⟩,
      List.forall_mem_cons.2 ⟨hmark, List.forall_mem_cons.2 ⟨hsign hs, h.isPrinted⟩⟩⟩

theorem Magnitude.isPrinted (h : Magnitude cs) : ∀ c ∈ cs, IsPrinted c := by
  cases h with
  | numeral h =>
    cases h with
    | of h htail => exact List.forall_mem_append.2 ⟨h.isPrinted, htail.isPrinted⟩
  | nan => exact printed_of_all (by decide)
  | infinity => exact printed_of_all (by decide)

theorem NumberForm.isPrinted (h : NumberForm cs) : ∀ c ∈ cs, IsPrinted c := by
  cases h with
  | magnitude h => exact h.isPrinted
  | negative h =>
    refine List.forall_mem_append.2 ⟨List.forall_mem_cons.2 ⟨isPrinted_of_ascii (by decide), ?_⟩,
      printed_of_all (by decide)⟩
    exact List.forall_mem_cons.2 ⟨isPrinted_of_ascii (by decide), h.isPrinted⟩

theorem endsWord_nil : EndsWord [] := nofun

theorem endsWord_close (rest : List Char) : EndsWord (')' :: rest) := fun _ hc =>
  Option.some.inj hc ▸ by decide

/-- **The literal of a number is read apart from what follows it**, if this does not go on with a
name, or with a point behind digits. -/
theorem NumberForm.apart (h : NumberForm cs) (hrest : EndsWord rest)
    (hpoint : (∀ c ∈ cs, c.isDigit = true) → rest.head? ≠ some '.') : Apart cs rest := by
  cases h with
  | magnitude h =>
    obtain ⟨t, ht⟩ := h.exists_token
    obtain ⟨c, cs, rfl, -⟩ := h.exists_cons
    have halone := ht [] endsWord_nil fun _ => nofun
    rw [List.append_nil] at halone
    exact ⟨[t], .token halone .done, .token (ht rest hrest hpoint) .done⟩
  | negative h =>
    obtain ⟨t, ht⟩ := h.exists_token
    obtain ⟨c, cs, rfl, hc⟩ := h.exists_cons
    have htokens (rest : List Char) : Tokens (parenthesized ('-' :: c :: cs) ++ rest)
        [.punctuator "(", .punctuator "-", t, .punctuator ")"] rest := by
      have hmagnitude : readToken (c :: (cs ++ ')' :: rest)) = some (t, ')' :: rest) :=
        ht (')' :: rest) (endsWord_close rest) fun _ => by simp
      rw [parenthesized, List.append_assoc, List.cons_append, List.cons_append, List.cons_append]
      obtain ⟨hminus, hequals, -⟩ := of_mem_numberHeads hc
      refine .token (readToken_single (by decide) _) (.token (readToken_minus hminus hequals _) ?_)
      exact .token hmagnitude (.token (readToken_single (by decide) _) .done)
    refine ⟨_, ?_, htokens rest⟩
    simpa using htokens []

theorem readDigits_length {p : Char → Bool} (h : readDigits p cs = some rest) :
    rest.length ≤ cs.length := by
  unfold readDigits at h
  dsimp only at h
  split at h
  · cases h
  · cases h
    exact (List.dropWhile_suffix _).length_le

theorem readExponent_length (h : readExponent cs = some rest) : rest.length ≤ cs.length := by
  unfold readExponent at h
  split at h
  · split at h
    · split at h
      all_goals
        have hle := readDigits_length h
        simp only [List.length_cons]
        omega
    · cases h
      exact Nat.le_refl _
  · cases h
    exact Nat.le_refl _

theorem readFraction_length (h : readFraction ('.' :: cs) = some rest) :
    rest.length ≤ cs.length := by
  cases cs with
  | nil =>
    cases h
    exact Nat.le_refl _
  | cons c cs =>
    rw [readFraction] at h
    split at h
    · exact readDigits_length h
    · cases h
      exact Nat.le_refl _

theorem readNumber_point (h : IsDigits ds) {mid : List Char}
    (hread : readNumber (ds ++ '.' :: rest) = some mid) : mid.length ≤ rest.length := by
  obtain ⟨after, hafter, hend⟩ := Option.bind_eq_some_iff.1 hread
  obtain rfl : after = mid := by
    split at hend
    · cases hend
    · exact Option.some.inj hend
  have hmark : ∀ c ∈ ('.' :: rest).head?, c ∉ baseMarks := fun c hc => by
    obtain rfl : '.' = c := Option.some.inj hc
    decide
  rw [readUnmarked_append h hmark (endsDigits_cons (by decide) _)] at hafter
  obtain ⟨fraction, hfraction, hexponent⟩ := Option.bind_eq_some_iff.1 hafter
  exact (readExponent_length hexponent).trans (readFraction_length hfraction)

theorem Tokens.eq_nil (h : Tokens [] ts rest) : ts = [] := by
  cases h
  rfl

/-- **A point behind digits belongs to the number.** -/
theorem not_apart_point (h : IsDigits ds) (rest : List Char) : ¬Apart ds ('.' :: rest) := by
  rintro ⟨ts, hdigits, hpoint⟩
  have halone : readToken ds = some (.number, []) := by
    have hread := (Numeral.of h .none).readToken endsWord_nil fun _ => nofun
    rwa [List.append_nil, List.append_nil] at hread
  obtain ⟨d, ds', rfl⟩ := List.exists_cons_of_ne_nil h.1
  have hd := h.2 d List.mem_cons_self
  have hspace := (of_isDigit hd).2.2.1
  obtain rfl : ts = [.number] := by
    cases hdigits with
    | space hc => exact absurd hc (hspace ▸ Bool.false_ne_true)
    | token ht htail =>
      obtain ⟨rfl, rfl⟩ := Prod.mk.inj (Option.some.inj (halone.symm.trans ht))
      rw [htail.eq_nil]
  cases hpoint with
  | space hc => exact absurd hc (hspace ▸ Bool.false_ne_true)
  | token ht htail =>
    rw [readToken_of_isDigit hd] at ht
    obtain ⟨mid, hread, heq⟩ := Option.map_eq_some_iff.1 ht
    rw [← (Prod.mk.inj heq).2] at htail
    have hnumber : mid.length ≤ rest.length := readNumber_point h hread
    have hle : rest.length + 1 ≤ mid.length := htail.length_le
    omega

/-- The literal of a number is read apart from what follows it exactly if this is no point behind
digits. -/
theorem NumberForm.apart_iff (h : NumberForm cs) (hrest : EndsWord rest) :
    Apart cs rest ↔ ¬((∀ c ∈ cs, c.isDigit = true) ∧ rest.head? = some '.') := by
  constructor
  · rintro hapart ⟨hdigits, hpoint⟩
    obtain ⟨tail, rfl⟩ := List.head?_eq_some_iff.1 hpoint
    obtain ⟨c, cs, rfl, -⟩ := h.exists_cons
    exact not_apart_point ⟨List.cons_ne_nil c cs, hdigits⟩ tail hapart
  · intro hnot
    exact h.apart hrest fun hdigits hpoint => hnot ⟨hdigits, hpoint⟩

end Ecma

/-! ## How numbers are written -/

open Ecma

theorem isDigits_natText (n : Nat) : IsDigits (natText n) :=
  ⟨natText_ne_nil n, fun _ hc => Nat.isDigit_of_mem_toDigits (by decide) (by decide) hc⟩

theorem Ecma.IsDigits.append_zeros {ds : List Char} (h : IsDigits ds) (n : Nat) :
    IsDigits (ds ++ List.replicate n '0') := by
  refine ⟨List.append_ne_nil_of_left_ne_nil h.1 _, List.forall_mem_append.2 ⟨h.2, fun c hc => ?_⟩⟩
  rw [List.eq_of_mem_replicate hc]
  rfl

theorem Ecma.IsDigits.take {ds : List Char} (h : IsDigits ds) {n : Nat} (hn : 0 < n) :
    IsDigits (ds.take n) := by
  refine ⟨fun hnil => ?_, fun c hc => h.2 c (List.mem_of_mem_take hc)⟩
  rcases List.take_eq_nil_iff.1 hnil with hzero | hempty
  · omega
  · exact h.1 hempty

theorem Ecma.IsDigits.drop {ds : List Char} (h : IsDigits ds) {n : Nat} (hn : n < ds.length) :
    IsDigits (ds.drop n) := by
  refine ⟨fun hnil => ?_, fun c hc => h.2 c (List.mem_of_mem_drop hc)⟩
  have hle := List.drop_eq_nil_iff.1 hnil
  omega

namespace Decimal

theorem numeral_plain (d : Decimal) {whole : List Char} (h : whole = [] ∨ whole = ['.', '0']) :
    Numeral (d.plain whole) := by
  have hdigits := isDigits_natText d.coefficient
  have hwhole : NumberTail whole := by
    rcases h with rfl | rfl
    · exact .none
    · exact .fraction (isDigits_natText 0)
  unfold plain
  dsimp only
  split
  · exact .of (hdigits.append_zeros _) hwhole
  · rename_i hexponent
    split
    · rename_i hpoint
      have hlt : d.point.toNat < (natText d.coefficient).length := by
        unfold point at hpoint ⊢
        omega
      exact .of (hdigits.take (by omega)) (.fraction (hdigits.drop hlt))
    · have hzeros : IsDigits (List.replicate (-d.point).toNat '0' ++ natText d.coefficient) := by
        refine ⟨List.append_ne_nil_of_right_ne_nil _ hdigits.1,
          List.forall_mem_append.2 ⟨fun c hc => ?_, hdigits.2⟩⟩
        rw [List.eq_of_mem_replicate hc]
        rfl
      rw [List.cons_append, List.cons_append]
      exact .of (isDigits_natText 0) (.fraction hzeros)

theorem numeral_scientific (d : Decimal) : Numeral d.scientific := by
  have hdigits := isDigits_natText d.coefficient
  have hexponent := isDigits_natText (d.point - 1).natAbs
  have hsign : (if d.point - 1 < 0 then '-' else '+') ∈ ['+', '-'] := by
    split <;> decide
  unfold scientific
  dsimp only
  rw [List.append_assoc]
  split
  · rename_i hlong
    exact .of (hdigits.take Nat.one_pos) (.both (hdigits.drop hlong) hsign hexponent)
  · exact .of (hdigits.take Nat.one_pos) (.exponent hsign hexponent)

end Decimal

/-- A number of a script is a literal of one of the forms. -/
theorem Finite64.numberForm_plainChars (x : Finite64) : NumberForm x.plainChars := by
  have hunsigned : Numeral (if x.significand = 0 then ['0'] else (x.shortest .outward).plain []) := by
    split
    · exact .of (isDigits_natText 0) .none
    · exact (x.shortest .outward).numeral_plain (.inl rfl)
  unfold plainChars
  dsimp only
  split
  · exact .negative (.numeral hunsigned)
  · exact .magnitude (.numeral hunsigned)

theorem Binary64.numberForm_literal (x : Binary64) : NumberForm x.literal.toList := by
  cases x with
  | nan => exact .magnitude .nan
  | infinite negative =>
    cases negative with
    | false => exact .magnitude .infinity
    | true => exact .negative .infinity
  | finite x =>
    show NumberForm (String.ofList x.plainChars).toList
    rw [String.toList_ofList]
    exact x.numberForm_plainChars

theorem numberForm_bigIntegerLiteral (i : Int) : NumberForm (bigIntegerLiteral i).toList := by
  have hmagnitude : Magnitude (natText i.natAbs ++ ['n']) := .numeral (.of (isDigits_natText _) .big)
  unfold bigIntegerLiteral intText
  dsimp only
  rw [String.toList_ofList]
  split
  · exact .negative hmagnitude
  · exact .magnitude hmagnitude

theorem Json.numberForm_numberLiteral (n : Json.Number) : NumberForm (Json.numberLiteral n) := by
  cases n with
  | integer i =>
    have hdigits : Magnitude (natText i.natAbs) :=
      .numeral (List.append_nil (natText i.natAbs) ▸ .of (isDigits_natText _) .none)
    show NumberForm (if i < 0 then parenthesized (intText i) else intText i)
    unfold intText
    split
    · exact .negative hdigits
    · exact .magnitude hdigits
  | real x =>
    have hunsigned : Numeral (if x.significand = 0 then ['0', '.', '0'] else
        if -5 < (x.shortest .toEven).point ∧ (x.shortest .toEven).point ≤ 16 then
          (x.shortest .toEven).plain ['.', '0']
        else (x.shortest .toEven).scientific) := by
      split_ifs
      · exact .of (isDigits_natText 0) (.fraction (isDigits_natText 0))
      · exact (x.shortest .toEven).numeral_plain (.inr rfl)
      · exact (x.shortest .toEven).numeral_scientific
    show NumberForm (if x.negative then parenthesized x.jsonChars else x.jsonChars)
    unfold Finite64.jsonChars
    dsimp only
    split
    · exact .negative (.numeral hunsigned)
    · exact .magnitude (.numeral hunsigned)

end ScriptGraph
