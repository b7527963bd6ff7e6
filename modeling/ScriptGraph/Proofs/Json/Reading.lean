import Mathlib.Data.List.Basic
import Mathlib.Data.List.TakeWhile
import Mathlib.Tactic.IntervalCases
import ScriptGraph.Json.Compact
import ScriptGraph.Json.Document

/-!
# Compact texts are read as what was written

* `Document.Stops` : what may stand after a number;
* `Document.readNumber_append` : a number is read in front of such a text as it is alone;
* `Document.readNumber_intText` : what is written for an integer is read as the integer;
* `Document.readString_compact` : what is written for a string is read as the string.
-/

namespace ScriptGraph.Document

variable {cs rest more ds : List Char}

/-! ## Numbers -/

/-- A text that does not go on with the number before it. -/
def Stops (cs : List Char) : Prop :=
  ∀ c ∈ cs.head?, c.isDigit = false ∧ c ≠ '.' ∧ c ≠ 'e' ∧ c ≠ 'E'

theorem stops_nil : Stops [] := nofun

theorem Stops.cons {c : Char} (h : c.isDigit = false ∧ c ≠ '.' ∧ c ≠ 'e' ∧ c ≠ 'E') :
    Stops (c :: cs) := fun _ hc => Option.some.inj hc ▸ h

theorem Stops.takeWhile_append (h : Stops more) :
    (cs ++ more).takeWhile Char.isDigit = cs.takeWhile Char.isDigit := by
  induction cs with
  | nil =>
    cases more with
    | nil => rfl
    | cons c more => simp [(h c rfl).1]
  | cons c cs ih => simp [List.takeWhile_cons, ih]

theorem Stops.dropWhile_append (h : Stops more) :
    (cs ++ more).dropWhile Char.isDigit = cs.dropWhile Char.isDigit ++ more := by
  induction cs with
  | nil =>
    cases more with
    | nil => rfl
    | cons c more => simp [(h c rfl).1]
  | cons c cs ih =>
    simp only [List.cons_append, List.dropWhile_cons, ih]
    split <;> simp

theorem readDigits_append (h : readDigits cs = some (ds, rest)) (hs : Stops more) :
    readDigits (cs ++ more) = some (ds, rest ++ more) := by
  unfold readDigits at h ⊢
  rw [hs.takeWhile_append, hs.dropWhile_append]
  split at h <;> simp_all

theorem exists_digit_of_readDigits (h : readDigits cs = some (ds, rest)) :
    ∃ c cs', cs = c :: cs' ∧ c.isDigit := by
  cases cs with
  | nil => simp [readDigits] at h
  | cons c cs =>
    refine ⟨c, cs, rfl, ?_⟩
    by_contra hc
    simp [readDigits, hc] at h

theorem readWhole_append (h : readWhole cs = some (ds, rest)) (hs : Stops more) :
    readWhole (cs ++ more) = some (ds, rest ++ more) := by
  unfold readWhole at h
  split at h
  · cases h; rfl
  · next hzero =>
    obtain ⟨c, cs, rfl, -⟩ := exists_digit_of_readDigits h
    have hc : c ≠ '0' := fun hc => hzero cs (by rw [hc])
    have happend := readDigits_append h hs
    simp only [List.cons_append] at happend ⊢
    unfold readWhole
    split
    · next heq => exact absurd (List.cons.inj heq).1 hc
    · exact happend

theorem exists_digit_of_readWhole (h : readWhole cs = some (ds, rest)) :
    ∃ c cs', cs = c :: cs' ∧ c.isDigit := by
  unfold readWhole at h
  split at h
  · exact ⟨'0', _, rfl, by decide⟩
  · exact exists_digit_of_readDigits h

theorem readFraction_append (h : readFraction cs = some (ds, rest)) (hs : Stops more) :
    readFraction (cs ++ more) = some (ds, rest ++ more) := by
  unfold readFraction at h
  split at h
  · exact readDigits_append h hs
  · next hpoint =>
    cases h
    unfold readFraction
    split
    · next heq =>
      cases cs with
      | nil => exact absurd rfl (hs '.' (by rw [← List.nil_append more, heq]; rfl)).2.1
      | cons c cs => exact absurd (by rw [(List.cons.inj heq).1]) (hpoint cs)
    · rfl

theorem readExponent_append {exponent : Option Int} (h : readExponent cs = some (exponent, rest))
    (hs : Stops more) : readExponent (cs ++ more) = some (exponent, rest ++ more) := by
  cases cs with
  | nil =>
    cases h
    cases more with
    | nil => rfl
    | cons c more => simp [readExponent, (hs c rfl).2.2]
  | cons c cs =>
    simp only [readExponent, List.cons_append] at h ⊢
    split at h
    · next hc =>
      rw [if_pos hc]
      split at h
      · obtain ⟨⟨ds, rest⟩, hread, heq⟩ := Option.map_eq_some_iff.1 h
        cases heq
        simp [readDigits_append hread hs]
      · obtain ⟨⟨ds, rest⟩, hread, heq⟩ := Option.map_eq_some_iff.1 h
        cases heq
        simp [readDigits_append hread hs]
      · next hminus hplus =>
        obtain ⟨⟨ds, rest⟩, hread, heq⟩ := Option.map_eq_some_iff.1 h
        cases heq
        have happend := readDigits_append hread hs
        obtain ⟨d, cs, rfl, -⟩ := exists_digit_of_readDigits hread
        simp only [List.cons_append] at happend ⊢
        split
        · next heq => exact absurd (by rw [(List.cons.inj heq).1]) (hminus cs)
        · next heq => exact absurd (by rw [(List.cons.inj heq).1]) (hplus cs)
        · simp [happend]
    · next hc =>
      cases h
      rw [if_neg hc]
      rfl

theorem readUnsigned_append {negative : Bool} {n : NumberText}
    (h : readUnsigned negative cs = some (n, rest)) (hs : Stops more) :
    readUnsigned negative (cs ++ more) = some (n, rest ++ more) := by
  simp only [readUnsigned, Option.bind_eq_bind, Option.bind_eq_some_iff, Prod.exists] at h ⊢
  obtain ⟨whole, cs₁, hwhole, fraction, cs₂, hfraction, exponent, cs₃, hexponent, heq⟩ := h
  cases heq
  refine ⟨_, _, readWhole_append hwhole hs, _, _, readFraction_append hfraction hs, _, _,
    readExponent_append hexponent hs, ?_⟩
  have hpoint : ((cs₁ ++ more).head? = some '.') = (cs₁.head? = some '.') := by
    cases cs₁ with
    | nil => exact propext ⟨fun h => absurd rfl (hs '.' h).2.1, nofun⟩
    | cons c cs₁ => rfl
  simp only [hpoint]

/-- **A number in front of a text that does not go on with it is read as it is alone.** -/
theorem readNumber_append {n : NumberText} (h : readNumber cs = some (n, rest)) (hs : Stops more) :
    readNumber (cs ++ more) = some (n, rest ++ more) := by
  unfold readNumber at h
  split at h
  · exact readUnsigned_append h hs
  · next hminus =>
    have happend := readUnsigned_append h hs
    unfold readNumber
    split
    · next heq =>
      cases cs with
      | nil => simp [readUnsigned, readWhole, readDigits] at h
      | cons c cs => exact absurd (by rw [(List.cons.inj heq).1]) (hminus cs)
    · exact happend

/-- A number begins with a digit or a minus sign. -/
theorem exists_head_of_readNumber {n : NumberText} (h : readNumber cs = some (n, rest)) :
    ∃ c cs', cs = c :: cs' ∧ (c.isDigit ∨ c = '-') := by
  unfold readNumber at h
  split at h
  · exact ⟨'-', _, rfl, .inr rfl⟩
  · simp only [readUnsigned, Option.bind_eq_bind, Option.bind_eq_some_iff, Prod.exists] at h
    obtain ⟨whole, cs₁, hwhole, -⟩ := h
    obtain ⟨c, cs, heq, hc⟩ := exists_digit_of_readWhole hwhole
    exact ⟨c, cs, heq, .inl hc⟩

theorem digitsValue_natText (n : Nat) : digitsValue (natText n) = n := by
  rw [natText, digitsValue, ← Nat.ofDigitChars_eq_foldl, Nat.ofDigitChars_ten_toDigits]

theorem isDigit_of_mem_natText {n : Nat} {c : Char} (h : c ∈ natText n) : c.isDigit :=
  Nat.isDigit_of_mem_toDigits (by decide) (by decide) h

/-- Only zero is written with a leading zero. -/
theorem head?_natText_ne {n : Nat} (h : n ≠ 0) : (natText n).head? ≠ some '0' := by
  induction n using Nat.strongRecOn with
  | ind n ih =>
    unfold natText at ih ⊢
    rcases Nat.lt_or_ge n 10 with hlt | hge
    · have hdigit : ∀ d < 10, d ≠ 0 → [Nat.digitChar d].head? ≠ some '0' := by decide
      rw [Nat.toDigits_of_lt_base hlt]
      exact hdigit n hlt h
    · rw [Nat.toDigits_of_base_le (by decide) hge, List.head?_append_of_ne_nil _ Nat.toDigits_ne_nil]
      exact ih (n / 10) (by omega) (by omega)

theorem readDigits_natText (n : Nat) : readDigits (natText n) = some (natText n, []) := by
  have htake : (natText n).takeWhile Char.isDigit = natText n :=
    List.takeWhile_eq_self_iff.2 fun _ => isDigit_of_mem_natText
  have hdrop : (natText n).dropWhile Char.isDigit = [] :=
    List.dropWhile_eq_nil_iff.2 fun _ => isDigit_of_mem_natText
  unfold readDigits
  rw [htake, hdrop]
  split
  · next heq => exact absurd heq Nat.toDigits_ne_nil
  · rfl

theorem readWhole_natText (n : Nat) : readWhole (natText n) = some (natText n, []) := by
  rcases eq_or_ne n 0 with rfl | hn
  · rfl
  · unfold readWhole
    split
    · next heq => exact absurd (by rw [heq]; rfl) (head?_natText_ne hn)
    · exact readDigits_natText n

theorem readUnsigned_natText (negative : Bool) (n : Nat) :
    readUnsigned negative (natText n) = some (⟨negative, n, 0, true⟩, []) := by
  simp [readUnsigned, readWhole_natText, readFraction, readExponent, digitsValue_natText]

theorem readNumber_intText (i : Int) :
    readNumber (intText i) = some (⟨decide (i < 0), i.natAbs, 0, true⟩, []) := by
  unfold intText
  split
  · next h => simp [readNumber, readUnsigned_natText, h]
  · next h =>
    unfold readNumber
    split
    · next heq =>
      have hminus : '-' ∈ natText i.natAbs := by simp [heq]
      exact absurd (isDigit_of_mem_natText hminus) (by decide)
    · simp [readUnsigned_natText, h]

theorem numberOf_integer {i : Int} (h : leastInteger ≤ i ∧ i ≤ greatestInteger) :
    numberOf ⟨decide (i < 0), i.natAbs, 0, true⟩ = some (.integer i) := by
  have hvalue : (if decide (i < 0) = true then -(i.natAbs : Int) else i.natAbs) = i := by
    simp only [decide_eq_true_eq]
    split <;> omega
  simp only [numberOf, hvalue]
  rw [if_pos ⟨trivial, h.1, h.2, by simp; omega⟩]

/-! ## Strings -/

theorem hexValue?_lowerHexDigit {d : Nat} (h : d < 16) : hexValue? (lowerHexDigit d) = some d := by
  interval_cases d <;> rfl

theorem hexUnit_control {n : Nat} (h : n < 0x20) :
    hexUnit '0' '0' (lowerHexDigit (n / 16)) (lowerHexDigit (n % 16)) = some n := by
  have hhigh := hexValue?_lowerHexDigit (d := n / 16) (by omega)
  have hlow := hexValue?_lowerHexDigit (d := n % 16) (by omega)
  have hzero : hexValue? '0' = some 0 := rfl
  simp [hexUnit, isHexDigit, hexNumber, hhigh, hlow, hzero]
  omega

theorem joinItems_unit {n : Nat} {items : List StringItem} (h : n < 0x20) :
    joinItems (.unit n :: items) = (joinItems items).map (Char.ofNat n :: ·) := by
  cases items with
  | nil =>
    simp only [joinItems]
    rw [if_neg (by omega)]
  | cons item items =>
    cases item with
    | char c =>
      simp only [joinItems]
      rw [if_neg (by omega)]
    | unit m =>
      rw [joinItems, if_neg (by omega), if_neg (by omega)]

theorem readString_plain {c : Char} (hquote : c ≠ '"') (hslash : c ≠ '\\') (h : ¬c.toNat < 0x20)
    (rest : List Char) : readString (c :: rest) =
      (readString rest).bind fun r => some (.char c :: r.1, r.2) := by
  rw [readString.eq_def]
  split <;> simp_all

/-- A character is written as an escaped unit or so that it is read as itself. -/
theorem readString_compactChar (c : Char) (rest : List Char) :
    (c.toNat < 0x20 ∧ readString (Json.compactChar c ++ rest) =
      (readString rest).bind fun r => some (.unit c.toNat :: r.1, r.2)) ∨
    readString (Json.compactChar c ++ rest) =
      (readString rest).bind fun r => some (.char c :: r.1, r.2) := by
  have heq {n : Nat} (h : c.toNat = n) : Char.ofNat n = c := h ▸ Char.ofNat_toNat c
  unfold Json.compactChar
  by_cases hquote : c = '"'
  · rw [if_pos hquote]
    subst hquote
    exact .inr rfl
  rw [if_neg hquote]
  by_cases hslash : c = '\\'
  · rw [if_pos hslash]
    subst hslash
    exact .inr rfl
  rw [if_neg hslash]
  by_cases hback : c.toNat = 8
  · rw [if_pos hback]
    exact .inr (heq hback ▸ rfl)
  rw [if_neg hback]
  by_cases htab : c = '\t'
  · rw [if_pos htab]
    subst htab
    exact .inr rfl
  rw [if_neg htab]
  by_cases hline : c = '\n'
  · rw [if_pos hline]
    subst hline
    exact .inr rfl
  rw [if_neg hline]
  by_cases hform : c.toNat = 12
  · rw [if_pos hform]
    exact .inr (heq hform ▸ rfl)
  rw [if_neg hform]
  by_cases hreturn : c = '\r'
  · rw [if_pos hreturn]
    subst hreturn
    exact .inr rfl
  rw [if_neg hreturn]
  by_cases hcontrol : c.toNat < 0x20
  · rw [if_pos hcontrol]
    refine .inl ⟨hcontrol, ?_⟩
    simp only [List.cons_append, List.nil_append, readString, hexUnit_control hcontrol]
    rfl
  · rw [if_neg hcontrol]
    exact .inr (readString_plain hquote hslash hcontrol rest)

/-- What is written for a string is read as items that make up the string. -/
theorem readString_compact (s rest : List Char) :
    ∃ items, readString (s.flatMap Json.compactChar ++ '"' :: rest) = some (items, rest) ∧
      joinItems items = some s := by
  induction s with
  | nil => exact ⟨[], by simp [readString], rfl⟩
  | cons c s ih =>
    obtain ⟨items, hread, hjoin⟩ := ih
    rw [List.flatMap_cons, List.append_assoc]
    rcases readString_compactChar c (s.flatMap Json.compactChar ++ '"' :: rest) with ⟨hc, hstep⟩ | hstep
    · refine ⟨.unit c.toNat :: items, by simp [hstep, hread], ?_⟩
      rw [joinItems_unit hc, hjoin, Option.map_some, Char.ofNat_toNat]
    · exact ⟨.char c :: items, by simp [hstep, hread], by simp [joinItems, hjoin]⟩

end ScriptGraph.Document
