import ScriptGraph.Proofs.Text.Literals

/-!
# Texts without control characters

What is written for values has no control characters, whatever is in the values.

* `IsNumberChar` : the characters of numbers; `Finite64.isNumberChar_jsonChars`;
* `Json.printed_literalChars` : literals;
* `Stores.printed_modulesText`, `Stores.printed_resourcesText` : the contents of the stores.
-/

namespace ScriptGraph

open Ecma

theorem printed_of_all {cs : List Char} (h : cs.all fun c => 0x20 ≤ c.toNat && c.toNat < 0x80) :
    ∀ c ∈ cs, IsPrinted c := fun c hc =>
  isPrinted_of_ascii (by simpa using List.all_eq_true.1 h c hc)

/-! ## Joined texts -/

theorem joined_cons_cons (separator t u : List Char) (rest : List (List Char)) :
    joined separator (t :: u :: rest) = t ++ (separator ++ joined separator (u :: rest)) := by
  rw [joined.eq_3 _ _ _ (by simp), List.append_assoc]

theorem infix_joined (separator : List Char) {t : List Char} {texts : List (List Char)}
    (h : t ∈ texts) : t <:+: joined separator texts := by
  induction texts with
  | nil => cases h
  | cons u rest ih =>
    cases rest with
    | nil => exact List.mem_singleton.1 h ▸ List.infix_refl _
    | cons v rest =>
      rw [joined_cons_cons]
      rcases List.mem_cons.1 h with rfl | h
      · exact List.infix_append' [] t _
      · exact (ih h).trans ((List.suffix_append _ _).isInfix.trans (List.suffix_append _ _).isInfix)

theorem intercalate_eq_joined (separator : List Char) (texts : List (List Char)) :
    separator.intercalate texts = joined separator texts := by
  induction texts with
  | nil => rfl
  | cons t rest ih =>
    cases rest with
    | nil => exact List.append_nil t
    | cons u rest => rw [List.intercalate_cons_cons, ih, joined_cons_cons, List.append_assoc]

theorem Stores.toList_bracketed (items : List String) :
    (bracketed items).toList = '[' :: joined [','] (items.map (·.toList)) ++ [']'] := by
  rw [bracketed, String.toList_append, String.toList_append, String.toList_intercalate,
    ← intercalate_eq_joined]
  rfl

/-! ## Names and numbers -/

theorem isPrinted_of_isIdentifierPart {c : Char} (h : isIdentifierPart c = true) : IsPrinted c := by
  refine isPrinted_of_ascii ?_
  simp only [isIdentifierPart, isIdentifierStart, Char.isAlpha, Char.isUpper, Char.isLower,
    Bool.or_eq_true, Bool.and_eq_true, decide_eq_true_eq, beq_iff_eq, Char.isDigit_iff_toNat] at h
  rcases h with (((⟨hlow, hhigh⟩ | ⟨hlow, hhigh⟩) | rfl) | rfl) | ⟨hlow, hhigh⟩
  · exact ⟨Nat.le_trans (by decide) hlow, Nat.lt_of_le_of_lt hhigh (by decide)⟩
  · exact ⟨Nat.le_trans (by decide) hlow, Nat.lt_of_le_of_lt hhigh (by decide)⟩
  · decide
  · decide
  · exact ⟨Nat.le_trans (by decide) hlow, Nat.lt_of_le_of_lt hhigh (by decide)⟩

theorem printed_of_isIdentifier {s : String} (h : isIdentifier s = true) :
    ∀ c ∈ s.toList, IsPrinted c :=
  fun c hc => isPrinted_of_isIdentifierPart (isIdentifierPart_of_mem h c hc)

/-- A character of a number. -/
def IsNumberChar (c : Char) : Prop := c.isDigit = true ∨ c ∈ ['.', 'e', '+', '-']

instance : DecidablePred IsNumberChar := fun _ => inferInstanceAs (Decidable (_ ∨ _))

theorem IsNumberChar.isPrinted {c : Char} (h : IsNumberChar c) : IsPrinted c := by
  rcases h with h | h
  · exact isPrinted_of_isIdentifierPart (by rw [isIdentifierPart, h, Bool.or_true])
  · exact printed_of_all (by decide) c h

theorem isNumberChar_natText (n : Nat) : ∀ c ∈ natText n, IsNumberChar c := fun _ hc =>
  .inl (Nat.isDigit_of_mem_toDigits (by decide) (by decide) hc)

theorem isNumberChar_zeros (n : Nat) : ∀ c ∈ List.replicate n '0', IsNumberChar c := fun c hc => by
  rw [List.eq_of_mem_replicate hc]
  exact .inl rfl

theorem isNumberChar_intText (i : Int) : ∀ c ∈ intText i, IsNumberChar c := by
  unfold intText
  split
  · exact List.forall_mem_cons.2 ⟨.inr (by decide), isNumberChar_natText _⟩
  · exact isNumberChar_natText _

theorem Decimal.isNumberChar_plain (d : Decimal) {whole : List Char}
    (h : ∀ c ∈ whole, IsNumberChar c) :
    ∀ c ∈ d.plain whole, IsNumberChar c := by
  have hdigits := isNumberChar_natText d.coefficient
  have hpoint : IsNumberChar '.' := .inr (by decide)
  have hzero : IsNumberChar '0' := .inl rfl
  unfold plain
  dsimp only
  split
  · exact List.forall_mem_append.2 ⟨List.forall_mem_append.2 ⟨hdigits, isNumberChar_zeros _⟩, h⟩
  · split
    · exact List.forall_mem_append.2 ⟨fun c hc => hdigits c (List.mem_of_mem_take hc),
        List.forall_mem_cons.2 ⟨hpoint, fun c hc => hdigits c (List.mem_of_mem_drop hc)⟩⟩
    · exact List.forall_mem_append.2 ⟨List.forall_mem_cons.2 ⟨hzero,
        List.forall_mem_cons.2 ⟨hpoint, isNumberChar_zeros _⟩⟩, hdigits⟩

theorem Decimal.isNumberChar_scientific (d : Decimal) : ∀ c ∈ d.scientific, IsNumberChar c := by
  have hdigits := isNumberChar_natText d.coefficient
  unfold scientific
  dsimp only
  refine List.forall_mem_append.2 ⟨List.forall_mem_append.2
    ⟨fun c hc => hdigits c (List.mem_of_mem_take hc), ?_⟩, List.forall_mem_cons.2
    ⟨.inr (by decide), List.forall_mem_cons.2 ⟨?_, isNumberChar_natText _⟩⟩⟩
  · split
    · exact List.forall_mem_cons.2
        ⟨.inr (by decide), fun c hc => hdigits c (List.mem_of_mem_drop hc)⟩
    · exact nofun
  · split <;> exact .inr (by decide)

theorem Finite64.isNumberChar_jsonChars (x : Finite64) : ∀ c ∈ x.jsonChars, IsNumberChar c := by
  have hwhole : ∀ c ∈ ['.', '0'], IsNumberChar c :=
    List.forall_mem_cons.2 ⟨.inr (by decide), List.forall_mem_singleton.2 (.inl rfl)⟩
  have hunsigned : ∀ c ∈ (if x.significand = 0 then ['0', '.', '0'] else
      if -5 < (x.shortest .toEven).point ∧ (x.shortest .toEven).point ≤ 16 then
        (x.shortest .toEven).plain ['.', '0']
      else (x.shortest .toEven).scientific), IsNumberChar c := by
    split_ifs
    · exact List.forall_mem_cons.2 ⟨.inl rfl, hwhole⟩
    · exact Decimal.isNumberChar_plain _ hwhole
    · exact Decimal.isNumberChar_scientific _
  unfold jsonChars
  dsimp only
  split
  · exact List.forall_mem_cons.2 ⟨.inr (by decide), hunsigned⟩
  · exact hunsigned

theorem natText_ne_nil (n : Nat) : natText n ≠ [] :=
  List.ne_nil_of_length_pos Nat.length_toDigits_pos

theorem intText_ne_nil (i : Int) : intText i ≠ [] := by
  unfold intText
  split
  · exact List.cons_ne_nil _ _
  · exact natText_ne_nil _

theorem Decimal.plain_ne_nil (d : Decimal) (whole : List Char) : d.plain whole ≠ [] := by
  unfold plain
  dsimp only
  split_ifs
  · simp [natText_ne_nil]
  · simp
  · simp

theorem Finite64.jsonChars_ne_nil (x : Finite64) : x.jsonChars ≠ [] := by
  unfold jsonChars
  dsimp only
  split_ifs
  · simp
  · simp
  · simp
  · simp
  · exact Decimal.plain_ne_nil _ _
  · simp [Decimal.scientific]

/-! ## Literals -/

theorem printed_propertyKey (key : String) : ∀ c ∈ (propertyKey key).toList, IsPrinted c := by
  unfold propertyKey
  split
  · exact printed_of_isIdentifier (by assumption)
  · rw [quoted, String.toList_ofList]
    exact isPrinted_of_mem_quotedChars _

theorem printed_quoted (s : String) : ∀ c ∈ (quoted s).toList, IsPrinted c := by
  rw [quoted, String.toList_ofList]
  exact isPrinted_of_mem_quotedChars _

namespace Json

def Number.isNegative : Number → Bool
  | .integer i => i < 0
  | .real x => x.negative

theorem numberLiteral_eq (n : Number) :
    numberLiteral n = if n.isNegative then parenthesized n.chars else n.chars := by
  cases n with
  | integer i => simp [numberLiteral, Number.isNegative, Number.chars]
  | real x => rfl

theorem Number.isNumberChar_chars (n : Number) : ∀ c ∈ n.chars, IsNumberChar c := by
  cases n with
  | integer i => exact isNumberChar_intText i
  | real x => exact x.isNumberChar_jsonChars

theorem Number.chars_ne_nil (n : Number) : n.chars ≠ [] := by
  cases n with
  | integer i => exact intText_ne_nil i
  | real x => exact x.jsonChars_ne_nil

theorem printed_numberLiteral (n : Number) : ∀ c ∈ numberLiteral n, IsPrinted c := by
  have hchars : ∀ c ∈ n.chars, IsPrinted c := fun c hc => (n.isNumberChar_chars c hc).isPrinted
  rw [numberLiteral_eq]
  split
  · exact List.forall_mem_append.2 ⟨List.forall_mem_cons.2 ⟨isPrinted_of_ascii (by decide), hchars⟩,
      List.forall_mem_singleton.2 (isPrinted_of_ascii (by decide))⟩
  · exact hchars

theorem exists_head_numberLiteral (n : Number) :
    ∃ c cs, numberLiteral n = c :: cs ∧ (IsNumberChar c ∨ c = '(') := by
  rw [numberLiteral_eq]
  split
  · exact ⟨'(', _, rfl, .inr rfl⟩
  · obtain ⟨c, cs, heq⟩ := List.exists_cons_of_ne_nil n.chars_ne_nil
    exact ⟨c, cs, heq, .inl (n.isNumberChar_chars c (heq ▸ List.mem_cons_self))⟩

mutual

/-- The literal of a value has no control characters. -/
theorem printed_literalChars : ∀ v : Json, ∀ c ∈ v.literalChars, IsPrinted c
  | .null => printed_of_all (by decide)
  | .bool true => printed_of_all (by decide)
  | .bool false => printed_of_all (by decide)
  | .number n => printed_numberLiteral n
  | .string s => isPrinted_of_mem_quotedChars s.toList
  | .array items => List.forall_mem_append.2
      ⟨List.forall_mem_cons.2 ⟨isPrinted_of_ascii (by decide), printed_literalItems items⟩,
        List.forall_mem_singleton.2 (isPrinted_of_ascii (by decide))⟩
  | .object entries => List.forall_mem_append.2
      ⟨List.forall_mem_cons.2 ⟨isPrinted_of_ascii (by decide), printed_literalEntries entries⟩,
        List.forall_mem_singleton.2 (isPrinted_of_ascii (by decide))⟩

theorem printed_literalItems : ∀ items : List Json, ∀ c ∈ literalItems items, IsPrinted c
  | [] => nofun
  | [item] => printed_literalChars item
  | item :: next :: rest => by
    rw [literalItems_cons]
    exact List.forall_mem_append.2 ⟨printed_literalChars item, List.forall_mem_cons.2
      ⟨isPrinted_of_ascii (by decide), printed_literalItems (next :: rest)⟩⟩

theorem printed_literalEntries : ∀ entries : List (String × Json),
    ∀ c ∈ literalEntries entries, IsPrinted c
  | [] => nofun
  | [(key, value)] => List.forall_mem_append.2 ⟨printed_propertyKey key, List.forall_mem_cons.2
      ⟨isPrinted_of_ascii (by decide), printed_literalChars value⟩⟩
  | (key, value) :: next :: rest => by
    rw [literalEntries_cons]
    exact List.forall_mem_append.2 ⟨List.forall_mem_append.2
      ⟨printed_propertyKey key, List.forall_mem_cons.2
        ⟨isPrinted_of_ascii (by decide), printed_literalChars value⟩⟩, List.forall_mem_cons.2
      ⟨isPrinted_of_ascii (by decide), printed_literalEntries (next :: rest)⟩⟩

end

theorem printed_literal (v : Json) : ∀ c ∈ v.literal.toList, IsPrinted c := by
  rw [literal, String.toList_ofList]
  exact v.printed_literalChars

end Json

/-! ## Contents of the stores -/

theorem printed_append {s t : String} (hs : ∀ c ∈ s.toList, IsPrinted c)
    (ht : ∀ c ∈ t.toList, IsPrinted c) : ∀ c ∈ (s ++ t).toList, IsPrinted c := by
  rw [String.toList_append]
  exact List.forall_mem_append.2 ⟨hs, ht⟩

namespace Stores

theorem printed_bracketed {items : List String} (h : ∀ t ∈ items, ∀ c ∈ t.toList, IsPrinted c) :
    ∀ c ∈ (bracketed items).toList, IsPrinted c := by
  rw [toList_bracketed]
  refine List.forall_mem_append.2 ⟨List.forall_mem_cons.2 ⟨isPrinted_of_ascii (by decide), ?_⟩,
    printed_of_all (by decide)⟩
  induction items with
  | nil => exact nofun
  | cons t rest ih =>
    obtain ⟨ht, hrest⟩ := List.forall_mem_cons.1 h
    cases rest with
    | nil => exact ht
    | cons u rest =>
      rw [List.map_cons, List.map_cons, joined_cons_cons]
      exact List.forall_mem_append.2
        ⟨ht, List.forall_mem_append.2 ⟨printed_of_all (by decide), ih hrest⟩⟩

theorem printed_modulesText (s : Stores) {param : Option String}
    (h : ∀ p ∈ param, ∀ c ∈ p.toList, IsPrinted c) :
    ∀ c ∈ (s.modulesText param).toList, IsPrinted c := by
  refine printed_append (printed_append (printed_of_all (by decide)) ?_)
    (printed_of_all (by decide))
  cases param with
  | none =>
    refine printed_bracketed fun t ht => ?_
    obtain ⟨address, _, rfl⟩ := List.mem_map.1 ht
    exact printed_quoted address
  | some p => exact h p rfl

theorem printed_resourcesText (s : Stores) (mode : ResourceMode) {accessor : String}
    (keysInline : Bool) (h : ∀ c ∈ accessor.toList, IsPrinted c) :
    ∀ c ∈ (s.resourcesText mode accessor keysInline).toList, IsPrinted c := by
  cases mode with
  | snapshot =>
    refine printed_bracketed fun t ht => ?_
    obtain ⟨entry, _, rfl⟩ := List.mem_map.1 ht
    exact entry.2.printed_literal
  | runtime =>
    cases keysInline with
    | false => exact h
    | true =>
      refine printed_append (printed_append (printed_append h (printed_of_all (by decide))) ?_)
        (printed_of_all (by decide))
      refine printed_bracketed fun t ht => ?_
      obtain ⟨key, _, rfl⟩ := List.mem_map.1 ht
      exact printed_quoted key

end Stores

end ScriptGraph
