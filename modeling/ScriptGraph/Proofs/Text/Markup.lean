import ScriptGraph.Builder.Operators
import ScriptGraph.Compile.Basic
import ScriptGraph.Proofs.Emission.Splicing

/-!
# Texts without `<`

A script stands inside an element of a page, which a `<` in the script could end. What is written
for values has none, whatever is in them.

* `lt_notMem_of_isIdentifier`, `lt_notMem_natText`, `lt_notMem_quoted`, `lt_notMem_propertyKey` :
  names, numbers, strings and keys;
* `Binary64.lt_notMem_literal`, `lt_notMem_bigIntegerLiteral`, `Json.lt_notMem_literal` : literals;
* `lt_notMem_intercalate`, `lt_notMem_joined`, `lt_notMem_replaceAll` : texts made of others;
* `Stores.lt_notMem_modulesText`, `Stores.lt_notMem_resourcesText` : the contents of the stores.
-/

namespace ScriptGraph

/-! ## Names and numbers -/

theorem lt_notMem_of_isIdentifier {s : String} (h : isIdentifier s = true) : '<' ∉ s.toList :=
  fun hmem => absurd (isIdentifierPart_of_mem h _ hmem) (by decide)

@[simp] theorem lt_notMem_natText (n : Nat) : '<' ∉ natText n := fun hmem =>
  absurd (Nat.isDigit_of_mem_toDigits (by decide) (by decide) hmem) (by decide)

@[simp] theorem lt_notMem_parenthesized {cs : List Char} :
    '<' ∉ parenthesized cs ↔ '<' ∉ cs := by
  simp [parenthesized]

@[simp] theorem lt_notMem_intText (i : Int) : '<' ∉ intText i := by
  unfold intText
  split <;> simp

theorem Decimal.lt_notMem_plain (d : Decimal) (whole : List Char) (h : '<' ∉ whole) :
    '<' ∉ d.plain whole := by
  have hzeros : ∀ n, '<' ∉ List.replicate n '0' := fun n hmem => by
    cases List.eq_of_mem_replicate hmem
  have hdigits := lt_notMem_natText d.coefficient
  unfold plain
  dsimp only
  split
  · simp [hzeros, h]
  · split
    · intro hmem
      rcases List.mem_append.1 hmem with hmem | hmem
      · exact hdigits (List.mem_of_mem_take hmem)
      · rcases List.mem_cons.1 hmem with heq | hmem
        · cases heq
        · exact hdigits (List.mem_of_mem_drop hmem)
    · simp [hzeros]

theorem Decimal.lt_notMem_scientific (d : Decimal) : '<' ∉ d.scientific := by
  have hdigits := lt_notMem_natText d.coefficient
  have htake : '<' ∉ (natText d.coefficient).take 1 := fun h => hdigits (List.mem_of_mem_take h)
  have hdrop : '<' ∉ (natText d.coefficient).drop 1 := fun h => hdigits (List.mem_of_mem_drop h)
  unfold scientific
  dsimp only
  simp only [List.mem_append, List.mem_cons, not_or]
  refine ⟨⟨htake, ?_⟩, by decide, ?_, lt_notMem_natText _⟩
  · split
    · exact fun h => (List.mem_cons.1 h).elim (by decide) hdrop
    · exact List.not_mem_nil
  · split <;> decide

namespace Finite64

@[simp] theorem lt_notMem_jsonChars (x : Finite64) : '<' ∉ x.jsonChars := by
  have hplain := (x.shortest .toEven).lt_notMem_plain ['.', '0'] (by decide)
  have hscientific := (x.shortest .toEven).lt_notMem_scientific
  unfold jsonChars
  dsimp only
  repeat' split
  all_goals simp [hplain, hscientific]

@[simp] theorem lt_notMem_plainChars (x : Finite64) : '<' ∉ x.plainChars := by
  have hplain := (x.shortest .outward).lt_notMem_plain [] (by decide)
  unfold plainChars
  dsimp only
  repeat' split
  all_goals simp [hplain]

end Finite64

@[simp] theorem Binary64.lt_notMem_literal (x : Binary64) : '<' ∉ x.literal.toList := by
  rcases x with _ | (_ | _) | x
  · decide
  · decide
  · decide
  · simp [literal]

@[simp] theorem lt_notMem_bigIntegerLiteral (i : Int) : '<' ∉ (bigIntegerLiteral i).toList := by
  unfold bigIntegerLiteral
  split <;> simp

/-! ## Strings and keys -/

theorem upperHexDigit_ne_lt : ∀ d < 16, upperHexDigit d ≠ '<' := by decide

theorem lt_notMem_escapeChar (c : Char) (next : Option Char) : '<' ∉ escapeChar c next := by
  by_cases hlt : c = '<'
  · subst hlt
    show '<' ∉ ['\\', 'x', '3', 'C']
    decide
  have hkept : '<' ∉ [c] := fun h => hlt (List.mem_singleton.1 h).symm
  have hcontrol (h : c.toNat < 0x20) :
      '<' ∉ ['\\', 'x', upperHexDigit (c.toNat / 16), upperHexDigit (c.toNat % 16)] := by
    have hhigh := upperHexDigit_ne_lt (c.toNat / 16) (by omega)
    have hlow := upperHexDigit_ne_lt (c.toNat % 16) (by omega)
    simp [hhigh.symm, hlow.symm]
  unfold escapeChar
  repeat' refine iteInduction (motive := ('<' ∉ ·)) (fun _ => ?_) fun _ => ?_
  all_goals first
    | decide
    | exact hcontrol (by assumption)
    | exact hkept

/-- A string literal has no `<`, whatever the string is. -/
@[simp] theorem lt_notMem_quotedChars (cs : List Char) : '<' ∉ quotedChars cs := by
  have hescaped : '<' ∉ escapeChars cs := by
    induction cs with
    | nil => exact List.not_mem_nil
    | cons c cs ih =>
      rw [escapeChars, List.mem_append, not_or]
      exact ⟨lt_notMem_escapeChar c _, ih⟩
  simp [quotedChars, hescaped]

@[simp] theorem lt_notMem_quoted (s : String) : '<' ∉ (quoted s).toList := by
  simp [quoted]

@[simp] theorem lt_notMem_propertyKey (key : String) : '<' ∉ (propertyKey key).toList := by
  unfold propertyKey
  split
  · exact lt_notMem_of_isIdentifier (by assumption)
  · exact lt_notMem_quoted key

theorem lt_notMem_memberAccess (property : String) (optional : Bool) :
    '<' ∉ (Build.memberAccess property optional).toList := by
  unfold Build.memberAccess
  cases h : isIdentifier property with
  | true =>
    have := lt_notMem_of_isIdentifier h
    cases optional <;> simp [this]
  | false => cases optional <;> simp

namespace Json

theorem lt_notMem_numberLiteral (n : Number) : '<' ∉ numberLiteral n := by
  unfold numberLiteral
  cases n with
  | integer i => dsimp only; split <;> simp
  | real x => dsimp only; split <;> simp

mutual

theorem lt_notMem_literalChars : ∀ v : Json, '<' ∉ v.literalChars
  | .null => by decide
  | .bool true => by decide
  | .bool false => by decide
  | .number n => lt_notMem_numberLiteral n
  | .string s => lt_notMem_quotedChars s.toList
  | .array items => by simp [literalChars, lt_notMem_literalItems items]
  | .object entries => by simp [literalChars, lt_notMem_literalEntries entries]

theorem lt_notMem_literalItems : ∀ items : List Json, '<' ∉ literalItems items
  | [] => List.not_mem_nil
  | [item] => lt_notMem_literalChars item
  | item :: next :: rest => by
    have hrest := lt_notMem_literalItems (next :: rest)
    simp [literalItems_cons, lt_notMem_literalChars item, hrest]

theorem lt_notMem_literalEntries : ∀ entries : List (String × Json), '<' ∉ literalEntries entries
  | [] => List.not_mem_nil
  | [(key, value)] => by
    simp [literalEntries_singleton, lt_notMem_literalChars value]
  | (key, value) :: next :: rest => by
    have hrest := lt_notMem_literalEntries (next :: rest)
    simp [literalEntries_cons, lt_notMem_literalChars value, hrest]

end

/-- The literal of a value has no `<`, whatever strings and keys the value has. -/
@[simp] theorem lt_notMem_literal (v : Json) : '<' ∉ v.literal.toList := by
  rw [literal, String.toList_ofList]
  exact lt_notMem_literalChars v

end Json

/-! ## Texts made of others -/

theorem lt_notMem_intercalate {separator : String} {items : List String}
    (hsep : '<' ∉ separator.toList) (h : ∀ t ∈ items, '<' ∉ t.toList) :
    '<' ∉ (separator.intercalate items).toList := by
  rw [String.toList_intercalate]
  induction items with
  | nil => exact List.not_mem_nil
  | cons t rest ih =>
    obtain ⟨ht, hrest⟩ := List.forall_mem_cons.1 h
    have := ih hrest
    cases rest with
    | nil => simpa [List.intercalate] using ht
    | cons u rest => simp_all [List.intercalate]

theorem lt_notMem_joined {separator : List Char} {texts : List (List Char)}
    (hsep : '<' ∉ separator) (h : ∀ t ∈ texts, '<' ∉ t) : '<' ∉ joined separator texts := by
  induction texts using joined.induct with
  | case1 => exact List.not_mem_nil
  | case2 t => exact h t List.mem_cons_self
  | case3 t rest hne ih =>
    obtain ⟨ht, hrest⟩ := List.forall_mem_cons.1 h
    rw [joined]
    · simp [ht, hsep, ih hrest]
    · exact hne

/-- Replacing one text by another brings in the characters of the other one only. -/
theorem lt_notMem_replaceFrom {old new text : List Char} (hnew : '<' ∉ new) (htext : '<' ∉ text)
    (skip : Nat) : '<' ∉ replaceFrom old new skip text := by
  induction text generalizing skip with
  | nil => cases skip <;> exact List.not_mem_nil
  | cons c text ih =>
    have hc : '<' ≠ c := fun h => htext (h ▸ List.mem_cons_self)
    have hrest := ih fun h => htext (List.mem_cons_of_mem _ h)
    cases skip with
    | succ skip => exact hrest skip
    | zero =>
      rw [replaceFrom]
      split
      · simp [hnew, hrest]
      · simp [hc, hrest]

theorem lt_notMem_replaceAll {old new text : List Char} (hnew : '<' ∉ new) (htext : '<' ∉ text) :
    '<' ∉ replaceAll old new text := lt_notMem_replaceFrom hnew htext 0

/-! ## Contents of the stores -/

namespace Stores

theorem lt_notMem_bracketed {items : List String} (h : ∀ t ∈ items, '<' ∉ t.toList) :
    '<' ∉ (bracketed items).toList := by
  simp only [bracketed, String.toList_append, List.mem_append, not_or]
  exact ⟨⟨by decide, lt_notMem_intercalate (by decide) h⟩, by decide⟩

theorem lt_notMem_modulesText (s : Stores) {param : Option String}
    (h : ∀ p ∈ param, '<' ∉ p.toList) : '<' ∉ (s.modulesText param).toList := by
  have haddresses : '<' ∉ (bracketed (s.addresses.map quoted)).toList :=
    lt_notMem_bracketed fun t ht => by
      obtain ⟨address, _, rfl⟩ := List.mem_map.1 ht
      exact lt_notMem_quoted address
  unfold modulesText
  rw [String.toList_append, String.toList_append, List.mem_append, List.mem_append, not_or, not_or]
  refine ⟨⟨by decide, ?_⟩, by decide⟩
  cases param with
  | none => exact haddresses
  | some p => exact h p rfl

theorem lt_notMem_resourcesText (s : Stores) (mode : ResourceMode) {accessor : String}
    (keysInline : Bool) (h : '<' ∉ accessor.toList) :
    '<' ∉ (s.resourcesText mode accessor keysInline).toList := by
  cases mode with
  | snapshot =>
    refine lt_notMem_bracketed fun t ht => ?_
    obtain ⟨entry, _, rfl⟩ := List.mem_map.1 ht
    exact Json.lt_notMem_literal entry.2
  | runtime =>
    have hkeys : '<' ∉ (bracketed (s.keys.map quoted)).toList :=
      lt_notMem_bracketed fun t ht => by
        obtain ⟨key, _, rfl⟩ := List.mem_map.1 ht
        exact lt_notMem_quoted key
    cases keysInline <;> simp [resourcesText, h, hkeys]

end Stores

end ScriptGraph
