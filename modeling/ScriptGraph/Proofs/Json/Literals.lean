import ScriptGraph.Proofs.Emission.Placements
import ScriptGraph.Proofs.Json.Roundtrip
import ScriptGraph.Proofs.Text.Printed

/-!
# Literals of JSON values are read back

* `Ecma.readList` : items between commas, with any reader of one item;
* `Ecma.readObject` : an object literal, whose keys are bare or strings, with any reader of a value;
* `Ecma.Meaning`, `Ecma.readNested` : what the literal at the front of a text stands for;
* `Json.readNested_literalChars` : the literal of a value stands for what is meant by the value;
* `Json.literal_readsBack` : the literal determines the value.
-/

namespace ScriptGraph

namespace Ecma

variable {α : Type}

/-! ## Lists -/

/-- One item, then the others up to the closing character, and what follows it. -/
def readItems (close : Char) (item : List Char → Option (α × List Char)) (cs : List Char) :
    Option (List α × List Char) :=
  match item cs with
  | none => none
  | some (x, rest) =>
    match rest with
    | [] => none
    | c :: rest =>
      if c = close then some ([x], rest)
      else if c = ',' ∧ rest.length < cs.length then
        (readItems close item rest).map fun r => (x :: r.1, r.2)
      else none
termination_by cs.length
decreasing_by omega

/-- The items up to the closing character, and what follows it. -/
def readList (close : Char) (item : List Char → Option (α × List Char)) (cs : List Char) :
    Option (List α × List Char) :=
  if cs.head? = some close then some ([], cs.tail) else readItems close item cs

/-- The text is read as `x` where an item can end. -/
def ItemReads (close : Char) (item : List Char → Option (α × List Char)) (text : List Char) (x : α) :
    Prop :=
  ∀ c rest, c = ',' ∨ c = close → item (text ++ c :: rest) = some (x, c :: rest)

section Lists

variable {close : Char} {item : List Char → Option (α × List Char)} {texts : List (List Char)}
  {xs : List α}

theorem readItems_joined (hclose : close ≠ ',')
    (h : List.Forall₂ (ItemReads close item) texts xs) (hne : texts ≠ []) (rest : List Char) :
    readItems close item (joined [','] texts ++ close :: rest) = some (xs, rest) := by
  induction h with
  | nil => exact absurd rfl hne
  | @cons t x texts xs ht hts ih =>
    cases hts with
    | nil =>
      rw [readItems, joined, ht close rest (.inr rfl)]
      exact if_pos rfl
    | @cons t' x' texts xs ht' hts =>
      have hjoined : joined [','] (t :: t' :: texts) ++ close :: rest =
          t ++ ',' :: (joined [','] (t' :: texts) ++ close :: rest) := by simp [joined]
      have hlt : (joined [','] (t' :: texts) ++ close :: rest).length <
          (t ++ ',' :: (joined [','] (t' :: texts) ++ close :: rest)).length := by
        simp only [List.length_append, List.length_cons]
        omega
      rw [hjoined, readItems, ht ',' _ (.inl rfl)]
      show (if _ then _ else _) = _
      rw [if_neg hclose.symm, if_pos ⟨rfl, hlt⟩, ih (by simp)]
      rfl

/-- A list of items between commas is read back, if no item begins with the closing character. -/
theorem readList_joined (hclose : close ≠ ',') (hnone : ∀ cs, item (close :: cs) = none)
    (h : List.Forall₂ (ItemReads close item) texts xs) (rest : List Char) :
    readList close item (joined [','] texts ++ close :: rest) = some (xs, rest) := by
  by_cases hne : texts = []
  · subst hne
    cases h
    exact if_pos rfl
  · have hread := readItems_joined hclose h hne rest
    have hhead : (joined [','] texts ++ close :: rest).head? ≠ some close := fun hhead => by
      obtain ⟨cs, heq⟩ := List.head?_eq_some_iff.1 hhead
      rw [heq, readItems, hnone] at hread
      cases hread
    rw [readList, if_neg hhead, hread]

end Lists

/-! ## Definitions -/

/-- The key of a definition, and what follows it: a string, or an identifier as long as it can be. -/
def readKey : List Char → Option (String × List Char)
  | '"' :: cs => (readText cs).map fun r => (String.ofList r.1, r.2)
  | cs =>
    let name := String.ofList (cs.takeWhile isIdentifierPart)
    if isIdentifier name then some (name, cs.dropWhile isIdentifierPart) else none

/-- A key, a colon and a value. -/
def readDefinition (value : List Char → Option (α × List Char)) (cs : List Char) :
    Option ((String × α) × List Char) :=
  match readKey cs with
  | some (key, ':' :: rest) => (value rest).map fun r => ((key, r.1), r.2)
  | _ => none

theorem readKey_bare {key : String} (h : isIdentifier key = true) (rest : List Char) :
    readKey (key.toList ++ ':' :: rest) = some (key, ':' :: rest) := by
  have hparts := isIdentifierPart_of_mem h
  have htake : (key.toList ++ ':' :: rest).takeWhile isIdentifierPart = key.toList := by
    rw [List.takeWhile_append_of_pos hparts]
    exact List.append_nil _
  have hdrop : (key.toList ++ ':' :: rest).dropWhile isIdentifierPart = ':' :: rest := by
    rw [List.dropWhile_append_of_pos hparts]
    rfl
  rw [readKey]
  · simp only [htake, hdrop, String.ofList_toList, h, if_true]
  · intro cs heq
    have hquote := hparts '"'
    cases hkey : key.toList with
    | nil => rw [hkey] at heq; cases heq
    | cons c _ =>
      rw [hkey, List.cons_append] at heq
      rw [hkey, (List.cons.inj heq).1] at hquote
      exact absurd (hquote List.mem_cons_self) (by decide)

/-- A key is read back from what is written for it. -/
theorem readKey_propertyKey (key : String) (rest : List Char) :
    readKey ((propertyKey key).toList ++ ':' :: rest) = some (key, ':' :: rest) := by
  unfold propertyKey
  split
  · rename_i h
    exact readKey_bare h rest
  · rw [quoted, String.toList_ofList, quotedChars, List.append_assoc, List.cons_append,
      List.singleton_append, readKey, readText_escapeChars, Option.map_some, String.ofList_toList]

theorem ItemReads.definition {value : List Char → Option (α × List Char)} {text : List Char} {x : α}
    {close : Char} (h : ItemReads close value text x) (key : String) :
    ItemReads close (readDefinition value) ((propertyKey key).toList ++ ':' :: text) (key, x) := by
  intro c rest hc
  rw [List.append_assoc, List.cons_append, readDefinition, readKey_propertyKey]
  show (value _).map _ = _
  rw [h c rest hc]
  rfl

/-- No definition begins with a brace. -/
theorem readDefinition_brace (value : List Char → Option (α × List Char)) (cs : List Char) :
    readDefinition value ('\x7d' :: cs) = none := rfl

/-! ## Objects -/

variable {β : Type}

/-- An object literal, and what follows it: `object` makes something of its definitions. -/
def readObject (object : List (String × α) → Option β)
    (value : List Char → Option (α × List Char)) : List Char → Option (β × List Char)
  | '\x7b' :: cs =>
    (readList '\x7d' (readDefinition value) cs).bind fun r => (object r.1).map fun o => (o, r.2)
  | _ => none

/-- The object literal of keys and the texts of their values. -/
def objectText (ds : List (String × List Char)) : List Char :=
  '\x7b' :: joined [','] (ds.map fun d => (propertyKey d.1).toList ++ ':' :: d.2) ++ ['\x7d']

/-- The text of a value is read as the value of the same key. -/
def ValueReads (value : List Char → Option (α × List Char)) (d : String × List Char)
    (x : String × α) : Prop :=
  d.1 = x.1 ∧ ItemReads '\x7d' value d.2 x.2

/-- An object literal is read where its values are. -/
theorem readObject_objectText {object : List (String × α) → Option β}
    {value : List Char → Option (α × List Char)} {ds : List (String × List Char)}
    {xs : List (String × α)} {o : β} (h : List.Forall₂ (ValueReads value) ds xs)
    (ho : object xs = some o) (rest : List Char) :
    readObject object value (objectText ds ++ rest) = some (o, rest) := by
  have hitems : List.Forall₂ (ItemReads '\x7d' (readDefinition value))
      (ds.map fun d => (propertyKey d.1).toList ++ ':' :: d.2) xs := by
    rw [List.forall₂_map_left_iff]
    refine h.imp fun d x hd => ?_
    obtain ⟨key, text⟩ := d
    obtain ⟨key', v⟩ := x
    obtain ⟨rfl, hv⟩ : key = key' ∧ _ := hd
    exact hv.definition key
  rw [objectText, List.append_assoc, List.cons_append, List.singleton_append, readObject,
    readList_joined (by decide) (readDefinition_brace value) hitems, Option.bind_some, ho]
  rfl

/-! ## Literals -/

/-- What literals stand for. A number has a reader of its own, and an object literal may stand for
nothing. -/
structure Meaning (α : Type) where
  null : α
  bool : Bool → α
  string : String → α
  number : List Char → Option (α × List Char)
  array : List α → α
  object : List (String × α) → Option α

/-- What the literal at the front stands for, and what follows it. Arrays and objects nest less than
`depth` deep. -/
def readNested (m : Meaning α) : Nat → List Char → Option (α × List Char)
  | 0, _ => none
  | depth + 1, cs =>
    match cs with
    | 'n' :: 'u' :: 'l' :: 'l' :: rest => some (m.null, rest)
    | 't' :: 'r' :: 'u' :: 'e' :: rest => some (m.bool true, rest)
    | 'f' :: 'a' :: 'l' :: 's' :: 'e' :: rest => some (m.bool false, rest)
    | '"' :: rest => (readText rest).map fun r => (m.string (String.ofList r.1), r.2)
    | '[' :: rest => (readList ']' (readNested m depth) rest).map fun r => (m.array r.1, r.2)
    | '\x7b' :: rest => readObject m.object (readNested m depth) ('\x7b' :: rest)
    | cs => m.number cs

theorem readNested_bracket (m : Meaning α) (depth : Nat) {cs : List Char}
    (h : m.number (']' :: cs) = none) : readNested m depth (']' :: cs) = none := by
  cases depth with
  | zero => rfl
  | succ depth => exact h

end Ecma

namespace Json

open Document Ecma

/-! ## Numbers -/

/-- A number without a sign, which is negative if it is said to be. -/
def readMagnitude (negative : Bool) (cs : List Char) : Option (Number × List Char) :=
  (readUnsigned negative cs).bind fun r => (numberOf r.1).map fun n => (n, r.2)

/-- A number; a negative one is in parentheses. -/
def readNumberLiteral : List Char → Option (Number × List Char)
  | '(' :: '-' :: cs =>
    match readMagnitude true cs with
    | some (n, ')' :: rest) => some (n, rest)
    | _ => none
  | cs => readMagnitude false cs

theorem negative_of_nearest {negative : Bool} {n d : Nat} {x : Finite64}
    (h : Finite64.nearest negative n d = some x) : x.negative = negative := by
  unfold Finite64.nearest at h
  split at h
  · cases h
    rfl
  · dsimp only at h
    split_ifs at h <;> cases h <;> rfl

theorem negative_of_ofDecimal {negative : Bool} {coefficient : Nat} {exponent : Int} {x : Finite64}
    (h : Finite64.ofDecimal negative coefficient exponent = some x) : x.negative = negative := by
  unfold Finite64.ofDecimal at h
  dsimp only at h
  split_ifs at h
  · cases h
    rfl
  · exact negative_of_nearest h
  · exact negative_of_nearest h

/-- A number has the sign of its text. -/
theorem isNegative_of_numberOf {t : NumberText} {n : Number} (h : numberOf t = some n) :
    n.isNegative = t.negative := by
  have hreal {n : Number}
      (h : (Finite64.ofDecimal t.negative t.coefficient t.exponent).map .real = some n) :
      n.isNegative = t.negative := by
    obtain ⟨x, hx, rfl⟩ := Option.map_eq_some_iff.1 h
    exact negative_of_ofDecimal hx
  simp only [numberOf] at h
  split_ifs at h with hnegative hinteger hinteger
  · cases h
    have hzero : t.coefficient ≠ 0 := fun hzero => hinteger.2.2.2 ⟨hnegative, hzero⟩
    simp only [Number.isNegative, hnegative, decide_eq_true_eq]
    omega
  · exact hreal h
  · cases h
    simp [Number.isNegative, Bool.not_eq_true _ ▸ hnegative]
  · exact hreal h

theorem negative_of_readUnsigned {negative : Bool} {cs rest : List Char} {t : NumberText}
    (h : readUnsigned negative cs = some (t, rest)) : t.negative = negative := by
  simp only [readUnsigned, Option.bind_eq_bind, Option.bind_eq_some_iff, Prod.exists] at h
  obtain ⟨_, _, _, _, _, _, _, _, _, heq⟩ := h
  cases heq
  rfl

theorem readMagnitude_append {negative : Bool} {cs rest : List Char} {t : NumberText} {n : Number}
    (h : readUnsigned negative cs = some (t, [])) (ht : numberOf t = some n)
    (hs : Document.Stops rest) :
    readMagnitude negative (cs ++ rest) = some (n, rest) := by
  rw [readMagnitude, readUnsigned_append h hs, Option.bind_some, ht]
  rfl

theorem stops_parenthesis (cs : List Char) : Document.Stops (')' :: cs) := .cons (by decide)

theorem readNumberLiteral_append {n : Number} (h : n.ReadsBack) {rest : List Char}
    (hs : Document.Stops rest) : readNumberLiteral (numberLiteral n ++ rest) = some (n, rest) := by
  obtain ⟨t, hread, ht⟩ := h
  have hsign := isNegative_of_numberOf ht
  obtain ⟨c, cs, hchars, hc⟩ := exists_head_of_readNumber hread
  rw [numberLiteral_eq]
  rw [hchars] at hread ⊢
  unfold Document.readNumber at hread
  split at hread
  · rename_i u heq
    cases heq
    rw [hsign, negative_of_readUnsigned hread, if_pos rfl, parenthesized, List.append_assoc,
      List.cons_append, List.cons_append, List.singleton_append, readNumberLiteral,
      readMagnitude_append hread ht (stops_parenthesis rest)]
    rfl
  · rename_i hminus
    have hdigit : c.isDigit = true := hc.resolve_right fun heq => hminus cs (heq ▸ rfl)
    rw [hsign, negative_of_readUnsigned hread, if_neg Bool.false_ne_true, readNumberLiteral]
    · exact readMagnitude_append hread ht hs
    · rintro u heq
      rw [List.cons_append] at heq
      rw [(List.cons.inj heq).1] at hdigit
      exact absurd hdigit (by decide)

/-! ## Values -/

mutual

/-- The value and what it is made of, at any depth. -/
def parts : Json → List Json
  | .array items => .array items :: partsOfItems items
  | .object entries => .object entries :: partsOfEntries entries
  | v => [v]

def partsOfItems : List Json → List Json
  | [] => []
  | v :: rest => v.parts ++ partsOfItems rest

def partsOfEntries : List (String × Json) → List Json
  | [] => []
  | (_, v) :: rest => v.parts ++ partsOfEntries rest

end

theorem literalItems_eq (items : List Json) :
    literalItems items = joined [','] (items.map literalChars) := by
  induction items with
  | nil => rfl
  | cons v rest ih =>
    cases rest with
    | nil => rfl
    | cons w rest =>
      rw [literalItems_cons, ih]
      simp [joined]

theorem literalEntries_eq (entries : List (String × Json)) : literalEntries entries =
    joined [','] (entries.map fun e => (propertyKey e.1).toList ++ ':' :: e.2.literalChars) := by
  induction entries with
  | nil => rfl
  | cons e rest ih =>
    cases rest with
    | nil => rfl
    | cons e' rest =>
      rw [literalEntries_cons, ih]
      simp [joined]

theorem literalChars_object (entries : List (String × Json)) :
    (Json.object entries).literalChars =
      objectText (entries.map fun e => (e.1, e.2.literalChars)) := by
  rw [literalChars, literalEntries_eq, objectText, List.map_map]
  rfl

/-- What is meant by a value that is no number and no object is what its literal stands for. A text
may follow a number where an item ends. -/
structure Fits {α : Type} (m : Meaning α) (f : Json → α) (S : List Char → Prop) : Prop where
  follow : ∀ c ∈ [',', ']', '\x7d'], ∀ rest, S (c :: rest)
  null : f .null = m.null
  bool : ∀ b, f (.bool b) = m.bool b
  string : ∀ s, f (.string s) = m.string s
  array : ∀ items, f (.array items) = m.array (items.map f)
  bracket : ∀ cs, m.number (']' :: cs) = none

section Reading

variable {α : Type} {m : Meaning α} {f : Json → α} {S : List Char → Prop}

/-- In front of a text that may follow, the literal of a number stands for what is meant by the
number. -/
def NumberReads (m : Meaning α) (f : Json → α) (S : List Char → Prop) (n : Number) : Prop :=
  ∀ rest, S rest → m.number (numberLiteral n ++ rest) = some (f (.number n), rest)

/-- An object literal stands for what is meant by the object. -/
def ObjectReads (m : Meaning α) (f : Json → α) (v : Json) : Prop :=
  ∀ entries, v = .object entries →
    m.object (entries.map fun e => (e.1, f e.2)) = some (f (.object entries))

theorem readNested_number {n : Number} (h : NumberReads m f S n) (depth : Nat) {rest : List Char}
    (hs : S rest) :
    readNested m (depth + 1) (numberLiteral n ++ rest) = some (f (.number n), rest) := by
  obtain ⟨c, cs, heq, hc⟩ := exists_head_numberLiteral n
  have hread := h rest hs
  rw [heq] at hread ⊢
  rw [readNested.eq_def]
  dsimp only
  split
  case h_7 => exact hread
  all_goals
    next heq =>
      obtain rfl := (List.cons.inj heq).1
      exact absurd hc (by decide)

mutual

/-- **The literal of a value stands for what is meant by the value**, in front of any text that may
follow a number. -/
theorem readNested_literalChars (hf : Fits m f S) (v : Json)
    (hn : ∀ n ∈ v.numbers, NumberReads m f S n) (ho : ∀ u ∈ v.parts, ObjectReads m f u)
    {depth : Nat} (hd : v.depth < depth) {rest : List Char} (hs : S rest) :
    readNested m depth (v.literalChars ++ rest) = some (f v, rest) := by
  obtain ⟨depth, rfl⟩ := Nat.exists_eq_succ_of_ne_zero (Nat.ne_zero_of_lt hd)
  match v with
  | .null =>
    rw [hf.null]
    rfl
  | .bool true =>
    rw [hf.bool]
    rfl
  | .bool false =>
    rw [hf.bool]
    rfl
  | .number n => exact readNested_number (hn n (by simp [numbers])) depth hs
  | .string s =>
    rw [literalChars, quotedChars, List.append_assoc, List.cons_append, List.singleton_append,
      readNested, readText_escapeChars, Option.map_some, String.ofList_toList, hf.string]
  | .array items =>
    have hitems := itemReads_items hf items hn (List.forall_mem_cons.1 ho).2
      (show depthOfItems items < depth by simpa [Json.depth] using hd)
    rw [literalChars, List.append_assoc, List.cons_append, List.singleton_append, readNested,
      literalItems_eq,
      readList_joined (by decide) (fun cs => readNested_bracket m depth (hf.bracket cs)) hitems,
      hf.array]
    rfl
  | .object entries =>
    obtain ⟨hobject, hparts⟩ := List.forall_mem_cons.1 ho
    have hentries := valueReads_entries hf entries hn hparts
      (show depthOfEntries entries < depth by simpa [Json.depth] using hd)
    have hread := readObject_objectText hentries (hobject entries rfl) rest
    rw [← literalChars_object] at hread
    exact hread

theorem itemReads_items (hf : Fits m f S) (items : List Json)
    (hn : ∀ n ∈ numbersOfItems items, NumberReads m f S n)
    (ho : ∀ u ∈ partsOfItems items, ObjectReads m f u) {depth : Nat}
    (hd : depthOfItems items < depth) :
    List.Forall₂ (ItemReads ']' (readNested m depth)) (items.map literalChars) (items.map f) := by
  match items with
  | [] => exact .nil
  | v :: items =>
    obtain ⟨hnv, hnitems⟩ := List.forall_mem_append.1 hn
    obtain ⟨hov, hoitems⟩ := List.forall_mem_append.1 ho
    obtain ⟨hdv, hditems⟩ := Nat.max_lt.1 hd
    refine .cons (fun c rest hc => ?_) (itemReads_items hf items hnitems hoitems hditems)
    have hfollow : c ∈ [',', ']', '\x7d'] := by rcases hc with rfl | rfl <;> decide
    exact readNested_literalChars hf v hnv hov hdv (hf.follow c hfollow rest)

theorem valueReads_entries (hf : Fits m f S) (entries : List (String × Json))
    (hn : ∀ n ∈ numbersOfEntries entries, NumberReads m f S n)
    (ho : ∀ u ∈ partsOfEntries entries, ObjectReads m f u) {depth : Nat}
    (hd : depthOfEntries entries < depth) :
    List.Forall₂ (ValueReads (readNested m depth)) (entries.map fun e => (e.1, e.2.literalChars))
      (entries.map fun e => (e.1, f e.2)) := by
  match entries with
  | [] => exact .nil
  | (key, v) :: entries =>
    obtain ⟨hnv, hnentries⟩ := List.forall_mem_append.1 hn
    obtain ⟨hov, hoentries⟩ := List.forall_mem_append.1 ho
    obtain ⟨hdv, hdentries⟩ := Nat.max_lt.1 hd
    refine .cons ⟨rfl, fun c rest hc => ?_⟩
      (valueReads_entries hf entries hnentries hoentries hdentries)
    have hfollow : c ∈ [',', ']', '\x7d'] := by rcases hc with rfl | rfl <;> decide
    exact readNested_literalChars hf v hnv hov hdv (hf.follow c hfollow rest)

end

end Reading

/-! ## The depth of a literal -/

mutual

theorem depth_lt_length : ∀ v : Json, v.depth < v.literalChars.length
  | .null => by decide
  | .bool true => by decide
  | .bool false => by decide
  | .number n => by
    obtain ⟨c, cs, heq, -⟩ := exists_head_numberLiteral n
    simp [literalChars, heq, depth]
  | .string s => by simp [literalChars, quotedChars, depth]
  | .array items => by
    have := depthOfItems_le_length items
    simp only [literalChars, depth, List.length_append, List.length_cons]
    omega
  | .object entries => by
    have := depthOfEntries_le_length entries
    simp only [literalChars, depth, List.length_append, List.length_cons]
    omega

theorem depthOfItems_le_length : ∀ items : List Json,
    depthOfItems items ≤ (literalItems items).length
  | [] => Nat.zero_le _
  | [v] => by
    have := depth_lt_length v
    simp only [depthOfItems, literalItems]
    omega
  | v :: w :: rest => by
    have hv := depth_lt_length v
    have hrest := depthOfItems_le_length (w :: rest)
    rw [depthOfItems, literalItems_cons, List.length_append, List.length_cons]
    omega

theorem depthOfEntries_le_length : ∀ entries : List (String × Json),
    depthOfEntries entries ≤ (literalEntries entries).length
  | [] => Nat.zero_le _
  | [(key, v)] => by
    have := depth_lt_length v
    simp only [depthOfEntries, literalEntries_singleton, List.length_append, List.length_cons]
    omega
  | (key, v) :: e :: rest => by
    have hv := depth_lt_length v
    have hrest := depthOfEntries_le_length (e :: rest)
    rw [depthOfEntries, literalEntries_cons]
    simp only [List.length_append, List.length_cons]
    omega

end

theorem depth_lt_of_append (v : Json) (rest : List Char) :
    v.depth < (v.literalChars ++ rest).length := by
  rw [List.length_append]
  exact Nat.lt_add_right _ v.depth_lt_length

/-! ## Reading values -/

/-- A literal stands for the value that is written so. -/
def asWritten : Meaning Json where
  null := .null
  bool := .bool
  string := .string
  number cs := (readNumberLiteral cs).map fun r => (.number r.1, r.2)
  array := .array
  object entries := some (.object entries)

/-- The value of the literal at the front, and what follows. -/
def readLiteral (cs : List Char) : Option (Json × List Char) := readNested asWritten cs.length cs

theorem stops_follow {c : Char} (h : c ∈ [',', ']', '\x7d']) (rest : List Char) :
    Document.Stops (c :: rest) := by
  simp only [List.mem_cons, List.not_mem_nil, or_false] at h
  rcases h with rfl | rfl | rfl
  · exact stops_comma rest
  · exact stops_close rest
  · exact stops_brace rest

theorem fits_asWritten : Fits asWritten (fun v => v) Document.Stops where
  follow _ hc := stops_follow hc
  null := rfl
  bool _ := rfl
  string _ := rfl
  array items := by rw [List.map_id']; rfl
  bracket _ := rfl

theorem readLiteral_literalChars {v : Json} (h : ∀ n ∈ v.numbers, n.ReadsBack) {rest : List Char}
    (hs : Document.Stops rest) : readLiteral (v.literalChars ++ rest) = some (v, rest) := by
  refine readNested_literalChars fits_asWritten v (fun n hn rest hs => ?_)
    (fun u _ entries _ => ?_) (v.depth_lt_of_append rest) hs
  · show (readNumberLiteral _).map _ = _
    rw [readNumberLiteral_append (h n hn) hs]
    rfl
  · show some (Json.object (entries.map fun e => (e.1, e.2))) = _
    rw [List.map_id']

/-- **The literal of a value determines the value**: reading it takes the whole text and gives the
value back, also in front of a text that does not go on with a number, and so no other value has the
same literal. -/
theorem literal_readsBack {v : Json} (h : ∀ n ∈ v.numbers, n.ReadsBack) :
    readLiteral v.literal.toList = some (v, []) ∧
    (∀ rest, Document.Stops rest → readLiteral (v.literal.toList ++ rest) = some (v, rest)) ∧
    ∀ w : Json, (∀ n ∈ w.numbers, n.ReadsBack) → w.literal = v.literal → w = v := by
  have hread {u : Json} (hu : ∀ n ∈ u.numbers, n.ReadsBack) :
      readLiteral u.literal.toList = some (u, []) := by
    rw [literal, String.toList_ofList, ← List.append_nil u.literalChars]
    exact readLiteral_literalChars hu Document.stops_nil
  refine ⟨hread h, fun rest hs => ?_, fun w hw heq => ?_⟩
  · rw [literal, String.toList_ofList]
    exact readLiteral_literalChars h hs
  · have hw := hread hw
    rw [heq, hread h] at hw
    exact (congrArg Prod.fst (Option.some.inj hw)).symm

/-- A value whose keys and strings have brackets and separators in them. -/
def bracketExample : Json :=
  .object [("a:", .array [.number (.real ⟨true, Finite64.leastSignificand, -53⟩), .string "],\x7d"]),
    ("b", .object [("c", .number (.integer (-1)))])]

/-- The literal of `bracketExample` is read back. -/
theorem literal_bracketExample : (∀ n ∈ bracketExample.numbers, n.ReadsBack) ∧
    bracketExample.literal = "\x7b\"a:\":[(-0.5),\"],\x7d\"],b:\x7bc:(-1)\x7d\x7d" ∧
    readLiteral bracketExample.literal.toList = some (bracketExample, []) := by
  have hreal : (Number.real ⟨true, Finite64.leastSignificand, -53⟩).ReadsBack :=
    ⟨⟨true, 5, -1, false⟩, by decide +kernel, by decide +kernel⟩
  have hnumbers : ∀ n ∈ bracketExample.numbers, n.ReadsBack := by
    simp only [bracketExample, numbers, numbersOfEntries, numbersOfItems, List.append_nil,
      List.singleton_append, List.forall_mem_cons]
    exact ⟨hreal, Number.readsBack_integer (by decide), List.forall_mem_nil _⟩
  exact ⟨hnumbers, by decide +kernel, (literal_readsBack hnumbers).1⟩

end Json

end ScriptGraph
