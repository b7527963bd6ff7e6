import ScriptGraph.Proofs.Json.Reading

/-!
# JSON values are read back

* `Json.document` : what the compact text of a value says;
* `Json.readValue_compact` : the compact text is read as that;
* `Json.sorted` : a value with the entries of its objects in order;
* `Json.toJson?_document` : a value that does not nest too deep is read back, in order.
-/

namespace ScriptGraph

open Document

namespace Json

/-- A number whose text is read as the number. -/
def Number.ReadsBack (n : Number) : Prop :=
  ∃ t, readNumber n.chars = some (t, []) ∧ numberOf t = some n

theorem Number.readsBack_integer {i : Int} (h : leastInteger ≤ i ∧ i ≤ greatestInteger) :
    (Number.integer i).ReadsBack :=
  ⟨_, readNumber_intText i, numberOf_integer h⟩

mutual

/-- The numbers in a value. -/
def numbers : Json → List Number
  | .number n => [n]
  | .array items => numbersOfItems items
  | .object entries => numbersOfEntries entries
  | _ => []

def numbersOfItems : List Json → List Number
  | [] => []
  | v :: rest => v.numbers ++ numbersOfItems rest

def numbersOfEntries : List (String × Json) → List Number
  | [] => []
  | (_, v) :: rest => v.numbers ++ numbersOfEntries rest

end

/-! ## Documents -/

/-- What the text of a number says. -/
def Number.document (n : Number) : Document :=
  ((readNumber n.chars).map fun r => .number r.1).getD .null

theorem Number.document_eq {n : Number} {t : NumberText}
    (h : readNumber n.chars = some (t, [])) : n.document = .number t := by
  simp [document, h]

mutual

/-- What the compact text of a value says. -/
def document : Json → Document
  | .null => .null
  | .bool b => .bool b
  | .number n => n.document
  | .string s => .string (some s)
  | .array items => .array (documents items)
  | .object entries => .object (entryDocuments entries)

def documents : List Json → List Document
  | [] => []
  | v :: rest => v.document :: documents rest

def entryDocuments : List (String × Json) → List (Option String × Document)
  | [] => []
  | (key, v) :: rest => (some key, v.document) :: entryDocuments rest

end

/-! ## Reading the text -/

theorem skipSpace_cons {c : Char} {cs : List Char} (h : isSpace c = false) :
    skipSpace (c :: cs) = c :: cs := by
  simp [skipSpace, h]

theorem readString_compactString (s : String) (rest : List Char) :
    ∃ items, readString ((compactString s).tail ++ rest) = some (items, rest) ∧
      stringOf items = some s := by
  obtain ⟨items, hread, hjoin⟩ := readString_compact s.toList rest
  refine ⟨items, by simpa [compactString] using hread, ?_⟩
  simp [stringOf, hjoin]

theorem compactString_eq (s : String) : compactString s = '"' :: (compactString s).tail := rfl

theorem readKey_compactString (key : String) (rest : List Char) :
    readKey (compactString key ++ ':' :: rest) = some (some key, rest) := by
  obtain ⟨items, hread, hstring⟩ := readString_compactString key (':' :: rest)
  rw [compactString_eq, List.cons_append]
  simp [readKey, hread, skipSpace_cons (show isSpace ':' = false by decide), hstring]

theorem readValue_of_readNumber {cs rest : List Char} {n : NumberText}
    (h : readNumber cs = some (n, rest)) : readValue cs = some (.number n, rest) := by
  obtain ⟨c, cs, rfl, hc⟩ := exists_head_of_readNumber h
  rw [readValue.eq_def]
  split
  case h_7 => rw [h]; rfl
  all_goals
    next heq =>
      obtain rfl := (List.cons.inj heq).1
      exact absurd hc (by decide)

/-- A value begins with a character that is no blank and closes nothing. -/
theorem exists_head_compactChars (v : Json) (h : ∀ n ∈ v.numbers, n.ReadsBack) :
    ∃ c cs, v.compactChars = c :: cs ∧ isSpace c = false ∧ c ≠ ']' := by
  cases v with
  | null => exact ⟨_, _, rfl, by decide, by decide⟩
  | bool b => cases b <;> exact ⟨_, _, rfl, by decide, by decide⟩
  | number n =>
    obtain ⟨t, hread, -⟩ := h n (by simp [numbers])
    obtain ⟨c, cs, heq, hc⟩ := exists_head_of_readNumber hread
    refine ⟨c, cs, heq, ?_, ?_⟩
    · by_contra hspace
      rcases hc with hc | rfl
      · simp only [isSpace, Bool.or_eq_true, decide_eq_true_eq, Bool.not_eq_false] at hspace
        rcases hspace with ((rfl | rfl) | rfl) | rfl <;> exact absurd hc (by decide)
      · exact hspace rfl
    · rintro rfl
      exact absurd hc (by decide)
  | string s => exact ⟨_, _, rfl, by decide, by decide⟩
  | array items => exact ⟨_, _, rfl, by decide, by decide⟩
  | object entries => exact ⟨_, _, rfl, by decide, by decide⟩

theorem stops_close (cs : List Char) : Stops (']' :: cs) := .cons (by decide)

theorem stops_comma (cs : List Char) : Stops (',' :: cs) := .cons (by decide)

theorem stops_brace (cs : List Char) : Stops ('\x7d' :: cs) := .cons (by decide)

theorem exists_head_compactItems (v : Json) (vs : List Json) (h : ∀ n ∈ v.numbers, n.ReadsBack)
    (rest : List Char) :
    ∃ c cs, compactItems (v :: vs) ++ rest = c :: cs ∧ isSpace c = false ∧ c ≠ ']' := by
  obtain ⟨c, cs, heq, hc⟩ := v.exists_head_compactChars h
  cases vs with
  | nil => exact ⟨c, cs ++ rest, by simp [compactItems, heq], hc⟩
  | cons w vs =>
    exact ⟨c, cs ++ ',' :: (compactItems (w :: vs) ++ rest), by simp [compactItems, heq], hc⟩

theorem exists_head_compactEntries (e : String × Json) (es : List (String × Json))
    (rest : List Char) : ∃ cs, compactEntries (e :: es) ++ rest = '"' :: cs := by
  obtain ⟨key, v⟩ := e
  cases es <;> exact ⟨_, rfl⟩

mutual

/-- **The compact text of a value is read as its document.** -/
theorem readValue_compact (v : Json) (h : ∀ n ∈ v.numbers, n.ReadsBack) (rest : List Char)
    (hs : Stops rest) : readValue (v.compactChars ++ rest) = some (v.document, rest) := by
  match v with
  | .null => simp [compactChars, readValue, document]
  | .bool true => simp [compactChars, readValue, document]
  | .bool false => simp [compactChars, readValue, document]
  | .number n =>
    obtain ⟨t, hread, -⟩ := h n (by simp [numbers])
    simpa [compactChars, document, Number.document_eq hread] using
      readValue_of_readNumber (readNumber_append hread hs)
  | .string s =>
    obtain ⟨items, hread, hstring⟩ := readString_compactString s rest
    rw [compactChars, compactString_eq, List.cons_append, readValue, hread]
    simp [document, hstring]
  | .array [] =>
    simp [compactChars, compactItems, readValue, document, documents, skipSpace_cons, isSpace]
  | .array (v :: vs) =>
    have hread := readItems_compact (v :: vs) (by simp) h rest
    obtain ⟨c, cs, heq, hspace, hc⟩ :=
      exists_head_compactItems v vs (fun n hn => h n (List.mem_append_left _ hn)) (']' :: rest)
    rw [compactChars, List.append_assoc, List.cons_append, List.singleton_append, readValue]
    rw [heq] at hread ⊢
    simp [skipSpace_cons hspace, hc, hread, document]
  | .object [] =>
    simp [compactChars, compactEntries, readValue, document, entryDocuments, skipSpace_cons, isSpace]
  | .object (e :: es) =>
    have hread := readEntries_compact (e :: es) (by simp) h rest
    obtain ⟨cs, heq⟩ := exists_head_compactEntries e es ('\x7d' :: rest)
    rw [compactChars, List.append_assoc, List.cons_append, List.singleton_append, readValue]
    rw [heq] at hread ⊢
    simp [skipSpace_cons, isSpace, hread, document]

theorem readItems_compact (items : List Json) (hne : items ≠ [])
    (h : ∀ n ∈ numbersOfItems items, n.ReadsBack) (rest : List Char) :
    readItems (compactItems items ++ ']' :: rest) = some (documents items, rest) := by
  match items with
  | [v] =>
    have hv : ∀ n ∈ v.numbers, n.ReadsBack := fun n hn => h n (List.mem_append_left _ hn)
    have hread := readValue_compact v hv (']' :: rest) (stops_close rest)
    rw [compactItems, readItems, hread]
    simp [skipSpace_cons, isSpace, documents]
  | v :: w :: vs =>
    have hv : ∀ n ∈ v.numbers, n.ReadsBack := fun n hn => h n (List.mem_append_left _ hn)
    have hws : ∀ n ∈ numbersOfItems (w :: vs), n.ReadsBack := fun n hn =>
      h n (List.mem_append_right _ hn)
    have hread := readValue_compact v hv (',' :: (compactItems (w :: vs) ++ ']' :: rest))
      (stops_comma _)
    have hrest := readItems_compact (w :: vs) (by simp) hws rest
    obtain ⟨c, cs, heq, hspace, -⟩ :=
      exists_head_compactItems w vs (fun n hn => hws n (List.mem_append_left _ hn)) (']' :: rest)
    rw [compactItems.eq_3 _ _ (by simp), List.append_assoc, List.cons_append, readItems, hread]
    rw [heq] at hrest ⊢
    simp only [skipSpace_cons (show isSpace ',' = false by decide), skipSpace_cons hspace, hrest]
    rw [if_pos (by simp; omega)]
    rfl

theorem readEntries_compact (entries : List (String × Json)) (hne : entries ≠ [])
    (h : ∀ n ∈ numbersOfEntries entries, n.ReadsBack) (rest : List Char) :
    readEntries (compactEntries entries ++ '\x7d' :: rest) =
      some (entryDocuments entries, rest) := by
  match entries with
  | [(key, v)] =>
    have hv : ∀ n ∈ v.numbers, n.ReadsBack := fun n hn => h n (List.mem_append_left _ hn)
    obtain ⟨c, cs, heq, hspace, -⟩ := v.exists_head_compactChars hv
    have hread := readValue_compact v hv ('\x7d' :: rest) (stops_brace rest)
    rw [compactEntries, List.append_assoc, List.cons_append, readEntries, readKey_compactString]
    rw [heq, List.cons_append] at hread ⊢
    simp only [skipSpace_cons hspace, hread]
    rw [if_pos (by simp; omega)]
    simp [skipSpace_cons, isSpace, entryDocuments]
  | (key, v) :: f :: es =>
    have hv : ∀ n ∈ v.numbers, n.ReadsBack := fun n hn => h n (List.mem_append_left _ hn)
    obtain ⟨c, cs, heq, hspace, -⟩ := v.exists_head_compactChars hv
    have hes : ∀ n ∈ numbersOfEntries (f :: es), n.ReadsBack := fun n hn =>
      h n (List.mem_append_right _ hn)
    have hread := readValue_compact v hv (',' :: (compactEntries (f :: es) ++ '\x7d' :: rest))
      (stops_comma _)
    have hrest := readEntries_compact (f :: es) (by simp) hes rest
    obtain ⟨cs', heq'⟩ := exists_head_compactEntries f es ('\x7d' :: rest)
    rw [compactEntries.eq_3 _ _ _ (by simp)]
    simp only [List.append_assoc, List.cons_append]
    rw [readEntries, readKey_compactString]
    rw [heq, List.cons_append] at hread ⊢
    rw [heq'] at hread hrest ⊢
    simp only [skipSpace_cons hspace, hread, skipSpace_cons (show isSpace ',' = false by decide),
      skipSpace_cons (show isSpace '"' = false by decide), hrest]
    rw [if_pos (by simp; omega), if_pos (by simp; omega)]
    rfl

end

theorem parse_document {v : Json} (h : ∀ n ∈ v.numbers, n.ReadsBack) :
    Document.parse v.compact = some v.document := by
  have hread := v.readValue_compact h [] stops_nil
  obtain ⟨c, cs, heq, hspace, -⟩ := v.exists_head_compactChars h
  rw [List.append_nil, heq] at hread
  have hnil : skipSpace [] = [] := rfl
  simp [Document.parse, compact, heq, skipSpace_cons hspace, hread, hnil]

/-! ## Values of documents -/

mutual

/-- How deep arrays and objects nest. -/
def depth : Json → Nat
  | .array items => depthOfItems items + 1
  | .object entries => depthOfEntries entries + 1
  | _ => 0

def depthOfItems : List Json → Nat
  | [] => 0
  | v :: rest => max v.depth (depthOfItems rest)

def depthOfEntries : List (String × Json) → Nat
  | [] => 0
  | (_, v) :: rest => max v.depth (depthOfEntries rest)

end

mutual

/-- The value with the entries of its objects in order. -/
def sorted : Json → Json
  | .array items => .array (sortedItems items)
  | .object entries => .object (sortedEntries (sortedValues entries))
  | v => v

def sortedItems : List Json → List Json
  | [] => []
  | v :: rest => v.sorted :: sortedItems rest

def sortedValues : List (String × Json) → List (String × Json)
  | [] => []
  | (key, v) :: rest => (key, v.sorted) :: sortedValues rest

end

mutual

/-- The document of a value has the value, in order. -/
theorem toJson?_document (v : Json) (h : ∀ n ∈ v.numbers, n.ReadsBack) {d : Nat}
    (hd : v.depth ≤ d) : v.document.toJson? d = some v.sorted := by
  match v with
  | .null => rfl
  | .bool b => rfl
  | .number n =>
    obtain ⟨t, hread, hvalue⟩ := h n (by simp [numbers])
    simp [document, Number.document_eq hread, toJson?, hvalue, sorted]
  | .string s => rfl
  | .array items =>
    simp only [depth] at hd
    have hitems := itemsToJson?_documents items h (d := d - 1) (by omega)
    simp [document, toJson?, hitems, sorted]
    omega
  | .object entries =>
    simp only [depth] at hd
    have hentries := entriesToJson?_documents entries h (d := d - 1) (by omega)
    simp [document, toJson?, hentries, sorted]
    omega

theorem itemsToJson?_documents (items : List Json) (h : ∀ n ∈ numbersOfItems items, n.ReadsBack)
    {d : Nat} (hd : depthOfItems items ≤ d) :
    itemsToJson? d (documents items) = some (sortedItems items) := by
  match items with
  | [] => rfl
  | v :: rest =>
    simp only [depthOfItems] at hd
    have hv := toJson?_document v (fun n hn => h n (List.mem_append_left _ hn)) (d := d) (by omega)
    have hrest := itemsToJson?_documents rest (fun n hn => h n (List.mem_append_right _ hn))
      (d := d) (by omega)
    simp [documents, itemsToJson?, hv, hrest, sortedItems]

theorem entriesToJson?_documents (entries : List (String × Json))
    (h : ∀ n ∈ numbersOfEntries entries, n.ReadsBack) {d : Nat}
    (hd : depthOfEntries entries ≤ d) :
    entriesToJson? d (entryDocuments entries) = some (sortedValues entries) := by
  match entries with
  | [] => rfl
  | (key, v) :: rest =>
    simp only [depthOfEntries] at hd
    have hv := toJson?_document v (fun n hn => h n (List.mem_append_left _ hn)) (d := d) (by omega)
    have hrest := entriesToJson?_documents rest (fun n hn => h n (List.mem_append_right _ hn))
      (d := d) (by omega)
    simp [entryDocuments, entriesToJson?, hv, hrest, sortedValues]

end

/-! ## Values in order -/

mutual

/-- All objects have their entries in order, with no key twice. -/
def Sorted : Json → Prop
  | .array items => SortedItems items
  | .object entries => entries.Pairwise (fun e f => e.1 < f.1) ∧ SortedValues entries
  | _ => True

def SortedItems : List Json → Prop
  | [] => True
  | v :: rest => v.Sorted ∧ SortedItems rest

def SortedValues : List (String × Json) → Prop
  | [] => True
  | (_, v) :: rest => v.Sorted ∧ SortedValues rest

end

/-- An entry whose key is greater than all others goes to the end. -/
theorem sortedInsert_append {key : String} {value : Json} {entries : List (String × Json)}
    (h : ∀ e ∈ entries, e.1 < key) :
    sortedInsert key value entries = entries ++ [(key, value)] := by
  induction entries with
  | nil => rfl
  | cons e rest ih =>
    obtain ⟨k, v⟩ := e
    have hlt : k < key := h (k, v) List.mem_cons_self
    have hne : key ≠ k := fun heq => String.lt_irrefl key (heq ▸ hlt)
    rw [sortedInsert, if_neg hne, if_neg (String.lt_asymm hlt),
      ih fun e he => h e (List.mem_cons_of_mem _ he), List.cons_append]

theorem sortedEntries_eq_self {entries : List (String × Json)}
    (h : entries.Pairwise fun e f => e.1 < f.1) : sortedEntries entries = entries := by
  have hfold : ∀ (done rest : List (String × Json)),
      (done ++ rest).Pairwise (fun e f => e.1 < f.1) →
      rest.foldl (fun sorted e => sortedInsert e.1 e.2 sorted) done = done ++ rest := by
    intro done rest h
    induction rest generalizing done with
    | nil => simp
    | cons e rest ih =>
      have hlt : ∀ f ∈ done, f.1 < e.1 := fun f hf =>
        (List.pairwise_append.1 h).2.2 f hf e List.mem_cons_self
      simp only [List.foldl_cons, sortedInsert_append hlt]
      rw [ih _ (by simpa using h)]
      simp
  simpa [sortedEntries] using hfold [] entries h

mutual

theorem sorted_eq_self (v : Json) (h : v.Sorted) : v.sorted = v := by
  match v with
  | .null => rfl
  | .bool b => rfl
  | .number n => rfl
  | .string s => rfl
  | .array items => rw [sorted, sortedItems_eq_self items h]
  | .object entries => rw [sorted, sortedValues_eq_self entries h.2, sortedEntries_eq_self h.1]

theorem sortedItems_eq_self (items : List Json) (h : SortedItems items) :
    sortedItems items = items := by
  match items with
  | [] => rfl
  | v :: rest => rw [sortedItems, sorted_eq_self v h.1, sortedItems_eq_self rest h.2]

theorem sortedValues_eq_self (entries : List (String × Json)) (h : SortedValues entries) :
    sortedValues entries = entries := by
  match entries with
  | [] => rfl
  | (key, v) :: rest => rw [sortedValues, sorted_eq_self v h.1, sortedValues_eq_self rest h.2]

end

end Json

end ScriptGraph
