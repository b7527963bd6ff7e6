import ScriptGraph.Proofs.Json.Literals

/-!
# What object literals make of their definitions

A definition makes an own property of the object, except that one with the key `__proto__` sets the
prototype of the object.

* `Ecma.objectOf?` : the object that definitions make, by the rules for object literals;
* `Ecma.objectOf_of_nodup` : of different keys, all but `__proto__` become properties;
* `Ecma.evaluateLiteral` : the value of the literal at the front of a text;
* `Json.evaluateLiteral_literalChars` : the literal of a JSON value has the value `Json.literalValue`;
* `Json.ownKeys_literalValue` : its objects have the keys of the JSON value but for `__proto__`;
* `Json.literalValue_eq_value_iff` : so it is the JSON value exactly if that has no such key.
-/

namespace ScriptGraph

namespace Ecma

variable {α : Type}

/-! ## Definitions -/

/-- An object with the prototype that was set, if one was. -/
structure Object (α : Type) where
  prototype : Option α := none
  properties : List (String × α) := []

/-- The keys of the own properties, in the order in which they were made. -/
def Object.ownKeys (o : Object α) : List String := o.properties.map (·.1)

/-- Sets a property, which stays in its place if it is there. -/
def setProperty (key : String) (v : α) : List (String × α) → List (String × α)
  | [] => [(key, v)]
  | (k, u) :: rest => if k = key then (key, v) :: rest else (k, u) :: setProperty key v rest

/-- The key that sets the prototype. -/
def prototypeKey : String := "__proto__"

/-- What a definition does to the object. A value that can be no prototype is ignored where one is
to be set. -/
def define (inherits : α → Bool) (o : Object α) (d : String × α) : Object α :=
  if d.1 = prototypeKey then
    if inherits d.2 then { o with prototype := some d.2 } else o
  else { o with properties := setProperty d.1 d.2 o.properties }

/-- The object that definitions make. At most one of them may set the prototype. -/
def objectOf? (inherits : α → Bool) (ds : List (String × α)) : Option (Object α) :=
  if (ds.map (·.1)).count prototypeKey ≤ 1 then some (ds.foldl (define inherits) {}) else none

/-- The object that definitions of different keys make. -/
def objectOfDistinct (inherits : α → Bool) (ds : List (String × α)) : Object α where
  prototype := (ds.lookup prototypeKey).filter inherits
  properties := ds.filter (·.1 ≠ prototypeKey)

theorem setProperty_of_notMem {key : String} {v : α} {properties : List (String × α)}
    (h : key ∉ properties.map (·.1)) : setProperty key v properties = properties ++ [(key, v)] := by
  induction properties with
  | nil => rfl
  | cons p rest ih =>
    rw [List.map_cons, List.mem_cons, not_or] at h
    rw [setProperty, if_neg (Ne.symm h.1), ih h.2]
    rfl

theorem lookup_eq_none_of_notMem {key : String} {ds : List (String × α)}
    (h : key ∉ ds.map (·.1)) : ds.lookup key = none := by
  rw [List.lookup_eq_none_iff]
  intro d hd
  exact bne_iff_ne.2 fun heq => h (heq ▸ List.mem_map_of_mem hd)

theorem foldl_define {inherits : α → Bool} {ds : List (String × α)} {o : Object α}
    (hnodup : (ds.map (·.1)).Nodup) (hnew : ∀ key ∈ ds.map (·.1), key ∉ o.ownKeys) :
    ds.foldl (define inherits) o =
      ⟨((ds.lookup prototypeKey).filter inherits).or o.prototype,
        o.properties ++ ds.filter (·.1 ≠ prototypeKey)⟩ := by
  induction ds generalizing o with
  | nil => simp
  | cons d ds ih =>
    obtain ⟨key, v⟩ := d
    obtain ⟨hkey, hrest⟩ : key ∉ ds.map (·.1) ∧ (ds.map (·.1)).Nodup := List.nodup_cons.1 hnodup
    obtain ⟨hfirst, hothers⟩ : key ∉ o.ownKeys ∧ ∀ k ∈ ds.map (·.1), k ∉ o.ownKeys :=
      List.forall_mem_cons.1 hnew
    rw [List.foldl_cons]
    by_cases hproto : key = prototypeKey
    · subst hproto
      have hdefine : define inherits o (prototypeKey, v) =
          { o with prototype := ((some v).filter inherits).or o.prototype } := by
        cases hinherits : inherits v <;> simp [define, Option.filter, hinherits]
      rw [hdefine, ih hrest ?_, lookup_eq_none_of_notMem hkey, List.lookup_cons_self]
      · simp
      · exact hothers
    · have hdefine : define inherits o (key, v) =
          { o with properties := o.properties ++ [(key, v)] } := by
        rw [define, if_neg hproto, setProperty_of_notMem hfirst]
      have hnew' : ∀ k ∈ ds.map (·.1),
          k ∉ { o with properties := o.properties ++ [(key, v)] }.ownKeys := by
        intro k hk hmem
        rw [Object.ownKeys, List.map_append, List.mem_append] at hmem
        rcases hmem with hmem | hmem
        · exact hothers k hk hmem
        · obtain rfl : k = key := List.mem_singleton.1 hmem
          exact hkey hk
      have hbeq : (prototypeKey == key) = false := beq_false_of_ne (Ne.symm hproto)
      rw [hdefine, ih hrest hnew', List.lookup_cons, hbeq]
      simp [hproto]

/-- **Of definitions of different keys, all but the one for `__proto__` make own properties.** -/
theorem objectOf_of_nodup {inherits : α → Bool} {ds : List (String × α)}
    (h : (ds.map (·.1)).Nodup) : objectOf? inherits ds = some (objectOfDistinct inherits ds) := by
  rw [objectOf?, if_pos (List.nodup_iff_count_le_one.1 h _),
    foldl_define h fun _ _ => List.not_mem_nil]
  simp [objectOfDistinct]

theorem ownKeys_objectOfDistinct (inherits : α → Bool) (ds : List (String × α)) :
    (objectOfDistinct inherits ds).ownKeys = (ds.map (·.1)).filter (· ≠ prototypeKey) := by
  rw [Object.ownKeys, objectOfDistinct, List.filter_map]
  rfl

/-! ## Values -/

/-- The value of a literal. A number is known by its text. -/
inductive Value
  | null
  | bool (b : Bool)
  | number (numeral : String)
  | string (s : String)
  | array (items : List Value)
  | object (prototype : Option Value) (properties : List (String × Value))

/-- Whether a value can be the prototype of an object. -/
def Value.inherits : Value → Bool
  | .null => true
  | .array _ => true
  | .object _ _ => true
  | _ => false

def Value.ofObject (o : Object Value) : Value := .object o.prototype o.properties

/-- The text of a number, which may be in parentheses. -/
def readNumeral : List Char → Option (List Char × List Char)
  | '(' :: cs =>
    match cs.dropWhile (IsNumberChar ·) with
    | ')' :: rest => some (cs.takeWhile (IsNumberChar ·), rest)
    | _ => none
  | cs =>
    if cs.takeWhile (IsNumberChar ·) = [] then none
    else some (cs.takeWhile (IsNumberChar ·), cs.dropWhile (IsNumberChar ·))

/-- A literal stands for its value. -/
def evaluating : Meaning Value where
  null := .null
  bool := .bool
  string := .string
  number cs := (readNumeral cs).map fun r => (.number (String.ofList r.1), r.2)
  array := .array
  object ds := (objectOf? Value.inherits ds).map .ofObject

/-- The value of the literal at the front, and what follows it. -/
def evaluateLiteral (cs : List Char) : Option (Value × List Char) :=
  readNested evaluating cs.length cs

/-- A text that does not go on with a number. -/
def EndsNumber (cs : List Char) : Prop := ∀ c ∈ cs.head?, ¬IsNumberChar c

theorem EndsNumber.takeWhile {cs : List Char} (h : EndsNumber cs) :
    cs.takeWhile (IsNumberChar ·) = [] := by
  cases cs with
  | nil => rfl
  | cons c cs => exact List.takeWhile_cons_of_neg (by simpa using h c rfl)

theorem EndsNumber.dropWhile {cs : List Char} (h : EndsNumber cs) :
    cs.dropWhile (IsNumberChar ·) = cs := by
  cases cs with
  | nil => rfl
  | cons c cs => exact List.dropWhile_cons_of_neg (by simpa using h c rfl)

end Ecma

namespace Json

open Ecma

theorem readNumeral_numberLiteral (n : Number) {rest : List Char} (h : EndsNumber rest) :
    readNumeral (numberLiteral n ++ rest) = some (n.chars, rest) := by
  have hchars : ∀ c ∈ n.chars, decide (IsNumberChar c) = true := fun c hc =>
    decide_eq_true (n.isNumberChar_chars c hc)
  have htake {cs : List Char} (hcs : EndsNumber cs) :
      (n.chars ++ cs).takeWhile (IsNumberChar ·) = n.chars := by
    rw [List.takeWhile_append_of_pos hchars, hcs.takeWhile, List.append_nil]
  have hdrop {cs : List Char} (hcs : EndsNumber cs) :
      (n.chars ++ cs).dropWhile (IsNumberChar ·) = cs := by
    rw [List.dropWhile_append_of_pos hchars, hcs.dropWhile]
  have hclose : EndsNumber (')' :: rest) := fun c hc => Option.some.inj hc ▸ by decide
  rw [numberLiteral_eq]
  split
  · rw [parenthesized, List.append_assoc, List.cons_append, List.singleton_append, readNumeral,
      hdrop hclose, htake hclose]
    rfl
  · rw [readNumeral, htake h, hdrop h, if_neg n.chars_ne_nil]
    intro cs heq
    obtain ⟨c, cs', hcons⟩ := List.exists_cons_of_ne_nil n.chars_ne_nil
    have hc := n.isNumberChar_chars c (hcons ▸ List.mem_cons_self)
    rw [hcons, List.cons_append] at heq
    rw [(List.cons.inj heq).1] at hc
    exact absurd hc (by decide)

/-! ## The value of a literal -/

mutual

/-- The value in which every entry of an object is an own property. -/
def value : Json → Value
  | .null => .null
  | .bool b => .bool b
  | .number n => .number (String.ofList n.chars)
  | .string s => .string s
  | .array items => .array (valueItems items)
  | .object entries => .object none (valueEntries entries)

def valueItems : List Json → List Value
  | [] => []
  | v :: rest => v.value :: valueItems rest

def valueEntries : List (String × Json) → List (String × Value)
  | [] => []
  | (key, v) :: rest => (key, v.value) :: valueEntries rest

end

mutual

/-- The value of the literal: an entry with the key `__proto__` makes no property. -/
def literalValue : Json → Value
  | .null => .null
  | .bool b => .bool b
  | .number n => .number (String.ofList n.chars)
  | .string s => .string s
  | .array items => .array (literalValueItems items)
  | .object entries =>
    .ofObject (objectOfDistinct Value.inherits (literalValueEntries entries))

def literalValueItems : List Json → List Value
  | [] => []
  | v :: rest => v.literalValue :: literalValueItems rest

def literalValueEntries : List (String × Json) → List (String × Value)
  | [] => []
  | (key, v) :: rest => (key, v.literalValue) :: literalValueEntries rest

end

theorem literalValueItems_eq (items : List Json) :
    literalValueItems items = items.map literalValue := by
  induction items with
  | nil => rfl
  | cons v rest ih => exact congrArg (v.literalValue :: ·) ih

theorem literalValueEntries_eq (entries : List (String × Json)) :
    literalValueEntries entries = entries.map fun e => (e.1, e.2.literalValue) := by
  induction entries with
  | nil => rfl
  | cons e rest ih => exact congrArg ((e.1, e.2.literalValue) :: ·) ih

theorem map_fst_literalValueEntries (entries : List (String × Json)) :
    (literalValueEntries entries).map (·.1) = entries.map (·.1) := by
  rw [literalValueEntries_eq, List.map_map]
  rfl

theorem map_fst_valueEntries (entries : List (String × Json)) :
    (valueEntries entries).map (·.1) = entries.map (·.1) := by
  induction entries with
  | nil => rfl
  | cons e rest ih => exact congrArg (e.1 :: ·) ih

/-- No object in the value has a key twice. -/
def Distinct (v : Json) : Prop := ∀ entries, .object entries ∈ v.parts → (entries.map (·.1)).Nodup

theorem fits_evaluating : Fits evaluating literalValue EndsNumber where
  follow c hc rest := fun d hd => by
    have hall : ∀ c ∈ [',', ']', '\x7d'], ¬IsNumberChar c := by simp [IsNumberChar]
    exact Option.some.inj hd ▸ hall c hc
  null := rfl
  bool _ := rfl
  string _ := rfl
  array items := by
    rw [literalValue, literalValueItems_eq]
    rfl
  bracket _ := rfl

/-- **The literal of a value has the value `literalValue`.** -/
theorem evaluateLiteral_literalChars {v : Json} (h : v.Distinct) {rest : List Char}
    (hrest : EndsNumber rest) :
    evaluateLiteral (v.literalChars ++ rest) = some (v.literalValue, rest) := by
  refine readNested_literalChars fits_evaluating v (fun n _ rest hs => ?_)
    (fun u hu entries heq => ?_) (v.depth_lt_of_append rest) hrest
  · show (readNumeral _).map _ = _
    rw [readNumeral_numberLiteral n hs]
    rfl
  · have hnodup := h entries (heq ▸ hu)
    rw [← map_fst_literalValueEntries] at hnodup
    show (objectOf? _ _).map _ = _
    rw [← literalValueEntries_eq, objectOf_of_nodup hnodup]
    rfl

/-- The objects of a literal have the keys of their entries, but for `__proto__`. -/
theorem ownKeys_literalValue (entries : List (String × Json)) : ∃ o : Object Value,
    (Json.object entries).literalValue = .ofObject o ∧
      o.ownKeys = (entries.map (·.1)).filter (· ≠ prototypeKey) :=
  ⟨_, rfl, by rw [ownKeys_objectOfDistinct, map_fst_literalValueEntries]⟩

/-! ## The key of the prototype -/

/-- The objects of entries are the same, if their values are, exactly if no key is `__proto__`. -/
theorem literalValue_object_eq_iff {entries : List (String × Json)} :
    (Json.object entries).literalValue = (Json.object entries).value ↔
      prototypeKey ∉ entries.map (·.1) ∧ literalValueEntries entries = valueEntries entries := by
  have hkeys := map_fst_literalValueEntries entries
  rw [literalValue, value, Value.ofObject, Value.object.injEq, objectOfDistinct]
  constructor
  · rintro ⟨-, hproperties⟩
    have hproto : prototypeKey ∉ entries.map (·.1) := by
      rw [← map_fst_valueEntries, ← hproperties]
      simp
    rw [← hkeys] at hproto
    rw [List.filter_eq_self.2] at hproperties
    · exact ⟨hkeys ▸ hproto, hproperties⟩
    · exact fun d hd => decide_eq_true fun heq => hproto (heq ▸ List.mem_map_of_mem hd)
  · rintro ⟨hproto, heq⟩
    rw [← hkeys] at hproto
    rw [lookup_eq_none_of_notMem hproto, ← heq, List.filter_eq_self]
    exact ⟨rfl, fun d hd => decide_eq_true fun heq => hproto (heq ▸ List.mem_map_of_mem hd)⟩

/-- No object has an entry with the key `__proto__`. -/
def NoPrototype (u : Json) : Prop :=
  ∀ entries, u = .object entries → prototypeKey ∉ entries.map (·.1)

mutual

/-- **A literal has the value that is written exactly if no key in it is `__proto__`.** -/
theorem literalValue_eq_value_iff :
    (v : Json) → (v.literalValue = v.value ↔ ∀ u ∈ v.parts, u.NoPrototype)
  | .null => by simp [literalValue, value, parts, NoPrototype]
  | .bool _ => by simp [literalValue, value, parts, NoPrototype]
  | .number _ => by simp [literalValue, value, parts, NoPrototype]
  | .string _ => by simp [literalValue, value, parts, NoPrototype]
  | .array items => by
    rw [literalValue, value, Value.array.injEq, literalValueItems_eq_iff items, parts,
      List.forall_mem_cons]
    exact ⟨fun h => ⟨nofun, h⟩, fun h => h.2⟩
  | .object entries => by
    rw [literalValue_object_eq_iff, literalValueEntries_eq_iff entries, parts,
      List.forall_mem_cons]
    refine and_congr_left fun _ => ⟨fun h es heq => ?_, fun h => h entries rfl⟩
    cases heq
    exact h

theorem literalValueItems_eq_iff : (items : List Json) →
    (literalValueItems items = valueItems items ↔ ∀ u ∈ partsOfItems items, u.NoPrototype)
  | [] => by simp [literalValueItems, valueItems, partsOfItems]
  | v :: rest => by
    rw [literalValueItems, valueItems, List.cons.injEq, partsOfItems, List.forall_mem_append,
      literalValue_eq_value_iff v, literalValueItems_eq_iff rest]

theorem literalValueEntries_eq_iff : (entries : List (String × Json)) →
    (literalValueEntries entries = valueEntries entries ↔
      ∀ u ∈ partsOfEntries entries, u.NoPrototype)
  | [] => by simp [literalValueEntries, valueEntries, partsOfEntries]
  | (key, v) :: rest => by
    rw [literalValueEntries, valueEntries, List.cons.injEq, Prod.mk.injEq, partsOfEntries,
      List.forall_mem_append, literalValue_eq_value_iff v, literalValueEntries_eq_iff rest,
      eq_self, true_and]

end

end Json

end ScriptGraph
