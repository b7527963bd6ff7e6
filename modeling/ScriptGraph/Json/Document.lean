import ScriptGraph.Json.Basic
import ScriptGraph.Text.Basic

/-!
# Reading JSON text

* `Document` : what a JSON text says before its numbers and strings are judged: entries stay in
  order and may repeat a key, a string may hold an unpaired surrogate, a number may be too large;
* `Document.parse` : the document of a text, by the grammar of RFC 8259;
* `Document.toJson?` : the value of a document that nests at most so many arrays and objects and
  whose strings and numbers are sound.
-/

namespace ScriptGraph

/-- The number `± coefficient · 10 ^ exponent`; `whole` when written without point and exponent. -/
structure NumberText where
  negative : Bool
  coefficient : Nat
  exponent : Int
  whole : Bool
deriving DecidableEq

inductive Document
  | null
  | bool (b : Bool)
  | number (n : NumberText)
  | string (s : Option String)
  | array (items : List Document)
  | object (entries : List (Option String × Document))

namespace Document

/-! ## Numbers -/

def digitsValue (digits : List Char) : Nat :=
  digits.foldl (fun n c => 10 * n + (c.toNat - '0'.toNat)) 0

/-- The digits at the front, at least one. -/
def readDigits (cs : List Char) : Option (List Char × List Char) :=
  match cs.takeWhile Char.isDigit with
  | [] => none
  | digits => some (digits, cs.dropWhile Char.isDigit)

/-- The digits before the point: no leading zero except in `0`. -/
def readWhole : List Char → Option (List Char × List Char)
  | '0' :: rest => some (['0'], rest)
  | cs => readDigits cs

/-- The digits after a point, if there is one. -/
def readFraction : List Char → Option (List Char × List Char)
  | '.' :: rest => readDigits rest
  | cs => some ([], cs)

/-- The exponent, if there is one. -/
def readExponent : List Char → Option (Option Int × List Char)
  | c :: rest =>
    if c = 'e' ∨ c = 'E' then
      match rest with
      | '-' :: rest => (readDigits rest).map fun (ds, cs) => (some (-(digitsValue ds : Int)), cs)
      | '+' :: rest => (readDigits rest).map fun (ds, cs) => (some (digitsValue ds : Int), cs)
      | _ => (readDigits rest).map fun (ds, cs) => (some (digitsValue ds : Int), cs)
    else some (none, c :: rest)
  | [] => some (none, [])

def readUnsigned (negative : Bool) (cs : List Char) : Option (NumberText × List Char) := do
  let (whole, cs) ← readWhole cs
  let point := cs.head? = some '.'
  let (fraction, cs) ← readFraction cs
  let (exponent, cs) ← readExponent cs
  some (⟨negative, digitsValue (whole ++ fraction), exponent.getD 0 - fraction.length,
    !point && exponent.isNone⟩, cs)

def readNumber : List Char → Option (NumberText × List Char)
  | '-' :: rest => readUnsigned true rest
  | cs => readUnsigned false cs

/-! ## Strings -/

def hexUnit (a b c d : Char) : Option Nat :=
  if [a, b, c, d].all isHexDigit then some (hexNumber [a, b, c, d]) else none

/-- The character that a backslash and `c` stand for. -/
def simpleEscape (c : Char) : Option Char :=
  if c = '"' ∨ c = '\\' ∨ c = '/' then some c
  else if c = 'b' then some (Char.ofNat 8)
  else if c = 'f' then some (Char.ofNat 12)
  else if c = 'n' then some '\n'
  else if c = 'r' then some '\r'
  else if c = 't' then some '\t'
  else none

/-- An item of a string: a character, or a UTF-16 unit given by its number. -/
inductive StringItem
  | char (c : Char)
  | unit (n : Nat)

/-- The items up to the closing quotation mark, and what follows it. -/
def readString : List Char → Option (List StringItem × List Char)
  | [] => none
  | '"' :: rest => some ([], rest)
  | '\\' :: 'u' :: a :: b :: c :: d :: rest => do
    let n ← hexUnit a b c d
    let (items, rest) ← readString rest
    some (.unit n :: items, rest)
  | '\\' :: c :: rest => do
    let c ← simpleEscape c
    let (items, rest) ← readString rest
    some (.char c :: items, rest)
  | c :: rest =>
    if c.toNat < 0x20 then none
    else do
      let (items, rest) ← readString rest
      some (.char c :: items, rest)

/-- The text of the items, unless a surrogate stands alone. -/
def joinItems : List StringItem → Option (List Char)
  | [] => some []
  | .char c :: rest => (joinItems rest).map (c :: ·)
  | .unit n :: .unit m :: rest =>
    if 0xD800 ≤ n ∧ n < 0xDC00 ∧ 0xDC00 ≤ m ∧ m < 0xE000 then
      (joinItems rest).map (Char.ofNat (0x10000 + (n - 0xD800) * 1024 + (m - 0xDC00)) :: ·)
    else if 0xD800 ≤ n ∧ n < 0xE000 then none
    else (joinItems (.unit m :: rest)).map (Char.ofNat n :: ·)
  | .unit n :: rest =>
    if 0xD800 ≤ n ∧ n < 0xE000 then none else (joinItems rest).map (Char.ofNat n :: ·)

def stringOf (items : List StringItem) : Option String := (joinItems items).map String.ofList

/-! ## Values -/

def isSpace (c : Char) : Bool := c = ' ' || c = '\t' || c = '\n' || c = '\r'

def skipSpace (cs : List Char) : List Char := cs.dropWhile isSpace

theorem length_skipSpace_le (cs : List Char) : (skipSpace cs).length ≤ cs.length :=
  (List.dropWhile_sublist _).length_le

/-- A key and the colon after it. -/
def readKey : List Char → Option (Option String × List Char)
  | '"' :: rest =>
    match readString rest with
    | none => none
    | some (items, rest) =>
      match skipSpace rest with
      | ':' :: rest => some (stringOf items, rest)
      | _ => none
  | _ => none

mutual

/-- One value at the front. -/
def readValue (cs : List Char) : Option (Document × List Char) :=
  match cs with
  | 'n' :: 'u' :: 'l' :: 'l' :: rest => some (.null, rest)
  | 't' :: 'r' :: 'u' :: 'e' :: rest => some (.bool true, rest)
  | 'f' :: 'a' :: 'l' :: 's' :: 'e' :: rest => some (.bool false, rest)
  | '"' :: rest => (readString rest).map fun (items, rest) => (.string (stringOf items), rest)
  | '[' :: rest =>
    if (skipSpace rest).head? = some ']' then some (.array [], (skipSpace rest).tail)
    else (readItems (skipSpace rest)).map fun (items, rest) => (.array items, rest)
  | '\x7b' :: rest =>
    if (skipSpace rest).head? = some '\x7d' then some (.object [], (skipSpace rest).tail)
    else (readEntries (skipSpace rest)).map fun (entries, rest) => (.object entries, rest)
  | cs => (readNumber cs).map fun (n, rest) => (.number n, rest)
termination_by (cs.length, 0)
decreasing_by
  all_goals
    have := length_skipSpace_le rest
    exact Prod.Lex.left _ _ (by simp only [List.length_cons]; omega)

/-- The items up to the closing bracket. -/
def readItems (cs : List Char) : Option (List Document × List Char) :=
  match readValue cs with
  | none => none
  | some (item, rest) =>
    match skipSpace rest with
    | ']' :: rest => some ([item], rest)
    | ',' :: rest =>
      if (skipSpace rest).length < cs.length then
        (readItems (skipSpace rest)).map fun (items, rest) => (item :: items, rest)
      else none
    | _ => none
termination_by (cs.length, 1)

/-- The entries up to the closing brace. -/
def readEntries (cs : List Char) : Option (List (Option String × Document) × List Char) :=
  match readKey cs with
  | none => none
  | some (key, rest) =>
    if (skipSpace rest).length < cs.length then
      match readValue (skipSpace rest) with
      | none => none
      | some (value, rest) =>
        match skipSpace rest with
        | '\x7d' :: rest => some ([(key, value)], rest)
        | ',' :: rest =>
          if (skipSpace rest).length < cs.length then
            (readEntries (skipSpace rest)).map fun (entries, rest) => ((key, value) :: entries, rest)
          else none
        | _ => none
    else none
termination_by (cs.length, 1)

end

/-- The document of a text, which may stand between blanks. -/
def parse (text : String) : Option Document :=
  match readValue (skipSpace text.toList) with
  | some (d, rest) => if (skipSpace rest).isEmpty then some d else none
  | none => none

/-! ## Values -/

/-- The least signed integer of 64 bits. -/
def leastInteger : Int := -9223372036854775808

/-- The greatest unsigned integer of 64 bits. -/
def greatestInteger : Int := 18446744073709551615

/-- An integer of 64 bits stays one; any other number is the nearest binary64 number. Zero with a
sign is not an integer. -/
def numberOf (n : NumberText) : Option Json.Number :=
  let i : Int := if n.negative then -(n.coefficient : Int) else n.coefficient
  if n.whole ∧ leastInteger ≤ i ∧ i ≤ greatestInteger ∧ ¬(n.negative ∧ n.coefficient = 0) then
    some (.integer i)
  else (Finite64.ofDecimal n.negative n.coefficient n.exponent).map .real

mutual

/-- The value of a document with at most `depth` nested arrays and objects. -/
def toJson? (depth : Nat) : Document → Option Json
  | .null => some .null
  | .bool b => some (.bool b)
  | .number n => (numberOf n).map .number
  | .string s => s.map .string
  | .array items => if depth = 0 then none else (itemsToJson? (depth - 1) items).map .array
  | .object entries =>
    if depth = 0 then none
    else (entriesToJson? (depth - 1) entries).map fun es => .object (Json.sortedEntries es)

def itemsToJson? (depth : Nat) : List Document → Option (List Json)
  | [] => some []
  | d :: ds => do
    let v ← d.toJson? depth
    let vs ← itemsToJson? depth ds
    some (v :: vs)

def entriesToJson? (depth : Nat) : List (Option String × Document) → Option (List (String × Json))
  | [] => some []
  | (key, d) :: ds => do
    let key ← key
    let v ← d.toJson? depth
    let vs ← entriesToJson? depth ds
    some ((key, v) :: vs)

end

/-- Texts that nest deeper than this are refused. -/
def depthLimit : Nat := 127

end Document

/-- The value of a JSON text. -/
def Json.parse (text : String) : Option Json :=
  (Document.parse text).bind (·.toJson? Document.depthLimit)

end ScriptGraph
