/-!
# Characters, identifiers and string literals

* `isBlank` : the characters of Unicode's `White_Space` property;
* `trimStart`, `trimEnd` : a text without the blanks at one end;
* `upperHexDigit`, `lowerHexDigit`, `hexValue?`, `hexNumber` : hexadecimal digits and numbers;
* `isIdentifier` : a letter, `_` or `$`, then letters, digits, `_` and `$`, all ASCII;
* `base36` : a number in lowercase base 36, without leading zeros;
* `isGenerated` : a stem followed by at least one lowercase base-36 digit;
* `quoted` : the literal of a text, which holds no `<`, no control character and no line separator,
  so it can stand inside a `script` element of a page;
* `propertyKey` : a key of an object literal, bare when it is an identifier.
-/

namespace ScriptGraph

/-! ## Blank characters -/

/-- The code points of Unicode's `White_Space` property. -/
def isBlank (c : Char) : Bool :=
  let n := c.toNat
  (9 ≤ n && n ≤ 13) || n == 0x20 || n == 0x85 || n == 0xA0 || n == 0x1680 ||
    (0x2000 ≤ n && n ≤ 0x200A) || n == 0x2028 || n == 0x2029 || n == 0x202F || n == 0x205F ||
    n == 0x3000

def trimStart (cs : List Char) : List Char := cs.dropWhile isBlank

def trimEnd (cs : List Char) : List Char := (cs.reverse.dropWhile isBlank).reverse

/-! ## Hexadecimal digits -/

/-- The digit of `d`, where the letters begin with `letter`. -/
def hexDigitFrom (letter : Char) (d : Nat) : Char :=
  if d < 10 then Char.ofNat ('0'.toNat + d) else Char.ofNat (letter.toNat + (d - 10))

def upperHexDigit (d : Nat) : Char := hexDigitFrom 'A' d

def lowerHexDigit (d : Nat) : Char := hexDigitFrom 'a' d

def hexValue? (c : Char) : Option Nat :=
  if c.isDigit then some (c.toNat - '0'.toNat)
  else if 'a' ≤ c ∧ c ≤ 'f' then some (c.toNat - 'a'.toNat + 10)
  else if 'A' ≤ c ∧ c ≤ 'F' then some (c.toNat - 'A'.toNat + 10)
  else none

def isHexDigit (c : Char) : Bool := (hexValue? c).isSome

/-- The number that digits form, most significant first. -/
def hexNumber (digits : List Char) : Nat :=
  digits.foldl (fun n c => 16 * n + (hexValue? c).getD 0) 0

/-! ## Identifiers and generated names -/

/-- Letters, `_` and `$`. -/
def isIdentifierStart (c : Char) : Bool := c.isAlpha || c == '_' || c == '$'

def isIdentifierPart (c : Char) : Bool := isIdentifierStart c || c.isDigit

/-- Whether a text can be written bare as a name, a property or a key. -/
def isIdentifier (s : String) : Bool :=
  match s.toList with
  | [] => false
  | c :: cs => isIdentifierStart c && cs.all isIdentifierPart

theorem isIdentifier_iff {s : String} : isIdentifier s = true ↔ ∃ c cs, s.toList = c :: cs ∧
    isIdentifierStart c = true ∧ ∀ d ∈ cs, isIdentifierPart d = true := by
  unfold isIdentifier
  cases s.toList with
  | nil => simp
  | cons c cs =>
    dsimp only
    rw [Bool.and_eq_true, List.all_eq_true]
    constructor
    · exact fun h => ⟨c, cs, rfl, h⟩
    · rintro ⟨_, _, ⟨⟩, h⟩
      exact h

theorem isIdentifierPart_of_mem {s : String} (h : isIdentifier s = true) :
    ∀ c ∈ s.toList, isIdentifierPart c = true := by
  obtain ⟨c, cs, hcs, hc, hall⟩ := isIdentifier_iff.1 h
  rw [hcs]
  exact List.forall_mem_cons.2 ⟨by rw [isIdentifierPart, hc, Bool.true_or], hall⟩

/-- The lowercase digit of a value below 36. -/
def base36Digit (d : Nat) : Char :=
  if d < 10 then Char.ofNat ('0'.toNat + d) else Char.ofNat ('a'.toNat + (d - 10))

def base36Chars (n : Nat) : List Char :=
  if n < 36 then [base36Digit n] else base36Chars (n / 36) ++ [base36Digit (n % 36)]
termination_by n

def base36 (n : Nat) : String := String.ofList (base36Chars n)

/-- Lowercase letters and digits. -/
def isBase36Digit (c : Char) : Bool := c.isLower || c.isDigit

/-- Whether `name` has the form of a name generated from `stem`. -/
def isGenerated (stem name : String) : Bool :=
  let rest := name.toList.drop stem.length
  stem.toList.isPrefixOf name.toList && !rest.isEmpty && rest.all isBase36Digit

/-! ## Double-quoted string literals -/

/-- How `c` is written inside a literal when `next` follows it: a zero character is written in its
long form before a digit, which would otherwise continue the escape. -/
def escapeChar (c : Char) (next : Option Char) : List Char :=
  if c = '\\' then ['\\', '\\']
  else if c = '"' then ['\\', '"']
  else if c = '\n' then ['\\', 'n']
  else if c = '\r' then ['\\', 'r']
  else if c = '\t' then ['\\', 't']
  else if c = '<' then ['\\', 'x', '3', 'C']
  else if c.toNat = 0 then
    if next.any Char.isDigit then ['\\', 'x', '0', '0'] else ['\\', '0']
  else if c.toNat = 0x2028 then ['\\', 'u', '2', '0', '2', '8']
  else if c.toNat = 0x2029 then ['\\', 'u', '2', '0', '2', '9']
  else if c.toNat < 0x20 then ['\\', 'x', upperHexDigit (c.toNat / 16), upperHexDigit (c.toNat % 16)]
  else [c]

def escapeChars : List Char → List Char
  | [] => []
  | c :: rest => escapeChar c rest.head? ++ escapeChars rest

/-- The literal of `s`, as characters. -/
def quotedChars (s : List Char) : List Char := '"' :: escapeChars s ++ ['"']

def quoted (s : String) : String := String.ofList (quotedChars s.toList)

def propertyKey (key : String) : String := if isIdentifier key then key else quoted key

end ScriptGraph
