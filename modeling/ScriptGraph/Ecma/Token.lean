import ScriptGraph.Ecma.Character
import ScriptGraph.Text.Basic

/-!
# Tokens of script text

* `Token` : a name, a punctuator or a literal;
* `readToken` : the token at the beginning of a text, and what follows it;
* `readTemplate` : the characters of a template up to a substitution or the end;
* `readPattern` : a regular expression, from behind its first slash.

Where a regular expression may stand, a slash begins one; `readToken` takes it for a division, and
its caller knows better. The same holds of the closing brace of a substitution.
-/

namespace ScriptGraph.Ecma

inductive Token
  /-- A name or a word with a meaning of its own, unless it is spelled with an escape. -/
  | name (text : String) (escaped : Bool)
  | privateName
  | number
  | string (text : String)
  /-- The mark that opens a template. -/
  | template
  | punctuator (text : String)
  | finish
  /-- No token begins here. -/
  | broken
deriving DecidableEq

/-! ## Escapes -/

/-- The code point of an escape, from behind `\u`: four digits, or any number between braces. -/
def codePoint? : List Char → Option (Nat × List Char)
  | '\x7b' :: rest =>
    match rest.dropWhile isHexDigit with
    | '\x7d' :: after =>
      if rest.head? = some '\x7d' ∨ hexNumber (rest.takeWhile isHexDigit) > 0x10FFFF then none
      else some (hexNumber (rest.takeWhile isHexDigit), after)
    | _ => none
  | a :: b :: c :: d :: rest =>
    if [a, b, c, d].all isHexDigit then some (hexNumber [a, b, c, d], rest) else none
  | _ => none

theorem length_dropWhile_le (p : Char → Bool) (l : List Char) :
    (l.dropWhile p).length ≤ l.length :=
  (List.dropWhile_suffix p).length_le

theorem codePoint?_length {cs rest : List Char} {n : Nat} (h : codePoint? cs = some (n, rest)) :
    rest.length < cs.length := by
  unfold codePoint? at h
  split at h
  · rename_i tail
    split at h
    · rename_i after heq
      have := length_dropWhile_le isHexDigit tail
      split at h
      · cases h
      · cases h
        rw [heq] at this
        simp only [List.length_cons] at this ⊢
        omega
    · cases h
  · split at h
    · cases h
      simp only [List.length_cons]
      omega
    · cases h
  · cases h

/-- What follows an escape, from behind its backslash. Octal numbers are refused in templates. -/
def skipEscape (inTemplate : Bool) : List Char → Option (List Char)
  | [] => none
  | 'u' :: rest => (codePoint? rest).map (·.2)
  | 'x' :: a :: b :: rest => if isHexDigit a ∧ isHexDigit b then some rest else none
  | 'x' :: _ => none
  | '\r' :: '\n' :: rest => some rest
  | c :: rest =>
    if inTemplate ∧ c.isDigit ∧ (c ≠ '0' ∨ rest.head?.any Char.isDigit) then none else some rest

theorem skipEscape_length {t : Bool} {cs rest : List Char} (h : skipEscape t cs = some rest) :
    rest.length < cs.length := by
  unfold skipEscape at h
  split at h
  · cases h
  · obtain ⟨⟨n, r⟩, hr, rfl⟩ := Option.map_eq_some_iff.1 h
    exact Nat.lt_succ_of_lt (codePoint?_length hr)
  · split at h
    · cases h
      simp only [List.length_cons]
      omega
    · cases h
  · cases h
  · cases h
    simp only [List.length_cons]
    omega
  · split at h
    · cases h
    · cases h
      exact Nat.lt_succ_self _

/-! ## Literals -/

/-- The text after the quotation mark that closes a string. -/
def readString (mark : Char) (cs : List Char) : Option (List Char) :=
  match cs with
  | [] => none
  | '\\' :: rest =>
    match h : skipEscape false rest with
    | some after =>
      have := skipEscape_length h
      readString mark after
    | none => none
  | c :: rest =>
    if c = mark then some rest
    else if c = '\n' ∨ c = '\r' then none
    else readString mark rest
termination_by cs.length
decreasing_by all_goals simp only [List.length_cons]; omega

/-- A piece of a template. -/
structure TemplatePiece where
  /-- Whether every escape of the piece has a meaning. -/
  sound : Bool
  /-- Whether the piece ends the template. -/
  last : Bool
  rest : List Char

/-- The piece of a template at the beginning of a text. -/
def readTemplate (sound : Bool) (cs : List Char) : Option TemplatePiece :=
  match cs with
  | [] => none
  | '\x60' :: rest => some ⟨sound, true, rest⟩
  | '$' :: '\x7b' :: rest => some ⟨sound, false, rest⟩
  | '\\' :: rest =>
    match h : skipEscape true rest with
    | some after =>
      have := skipEscape_length h
      readTemplate sound after
    | none =>
      match rest with
      | [] => none
      | _ :: after => readTemplate false after
  | _ :: rest => readTemplate sound rest
termination_by cs.length
decreasing_by all_goals simp only [List.length_cons] at *; omega

/-- Digits with single low lines between them, and what follows. -/
def readDigits (isDigit : Char → Bool) (cs : List Char) : Option (List Char) :=
  let run := cs.takeWhile fun c => isDigit c || c == '_'
  let doubled := (run.zip run.tail).any fun (a, b) => a == '_' && b == '_'
  if run.isEmpty ∨ run.head? = some '_' ∨ run.getLast? = some '_' ∨ doubled then none
  else some (cs.dropWhile fun c => isDigit c || c == '_')

def isDigitBelow (base : Nat) (c : Char) : Bool := (hexValue? c).any (· < base)

def readFraction : List Char → Option (List Char)
  | '.' :: c :: rest => if c.isDigit then readDigits Char.isDigit (c :: rest) else some (c :: rest)
  | '.' :: [] => some []
  | cs => some cs

def readExponent : List Char → Option (List Char)
  | c :: rest =>
    if c = 'e' ∨ c = 'E' then
      match rest with
      | '+' :: digits => readDigits Char.isDigit digits
      | '-' :: digits => readDigits Char.isDigit digits
      | digits => readDigits Char.isDigit digits
    else some (c :: rest)
  | [] => some []

/-- What follows an integer: the mark of a big integer, or a fraction and an exponent. -/
def readAfterInteger : List Char → Option (List Char)
  | 'n' :: rest => some rest
  | cs => do readExponent (← readFraction cs)

def readBased (base : Nat) (cs : List Char) : Option (List Char) := do
  match ← readDigits (isDigitBelow base) cs with
  | 'n' :: rest => some rest
  | rest => some rest

def readUnmarked : List Char → Option (List Char)
  | '0' :: 'x' :: rest => readBased 16 rest
  | '0' :: 'X' :: rest => readBased 16 rest
  | '0' :: 'o' :: rest => readBased 8 rest
  | '0' :: 'O' :: rest => readBased 8 rest
  | '0' :: 'b' :: rest => readBased 2 rest
  | '0' :: 'B' :: rest => readBased 2 rest
  | '.' :: rest => do readExponent (← readDigits Char.isDigit rest)
  | cs => do readAfterInteger (← readDigits Char.isDigit cs)

/-- The text after a number. Neither a name nor a digit may follow immediately. -/
def readNumber (cs : List Char) : Option (List Char) := do
  let rest ← readUnmarked cs
  if rest.head?.any fun c => isNamePart c || c == '\\' then none else some rest

/-- The text after the pattern of a regular expression. Inside brackets a slash is a character like
any other. -/
def skipPattern (bracketed : Bool) : List Char → Option (List Char)
  | [] => none
  | '\\' :: c :: rest => if isLineEnd c then none else skipPattern bracketed rest
  | c :: rest =>
    if isLineEnd c then none
    else if c = '[' then skipPattern true rest
    else if c = ']' then skipPattern false rest
    else if c = '/' ∧ bracketed = false then some rest
    else skipPattern bracketed rest

/-- The text after a regular expression, from behind its first slash. -/
def readPattern (cs : List Char) : Option (List Char) := do
  let rest ← skipPattern false cs
  let flags := rest.takeWhile isNamePart
  let known := flags.all ['d', 'g', 'i', 'm', 's', 'u', 'v', 'y'].contains
  if known ∧ flags.eraseDups = flags then some (rest.drop flags.length) else none

/-! ## Names and punctuators -/

/-- The characters of a name, whether one of them is escaped, and what follows. -/
def readName (cs : List Char) : Option (List Char × Bool × List Char) :=
  match cs with
  | [] => some ([], false, [])
  | '\\' :: 'u' :: rest =>
    match h : codePoint? rest with
    | some (n, after) =>
      have := codePoint?_length h
      if isNamePart (Char.ofNat n) then
        (readName after).map fun (text, _, rest) => (Char.ofNat n :: text, true, rest)
      else none
    | none => none
  | c :: rest =>
    if isNamePart c then (readName rest).map fun (text, escaped, rest) => (c :: text, escaped, rest)
    else some ([], false, c :: rest)
termination_by cs.length
decreasing_by all_goals simp only [List.length_cons]; omega

/-- The punctuators, each before those that it begins with. -/
def punctuators : List String :=
  [">>>=", "...", "===", "!==", "**=", "<<=", ">>=", ">>>", "&&=", "||=", "??=",
    "=>", "==", "!=", "<=", ">=", "&&", "||", "??", "?.", "++", "--", "+=", "-=", "*=", "/=", "%=",
    "&=", "|=", "^=", "<<", ">>", "**",
    "\x7b", "\x7d", "(", ")", "[", "]", ".", ";", ",", "<", ">", "+", "-", "*", "/", "%", "&", "|",
    "^", "!", "~", "?", ":", "="]

/-- Whether `text` stands at the beginning. An optional access is not followed by a digit. -/
def punctuatorAt (cs : List Char) (text : String) : Bool :=
  text.toList.isPrefixOf cs && !(text == "?." && (cs.drop 2).head?.any Char.isDigit)

def readNamed (cs : List Char) : Option (Token × List Char) := do
  let (text, escaped, rest) ← readName cs
  if text.head?.any isNameStart then some (.name (String.ofList text) escaped, rest) else none

/-- The token at the beginning of a text. -/
def readToken (cs : List Char) : Option (Token × List Char) :=
  match cs with
  | [] => some (.finish, [])
  | c :: rest =>
    if isNameStart c ∨ c = '\\' then readNamed cs
    else if c = '#' then (readNamed rest).map fun (_, rest) => (.privateName, rest)
    else if c.isDigit ∨ (c = '.' ∧ rest.head?.any Char.isDigit) then
      (readNumber cs).map fun rest => (.number, rest)
    else if c = '"' ∨ c = '\x27' then (readString c rest).map fun after =>
      (.string (String.ofList (rest.take (rest.length - after.length - 1))), after)
    else if c = '\x60' then some (.template, rest)
    else (punctuators.find? (punctuatorAt cs)).map fun text =>
      (.punctuator text, cs.drop text.length)

end ScriptGraph.Ecma
