import ScriptGraph.Ecma.NameTable
import ScriptGraph.Text.Basic

/-!
# Characters of script text

* `isLineEnd`, `isSpace` : what separates lines and tokens;
* `isNameStart`, `isNamePart` : what names consist of;
* `skipTrivia` : a text from its first token on.
-/

namespace ScriptGraph.Ecma

def isLineEnd (c : Char) : Bool :=
  c == '\n' || c == '\r' || c.toNat == 0x2028 || c.toNat == 0x2029

/-- What may stand between tokens: blanks, line ends and the byte order mark. -/
def isSpace (c : Char) : Bool := (isBlank c && c.toNat != 0x85) || c.toNat == 0xFEFF

def inRanges (ranges : List (Nat × Nat)) (c : Char) : Bool :=
  ranges.any fun (first, last) => first ≤ c.toNat && c.toNat ≤ last

def isNameStart (c : Char) : Bool :=
  if c.toNat < 0x80 then c.isAlpha || c == '_' || c == '$' else inRanges nameStarts c

/-- The characters of names after the first one. The two joiners are among them. -/
def isNamePart (c : Char) : Bool :=
  isNameStart c || c.isDigit || c.toNat == 0x200C || c.toNat == 0x200D ||
    (0x80 ≤ c.toNat && inRanges nameParts c)

/-- Where in the space between two tokens a character stands. -/
inductive Place
  | between
  | lineComment
  | blockComment

/-- Skips what stands before a token. Tells whether a line ends there, `ended` if one did before.
There is no answer when a comment is not closed. -/
def skipTrivia : Place → Bool → List Char → Option (Bool × List Char)
  | .between, ended, '/' :: '/' :: rest => skipTrivia .lineComment ended rest
  | .between, ended, '/' :: '*' :: rest => skipTrivia .blockComment ended rest
  | .between, ended, c :: rest =>
    if isSpace c then skipTrivia .between (ended || isLineEnd c) rest else some (ended, c :: rest)
  | .lineComment, ended, c :: rest =>
    if isLineEnd c then skipTrivia .between true rest else skipTrivia .lineComment ended rest
  | .blockComment, ended, '*' :: '/' :: rest => skipTrivia .between ended rest
  | .blockComment, ended, c :: rest => skipTrivia .blockComment (ended || isLineEnd c) rest
  | .blockComment, _, [] => none
  | _, ended, [] => some (ended, [])

end ScriptGraph.Ecma
