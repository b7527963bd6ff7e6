import ScriptGraph.Json.Basic
import ScriptGraph.Text.Basic

/-!
# JSON text without blanks

`Json.compact` writes a value as JSON text. Strings escape the quotation mark, the backslash and
the control characters; everything else is written as it is.
-/

namespace ScriptGraph.Json

def compactChar (c : Char) : List Char :=
  if c = '"' then ['\\', '"']
  else if c = '\\' then ['\\', '\\']
  else if c.toNat = 8 then ['\\', 'b']
  else if c = '\t' then ['\\', 't']
  else if c = '\n' then ['\\', 'n']
  else if c.toNat = 12 then ['\\', 'f']
  else if c = '\r' then ['\\', 'r']
  else if c.toNat < 0x20 then
    ['\\', 'u', '0', '0', lowerHexDigit (c.toNat / 16), lowerHexDigit (c.toNat % 16)]
  else [c]

def compactString (s : String) : List Char := '"' :: s.toList.flatMap compactChar ++ ['"']

def Number.chars : Number → List Char
  | .integer i => intText i
  | .real x => x.jsonChars

mutual

def compactChars : Json → List Char
  | .null => ['n', 'u', 'l', 'l']
  | .bool true => ['t', 'r', 'u', 'e']
  | .bool false => ['f', 'a', 'l', 's', 'e']
  | .number n => n.chars
  | .string s => compactString s
  | .array items => '[' :: compactItems items ++ [']']
  | .object entries => '\x7b' :: compactEntries entries ++ ['\x7d']

def compactItems : List Json → List Char
  | [] => []
  | [item] => item.compactChars
  | item :: rest => item.compactChars ++ ',' :: compactItems rest

def compactEntries : List (String × Json) → List Char
  | [] => []
  | [(key, value)] => compactString key ++ ':' :: value.compactChars
  | (key, value) :: rest => compactString key ++ ':' :: value.compactChars ++ ',' :: compactEntries rest

end

def compact (v : Json) : String := String.ofList v.compactChars

end ScriptGraph.Json
