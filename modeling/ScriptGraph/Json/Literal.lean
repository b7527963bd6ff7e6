import ScriptGraph.Json.Basic
import ScriptGraph.Text.Basic

/-!
# JSON values as script literals

`Json.literal` writes a value as an expression of a script: strings as string literals, keys bare
where they are identifiers, negative numbers in parentheses.
-/

namespace ScriptGraph.Json

def numberLiteral : Number → List Char
  | .integer i => if i < 0 then parenthesized (intText i) else intText i
  | .real x => if x.negative then parenthesized x.jsonChars else x.jsonChars

mutual

def literalChars : Json → List Char
  | .null => ['n', 'u', 'l', 'l']
  | .bool true => ['t', 'r', 'u', 'e']
  | .bool false => ['f', 'a', 'l', 's', 'e']
  | .number n => numberLiteral n
  | .string s => quotedChars s.toList
  | .array items => '[' :: literalItems items ++ [']']
  | .object entries => '\x7b' :: literalEntries entries ++ ['\x7d']

def literalItems : List Json → List Char
  | [] => []
  | [item] => item.literalChars
  | item :: rest => item.literalChars ++ ',' :: literalItems rest

def literalEntries : List (String × Json) → List Char
  | [] => []
  | [(key, value)] => (propertyKey key).toList ++ ':' :: value.literalChars
  | (key, value) :: rest =>
    (propertyKey key).toList ++ ':' :: value.literalChars ++ ',' :: literalEntries rest

end

theorem literalItems_cons (item next : Json) (rest : List Json) :
    literalItems (item :: next :: rest) =
      item.literalChars ++ ',' :: literalItems (next :: rest) := rfl

theorem literalEntries_singleton (key : String) (value : Json) :
    literalEntries [(key, value)] = (propertyKey key).toList ++ ':' :: value.literalChars := rfl

theorem literalEntries_cons (key : String) (value : Json) (next : String × Json)
    (rest : List (String × Json)) :
    literalEntries ((key, value) :: next :: rest) =
      (propertyKey key).toList ++ ':' :: value.literalChars ++
        ',' :: literalEntries (next :: rest) := rfl

def literal (v : Json) : String := String.ofList v.literalChars

/-- Arrays and objects. -/
def isComposite : Json → Bool
  | .array _ => true
  | .object _ => true
  | _ => false

end ScriptGraph.Json
