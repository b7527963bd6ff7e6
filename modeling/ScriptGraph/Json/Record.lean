import ScriptGraph.Json.Document

/-!
# Records in JSON texts

A record is written as an object of its fields, or as an array of its fields in order, of which the
last ones may be missing.

* `Document.record?` : the fields of a record, by name;
* `Document.sound` : whether every string and number of a document has a value and it nests at most
  so deep;
* `Document.string?`, `Document.bool?`, … : fields of simple types.
-/

namespace ScriptGraph.Document

/-- The one value of a key, if it is present. A repeated key is refused. -/
def field? (entries : List (Option String × Document)) (name : String) :
    Option (Option Document) :=
  match entries.filter (·.1 == some name) with
  | [] => some none
  | [(_, d)] => some (some d)
  | _ => none

/-- The fields of a record, in the order of `names`. Other keys are ignored. -/
def record? (names : List String) : Document → Option (List (Option Document))
  | .object entries =>
    if entries.all (·.1.isSome) then names.mapM (field? entries) else none
  | .array items =>
    if items.length ≤ names.length then
      some (items.map some ++ List.replicate (names.length - items.length) none)
    else none
  | _ => none

/-- Whether a document with at most `depth` nested arrays and objects has a value. -/
def sound (depth : Nat) (d : Document) : Bool := (d.toJson? depth).isSome

def string? : Document → Option String
  | .string s => s
  | _ => none

def bool? : Document → Option Bool
  | .bool b => some b
  | _ => none

def items? : Document → Option (List Document)
  | .array items => some items
  | _ => none

/-- A field that may be `null`. -/
def nullable {α : Type} (read : Document → Option α) : Document → Option (Option α)
  | .null => some none
  | d => (read d).map some

/-- A field with a default. -/
def fieldOr {α : Type} (default : α) (read : Document → Option α) : Option Document → Option α
  | none => some default
  | some d => read d

/-- One of several names: as a string, or as an object that maps the name to `null`. -/
def oneOf? {α : Type} (choices : List (String × α)) : Document → Option α
  | .string s => s.bind fun name => choices.lookup name
  | .object [(some name, .null)] => choices.lookup name
  | _ => none

end ScriptGraph.Document
