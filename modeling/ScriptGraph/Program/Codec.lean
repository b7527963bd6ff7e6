import ScriptGraph.Report
import ScriptGraph.Json.Compact
import ScriptGraph.Json.Record
import ScriptGraph.Program.Basic

/-!
# Programs as JSON texts

* `Program.toJson` : a program as a JSON value, all fields in order;
* `Program.parse` : the program of a JSON text.

An expression is an object with a tag under `type`, or an array that begins with the tag. A tag is
the name of a kind of expression; except directly in a definition of the whole program, its number
will do. A body is a list of expressions or one expression; what can be read as a list is one.
-/

namespace ScriptGraph

/-! ## Writing -/

def optionalText (s : Option String) : Json := (s.map .string).getD .null

mutual

def Expression.toJson : Expression → Json
  | .value v => .object [("type", .string "value"), ("value", v)]
  | .raw code => .object [("type", .string "raw"), ("code", .string code)]
  | .ident name => .object [("type", .string "ident"), ("name", .string name)]
  | .template parts => .object [("type", .string "template"), ("parts", .array (partsToJson parts))]
  | .member object property optional => .object [("type", .string "member"),
      ("object", object.toJson), ("property", .string property), ("optional", .bool optional)]
  | .index object key => .object [("type", .string "index"), ("object", object.toJson),
      ("key", key.toJson)]
  | .call callee args optional pure => .object [("type", .string "call"),
      ("callee", callee.toJson), ("args", .array (expressionsToJson args)),
      ("optional", .bool optional), ("pure", .bool pure)]
  | .construct callee args => .object [("type", .string "new"), ("callee", callee.toJson),
      ("args", .array (expressionsToJson args))]
  | .function name params definitions body => .object [("type", .string "function"),
      ("name", optionalText name), ("params", .array (params.map .string)),
      ("definitions", .array (definitionsToJson definitions)), ("body", formToJson body)]
  | .await value => .object [("type", .string "await"), ("value", value.toJson)]
  | .assign target value => .object [("type", .string "assign"), ("target", target.toJson),
      ("value", value.toJson)]
  | .module address exported => .object [("type", .string "module"),
      ("address", .string address), ("export", optionalText exported)]
  | .resource key value => .object [("type", .string "resource"), ("key", .string key),
      ("value", value)]
  | .placeholder => .object [("type", .string "ref")]
  | .use name => .object [("type", .string "use"), ("name", .string name)]

def expressionsToJson : List Expression → List Json
  | [] => []
  | e :: rest => e.toJson :: expressionsToJson rest

def TemplatePart.toJson : TemplatePart → Json
  | .text t => .string t
  | .expression e => e.toJson

def partsToJson : List TemplatePart → List Json
  | [] => []
  | p :: rest => p.toJson :: partsToJson rest

def Form.toJson : Form → Json
  | .statements list => .array (expressionsToJson list)
  | .value e => e.toJson

def formToJson : Option Form → Json
  | none => .null
  | some b => b.toJson

def Definition.toJson : Definition → Json
  | .mk name value => .object [("name", .string name), ("value", value.toJson)]

def definitionsToJson : List Definition → List Json
  | [] => []
  | d :: rest => d.toJson :: definitionsToJson rest

end

def Program.toJson (p : Program) : Json :=
  .object [("definitions", .array (definitionsToJson p.definitions)), ("body", formToJson p.body)]

/-! ## Reading -/

namespace Program

/-- The kinds of expressions, as numbered in tags. -/
def tagNames : List String :=
  ["value", "raw", "ident", "template", "member", "index", "call", "new", "function", "await",
    "assign", "module", "resource", "ref", "use"]

/-- The kind that a tag names, by number only if `numbered`. -/
def tagName? (numbered : Bool) : Document → Option String
  | .string s => s
  | .number n =>
    if numbered && n.whole && !n.negative then tagNames[n.coefficient]? else none
  | _ => none

/-- The tag of an expression, and its fields. -/
def split? : Document → Option (Document × Document)
  | .object entries => do
    match ← Document.field? entries "type" with
    | some tag => some (tag, .object (entries.filter (·.1 != some "type")))
    | none => none
  | .array (tag :: fields) => some (tag, .array fields)
  | _ => none

/-- An arbitrary value. Its depth was checked with the expression it stands in. -/
def valueOf? (d : Document) : Option Json := d.toJson? Document.depthLimit

/-- A list of what `read` reads. -/
def listOf? {α : Type} (read : Document → Option α) (d : Document) : Option (List α) := do
  (← d.items?).mapM read

section Fields

variable (inner : Document → Option Expression)

def part? : Document → Option TemplatePart
  | .string s => s.map .text
  | d => (inner d).map .expression

def form? (d : Document) : Option Form :=
  match listOf? inner d with
  | some list => some (.statements list)
  | none => (inner d).map .value

def definition? (d : Document) : Option Definition := do
  match ← d.record? ["name", "value"] with
  | [some name, some value] => return .mk (← name.string?) (← inner value)
  | _ => none

/-- The expression of a kind with given fields; `inner` reads the expressions within it. -/
def ofFields? (fields : Document) : String → Option Expression
  | "value" => do
    match ← fields.record? ["value"] with
    | [some v] => return .value (← valueOf? v)
    | _ => none
  | "raw" => do
    match ← fields.record? ["code"] with
    | [some code] => return .raw (← code.string?)
    | _ => none
  | "ident" => do
    match ← fields.record? ["name"] with
    | [some name] => return .ident (← name.string?)
    | _ => none
  | "template" => do
    match ← fields.record? ["parts"] with
    | [some parts] => return .template (← listOf? (part? inner) parts)
    | _ => none
  | "member" => do
    match ← fields.record? ["object", "property", "optional"] with
    | [some object, some property, optional] =>
      return .member (← inner object) (← property.string?)
        (← Document.fieldOr false Document.bool? optional)
    | _ => none
  | "index" => do
    match ← fields.record? ["object", "key"] with
    | [some object, some key] => return .index (← inner object) (← inner key)
    | _ => none
  | "call" => do
    match ← fields.record? ["callee", "args", "optional", "pure"] with
    | [some callee, args, optional, pureField] =>
      return .call (← inner callee) (← Document.fieldOr [] (listOf? inner) args)
        (← Document.fieldOr false Document.bool? optional)
        (← Document.fieldOr false Document.bool? pureField)
    | _ => none
  | "new" => do
    match ← fields.record? ["callee", "args"] with
    | [some callee, args] =>
      return .construct (← inner callee) (← Document.fieldOr [] (listOf? inner) args)
    | _ => none
  | "function" => do
    match ← fields.record? ["name", "params", "definitions", "body"] with
    | [name, params, definitions, body] =>
      return .function
        (← Document.fieldOr none (Document.nullable Document.string?) name)
        (← Document.fieldOr [] (listOf? Document.string?) params)
        (← Document.fieldOr [] (listOf? (definition? inner)) definitions)
        (← Document.fieldOr none (Document.nullable (form? inner)) body)
    | _ => none
  | "await" => do
    match ← fields.record? ["value"] with
    | [some value] => return .await (← inner value)
    | _ => none
  | "assign" => do
    match ← fields.record? ["target", "value"] with
    | [some target, some value] => return .assign (← inner target) (← inner value)
    | _ => none
  | "module" => do
    match ← fields.record? ["address", "export"] with
    | [some address, exported] =>
      return .module (← address.string?)
        (← Document.fieldOr none (Document.nullable Document.string?) exported)
    | _ => none
  | "resource" => do
    match ← fields.record? ["key", "value"] with
    | [some key, value] =>
      return .resource (← key.string?) (← Document.fieldOr .null valueOf? value)
    | _ => none
  | "ref" =>
    match fields with
    | .object _ => some .placeholder
    | .array [] => some .placeholder
    | _ => none
  | "use" => do
    match ← fields.record? ["name"] with
    | [some name] => return .use (← name.string?)
    | _ => none
  | _ => none

end Fields

/-- The expression of a document that nests less than `depth`. -/
def expression? : Nat → Bool → Document → Option Expression
  | 0, _, _ => none
  | depth + 1, numbered, d => do
    let (tag, fields) ← split? d
    let name ← tagName? numbered tag
    ofFields? (expression? depth true) fields name

/-- The parts of a document that are read as expressions nest at most so deep. -/
def soundExpression? (depth : Nat) (numbered : Bool) (d : Document) : Option Expression :=
  if d.sound depth then expression? (depth + 1) numbered d else none

/-- A definition of the whole program, three levels inside it. -/
def outerDefinition? (d : Document) : Option Definition :=
  definition? (soundExpression? (Document.depthLimit - 3) false) d

/-- The body of the whole program, one level inside it. -/
def outerForm? (d : Document) : Option Form :=
  if d.sound (Document.depthLimit - 1) then form? (expression? Document.depthLimit true) d
  else none

def ofDocument? (d : Document) : Option Program := do
  match ← d.record? ["definitions", "body"] with
  | [definitions, body] =>
    return {
      definitions := ← Document.fieldOr [] (listOf? outerDefinition?) definitions
      body := ← Document.fieldOr none (Document.nullable outerForm?) body }
  | _ => none

/-- The program of a JSON text. -/
def parse (text : String) : Except Fault Program :=
  match (Document.parse text).bind ofDocument? with
  | some p => .ok p
  | none => .error .malformedProgram

/-- The JSON text of a program. -/
def text (p : Program) : String := p.toJson.compact

end Program

end ScriptGraph
