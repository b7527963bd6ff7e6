import ScriptGraph.Report
import ScriptGraph.Json.Compact
import ScriptGraph.Json.Record
import ScriptGraph.Store.Basic
import ScriptGraph.Text.Basic

/-!
# Options of a compilation

* `Options` : what a compilation can be told;
* `Options.parse` : options from a JSON text;
* `Options.toJson` : options as a JSON value, in the order of the fields;
* `Options.check` : whether the names among the options are identifiers.
-/

namespace ScriptGraph

inductive CompileMode
  /-- A script that runs. -/
  | statements
  /-- A function that returns the value of one expression. -/
  | evaluation
deriving DecidableEq

structure Options where
  mode : CompileMode := .statements
  resourceMode : Option ResourceMode := none
  /-- What generated names begin with. -/
  nameStem : String := "_"
  moduleParam : String := "$m"
  resourceParam : String := "$r"
  resourceAccessor : String := "__resources"
  placeholderArray : String := "$refs"
  /-- The place that modules are served from. -/
  moduleBase : Option String := none
  /-- Whether the script is checked after it was written. -/
  verify : Bool := false
deriving DecidableEq

namespace Options

def modes : List (String × CompileMode) := [("statements", .statements), ("evaluation", .evaluation)]

def resourceModes : List (String × ResourceMode) := [("snapshot", .snapshot), ("runtime", .runtime)]

def fieldNames : List String :=
  ["mode", "resourceMode", "namePrefix", "moduleParam", "resourceParam", "resourceAccessor",
    "refBinding", "moduleBase", "verifyOutput"]

def ofDocument? (d : Document) : Option Options := do
  let o : Options := {}
  match ← d.record? fieldNames with
  | [mode, resourceMode, stem, moduleParam, resourceParam, accessor, array, base, verify] =>
    return {
      mode := ← Document.fieldOr o.mode (Document.oneOf? modes) mode
      resourceMode := ← Document.fieldOr o.resourceMode
        (Document.nullable (Document.oneOf? resourceModes)) resourceMode
      nameStem := ← Document.fieldOr o.nameStem Document.string? stem
      moduleParam := ← Document.fieldOr o.moduleParam Document.string? moduleParam
      resourceParam := ← Document.fieldOr o.resourceParam Document.string? resourceParam
      resourceAccessor := ← Document.fieldOr o.resourceAccessor Document.string? accessor
      placeholderArray := ← Document.fieldOr o.placeholderArray Document.string? array
      moduleBase := ← Document.fieldOr o.moduleBase (Document.nullable Document.string?) base
      verify := ← Document.fieldOr o.verify Document.bool? verify }
  | _ => none

/-- Options from a JSON text. -/
def parse (text : String) : Except Fault Options :=
  match (Document.parse text).bind ofDocument? with
  | some o => .ok o
  | none => .error .malformedOptions

def modeName : CompileMode → String
  | .statements => "statements"
  | .evaluation => "evaluation"

def resourceModeName : ResourceMode → String
  | .snapshot => "snapshot"
  | .runtime => "runtime"

def optionalString (s : Option String) : Json := (s.map .string).getD .null

def toJson (o : Options) : Json :=
  .object [
    ("mode", .string (modeName o.mode)),
    ("resourceMode", optionalString (o.resourceMode.map resourceModeName)),
    ("namePrefix", .string o.nameStem),
    ("moduleParam", .string o.moduleParam),
    ("resourceParam", .string o.resourceParam),
    ("resourceAccessor", .string o.resourceAccessor),
    ("refBinding", .string o.placeholderArray),
    ("moduleBase", optionalString o.moduleBase),
    ("verifyOutput", .bool o.verify)]

/-- Statements read resources while they run, and an evaluation carries their values, unless the
options say otherwise. -/
def effectiveResourceMode (o : Options) : ResourceMode :=
  match o.resourceMode, o.mode with
  | some mode, _ => mode
  | none, .statements => .runtime
  | none, .evaluation => .snapshot

/-- The resolver that the options imply. -/
def resolver (o : Options) : Resolver :=
  match o.moduleBase with
  | some place => Resolver.base place
  | none => Resolver.identity

/-- The names that go into a script, with the fields they come from. -/
def names (o : Options) : List (String × String) :=
  [("namePrefix", o.nameStem ++ "0"), ("moduleParam", o.moduleParam),
    ("resourceParam", o.resourceParam), ("resourceAccessor", o.resourceAccessor),
    ("refBinding", o.placeholderArray)]

/-- Fails at the first name that is no identifier. -/
def check (o : Options) : Except Fault Unit :=
  match o.names.find? fun (_, name) => !isIdentifier name with
  | some (field, name) => .error (.invalidOption field name)
  | none => .ok ()

end Options

end ScriptGraph
