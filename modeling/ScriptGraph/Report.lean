import ScriptGraph.Graph.Handle
import ScriptGraph.Json.Basic

/-!
# Faults and their reports

* `Fault` : why an operation failed;
* `guarantee` : the promise that a fault's code stands for;
* `Report`, `Fault.report` : a fault as told to users;
* `Report.toJson` : a report with all its fields, in order;
* `Warning` : what is reported without failing.
-/

namespace ScriptGraph

/-- Why an operation failed. -/
inductive Fault
  /-- A host value without a script form was converted. -/
  | unconvertible (description : String)
  | unfilledSlot
  /-- A node other than a slot was to be filled. -/
  | notASlot
  | slotRefilled
  /-- A body was requested while it was being constructed. -/
  | reentrantBody
  | notAFunction
  /-- A handle was followed that no node of a graph of `size` nodes has. The program stops; there is
  no code for it. -/
  | noSuchNode (size node : Nat)
  | cyclicGraph
  | missingName (node : NodeId) (label : NodeLabel)
  /-- A node is needed in a function that does not enclose the place where it is used. -/
  | scopeLeak (label : NodeLabel) (node : NodeId) (created used : Scope)
  /-- A statement list was to be compiled as one expression. -/
  | statementsInEvaluation
  | unknownName (name : String)
  | malformedProgram
  | malformedOptions
  | invalidOption (field name : String)
  | unparsable (code : String)
  /-- The pattern of the names with a stem takes more than `limit` bytes. -/
  | stemTooLong (stem : String) (limit : Nat)
  | unboundName (name code : String)
  /-- A failure that a caller's own recipe reports. -/
  | custom (code message : String)
deriving DecidableEq

/-- A fault as told to users. -/
structure Report where
  code : String
  message : String
  guarantee : String
  context : Option String
  hints : List String
deriving DecidableEq

/-- The promise that a code stands for. -/
def guarantee (code : String) : String :=
  match code with
  | "Z-ERR-CONVERT-001" => "Only values with a script form are embedded in emitted code."
  | "Z-ERR-SLOT-001" => "Every forward reference is resolved before emission."
  | "Z-ERR-SLOT-002" => "A node never changes after construction."
  | "Z-ERR-BODY-001" => "A function body is constructed exactly once."
  | "Z-ERR-BODY-002" => "Only function nodes own a body."
  | "Z-ERR-ANALYSIS-001" => "Expression graphs are acyclic outside function bodies."
  | "Z-ERR-ANALYSIS-002" => "Every declared node is emitted under exactly one name."
  | "Z-ERR-SCOPE-LEAK" =>
    "A node is only used inside the function it was constructed in, or functions nested in it."
  | "Z-ERR-MODE-001" => "Evaluation mode compiles exactly one root expression."
  | "Z-ERR-IR-001" => "Program IR names resolve lexically."
  | "Z-ERR-IR-002" => "Program IR and options are well-formed JSON."
  | "Z-ERR-VERIFY-001" => "Emitted script is syntactically valid."
  | "Z-ERR-VERIFY-002" => "Every generated name is declared in an enclosing scope."
  | _ => "Unknown invariant."

namespace Fault

def code : Fault → String
  | .unconvertible _ => "Z-ERR-CONVERT-001"
  | .unfilledSlot => "Z-ERR-SLOT-001"
  | .notASlot | .slotRefilled => "Z-ERR-SLOT-002"
  | .reentrantBody => "Z-ERR-BODY-001"
  | .notAFunction => "Z-ERR-BODY-002"
  | .noSuchNode .. => ""
  | .cyclicGraph => "Z-ERR-ANALYSIS-001"
  | .missingName .. => "Z-ERR-ANALYSIS-002"
  | .scopeLeak .. => "Z-ERR-SCOPE-LEAK"
  | .statementsInEvaluation => "Z-ERR-MODE-001"
  | .unknownName _ => "Z-ERR-IR-001"
  | .malformedProgram | .malformedOptions | .invalidOption .. | .stemTooLong .. => "Z-ERR-IR-002"
  | .unparsable _ => "Z-ERR-VERIFY-001"
  | .unboundName .. => "Z-ERR-VERIFY-002"
  | .custom code _ => code

def message : Fault → String
  | .unconvertible description => "Cannot convert host value '" ++ description ++ "' into script."
  | .unfilledSlot => "A slot was expanded before it was filled."
  | .notASlot => "Only slot nodes can be filled."
  | .slotRefilled => "A slot was filled twice."
  | .reentrantBody => "A function body was requested while it was being constructed."
  | .notAFunction => "Requested the body of a node that is not a function."
  | .noSuchNode size node =>
    "index out of bounds: the len is " ++ toString size ++ " but the index is " ++ toString node
  | .cyclicGraph => "The expression graph contains a cycle outside function bodies."
  | .missingName node _ => "Node " ++ toString node ++ " has no assigned name."
  | .scopeLeak label node .. =>
    label.text ++ " node " ++ toString node ++ " is used outside the function it was created in."
  | .statementsInEvaluation => "Evaluation mode needs a single root expression."
  | .unknownName name => "Unknown name '" ++ name ++ "'."
  | .malformedProgram => "Invalid program IR"
  | .malformedOptions => "Invalid compile options"
  | .invalidOption field name =>
    "Option '" ++ field ++ "' does not form a valid identifier: '" ++ name ++ "'"
  | .unparsable _ => "Emitted script does not parse"
  | .stemTooLong stem limit =>
    "Invalid name prefix '" ++ stem ++ "': Compiled regex exceeds size limit of " ++
      toString limit ++ " bytes."
  | .unboundName name _ => "Generated name '" ++ name ++ "' is referenced but never declared."
  | .custom _ message => message

def context : Fault → Option String
  | .missingName _ label => some label.text
  | .scopeLeak _ _ created used => some ("created in " ++ created.text ++ ", used in " ++ used.text)
  | .unparsable code => some code
  | .unboundName _ code => some code
  | _ => none

def hints : Fault → List String
  | .unconvertible _ =>
    ["Wrap the value in a node with ScriptBuilder::raw or pass a serializable value."]
  | .unfilledSlot => ["Call ScriptBuilder::fill before compiling."]
  | .reentrantBody => ["Refer to the function handle itself instead of its body."]
  | .cyclicGraph => ["A slot was probably filled with an expression that contains it."]
  | .scopeLeak .. =>
    ["Create the value before entering the function, or pass it as a parameter."]
  | .statementsInEvaluation =>
    ["Use statement mode, or wrap the statements in a function and call it."]
  | .unknownName _ =>
    ["Names resolve through definitions, parameters and the enclosing function's own name."]
  | _ => []

def report (f : Fault) : Report := ⟨f.code, f.message, guarantee f.code, f.context, f.hints⟩

end Fault

namespace Report

/-- The line in which a report is shown. -/
def display (r : Report) : String := "[" ++ r.code ++ "] " ++ r.message

/-- The kind of error that every report tells of. -/
def errorType : String := "COMPILER_INVARIANT_VIOLATION"

def toJson (r : Report) : Json :=
  .object [
    ("code", .string r.code),
    ("errorType", .string errorType),
    ("message", .string r.message),
    ("guarantee", .string r.guarantee),
    ("context", (r.context.map .string).getD .null),
    ("hints", .array (r.hints.map .string))]

end Report

/-- What is reported without failing. -/
inductive Warning
  /-- Code that is no identifier was used as a name. -/
  | notAnIdentifier (name : String)
  | slotNeverFilled (node : NodeId)
deriving DecidableEq

end ScriptGraph
