import ScriptGraph.Builder.Operators
import ScriptGraph.Json.Literal

/-!
# Host values

* `HostValue` : a value of the host program that can appear in a script; arrays, records, maps, sets
  and functions carry the number of their instance;
* `HostValue.toNode` : the node of a value; an instance is converted once per builder;
* `HostValue.callable` : a function whose body is what a host function returns.
-/

namespace ScriptGraph

inductive HostValue (σ : Type) : Type
  | undefined
  | null
  | bool (b : Bool)
  | number (x : Binary64)
  | bigInteger (i : Int)
  | string (s : String)
  /-- Milliseconds since the epoch. -/
  | date (milliseconds : Binary64)
  | bytes (bytes : List UInt8)
  | regExp (source flags : String)
  | array (instanceId : Nat) (items : List (HostValue σ))
  | record (instanceId : Nat) (entries : List (String × HostValue σ))
  | map (instanceId : Nat) (entries : List (HostValue σ × HostValue σ))
  | set (instanceId : Nat) (items : List (HostValue σ))
  | function (instanceId : Nat) (arity : Nat) (body : List NodeId → Recipe σ)
  | json (value : Json)
  | node (e : NodeId)
  /-- A host object without a script form. -/
  | foreign (description : String)

/-- A computation that can fail. -/
abbrev TryBuild (σ : Type) := ExceptT Fault (Build σ)

namespace HostValue

variable {σ : Type}

def literal (code : String) : TryBuild σ NodeId := ExceptT.lift (Build.create (.literal code))

def template (parts : List Part) : TryBuild σ NodeId := ExceptT.lift (Build.template parts)

/-- The node recorded for an instance, or the one that `x` makes, which is then recorded. -/
def once (instanceId : Nat) (x : TryBuild σ NodeId) : TryBuild σ NodeId := do
  let s ← ExceptT.lift Build.look
  match s.memo.lookup instanceId with
  | some e => return e
  | none =>
    let e ← x
    ExceptT.lift (Build.memoize instanceId e)
    return e

/-- The parts of an object literal. -/
def recordParts (entries : List (String × NodeId)) : List Part :=
  match entries with
  | [] => []
  | (key, e) :: rest =>
    .text (propertyKey key ++ ":") :: .node e ::
      rest.flatMap fun (key, e) => [.text ("," ++ propertyKey key ++ ":"), .node e]

/-- The parts of the list of pairs that a map is made from. -/
def mapParts (entries : List (NodeId × NodeId)) : List Part :=
  let pair (start : String) (entry : NodeId × NodeId) : List Part :=
    [.text start, .node entry.1, .text ",", .node entry.2, .text "]"]
  match entries with
  | [] => []
  | entry :: rest => pair "[" entry ++ rest.flatMap (pair ",[")

def bytesText (bytes : List UInt8) : String :=
  "new Uint8Array([" ++ ",".intercalate (bytes.map fun b => String.ofList (natText b.toNat)) ++ "])"

mutual

/-- The node of a value. -/
def toNode : HostValue σ → TryBuild σ NodeId
  | .undefined => literal "void 0"
  | .null => literal "null"
  | .bool b => literal (if b then "true" else "false")
  | .number x => literal x.literal
  | .bigInteger i => literal (bigIntegerLiteral i)
  | .string s => literal (quoted s)
  | .date ms => literal ("new Date(" ++ ms.literal ++ ")")
  | .bytes bs => literal (bytesText bs)
  | .regExp source flags => literal ("new RegExp(" ++ quoted source ++ "," ++ quoted flags ++ ")")
  | .array i items => once i do
    let es ← itemsToNodes items
    template (.text "[" :: commaSeparated (es.map .node) ++ [.text "]"])
  | .record i entries => once i do
    let es ← recordToNodes entries
    template (.text "\x7b" :: recordParts es ++ [.text "\x7d"])
  | .map i entries => once i do
    let es ← mapToNodes entries
    template (.text "new Map([" :: mapParts es ++ [.text "])"])
  | .set i items => once i do
    let es ← itemsToNodes items
    template (.text "new Set([" :: commaSeparated (es.map .node) ++ [.text "])"])
  | .function i arity body => once i (ExceptT.lift (Build.function arity fun _ args => body args))
  | .json v => if v.isComposite then ExceptT.lift (Build.raw v.literal) else literal v.literal
  | .node e => return e
  | .foreign description => throw (.unconvertible description)

def itemsToNodes : List (HostValue σ) → TryBuild σ (List NodeId)
  | [] => return []
  | v :: rest => do
    let e ← v.toNode
    let es ← itemsToNodes rest
    return e :: es

def recordToNodes : List (String × HostValue σ) → TryBuild σ (List (String × NodeId))
  | [] => return []
  | (key, v) :: rest => do
    let e ← v.toNode
    let es ← recordToNodes rest
    return (key, e) :: es

def mapToNodes : List (HostValue σ × HostValue σ) → TryBuild σ (List (NodeId × NodeId))
  | [] => return []
  | (key, v) :: rest => do
    let k ← key.toNode
    let e ← v.toNode
    let es ← mapToNodes rest
    return (k, e) :: es

end

/-- The recipe of a body that returns the node of a host value. -/
def returning (x : Build σ (HostValue σ)) : Recipe σ :=
  Build.toRecipe do
    let v ← x
    let e ← v.toNode.run
    return e.map .value

/-- A function whose body returns what `call` answers for the parameters. -/
def callable (instanceId arity : Nat) (call : List NodeId → Build σ (HostValue σ)) : HostValue σ :=
  .function instanceId arity fun args => returning (call args)

end HostValue

end ScriptGraph
