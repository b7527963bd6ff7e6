import ScriptGraph.Report
import ScriptGraph.Json.Basic

/-!
# Graphs of script expressions

* `Node` : a node, with the scope it was made in, its flags and its kind;
* `Graph` : the nodes in the order of creation, and the two store nodes if they exist;
* `Node.template` : the parts a node is written as;
* `Graph.children` : the nodes a node refers to, in the order of its parts and with repetitions;
* `Graph.scopeChain`, `Graph.isWithin` : the scopes around a scope.
-/

namespace ScriptGraph

/-- What is known about a node whatever its kind. -/
structure Flags where
  /-- Never declared; may be written at every use. -/
  inert : Bool := false
  /-- Always declared. -/
  pinned : Bool := false
  /-- Evaluating the node suspends. -/
  awaits : Bool := false
  /-- A member access or call that stops at a missing object. -/
  optional : Bool := false
  /-- Depends on a resource through the nodes known when it was made. -/
  readsResource : Bool := false
deriving DecidableEq

/-- The flags of a literal or a name. -/
def Flags.literal : Flags := { inert := true }

/-- A piece of what a node is written as. -/
inductive Part
  | text (t : String)
  | node (e : NodeId)
deriving DecidableEq

def Part.node? : Part → Option NodeId
  | .text _ => none
  | .node e => some e

/-- What a function does: return an expression, or run statements. -/
inductive Body
  | value (root : NodeId)
  | statements (roots : List NodeId)
deriving DecidableEq

def Body.roots : Body → List NodeId
  | .value root => [root]
  | .statements roots => roots

/-- How far the construction of a function's body has come. -/
inductive BodyState
  | pending
  | building
  | ready (body : Body)
  | failed (fault : Fault)
deriving DecidableEq

/-- The value of a resource while compiling. -/
inductive ResourceValue
  | eager (value : Json)
  /-- Produced when its key is first registered. -/
  | deferred (value : Json)

def ResourceValue.snapshot : ResourceValue → Json
  | .eager value => value
  | .deferred value => value

inductive Kind
  | template (parts : List Part)
  /-- The parameters are the `arity` nodes that follow the function. -/
  | function (arity : Nat) (state : BodyState)
  | call (callee : NodeId) (args : List NodeId)
  | parameter (index : Nat)
  | text (code : String)
  | moduleRef (store : NodeId) (address : String)
  | resourceRef (store : NodeId) (key : String) (value : ResourceValue)
  | placeholder
  | moduleStore
  | resourceStore
  /-- A forward reference, filled once. -/
  | slot (target : Option NodeId)

def Kind.label : Kind → NodeLabel
  | .template _ => .template
  | .function .. => .function
  | .call .. => .call
  | .parameter _ => .argument
  | .text _ => .raw
  | .moduleRef .. => .moduleRef
  | .resourceRef .. => .resourceRef
  | .placeholder => .refPlaceholder
  | .moduleStore => .moduleStore
  | .resourceStore => .resourceStore
  | .slot _ => .slot

structure Node where
  scope : Scope
  flags : Flags
  kind : Kind

/-- `parts` with a comma between any two. -/
def commaSeparated : List Part → List Part
  | [] => []
  | [p] => [p]
  | p :: rest => p :: .text "," :: commaSeparated rest

/-- The parts of a node's own text. A function's body is not part of it; references to stores name
the store and leave the index open. -/
def Node.template (n : Node) : List Part :=
  match n.kind with
  | .template parts => parts
  | .call callee args =>
    .node callee :: .text (if n.flags.optional then "?.(" else "(") ::
      commaSeparated (args.map .node) ++ [.text ")"]
  | .text code => [.text code]
  | .moduleRef store _ => [.node store]
  | .resourceRef store _ _ => [.node store]
  | .slot (some target) => [.node target]
  | _ => []

structure Graph where
  nodes : Array Node := #[]
  moduleStore : Option NodeId := none
  resourceStore : Option NodeId := none

namespace Graph

def size (g : Graph) : Nat := g.nodes.size

def node? (g : Graph) (e : NodeId) : Option Node := g.nodes[e]?

def scopeOf (g : Graph) (e : NodeId) : Scope := (g.node? e).bind (·.scope)

def flagsOf (g : Graph) (e : NodeId) : Flags := ((g.node? e).map (·.flags)).getD {}

def kindOf? (g : Graph) (e : NodeId) : Option Kind := (g.node? e).map (·.kind)

/-- The nodes that `e` refers to, in the order of its parts and with repetitions. -/
def children (g : Graph) (e : NodeId) : List NodeId :=
  match g.node? e with
  | some n => n.template.filterMap Part.node?
  | none => []

/-- The parameters of a function. -/
def params (g : Graph) (f : NodeId) : List NodeId :=
  match g.kindOf? f with
  | some (.function arity _) => List.range' (f + 1) arity
  | _ => []

def isFunction (g : Graph) (e : NodeId) : Bool :=
  match g.kindOf? e with
  | some (.function ..) => true
  | _ => false

def isParameter (g : Graph) (e : NodeId) : Bool :=
  match g.kindOf? e with
  | some (.parameter _) => true
  | _ => false

/-- The body of a function, once it is built. -/
def body? (g : Graph) (f : NodeId) : Option Body :=
  match g.kindOf? f with
  | some (.function _ (.ready body)) => some body
  | _ => none

def isUnfilledSlot (g : Graph) (e : NodeId) : Bool :=
  match g.kindOf? e with
  | some (.slot none) => true
  | _ => false

def label (g : Graph) (e : NodeId) : NodeLabel := ((g.kindOf? e).map Kind.label).getD .raw

/-- Appends a node; its handle is the old size. -/
def push (g : Graph) (n : Node) : Graph := { g with nodes := g.nodes.push n }

/-- Appends a function without a body, and its parameters. -/
def pushFunction (g : Graph) (scope : Scope) (arity : Nat) : Graph :=
  let f := g.size
  let params := (List.range arity).map fun i => (⟨some f, .literal, .parameter i⟩ : Node)
  { g with nodes := g.nodes.push ⟨scope, {}, .function arity .pending⟩ ++ params.toArray }

def setKind (g : Graph) (e : NodeId) (kind : Kind) : Graph :=
  { g with nodes := g.nodes.modify e fun n => { n with kind } }

/-- Changes the state of a function's body. -/
def setBodyState (g : Graph) (f : NodeId) (state : BodyState) : Graph :=
  match g.kindOf? f with
  | some (.function arity _) => g.setKind f (.function arity state)
  | _ => g

/-- A scope and the scopes around it, innermost first. A scope is older than what is inside it. -/
def scopeChain (g : Graph) : Scope → List Scope
  | none => [none]
  | some f =>
    match g.scopeOf f with
    | none => [some f, none]
    | some outer => if outer < f then some f :: g.scopeChain (some outer) else [some f]
termination_by s => s.getD 0

/-- Whether `inner` is `outer` or nested inside it. -/
def isWithin (g : Graph) (inner outer : Scope) : Bool := (g.scopeChain inner).contains outer

end Graph

end ScriptGraph
