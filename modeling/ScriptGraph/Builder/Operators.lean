import ScriptGraph.Builder.Recipe
import ScriptGraph.Text.Basic

/-!
# Operators of script expressions

Templates for member access, calls, construction, assignment and suspension, as computations that
make one node (`Build.importFrom` makes two).
-/

namespace ScriptGraph.Build

variable {σ : Type}

/-- Script text that is evaluated once, however often it is used. -/
def raw (code : String) : Build σ NodeId := create (.raw code)

def ident (name : String) : Build σ NodeId := create (.ident name)

def template (parts : List Part) : Build σ NodeId := create (.template parts false false false)

/-- How a property is written after its object. -/
def memberAccess (property : String) (optional : Bool) : String :=
  match isIdentifier property, optional with
  | true, false => "." ++ property
  | true, true => "?." ++ property
  | false, false => "[" ++ quoted property ++ "]"
  | false, true => "?.[" ++ quoted property ++ "]"

def member (object : NodeId) (property : String) (optional : Bool) : Build σ NodeId :=
  create (.template [.node object, .text (memberAccess property optional)] false false optional)

def get (object : NodeId) (property : String) : Build σ NodeId := member object property false

def getOptional (object : NodeId) (property : String) : Build σ NodeId :=
  member object property true

def index (object key : NodeId) : Build σ NodeId :=
  template [.node object, .text "[", .node key, .text "]"]

def call (callee : NodeId) (args : List NodeId) : Build σ NodeId :=
  create (.call callee args .plain)

def callOptional (callee : NodeId) (args : List NodeId) : Build σ NodeId :=
  create (.call callee args .optional)

/-- A call whose result may be computed at every use. -/
def callPure (callee : NodeId) (args : List NodeId) : Build σ NodeId :=
  create (.call callee args .pure)

def construct (constructor : NodeId) (args : List NodeId) : Build σ NodeId :=
  template ([.text "new ", .node constructor, .text "("] ++ commaSeparated (args.map .node) ++
    [.text ")"])

def assign (target value : NodeId) : Build σ NodeId :=
  template [.node target, .text "=", .node value]

def await (e : NodeId) : Build σ NodeId :=
  create (.template [.text "await ", .node e] true false false)

/-- A named export of a module. -/
def importFrom (address exported : String) : Build σ NodeId := do
  let namespaceNode ← create (.module address)
  get namespaceNode exported

end ScriptGraph.Build
