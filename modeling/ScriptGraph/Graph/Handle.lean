/-!
# Handles of nodes

* `NodeId` : a node's place in the order of creation;
* `Scope` : the function a node was made in;
* `NodeLabel` : what a node is, as told to users.
-/

namespace ScriptGraph

/-- A node's handle: its place in the order of creation. -/
abbrev NodeId := Nat

/-- The function a node was made in; `none` is the top level. -/
abbrev Scope := Option NodeId

inductive NodeLabel
  | template
  | function
  | call
  | argument
  | raw
  | moduleRef
  | resourceRef
  | refPlaceholder
  | moduleStore
  | resourceStore
  | slot
deriving DecidableEq

def NodeLabel.text : NodeLabel → String
  | .template => "Template"
  | .function => "Function"
  | .call => "Call"
  | .argument => "Argument"
  | .raw => "Raw"
  | .moduleRef => "ModuleRef"
  | .resourceRef => "ResourceRef"
  | .refPlaceholder => "RefPlaceholder"
  | .moduleStore => "ModuleStore"
  | .resourceStore => "ResourceStore"
  | .slot => "Slot"

def Scope.text : Scope → String
  | none => "None"
  | some f => "Some(Expr(" ++ toString f ++ "))"

end ScriptGraph
