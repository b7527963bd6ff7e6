import ScriptGraph.Graph.Basic

/-!
# Written scripts as trees

* `Fragment` : a piece of a written script, which still knows the node it comes from;
* `Block`, `Declaration` : a function's body and the declarations at its head;
* `Output` : a whole script, as statements or as one expression to evaluate;
* `Mention` : what a script mentions besides its own names: modules, resources, placeholders and
  the contents of the stores; `Output.mentions` lists them in the order of the text.
-/

namespace ScriptGraph

mutual

/-- A piece of a written script. -/
inductive Fragment
  | text (code : String)
  /-- The index of a module in its store. -/
  | moduleIndex (address : String)
  /-- The index of a resource in its store. -/
  | resourceIndex (key : String) (value : ResourceValue)
  | placeholderIndex (e : NodeId)
  /-- Where the contents of the module store go. -/
  | moduleStore
  | resourceStore
  /-- The name of a declared node or of a parameter. An accessor is called. -/
  | name (e : NodeId) (name : String) (accessor : Bool)
  /-- A node written out, in parentheses if `enclosed`. -/
  | expansion (e : NodeId) (enclosed : Bool) (pieces : List Fragment)
  | lambda (e : NodeId) (enclosed suspends : Bool) (params : List (NodeId × String)) (body : Block)

/-- A function's body. -/
inductive Block
  | value (declarations : List Declaration) (result : Fragment)
  | statements (declarations : List Declaration) (list : List Fragment)

/-- A name and what it is set to. -/
inductive Declaration
  | mk (e : NodeId) (name : String) (accessor : Bool) (initializer : Fragment)

end

/-- A whole script. -/
inductive Output
  | script (declarations : List Declaration) (list : List Fragment)
  | evaluation (body : Block)

/-- What a script mentions besides its own names. -/
inductive Mention
  | module (address : String)
  | resource (key : String) (value : ResourceValue)
  | placeholder (e : NodeId)
  /-- The contents of the module store. -/
  | moduleStore
  | resourceStore

mutual

def Fragment.mentions : Fragment → List Mention
  | .moduleIndex address => [.module address]
  | .resourceIndex key value => [.resource key value]
  | .placeholderIndex e => [.placeholder e]
  | .moduleStore => [.moduleStore]
  | .resourceStore => [.resourceStore]
  | .expansion _ _ pieces => mentionsOfAll pieces
  | .lambda _ _ _ _ body => body.mentions
  | .text _ => []
  | .name .. => []

def mentionsOfAll : List Fragment → List Mention
  | [] => []
  | f :: rest => f.mentions ++ mentionsOfAll rest

def Block.mentions : Block → List Mention
  | .value declarations result => mentionsOfDeclarations declarations ++ result.mentions
  | .statements declarations list => mentionsOfDeclarations declarations ++ mentionsOfAll list

def Declaration.mentions : Declaration → List Mention
  | .mk _ _ _ initializer => initializer.mentions

def mentionsOfDeclarations : List Declaration → List Mention
  | [] => []
  | d :: rest => d.mentions ++ mentionsOfDeclarations rest

end

namespace Output

/-- What a script mentions, in the order of its text. -/
def mentions : Output → List Mention
  | .script declarations list => mentionsOfDeclarations declarations ++ mentionsOfAll list
  | .evaluation body => body.mentions

def usesModules (o : Output) : Bool :=
  o.mentions.any fun m => match m with
    | .moduleStore => true
    | _ => false

def usesResources (o : Output) : Bool :=
  o.mentions.any fun m => match m with
    | .resourceStore => true
    | _ => false

end Output

end ScriptGraph
