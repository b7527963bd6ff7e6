import ScriptGraph.Analysis.Basic
import ScriptGraph.Emission.Fragment
import ScriptGraph.Emission.Position
import ScriptGraph.Store.Basic

/-!
# Writing an analysed graph as a tree

* `Layout` : a graph, its analysis, and how stores are referred to;
* `Layout.writeUse` : a use of a node, by name if it is declared and written out if not;
* `Layout.writeScript`, `Layout.writeEvaluation` : a whole script;
* `Layout.use`, `Layout.script`, `Layout.evaluation` : the trees alone.

No node is written within its own text. So each step into a node takes it out of the nodes that
may still be written, and the writing comes to an end.
-/

namespace ScriptGraph

/-- A graph that is to be written. -/
structure Layout where
  graph : Graph
  analysis : Analysis
  resourceMode : ResourceMode
  /-- The array through which placeholders are reached. -/
  placeholderArray : String

namespace Layout

def nameOf (l : Layout) (e : NodeId) : Except Fault String :=
  match l.analysis.name? e with
  | some name => .ok name
  | none => .error (.missingName e (l.graph.label e))

/-- The parameters of a function with their names. -/
def paramNames (l : Layout) (f : NodeId) : Except Fault (List (NodeId × String)) :=
  (l.graph.params f).mapM fun p => (l.nameOf p).map fun name => (p, name)

/-- The body of a function, which is built when the function was met. -/
def bodyOf (l : Layout) (f : NodeId) : Except Fault Body :=
  match l.graph.body? f with
  | some body => .ok body
  | none => .error .notAFunction

/-- The brackets around an index into the resource store. -/
def resourceBrackets (mode : ResourceMode) : String × String :=
  match mode with
  | .snapshot => ("[", "]")
  | .runtime => ("(", ")")

theorem length_erase_lt {e : NodeId} {within : List NodeId} (h : e ∈ within) :
    (within.erase e).length < within.length := by
  rw [List.length_erase_of_mem h]
  exact Nat.sub_lt (List.length_pos_of_mem h) Nat.one_pos

section Writing

/- What writing can do besides: it may fail, and `tell` is told of what a script mentions when it is
met. -/
variable {m : Type → Type} [Monad m] [MonadExcept Fault m]

mutual

/-- A use of `e`, when only the nodes of `within` may be written out. -/
def writeUse (l : Layout) (tell : Mention → m Unit) (within : List NodeId) (e : NodeId)
    (pos : Position) : m Fragment :=
  if l.analysis.isDeclared e then do
    let name ← MonadExcept.ofExcept (l.nameOf e)
    return .name e name (l.analysis.isAccessor e)
  else writeExpansion l tell within e pos
termination_by (within.length, 1, 0)

/-- The text of `e` itself. A module or a resource is told of before its store is written. -/
def writeExpansion (l : Layout) (tell : Mention → m Unit) (within : List NodeId) (e : NodeId)
    (pos : Position) : m Fragment :=
  if _h : e ∈ within then
    match l.graph.node? e with
    | none => throw .cyclicGraph
    | some n =>
      match n.kind with
      | .function _ _ => do
        let params ← MonadExcept.ofExcept (l.paramNames e)
        let body ← MonadExcept.ofExcept (l.bodyOf e)
        let body ← writeBlock l tell (within.erase e) (some e) body
        return .lambda e (pos = .operand) (l.analysis.suspends (some e)) params body
      | .parameter _ => do
        let name ← MonadExcept.ofExcept (l.nameOf e)
        return .name e name false
      | .moduleRef store address => do
        tell (.module address)
        let pieces ← writeParts l tell (within.erase e) (positioned pos [.node store, .text "["])
        return .expansion e false (pieces ++ [.moduleIndex address, .text "]"])
      | .resourceRef store key value => do
        let (opening, closing) := resourceBrackets l.resourceMode
        tell (.resource key value)
        let pieces ← writeParts l tell (within.erase e)
          (positioned pos [.node store, .text opening])
        return .expansion e false (pieces ++ [.resourceIndex key value, .text closing])
      | .placeholder => do
        tell (.placeholder e)
        return .expansion e false
          [.text l.placeholderArray, .text "[", .placeholderIndex e, .text "]"]
      | .moduleStore => do
        tell .moduleStore
        return .expansion e false [.moduleStore]
      | .resourceStore => do
        tell .resourceStore
        return .expansion e false [.resourceStore]
      | .slot none => throw .unfilledSlot
      | .template _ => do
        let pieces ← writeParts l tell (within.erase e) (positioned pos n.template)
        return .expansion e (n.flags.awaits && pos = .operand) pieces
      | _ => do
        let pieces ← writeParts l tell (within.erase e) (positioned pos n.template)
        return .expansion e false pieces
  else throw .cyclicGraph
termination_by (within.length, 0, 0)
decreasing_by all_goals exact Prod.Lex.left _ _ (length_erase_lt _h)

/-- The parts of a node, each at its position. -/
def writeParts (l : Layout) (tell : Mention → m Unit) (within : List NodeId) :
    List (Part × Position) → m (List Fragment)
  | [] => return []
  | (.text t, _) :: rest => do
    let fragments ← writeParts l tell within rest
    return .text t :: fragments
  | (.node e, pos) :: rest => do
    let fragment ← writeUse l tell within e pos
    let fragments ← writeParts l tell within rest
    return fragment :: fragments
termination_by ps => (within.length, 2, ps.length)

/-- Declarations with their initializers. -/
def writeDeclarations (l : Layout) (tell : Mention → m Unit) (within : List NodeId) :
    List NodeId → m (List Declaration)
  | [] => return []
  | e :: rest => do
    let name ← MonadExcept.ofExcept (l.nameOf e)
    let initializer ← writeExpansion l tell within e .standalone
    let ds ← writeDeclarations l tell within rest
    return .mk e name (l.analysis.isAccessor e) initializer :: ds
termination_by es => (within.length, 2, es.length)

/-- The body of a function or of the top level, with the declarations of its scope. -/
def writeBlock (l : Layout) (tell : Mention → m Unit) (within : List NodeId) (scope : Scope)
    (body : Body) : m Block := do
  let ds ← writeDeclarations l tell within (l.analysis.declarationsOf scope)
  match body with
  | .value root =>
    let result ← writeUse l tell within root .standalone
    return .value ds result
  | .statements roots =>
    let list ← writeParts l tell within (roots.map fun e => (.node e, .standalone))
    return .statements ds list
termination_by (within.length, 3, 0)

end

/-- A script that runs its statements after the declarations of the top level. -/
def writeScript (l : Layout) (tell : Mention → m Unit) (roots : List NodeId) : m Output := do
  let within := l.analysis.order
  let ds ← l.writeDeclarations tell within (l.analysis.declarationsOf none)
  let list ← l.writeParts tell within (roots.map fun e => (.node e, .standalone))
  return .script ds list

/-- A script that evaluates to the value of `root`. -/
def writeEvaluation (l : Layout) (tell : Mention → m Unit) (root : NodeId) : m Output := do
  let body ← l.writeBlock tell l.analysis.order none (.value root)
  return .evaluation body

end Writing

/-! ## Trees

The tree of a script is what is written while nobody listens. -/

/-- Writing that tells nobody of anything. -/
def silent (_ : Mention) : Except Fault Unit := .ok ()

def use (l : Layout) (within : List NodeId) (e : NodeId) (pos : Position) : Except Fault Fragment :=
  l.writeUse silent within e pos

def expansion (l : Layout) (within : List NodeId) (e : NodeId) (pos : Position) :
    Except Fault Fragment :=
  l.writeExpansion silent within e pos

def parts (l : Layout) (within : List NodeId) (ps : List (Part × Position)) :
    Except Fault (List Fragment) :=
  l.writeParts silent within ps

def declarations (l : Layout) (within : List NodeId) (es : List NodeId) :
    Except Fault (List Declaration) :=
  l.writeDeclarations silent within es

def block (l : Layout) (within : List NodeId) (scope : Scope) (body : Body) : Except Fault Block :=
  l.writeBlock silent within scope body

def script (l : Layout) (roots : List NodeId) : Except Fault Output := l.writeScript silent roots

def evaluation (l : Layout) (root : NodeId) : Except Fault Output := l.writeEvaluation silent root

end Layout

end ScriptGraph
