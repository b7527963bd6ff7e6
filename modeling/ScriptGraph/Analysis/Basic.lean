import ScriptGraph.Analysis.Survey
import ScriptGraph.Analysis.Declarations

/-!
# Analysis of a body

A node depends on a resource when the nodes it is written with do; it awaits inline when something
awaited is written within it, not behind a declared name. A function's body is not part of the
function's value.

* `Graph.classify` : both properties of all nodes, children first;
* `Analysis` : which nodes are declared, where, in which order and under which names, and which
  scopes suspend;
* `Builder.analyze` : the analysis of the graph reachable from a body;
* `Build.analyze` : the same while another body is constructed, by `Builder.run_analyze`.
-/

namespace ScriptGraph

structure Classes where
  /-- Nodes whose value reads a resource. -/
  dependent : List NodeId
  /-- Nodes whose own text awaits. -/
  awaiting : List NodeId

namespace Graph

/-- Classifies nodes listed parents first. -/
def classify (g : Graph) (declared : List NodeId) : List NodeId → Classes
  | [] => ⟨[], []⟩
  | e :: rest =>
    let below := classify g declared rest
    let depends := (g.flagsOf e).readsResource || (g.children e).any below.dependent.contains
    let awaits := (g.flagsOf e).awaits ||
      (g.children e).any fun c => !declared.contains c && below.awaiting.contains c
    ⟨if depends then e :: below.dependent else below.dependent,
      if awaits then e :: below.awaiting else below.awaiting⟩

end Graph

/-- What is to be known about a graph before it is written. -/
structure Analysis where
  /-- The reachable nodes, as they were met. -/
  order : List NodeId
  settled : List Settled
  /-- The declared nodes, as they were met. -/
  declared : List NodeId
  classes : Classes
  /-- The declarations of the top level and of each function, in the order of writing. -/
  declarations : List (Scope × List NodeId)
  /-- The nodes with a name; the place in this list gives the name. -/
  named : List NodeId
  /-- What generated names begin with. -/
  stem : String
  /-- The scopes in whose text something is awaited. -/
  suspending : List Scope

namespace Analysis

/-- The declared nodes, as they were met. -/
def declaredNodes (order : List NodeId) (settled : List Settled) : List NodeId :=
  let declared := (settled.filter (·.declared)).map (·.node)
  order.filter declared.contains

def isDeclared (a : Analysis) (e : NodeId) : Bool := a.declared.contains e

/-- The generated name of a declared node or a parameter. -/
def name? (a : Analysis) (e : NodeId) : Option String :=
  (a.named.idxOf? e).map fun i => a.stem ++ base36 i

def declarationsOf (a : Analysis) (scope : Scope) : List NodeId :=
  (a.declarations.lookup scope).getD []

/-- Whether the value of a node reads a resource. -/
def readsResource (a : Analysis) (e : NodeId) : Bool := a.classes.dependent.contains e

/-- Declared as a function of no arguments, which reads its resources at each use. -/
def isAccessor (a : Analysis) (e : NodeId) : Bool :=
  a.isDeclared e && a.readsResource e && !a.classes.awaiting.contains e

def suspends (a : Analysis) (scope : Scope) : Bool := a.suspending.contains scope

end Analysis

namespace Graph

/-- The scopes that suspend because of a settled node: its own, and those it lands in unless it is
declared. -/
def suspendedBy (g : Graph) (s : Settled) : List Scope :=
  if (g.flagsOf s.node).awaits then
    g.scopeOf s.node :: (if s.declared then [] else s.landings.scopes)
  else []

/-- The analysis that the decisions on the reachable nodes lead to. -/
def analysisOf (g : Graph) (order : List NodeId) (settled : List Settled) (stem : String) :
    Analysis :=
  let nodes := Analysis.declaredNodes order settled
  let d : Declared := ⟨g, order, nodes⟩
  let scopes := none :: (order.filter g.isFunction).map some
  let declarations := scopes.map fun s => (s, d.ordered s)
  { order, settled, declarations, stem
    declared := nodes
    classes := g.classify nodes (settled.map (·.node))
    named := order.flatMap g.params ++ declarations.flatMap (·.2)
    suspending := settled.flatMap g.suspendedBy }

/-- The analysis of a body from which `order` can be reached. -/
def analysis (g : Graph) (body : Body) (order : List NodeId) (stem : String) :
    Except Fault Analysis :=
  (g.settle body.roots order).map fun settled => g.analysisOf order settled stem

/-- The empty slots outside the nodes of a list. -/
def idleSlots (g : Graph) (order : List NodeId) : List NodeId :=
  (List.range g.size).filter fun e => !order.contains e && g.isUnfilledSlot e

end Graph

namespace Builder

variable {σ : Type}

/-- Analyses the graph reachable from a body. Bodies of functions are constructed on the way, and
stay so when the analysis fails. -/
def analyze (b : Builder σ) (body : Body) (stem : String) : Except Fault Analysis × Builder σ :=
  match b.survey [] body.roots with
  | (.error fault, b) => (.error fault, b)
  | (.ok order, b) =>
    match b.state.graph.analysis body order stem with
    | .error fault => (.error fault, b)
    | .ok a => (.ok a, b.warn ((b.state.graph.idleSlots order).map .slotNeverFilled))

end Builder

namespace Build

variable {σ : Type}

/-- Analyses the graph reachable from a body, while another body is constructed. -/
def analyze (body : Body) (stem : String) : Build σ (Except Fault Analysis) := do
  match ← survey body.roots with
  | .error fault => return .error fault
  | .ok order =>
    let g := (← look).graph
    match g.analysis body order stem with
    | .error fault => return .error fault
    | .ok a =>
      warn ((g.idleSlots order).map .slotNeverFilled)
      return .ok a

end Build

/-- Inside a recipe a body is analysed as it is from outside. -/
theorem Builder.run_analyze {σ : Type} (body : Body) (stem : String)
    (next : Except Fault Analysis → Recipe σ) (b : Builder σ) :
    run (Build.analyze body stem next) b =
      run (next (b.analyze body stem).1) (b.analyze body stem).2 := by
  rcases h : b.survey [] body.roots with ⟨fault | order, c⟩
  · simp [Build.analyze, bind, pure, Build.survey, analyze, h]
  · rcases ha : c.state.graph.analysis body order stem with fault | a <;>
      simp [Build.analyze, bind, pure, Build.survey, Build.look, Build.warn, analyze, h, ha]

end ScriptGraph
