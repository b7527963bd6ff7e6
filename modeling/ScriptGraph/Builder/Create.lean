import ScriptGraph.Builder.Recipe
import ScriptGraph.Text.Basic

/-!
# Single builder operations

* `BuilderState.create` : makes a drafted node in the current scope;
* `BuilderState.makeFunction` : makes a function and its parameters;
* `BuilderState.fill` : directs a slot to its target.

The two stores are made at the first reference to them, always at the top level.
-/

namespace ScriptGraph.BuilderState

variable {σ : Type}

/-- Appends a node in a given scope. -/
def push (s : BuilderState σ) (scope : Scope) (flags : Flags) (kind : Kind) :
    NodeId × BuilderState σ :=
  (s.graph.size, { s with graph := s.graph.push ⟨scope, flags, kind⟩ })

/-- Appends a node in the current scope. -/
def make (s : BuilderState σ) (flags : Flags) (kind : Kind) : NodeId × BuilderState σ :=
  s.push s.scope flags kind

def warn (s : BuilderState σ) (w : Warning) : BuilderState σ :=
  { s with warnings := s.warnings ++ [w] }

def anyReadsResource (s : BuilderState σ) (es : List NodeId) : Bool :=
  es.any fun e => (s.graph.flagsOf e).readsResource

/-- The node that stands for all modules. -/
def moduleStore (s : BuilderState σ) : NodeId × BuilderState σ :=
  match s.graph.moduleStore with
  | some e => (e, s)
  | none =>
    let (e, s) := s.push none { pinned := true, awaits := true } .moduleStore
    (e, { s with graph := { s.graph with moduleStore := some e } })

/-- The node that stands for all resources. -/
def resourceStore (s : BuilderState σ) : NodeId × BuilderState σ :=
  match s.graph.resourceStore with
  | some e => (e, s)
  | none =>
    let (e, s) := s.push none { pinned := true } .resourceStore
    (e, { s with graph := { s.graph with resourceStore := some e } })

def callFlags : CallStyle → Flags
  | .plain => {}
  | .optional => { optional := true }
  | .pure => .literal

/-- Makes a drafted node. -/
def create (s : BuilderState σ) : Draft → NodeId × BuilderState σ
  | .raw code => s.make {} (.text code)
  | .literal code => s.make .literal (.text code)
  | .ident name =>
    (if isIdentifier name then s else s.warn (.notAnIdentifier name)).make .literal (.text name)
  | .template parts awaits inert optional =>
    let readsResource := s.anyReadsResource (parts.filterMap Part.node?)
    s.make { awaits, inert, optional, readsResource } (.template parts)
  | .call callee args style =>
    let readsResource := s.anyReadsResource (callee :: args)
    s.make { callFlags style with readsResource } (.call callee args)
  | .moduleStore => s.moduleStore
  | .resourceStore => s.resourceStore
  | .module address =>
    let (store, s) := s.moduleStore
    s.make .literal (.moduleRef store address)
  | .resource key value =>
    let (store, s) := s.resourceStore
    s.make { inert := true, readsResource := true } (.resourceRef store key value)
  | .placeholder => s.make .literal .placeholder
  | .slot => s.make .literal (.slot none)

/-- Makes a function in the current scope, and its parameters. -/
def makeFunction (s : BuilderState σ) (arity : Nat) : NodeId × BuilderState σ :=
  (s.graph.size, { s with graph := s.graph.pushFunction s.scope arity })

/-- Directs an empty slot to its target. -/
def fill (s : BuilderState σ) (slot target : NodeId) : Except Fault Unit × BuilderState σ :=
  match s.graph.kindOf? slot with
  | some (.slot none) => (.ok (), { s with graph := s.graph.setKind slot (.slot (some target)) })
  | some (.slot (some _)) => (.error .slotRefilled, s)
  | _ => (.error .notASlot, s)

/-- Starts the construction of a function's body. -/
def enter (s : BuilderState σ) (f : NodeId) : BuilderState σ :=
  { s with graph := s.graph.setBodyState f .building, scopes := f :: s.scopes }

/-- Ends the construction of a function's body with its outcome. -/
def leave (s : BuilderState σ) (f : NodeId) (outcome : Except Fault Body) : BuilderState σ :=
  let state := match outcome with
    | .ok body => BodyState.ready body
    | .error fault => .failed fault
  { s with graph := s.graph.setBodyState f state, scopes := s.scopes.tail }

end ScriptGraph.BuilderState
