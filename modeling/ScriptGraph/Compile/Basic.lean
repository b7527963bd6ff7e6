import ScriptGraph.Analysis.Basic
import ScriptGraph.Compile.Options
import ScriptGraph.Digest.Sha256
import ScriptGraph.Emission.Layout
import ScriptGraph.Emission.Rendering
import ScriptGraph.Verification

/-!
# Compiling a body

* `Compiled` : a script with what its host needs to run it;
* `Outcome` : what a compilation leaves behind, whether or not it succeeds;
* `Ledger`, `Registering` : what is registered so far, and computations that add to it, also when
  they fail;
* `Layout.writeOutput` : writes a body in a mode, and `Layout.output` is its tree;
* `Graph.compile` : writes an analysed body, and registers what it mentions where it is met;
* `Builder.compile` : analyses a body and writes it;
* `Build.compile` : the same while another body is constructed, by `Builder.run_compile`.
-/

namespace ScriptGraph

/-- A script with what its host needs to run it. -/
structure Compiled where
  code : String
  /-- The addresses to load modules from, as indexed in the code. -/
  modules : List String
  /-- Keys and values of resources, as indexed in the code. -/
  resources : List (String × Json)
  /-- How many placeholders the code refers to. -/
  placeholders : Nat
  topLevelAwait : Bool
  /-- The SHA-256 digest of the code. -/
  hash : String

/-- What a compilation leaves behind. -/
structure Outcome where
  result : Except Fault Compiled
  stores : Stores
  /-- The keys of the resources whose values were produced, in this order. Who gave a resource is
  called to produce its value, and so sees this. -/
  produced : List String := []

/-- A compilation that fails before the stores change. -/
def Outcome.failed (fault : Fault) (stores : Stores) : Outcome := { result := .error fault, stores }

namespace Options

def access (o : Options) : Access where
  resourceMode := o.effectiveResourceMode
  resourceAccessor := o.resourceAccessor
  moduleParam := if o.mode = .evaluation then some o.moduleParam else none
  resourceParam := if o.mode = .evaluation then some o.resourceParam else none

def layout (o : Options) (g : Graph) (a : Analysis) : Layout where
  graph := g
  analysis := a
  resourceMode := o.effectiveResourceMode
  placeholderArray := o.placeholderArray

end Options

/-! ## Registering -/

/-- What is registered so far. -/
structure Ledger where
  links : Links
  /-- The keys of the resources whose values were produced. -/
  produced : List String

namespace Ledger

/-- The ledger when writing begins. -/
def opened (stores : Stores) : Ledger := ⟨⟨stores, []⟩, []⟩

/-- Registers one mention. The value of a resource is produced if its key is new. -/
def register (resolver : Resolver) (t : Ledger) (m : Mention) : Ledger where
  links := t.links.register resolver m
  produced := t.produced ++ producedKeys t.links.stores.keys [m]

end Ledger

/-- A computation that registers, and keeps what it has registered when it fails. -/
abbrev Registering (α : Type) := ExceptT Fault (StateM Ledger) α

def Registering.mention (resolver : Resolver) (m : Mention) : Registering Unit :=
  modify (·.register resolver m)

/-! ## Writing -/

/-- Writes a body in a mode. -/
def Layout.writeOutput {m : Type → Type} [Monad m] [MonadExcept Fault m] (l : Layout)
    (tell : Mention → m Unit) (mode : CompileMode) (body : Body) : m Output :=
  match mode, body with
  | .statements, body => l.writeScript tell body.roots
  | .evaluation, .value root => l.writeEvaluation tell root
  | .evaluation, .statements _ => throw .statementsInEvaluation

/-- The tree of a body in a mode. -/
def Layout.output (l : Layout) (mode : CompileMode) (body : Body) : Except Fault Output :=
  l.writeOutput silent mode body

/-- What a compilation leaves behind when its script is written. A script that does not pass
verification stays registered. -/
def Ledger.outcome (t : Ledger) (o : Options) (a : Analysis) (output : Output) : Outcome :=
  let text := output.render t.links (o.access.params output)
  let code := String.ofList (t.links.splice o.access output text)
  let compiled : Compiled := {
    code
    modules := t.links.stores.addresses
    resources := t.links.stores.resources
    placeholders := t.links.placeholders.length
    topLevelAwait := o.mode = .statements && a.suspends none
    hash := sha256Hex code }
  let verdict := if o.verify then verifyScript code o.nameStem else .ok ()
  { result := verdict.map fun _ => compiled
    stores := t.links.stores
    produced := t.produced }

/-- Writes an analysed body, and registers what is met on the way. Writing that fails leaves behind
what it has registered until then. -/
def Graph.compile (g : Graph) (a : Analysis) (body : Body) (o : Options) (stores : Stores)
    (resolver : Resolver) : Outcome :=
  match (o.layout g a).writeOutput (Registering.mention resolver) o.mode body (.opened stores) with
  | (.error fault, t) =>
    { result := .error fault, stores := t.links.stores, produced := t.produced }
  | (.ok output, t) => t.outcome o a output

namespace Builder

variable {σ : Type}

/-- Compiles a body. -/
def compile (b : Builder σ) (body : Body) (o : Options) (stores : Stores) (resolver : Resolver) :
    Outcome × Builder σ :=
  match o.check with
  | .error fault => (.failed fault stores, b)
  | .ok () =>
    match b.analyze body o.nameStem with
    | (.error fault, b) => (.failed fault stores, b)
    | (.ok a, b) => (b.state.graph.compile a body o stores resolver, b)

/-- Compiles nodes as statements, in order. -/
def toScript (b : Builder σ) (roots : List NodeId) (o : Options) (stores : Stores)
    (resolver : Resolver) : Outcome × Builder σ :=
  b.compile (.statements roots) { o with mode := .statements } stores resolver

/-- Compiles a node as a function that returns its value. -/
def toEvaluation (b : Builder σ) (root : NodeId) (o : Options) (stores : Stores)
    (resolver : Resolver) : Outcome × Builder σ :=
  b.compile (.value root) { o with mode := .evaluation } stores resolver

end Builder

namespace Build

variable {σ : Type}

/-- Compiles a body while another one is constructed. -/
def compile (body : Body) (o : Options) (stores : Stores) (resolver : Resolver) :
    Build σ Outcome := do
  match o.check with
  | .error fault => return .failed fault stores
  | .ok () =>
    match ← analyze body o.nameStem with
    | .error fault => return .failed fault stores
    | .ok a => return (← look).graph.compile a body o stores resolver

def toScript (roots : List NodeId) (o : Options) (stores : Stores) (resolver : Resolver) :
    Build σ Outcome :=
  compile (.statements roots) { o with mode := .statements } stores resolver

def toEvaluation (root : NodeId) (o : Options) (stores : Stores) (resolver : Resolver) :
    Build σ Outcome :=
  compile (.value root) { o with mode := .evaluation } stores resolver

end Build

/-- Inside a recipe a body is compiled as it is from outside. -/
theorem Builder.run_compile {σ : Type} (body : Body) (o : Options) (stores : Stores)
    (resolver : Resolver) (next : Outcome → Recipe σ) (b : Builder σ) :
    run (Build.compile body o stores resolver next) b =
      run (next (b.compile body o stores resolver).1) (b.compile body o stores resolver).2 := by
  rcases hc : o.check with fault | ⟨⟩
  · simp [Build.compile, pure, compile, hc]
  · rcases h : b.analyze body o.nameStem with ⟨fault | a, c⟩ <;>
      simp [Build.compile, bind, pure, Build.look, run_analyze, compile, hc, h]

end ScriptGraph
