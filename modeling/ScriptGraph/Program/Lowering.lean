import ScriptGraph.Compile.Basic
import ScriptGraph.Host.Value
import ScriptGraph.Program.Codec

/-!
# Programs as graphs

* `Bindings` : the names in scope, innermost first;
* `Expression.lower` : the node of an expression; a function's body is lowered when it is asked for;
* `Program.recipe` : the recipe of a program's body;
* `Program.compile`, `compileProgram` : a program's script.

A definition is a slot, filled with the node of its value. So definitions can refer to each other
in any order, and one that is not used leaves no trace in the script.
-/

namespace ScriptGraph

/-- The names in scope, innermost first. -/
abbrev Bindings := List (String × NodeId)

namespace Bindings

/-- Binds names in order; a later one hides an earlier one. -/
def bind (names : List String) (nodes : List NodeId) (env : Bindings) : Bindings :=
  (names.zip nodes).foldl (fun env b => b :: env) env

/-- Binds the name of a function and its parameters. -/
def bindFunction (name : Option String) (me : NodeId) (params : List String)
    (args : List NodeId) (env : Bindings) : Bindings :=
  bind params args (bind name.toList [me] env)

end Bindings

section Lowering

variable {σ : Type}

/-- Empty slots. -/
def makeSlots : Nat → TryBuild σ (List NodeId)
  | 0 => return []
  | n + 1 => do
    let slot ← ExceptT.lift (Build.create .slot)
    let slots ← makeSlots n
    return slot :: slots

/-- A body with definitions: a slot for each name, then what fills the slots, then the body. -/
def withDefinitions (names : List String) (env : Bindings)
    (fillSlots : Bindings → List NodeId → TryBuild σ Unit) (body : Bindings → TryBuild σ Body) :
    TryBuild σ Body := do
  let slots ← makeSlots names.length
  let env := Bindings.bind names slots env
  fillSlots env slots
  body env

/-- Calls are optional or pure, not both. -/
def callStyle (optional pure : Bool) : CallStyle :=
  if optional then .optional else if pure then .pure else .plain

def TryBuild.recipe (x : TryBuild σ Body) : Recipe σ := Build.toRecipe x.run

mutual

/-- The node of an expression. -/
def Expression.lower (env : Bindings) : Expression → TryBuild σ NodeId
  | .value v => (HostValue.json v).toNode
  | .raw code => ExceptT.lift (Build.raw code)
  | .ident name => ExceptT.lift (Build.ident name)
  | .template parts => do
    let parts ← lowerParts env parts
    ExceptT.lift (Build.template parts)
  | .member object property optional => do
    let object ← object.lower env
    ExceptT.lift (Build.member object property optional)
  | .index object key => do
    let object ← object.lower env
    let key ← key.lower env
    ExceptT.lift (Build.index object key)
  | .call callee args optional pure => do
    let callee ← callee.lower env
    let args ← lowerAll env args
    ExceptT.lift (Build.create (.call callee args (callStyle optional pure)))
  | .construct callee args => do
    let callee ← callee.lower env
    let args ← lowerAll env args
    ExceptT.lift (Build.construct callee args)
  | .function name params definitions body =>
    ExceptT.lift <| Build.function params.length fun me args =>
      TryBuild.recipe <| withDefinitions (definitions.map Definition.name)
        (env.bindFunction name me params args)
        (fun env slots => fillDefinitions env slots definitions) (fun env => lowerForm env body)
  | .await value => do
    let value ← value.lower env
    ExceptT.lift (Build.await value)
  | .assign target value => do
    let target ← target.lower env
    let value ← value.lower env
    ExceptT.lift (Build.assign target value)
  | .module address none => ExceptT.lift (Build.create (.module address))
  | .module address (some exported) => ExceptT.lift (Build.importFrom address exported)
  | .resource key value => ExceptT.lift (Build.create (.resource key (.eager value)))
  | .placeholder => ExceptT.lift (Build.create .placeholder)
  | .use name =>
    match env.lookup name with
    | some e => return e
    | none => throw (.unknownName name)

def lowerAll (env : Bindings) : List Expression → TryBuild σ (List NodeId)
  | [] => return []
  | e :: rest => do
    let n ← e.lower env
    let ns ← lowerAll env rest
    return n :: ns

def TemplatePart.lower (env : Bindings) : TemplatePart → TryBuild σ Part
  | .text t => return .text t
  | .expression e => do
    let n ← e.lower env
    return .node n

def lowerParts (env : Bindings) : List TemplatePart → TryBuild σ (List Part)
  | [] => return []
  | p :: rest => do
    let q ← p.lower env
    let qs ← lowerParts env rest
    return q :: qs

def Form.lower (env : Bindings) : Form → TryBuild σ Body
  | .statements list => do
    let ns ← lowerAll env list
    return .statements ns
  | .value e => do
    let n ← e.lower env
    return .value n

/-- A body that is left out has no statements. -/
def lowerForm (env : Bindings) : Option Form → TryBuild σ Body
  | none => return .statements []
  | some form => form.lower env

def Definition.fill (env : Bindings) (slot : NodeId) : Definition → TryBuild σ Unit
  | .mk _ value => do
    let n ← value.lower env
    ExceptT.mk (Build.fill slot n)

/-- Fills the slots of definitions with the nodes of their values, in order. -/
def fillDefinitions (env : Bindings) (slots : List NodeId) : List Definition → TryBuild σ Unit
  | [] => return ()
  | d :: rest =>
    match slots with
    | [] => return ()
    | slot :: slots => do
      d.fill env slot
      fillDefinitions env slots rest

end

end Lowering

namespace Program

/-- The recipe of a program's body. -/
def recipe {σ : Type} (p : Program) : Recipe σ :=
  TryBuild.recipe <| withDefinitions (p.definitions.map Definition.name) []
    (fun env slots => fillDefinitions env slots p.definitions) (fun env => lowerForm env p.body)

/-- A program's script, and the warnings on the way. Its stores are its own. -/
def compile (p : Program) (o : Options) : Except Fault Compiled × List Warning :=
  match (Builder.empty ()).run p.recipe with
  | (.error fault, b) => (.error fault, b.state.warnings)
  | (.ok body, b) =>
    let (outcome, b) := b.compile body o {} o.resolver
    (outcome.result, b.state.warnings)

end Program

/-- The script of a program given as JSON text, with options given as JSON text. -/
def compileProgram (program : String) (options : Option String) :
    Except Fault Compiled × List Warning :=
  match Program.parse program, (options.map Options.parse).getD (.ok {}) with
  | .error fault, _ => (.error fault, [])
  | .ok _, .error fault => (.error fault, [])
  | .ok p, .ok o => p.compile o

end ScriptGraph
