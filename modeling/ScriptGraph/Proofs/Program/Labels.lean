import ScriptGraph.Proofs.Program.Core

/-!
# What a program's nodes are made from

* `Label` : a piece of a program that a node is made from, with the functions around it;
* `Core.denote` : what an expression's node is made from; for a name this is what its innermost
  binder stands for;
* `Label.leadsTo` : what the nodes are made from that a node refers to;
* `CoreFunction.Meets` : what the nodes are made from that a program's roots lead to;
* `CoreFunction.Unbound` : a name is used in the body of a function that no body around binds.
-/

namespace ScriptGraph

/-- A piece of a program that a node is made from. The functions around it come with it, innermost
first; the last of them is the program. -/
inductive Label
  | code (outer : List CoreFunction) (c : Core)
  /-- A definition of the innermost function. -/
  | slot (around : List CoreFunction) (i : Nat)
  /-- A parameter of the innermost function. -/
  | parameter (around : List CoreFunction) (i : Nat)

namespace CoreFunction

/-- The parameters of a function. -/
def paramLabels (f : CoreFunction) (outer : List CoreFunction) : List Label :=
  (List.range f.params.length).map (.parameter (f :: outer))

/-- The definitions of a function. -/
def slotLabels (f : CoreFunction) (outer : List CoreFunction) : List Label :=
  (List.range f.definitions.length).map (.slot (f :: outer))

/-- The names of a function's body, with the pieces of the program they stand for. -/
def labels (f : CoreFunction) (outer : List CoreFunction) : Binders Label :=
  f.binders (.code outer (.function f)) (f.paramLabels outer) (f.slotLabels outer)

end CoreFunction

/-- The names of nested bodies, with the pieces of the program they stand for. -/
def scopeLabels : List CoreFunction → List (Binders Label)
  | [] => []
  | f :: outer => f.labels outer :: scopeLabels outer

/-- What an expression's node is made from. A name has no node of its own. -/
def Core.denote (around : List CoreFunction) : Core → Option Label
  | .use name => innermost (scopeLabels around) name
  | c => some (.code around c)

def CorePart.core? : CorePart → Option Core
  | .text _ => none
  | .node c => some c

/-- The expressions that an expression's node refers to. -/
def Core.operands : Core → List Core
  | .template parts _ _ => parts.filterMap CorePart.core?
  | .call callee args _ => callee :: args
  | _ => []

/-- What the nodes are made from that a node refers to. -/
def Label.leadsTo : Label → List Label
  | .code outer (.function f) => f.roots.filterMap (Core.denote (f :: outer))
  | .code outer c => c.operands.filterMap (Core.denote outer)
  | .slot (f :: outer) i =>
    (f.definitions[i]?.bind fun d => d.value.denote (f :: outer)).toList
  | .slot [] _ => []
  | .parameter _ _ => []

/-- What the nodes are made from that the roots of a program lead to. -/
inductive CoreFunction.Meets (p : CoreFunction) : Label → Prop
  | root {c : Core} {l : Label} (hc : c ∈ p.roots) (hl : c.denote [p] = some l) : Meets p l
  | step {l l' : Label} (h : Meets p l) (hl : l' ∈ l.leadsTo) : Meets p l'

/-! ## Unbound names -/

mutual

/-- The names that an expression uses, apart from those in the bodies of functions. -/
def Core.uses : Core → List String
  | .leaf _ _ => []
  | .template parts _ _ => partsUses parts
  | .call callee args _ => callee.uses ++ coresUses args
  | .function _ => []
  | .use name => [name]

def coresUses : List Core → List String
  | [] => []
  | c :: rest => c.uses ++ coresUses rest

def CorePart.uses : CorePart → List String
  | .text _ => []
  | .node c => c.uses

def partsUses : List CorePart → List String
  | [] => []
  | p :: rest => p.uses ++ partsUses rest

end

/-- The names that the body of a function uses, apart from those in the bodies of other functions.
-/
def CoreFunction.uses (f : CoreFunction) : List String :=
  coresUses (f.definitions.map CoreDefinition.value) ++ coresUses f.roots

/-- No body around binds the name. -/
def Free (around : List CoreFunction) (name : String) : Prop :=
  innermost (scopeLabels around) name = none

/-- The body of a function uses a name that neither it nor a body around it binds. -/
def CoreFunction.Unbound (f : CoreFunction) (outer : List CoreFunction) : Prop :=
  ∃ name ∈ f.uses, Free (f :: outer) name

instance (around : List CoreFunction) (name : String) : Decidable (Free around name) :=
  inferInstanceAs (Decidable (innermost (scopeLabels around) name = none))

instance (f : CoreFunction) (outer : List CoreFunction) : Decidable (f.Unbound outer) :=
  inferInstanceAs (Decidable (∃ name ∈ f.uses, Free (f :: outer) name))

/-- A definition in a function is not visible beside it. -/
example : (CoreFunction.mk none [] [] false
    [.function (.mk (some "f") ["x"] [.mk "y" (.use "x")] true [.use "y"]), .use "y"]).Unbound [] := by
  decide

end ScriptGraph
