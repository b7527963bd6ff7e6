import ScriptGraph.Proofs.Builder.Endings
import ScriptGraph.Proofs.Program.Binders
import ScriptGraph.Proofs.Program.Lexical

/-!
# Programs in core form

Apart from functions and names, every expression is a template, a call or a leaf. In this form a
program is lowered with the bodies around a place in place of a list of names.

* `Core` : expressions in core form;
* `Expression.core`, `Program.core` : the core form of an expression and of a program;
* `Core.lower` : the node of an expression, where a name stands for what the innermost body that
  binds it says;
* `Program.recipe_eq_core` : a program's recipe is that of its core form.
-/

namespace ScriptGraph

/-- The draft of a node without operands. -/
def Draft.IsLeaf : Draft → Prop
  | .raw _ => True
  | .literal _ => True
  | .ident _ => True
  | .module _ => True
  | .resource _ _ => True
  | .placeholder => True
  | _ => False

mutual

/-- Expressions in core form. -/
inductive Core
  | leaf (draft : Draft) (h : draft.IsLeaf)
  | template (parts : List CorePart) (awaits optional : Bool)
  | call (callee : Core) (args : List Core) (style : CallStyle)
  | function (f : CoreFunction)
  | use (name : String)

inductive CorePart
  | text (t : String)
  | node (c : Core)

/-- A function, or the whole program. -/
inductive CoreFunction
  | mk (name : Option String) (params : List String) (definitions : List CoreDefinition)
    (returns : Bool) (roots : List Core)

inductive CoreDefinition
  | mk (name : String) (value : Core)

end

namespace CoreDefinition

def name : CoreDefinition → String
  | .mk name _ => name

def value : CoreDefinition → Core
  | .mk _ value => value

end CoreDefinition

namespace CoreFunction

def name : CoreFunction → Option String
  | .mk name _ _ _ _ => name

def params : CoreFunction → List String
  | .mk _ params _ _ _ => params

def definitions : CoreFunction → List CoreDefinition
  | .mk _ _ definitions _ _ => definitions

def returns : CoreFunction → Bool
  | .mk _ _ _ returns _ => returns

def roots : CoreFunction → List Core
  | .mk _ _ _ _ roots => roots

/-- The names of a body, with what the function, its parameters and its definitions stand for. -/
def binders {α : Type} (f : CoreFunction) (me : α) (args slots : List α) : Binders α where
  definitions := (f.definitions.map CoreDefinition.name).zip slots
  params := f.params.zip args
  self := f.name.toList.zip [me]

end CoreFunction

/-- The body that runs, or returns, some nodes. -/
def Body.ofRoots (returns : Bool) : List NodeId → Body
  | [root] => if returns then .value root else .statements [root]
  | roots => .statements roots

theorem Body.roots_ofRoots (returns : Bool) (es : List NodeId) :
    (Body.ofRoots returns es).roots = es := by
  unfold ofRoots
  split
  · split <;> rfl
  · rfl

theorem Body.ofRoots_false (es : List NodeId) : Body.ofRoots false es = .statements es := by
  unfold ofRoots
  split <;> rfl

/-! ## The core form of programs -/

/-- Operands with a comma between any two. -/
def separatedByCommas : List Core → List CorePart
  | [] => []
  | [c] => [.node c]
  | c :: rest => .node c :: .text "," :: separatedByCommas rest

mutual

def Expression.core : Expression → Core
  | .value v =>
    if v.isComposite then .leaf (.raw v.literal) trivial else .leaf (.literal v.literal) trivial
  | .raw code => .leaf (.raw code) trivial
  | .ident name => .leaf (.ident name) trivial
  | .template parts => .template (coreParts parts) false false
  | .member object property optional =>
    .template [.node object.core, .text (Build.memberAccess property optional)] false optional
  | .index object key =>
    .template [.node object.core, .text "[", .node key.core, .text "]"] false false
  | .call callee args optional pure => .call callee.core (cores args) (callStyle optional pure)
  | .construct callee args =>
    .template ([.text "new ", .node callee.core, .text "("] ++ separatedByCommas (cores args) ++
      [.text ")"]) false false
  | .function name params definitions body =>
    .function (.mk name params (coreDefinitions definitions) (returnsForm body) (coreForm body))
  | .await value => .template [.text "await ", .node value.core] true false
  | .assign target value =>
    .template [.node target.core, .text "=", .node value.core] false false
  | .module address none => .leaf (.module address) trivial
  | .module address (some exported) =>
    .template [.node (.leaf (.module address) trivial), .text (Build.memberAccess exported false)]
      false false
  | .resource key value => .leaf (.resource key (.eager value)) trivial
  | .placeholder => .leaf .placeholder trivial
  | .use name => .use name

def cores : List Expression → List Core
  | [] => []
  | e :: rest => e.core :: cores rest

def coreParts : List TemplatePart → List CorePart
  | [] => []
  | .text t :: rest => .text t :: coreParts rest
  | .expression e :: rest => .node e.core :: coreParts rest

def returnsForm : Option Form → Bool
  | some (.value _) => true
  | _ => false

def coreForm : Option Form → List Core
  | none => []
  | some (.statements list) => cores list
  | some (.value e) => [e.core]

def coreDefinitions : List Definition → List CoreDefinition
  | [] => []
  | .mk name value :: rest => .mk name value.core :: coreDefinitions rest

end

/-- The core form of a program, as a function without name and parameters. -/
def Program.core (p : Program) : CoreFunction :=
  .mk none [] (coreDefinitions p.definitions) (returnsForm p.body) (coreForm p.body)

/-! ## Lowering -/

section Lowering

variable {σ : Type}

mutual

/-- The node of an expression with some bodies around it. -/
def Core.lower (bodies : List (Binders NodeId)) : Core → TryBuild σ NodeId
  | .leaf draft _ => ExceptT.lift (Build.create draft)
  | .template parts awaits optional => do
    let ps ← lowerCoreParts bodies parts
    ExceptT.lift (Build.create (.template ps awaits false optional))
  | .call callee args style => do
    let e ← callee.lower bodies
    let es ← lowerCores bodies args
    ExceptT.lift (Build.create (.call e es style))
  | .function f => ExceptT.lift <| Build.function f.params.length fun me args =>
      TryBuild.recipe (f.lower bodies me args)
  | .use name =>
    match innermost bodies name with
    | some e => return e
    | none => throw (.unknownName name)

def lowerCores (bodies : List (Binders NodeId)) : List Core → TryBuild σ (List NodeId)
  | [] => return []
  | c :: rest => do
    let e ← c.lower bodies
    let es ← lowerCores bodies rest
    return e :: es

def CorePart.lower (bodies : List (Binders NodeId)) : CorePart → TryBuild σ Part
  | .text t => return .text t
  | .node c => do
    let e ← c.lower bodies
    return .node e

def lowerCoreParts (bodies : List (Binders NodeId)) : List CorePart → TryBuild σ (List Part)
  | [] => return []
  | p :: rest => do
    let q ← p.lower bodies
    let qs ← lowerCoreParts bodies rest
    return q :: qs

/-- The body of a function with its handle and parameters, and some bodies around it. -/
def CoreFunction.lower (bodies : List (Binders NodeId)) (me : NodeId) (args : List NodeId) :
    CoreFunction → TryBuild σ Body
  | .mk name params definitions returns roots => do
    let slots ← makeSlots definitions.length
    let bodies := (CoreFunction.mk name params definitions returns roots).binders me args slots ::
      bodies
    fillCoreDefinitions bodies slots definitions
    let es ← lowerCores bodies roots
    return .ofRoots returns es

def CoreDefinition.fill (bodies : List (Binders NodeId)) (slot : NodeId) :
    CoreDefinition → TryBuild σ Unit
  | .mk _ value => do
    let e ← value.lower bodies
    ExceptT.mk (Build.fill slot e)

def fillCoreDefinitions (bodies : List (Binders NodeId)) (slots : List NodeId) :
    List CoreDefinition → TryBuild σ Unit
  | [] => return ()
  | d :: rest =>
    match slots with
    | [] => return ()
    | slot :: slots => do
      d.fill bodies slot
      fillCoreDefinitions bodies slots rest

end

theorem CoreFunction.lower_eq (f : CoreFunction) (bodies : List (Binders NodeId)) (me : NodeId)
    (args : List NodeId) : (f.lower bodies me args : TryBuild σ Body) = do
      let slots ← makeSlots f.definitions.length
      fillCoreDefinitions (f.binders me args slots :: bodies) slots f.definitions
      let es ← lowerCores (f.binders me args slots :: bodies) f.roots
      return .ofRoots f.returns es := by
  cases f
  rfl

/-- The recipe of a program in core form. -/
def CoreFunction.recipe (p : CoreFunction) : Recipe σ := TryBuild.recipe (p.lower [] 0 [])

/-! ## Both ways of lowering -/

theorem lowerCoreParts_append (bodies : List (Binders NodeId)) (ps qs : List CorePart) :
    (lowerCoreParts bodies (ps ++ qs) : TryBuild σ _) = do
      let as ← lowerCoreParts bodies ps
      let bs ← lowerCoreParts bodies qs
      return as ++ bs := by
  induction ps with
  | nil => simp [lowerCoreParts]
  | cons p ps ih => simp [lowerCoreParts, ih]

theorem lowerCoreParts_separatedByCommas (bodies : List (Binders NodeId)) (cs : List Core) :
    (lowerCoreParts bodies (separatedByCommas cs) : TryBuild σ _) = do
      let es ← lowerCores bodies cs
      return commaSeparated (es.map .node) := by
  induction cs using separatedByCommas.induct with
  | case1 => simp [separatedByCommas, lowerCoreParts, lowerCores, commaSeparated]
  | case2 c =>
    simp [separatedByCommas, lowerCoreParts, CorePart.lower, lowerCores, commaSeparated]
  | case3 c rest hrest ih =>
    rw [separatedByCommas, lowerCoreParts, lowerCoreParts, ih]
    · cases rest with
      | nil => exact absurd rfl hrest
      | cons d rest => simp [CorePart.lower, lowerCores, commaSeparated]
    · exact hrest

theorem bindingsOf_binders (f : CoreFunction) (me : NodeId) (args slots : List NodeId)
    (bodies : List (Binders NodeId)) :
    Bindings.bind (f.definitions.map CoreDefinition.name) slots
      ((bindingsOf bodies).bindFunction f.name me f.params args) =
    bindingsOf (f.binders me args slots :: bodies) := by
  simp [Bindings.bindFunction, Bindings.bind_eq, bindingsOf, Binders.bindings, CoreFunction.binders]

theorem coreDefinitions_names (ds : List Definition) :
    (coreDefinitions ds).map CoreDefinition.name = ds.map Definition.name := by
  induction ds with
  | nil => rfl
  | cons d rest ih =>
    cases d with
    | mk name value => exact congrArg (name :: ·) ih

/-- A body is lowered as its core form when its definitions and its form are. -/
theorem withDefinitions_core (bodies : List (Binders NodeId)) (name : Option String)
    (params : List String) (definitions : List Definition) (body : Option Form) (me : NodeId)
    (args : List NodeId)
    (hfill : ∀ (bodies : List (Binders NodeId)) (slots : List NodeId),
      (fillDefinitions (bindingsOf bodies) slots definitions : TryBuild σ _) =
        fillCoreDefinitions bodies slots (coreDefinitions definitions))
    (hform : ∀ bodies : List (Binders NodeId),
      (lowerForm (bindingsOf bodies) body : TryBuild σ _) = do
        let es ← lowerCores bodies (coreForm body)
        return .ofRoots (returnsForm body) es) :
    (loweredBody (bindingsOf bodies) name params definitions body me args : TryBuild σ Body) =
      (CoreFunction.mk name params (coreDefinitions definitions) (returnsForm body)
        (coreForm body)).lower bodies me args := by
  have hnames := coreDefinitions_names definitions
  have hbind (slots : List NodeId) := bindingsOf_binders (.mk name params
    (coreDefinitions definitions) (returnsForm body) (coreForm body)) me args slots bodies
  simp only [CoreFunction.name, CoreFunction.params, CoreFunction.definitions, hnames] at hbind
  rw [loweredBody, withDefinitions, CoreFunction.lower, ← hnames, List.length_map, hnames]
  simp only [hbind, hfill, hform]

mutual

/-- With some bodies around it an expression is lowered as its core form. -/
theorem Expression.lower_core (bodies : List (Binders NodeId)) :
    ∀ x : Expression, (x.lower (bindingsOf bodies) : TryBuild σ _) = x.core.lower bodies
  | .value v => by
    rw [Expression.lower, HostValue.toNode, Expression.core]
    split <;> rfl
  | .raw code => rfl
  | .ident name => rfl
  | .template parts => by
    rw [Expression.lower, Expression.core, Core.lower, lowerParts_core bodies parts]
    rfl
  | .member object property optional => by
    simp only [Expression.lower, Expression.core, Core.lower, lowerCoreParts, CorePart.lower,
      object.lower_core bodies, bind_assoc, pure_bind]
    rfl
  | .index object key => by
    simp only [Expression.lower, Expression.core, Core.lower, lowerCoreParts, CorePart.lower,
      object.lower_core bodies, key.lower_core bodies, bind_assoc, pure_bind]
    rfl
  | .call callee args optional pure => by
    rw [Expression.lower, Expression.core, Core.lower, callee.lower_core bodies,
      lowerAll_core bodies args]
  | .construct callee args => by
    simp only [Expression.lower, Expression.core, Core.lower, lowerCoreParts_append,
      lowerCoreParts_separatedByCommas, lowerCoreParts, CorePart.lower, callee.lower_core bodies,
      lowerAll_core bodies args, bind_assoc, pure_bind]
    rfl
  | .function name params definitions body => by
    rw [Expression.lower, Expression.core, Core.lower]
    congr 2
    funext me args
    exact congrArg _ <| withDefinitions_core bodies name params definitions body me args
      (fun bodies slots => fillDefinitions_core bodies definitions slots)
      (fun bodies => lowerForm_core bodies body)
  | .await value => by
    simp only [Expression.lower, Expression.core, Core.lower, lowerCoreParts, CorePart.lower,
      value.lower_core bodies, bind_assoc, pure_bind]
    rfl
  | .assign target value => by
    simp only [Expression.lower, Expression.core, Core.lower, lowerCoreParts, CorePart.lower,
      target.lower_core bodies, value.lower_core bodies, bind_assoc, pure_bind]
    rfl
  | .module address none => rfl
  | .module address (some exported) => by
    simp only [Expression.lower, Expression.core, Core.lower, lowerCoreParts, CorePart.lower,
      bind_assoc, pure_bind]
    rfl
  | .resource key value => rfl
  | .placeholder => rfl
  | .use name =>
    congrArg (fun found : Option NodeId =>
        (match found with
        | some e => return e
        | none => throw (.unknownName name) : TryBuild σ NodeId))
      (lookup_bindingsOf bodies name)

theorem lowerAll_core (bodies : List (Binders NodeId)) : ∀ xs : List Expression,
    (lowerAll (bindingsOf bodies) xs : TryBuild σ _) = lowerCores bodies (cores xs)
  | [] => rfl
  | x :: xs => by
    rw [lowerAll, cores, lowerCores, x.lower_core bodies, lowerAll_core bodies xs]

theorem lowerParts_core (bodies : List (Binders NodeId)) : ∀ ps : List TemplatePart,
    (lowerParts (bindingsOf bodies) ps : TryBuild σ _) = lowerCoreParts bodies (coreParts ps)
  | [] => rfl
  | .text t :: ps => by
    rw [lowerParts, coreParts, lowerCoreParts, lowerParts_core bodies ps]
    rfl
  | .expression x :: ps => by
    rw [lowerParts, coreParts, lowerCoreParts, lowerParts_core bodies ps, TemplatePart.lower,
      CorePart.lower, x.lower_core bodies]

theorem lowerForm_core (bodies : List (Binders NodeId)) : ∀ body : Option Form,
    (lowerForm (bindingsOf bodies) body : TryBuild σ _) = do
      let es ← lowerCores bodies (coreForm body)
      return .ofRoots (returnsForm body) es
  | none => rfl
  | some (.statements list) => by
    rw [lowerForm, Form.lower, coreForm, lowerAll_core bodies list]
    simp only [returnsForm, Body.ofRoots_false]
  | some (.value x) => by
    simp only [lowerForm, Form.lower, coreForm, lowerCores, x.lower_core bodies, bind_assoc,
      pure_bind]
    rfl

theorem fillDefinitions_core (bodies : List (Binders NodeId)) : ∀ (ds : List Definition)
    (slots : List NodeId), (fillDefinitions (bindingsOf bodies) slots ds : TryBuild σ _) =
      fillCoreDefinitions bodies slots (coreDefinitions ds)
  | [], _ => by rw [fillDefinitions, coreDefinitions, fillCoreDefinitions]
  | .mk name value :: ds, [] => by
    rw [fillDefinitions, coreDefinitions, fillCoreDefinitions]
  | .mk name value :: ds, slot :: slots => by
    rw [fillDefinitions, coreDefinitions, fillCoreDefinitions, Definition.fill,
      CoreDefinition.fill, value.lower_core bodies, fillDefinitions_core bodies ds slots]

end

/-- **A program's recipe is that of its core form**. -/
theorem Program.recipe_eq_core (p : Program) : (p.recipe : Recipe σ) = p.core.recipe :=
  congrArg _ <| withDefinitions_core [] none [] p.definitions p.body 0 []
    (fun bodies slots => fillDefinitions_core bodies p.definitions slots)
    (fun bodies => lowerForm_core bodies p.body)

end Lowering

end ScriptGraph
