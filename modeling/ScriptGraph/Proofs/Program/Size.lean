import ScriptGraph.Program.Lowering
import ScriptGraph.Proofs.Builder.Budget

/-!
# How many nodes a program is lowered to

* `Tally`, `Program.tally` : the nodes, parameters and definitions of a program, at all depths;
* `Expression.lower_within` : lowering makes at most two nodes for a node of the program, one for a
  parameter and one for a definition;
* `Program.recipe_within` : so the recipe of a program stays within what its tally allows.
-/

namespace ScriptGraph

variable {σ : Type}

/-! ## Counting -/

/-- How many nodes, parameters and definitions there are. -/
structure Tally where
  nodes : Nat := 0
  params : Nat := 0
  definitions : Nat := 0

namespace Tally

instance : Add Tally :=
  ⟨fun s t => ⟨s.nodes + t.nodes, s.params + t.params, s.definitions + t.definitions⟩⟩

/-- A node, besides what it consists of. -/
def one : Tally := { nodes := 1 }

/-- What the graph may hold for so many nodes, parameters and definitions, besides stores. -/
def bound (t : Tally) : Nat := 2 * t.nodes + t.params + t.definitions

@[simp] theorem bound_one : one.bound = 2 := rfl

@[simp] theorem bound_add (s t : Tally) : (s + t).bound = s.bound + t.bound := by
  show 2 * (s.nodes + t.nodes) + (s.params + t.params) + (s.definitions + t.definitions) = _
  unfold bound
  omega

end Tally

mutual

/-- What an expression consists of, itself included. -/
def Expression.tally : Expression → Tally
  | .template parts => .one + tallyParts parts
  | .member object _ _ => .one + object.tally
  | .index object key => .one + object.tally + key.tally
  | .call callee args _ _ => .one + callee.tally + tallyAll args
  | .construct callee args => .one + callee.tally + tallyAll args
  | .function _ params definitions body =>
    { nodes := 1, params := params.length } + tallyDefinitions definitions + tallyForm body
  | .await value => .one + value.tally
  | .assign target value => .one + target.tally + value.tally
  | _ => .one

def tallyAll : List Expression → Tally
  | [] => {}
  | e :: rest => e.tally + tallyAll rest

def TemplatePart.tally : TemplatePart → Tally
  | .text _ => {}
  | .expression e => e.tally

def tallyParts : List TemplatePart → Tally
  | [] => {}
  | p :: rest => p.tally + tallyParts rest

def Form.tally : Form → Tally
  | .statements list => tallyAll list
  | .value e => e.tally

def tallyForm : Option Form → Tally
  | none => {}
  | some form => form.tally

def Definition.tally : Definition → Tally
  | .mk _ value => { definitions := 1 } + value.tally

def tallyDefinitions : List Definition → Tally
  | [] => {}
  | d :: rest => d.tally + tallyDefinitions rest

end

def Program.tally (p : Program) : Tally := tallyDefinitions p.definitions + tallyForm p.body

/-! ## Lowering -/

namespace TryBuild.Within

theorem create {draft : Draft} {n : Nat} (h : 1 ≤ n) :
    TryBuild.Within (ExceptT.lift (Build.create draft) : TryBuild σ NodeId) n :=
  lift ((Build.Within.create draft).mono (draft.cost_le.trans h))

theorem recipe {x : TryBuild σ Body} {n : Nat} (h : x.Within n) : x.recipe.Within n :=
  h .done 0 fun _ => trivial

end TryBuild.Within

open TryBuild

theorem json_within (v : Json) :
    ((HostValue.json v).toNode : TryBuild σ NodeId).Within Tally.one.bound := by
  rw [HostValue.toNode]
  split <;> exact .create (by decide)

theorem importFrom_within (address exported : String) :
    Build.Within (Build.importFrom address exported : Build σ NodeId) Tally.one.bound :=
  Build.Within.bind (n := 1) (m := 1) (.create (.module address)) fun _ =>
    .create (.template _ _ _ _)

theorem makeSlots_within (n : Nat) : (makeSlots n : TryBuild σ (List NodeId)).Within n := by
  induction n with
  | zero => exact .pure _
  | succ n ih =>
    refine TryBuild.Within.mono (.bind (.create (Nat.le_refl 1)) fun _ => .bind ih fun _ => .pure _) ?_
    omega

/-- The slots of definitions, what fills them, and a body. -/
theorem withDefinitions_within {names : List String} {env : Bindings}
    {fillSlots : Bindings → List NodeId → TryBuild σ Unit} {body : Bindings → TryBuild σ Body}
    {n m : Nat} (hfill : ∀ env slots, (fillSlots env slots).Within n)
    (hbody : ∀ env, (body env).Within m) :
    (withDefinitions names env fillSlots body).Within (names.length + (n + m)) :=
  .bind (makeSlots_within _) fun slots => .bind (hfill _ slots) fun _ => hbody _

mutual

theorem Expression.lower_within : ∀ (x : Expression) (env : Bindings),
    (x.lower env : TryBuild σ NodeId).Within x.tally.bound
  | .value v, _ => json_within v
  | .raw _, _ => .create one_le_two
  | .ident _, _ => .create one_le_two
  | .template parts, env =>
    TryBuild.Within.mono (.bind (lowerParts_within parts env) fun _ => .create (Nat.le_refl 1))
      (by simp only [Expression.tally, Tally.bound_add, Tally.bound_one]; omega)
  | .member object _ _, env =>
    TryBuild.Within.mono (.bind (object.lower_within env) fun _ => .create (Nat.le_refl 1))
      (by simp only [Expression.tally, Tally.bound_add, Tally.bound_one]; omega)
  | .index object key, env =>
    TryBuild.Within.mono (.bind (object.lower_within env) fun _ =>
      .bind (key.lower_within env) fun _ => .create (Nat.le_refl 1))
      (by simp only [Expression.tally, Tally.bound_add, Tally.bound_one]; omega)
  | .call callee args _ _, env =>
    TryBuild.Within.mono (.bind (callee.lower_within env) fun _ =>
      .bind (lowerAll_within args env) fun _ => .create (Nat.le_refl 1))
      (by simp only [Expression.tally, Tally.bound_add, Tally.bound_one]; omega)
  | .construct callee args, env =>
    TryBuild.Within.mono (.bind (callee.lower_within env) fun _ =>
      .bind (lowerAll_within args env) fun _ => .create (Nat.le_refl 1))
      (by simp only [Expression.tally, Tally.bound_add, Tally.bound_one]; omega)
  | .function name params definitions body, env => by
    obtain ⟨k, hk, hfill⟩ := fillDefinitions_within definitions
    refine TryBuild.Within.mono (.lift (.function fun me args => (withDefinitions_within hfill
      fun env => lowerForm_within body env).recipe)) ?_
    simp only [Expression.tally, Tally.bound_add, List.length_map]
    simp only [Tally.bound] at hk ⊢
    omega
  | .await value, env =>
    TryBuild.Within.mono (.bind (value.lower_within env) fun _ => .create (Nat.le_refl 1))
      (by simp only [Expression.tally, Tally.bound_add, Tally.bound_one]; omega)
  | .assign target value, env =>
    TryBuild.Within.mono (.bind (target.lower_within env) fun _ =>
      .bind (value.lower_within env) fun _ => .create (Nat.le_refl 1))
      (by simp only [Expression.tally, Tally.bound_add, Tally.bound_one]; omega)
  | .module _ none, _ => .create one_le_two
  | .module address (some exported), _ => .lift (importFrom_within address exported)
  | .resource _ _, _ => .create one_le_two
  | .placeholder, _ => .create one_le_two
  | .use name, env => by
    rw [Expression.lower]
    cases env.lookup name with
    | none => exact TryBuild.Within.mono (.throw _) (Nat.zero_le _)
    | some e => exact TryBuild.Within.mono (.pure e) (Nat.zero_le _)

theorem lowerAll_within : ∀ (xs : List Expression) (env : Bindings),
    (lowerAll env xs : TryBuild σ (List NodeId)).Within (tallyAll xs).bound
  | [], _ => .pure _
  | x :: xs, env =>
    TryBuild.Within.mono (.bind (x.lower_within env) fun _ =>
      .bind (lowerAll_within xs env) fun _ => .pure _) (by simp [tallyAll])

theorem TemplatePart.lower_within : ∀ (p : TemplatePart) (env : Bindings),
    (p.lower env : TryBuild σ Part).Within p.tally.bound
  | .text _, _ => .pure _
  | .expression x, env =>
    TryBuild.Within.mono (.bind (x.lower_within env) fun _ => .pure _) (Nat.le_refl _)

theorem lowerParts_within : ∀ (ps : List TemplatePart) (env : Bindings),
    (lowerParts env ps : TryBuild σ (List Part)).Within (tallyParts ps).bound
  | [], _ => .pure _
  | p :: ps, env =>
    TryBuild.Within.mono (.bind (p.lower_within env) fun _ =>
      .bind (lowerParts_within ps env) fun _ => .pure _) (by simp [tallyParts])

theorem lowerForm_within : ∀ (body : Option Form) (env : Bindings),
    (lowerForm env body : TryBuild σ Body).Within (tallyForm body).bound
  | none, _ => .pure _
  | some (.statements list), env =>
    TryBuild.Within.mono (.bind (lowerAll_within list env) fun _ => .pure _) (Nat.le_refl _)
  | some (.value e), env =>
    TryBuild.Within.mono (.bind (e.lower_within env) fun _ => .pure _) (Nat.le_refl _)

/-- Each definition has one node, its slot, besides those of its value. -/
theorem fillDefinitions_within : ∀ ds : List Definition,
    ∃ k, ds.length + k = (tallyDefinitions ds).bound ∧
      ∀ env slots, (fillDefinitions env slots ds : TryBuild σ Unit).Within k
  | [] => ⟨0, rfl, fun _ _ => .pure _⟩
  | .mk name value :: rest => by
    obtain ⟨k, hk, hrest⟩ := fillDefinitions_within rest
    refine ⟨value.tally.bound + k, ?_, fun env slots => ?_⟩
    · simp only [tallyDefinitions, Definition.tally, Tally.bound_add, List.length_cons, ← hk]
      simp only [Tally.bound]
      omega
    · cases slots with
      | nil => exact TryBuild.Within.mono (.pure _) (Nat.zero_le _)
      | cons slot slots =>
        have hfill : (Definition.fill env slot (.mk name value) : TryBuild σ Unit).Within
            value.tally.bound := TryBuild.Within.mono (.bind (value.lower_within env) fun n =>
              show TryBuild.Within (ExceptT.mk _) 0 from .fill slot n) (Nat.le_refl _)
        exact .bind hfill fun _ => hrest env slots

end

/-- Running a program's recipe makes as many nodes as its tally allows. -/
theorem Program.recipe_within (p : Program) : (p.recipe : Recipe σ).Within p.tally.bound := by
  obtain ⟨k, hk, hfill⟩ := fillDefinitions_within (σ := σ) p.definitions
  refine TryBuild.Within.recipe (TryBuild.Within.mono (withDefinitions_within hfill
    fun env => lowerForm_within p.body env) ?_)
  rw [tally, Tally.bound_add, List.length_map]
  omega

end ScriptGraph
