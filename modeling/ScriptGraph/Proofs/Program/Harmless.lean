import ScriptGraph.Program.Lowering
import ScriptGraph.Proofs.Host.Harmless

/-!
# Programs are written without `<`

* `Program.texts` : the texts that a program hands over to be written as they are;
* `Expression.lower_drafts`, `Program.lower_drafts` : if these have no `<`, no text of the nodes that
  a program is lowered to has one.
-/

namespace ScriptGraph

open TryBuild

variable {σ : Type}

mutual

/-- The texts that an expression hands over to be written as they are. -/
def Expression.texts : Expression → List String
  | .raw code => [code]
  | .ident name => [name]
  | .template parts => textsOfParts parts
  | .member object _ _ => object.texts
  | .index object key => object.texts ++ key.texts
  | .call callee args _ _ => callee.texts ++ textsOfAll args
  | .construct callee args => callee.texts ++ textsOfAll args
  | .function _ _ definitions body => textsOfDefinitions definitions ++ textsOfForm body
  | .await value => value.texts
  | .assign target value => target.texts ++ value.texts
  | _ => []

def textsOfAll : List Expression → List String
  | [] => []
  | e :: rest => e.texts ++ textsOfAll rest

def TemplatePart.texts : TemplatePart → List String
  | .text t => [t]
  | .expression e => e.texts

def textsOfParts : List TemplatePart → List String
  | [] => []
  | p :: rest => p.texts ++ textsOfParts rest

def Form.texts : Form → List String
  | .statements list => textsOfAll list
  | .value e => e.texts

def textsOfForm : Option Form → List String
  | none => []
  | some form => form.texts

def Definition.texts : Definition → List String
  | .mk _ value => value.texts

def textsOfDefinitions : List Definition → List String
  | [] => []
  | d :: rest => d.texts ++ textsOfDefinitions rest

end

def Program.texts (p : Program) : List String := textsOfDefinitions p.definitions ++ textsOfForm p.body

/-- What a program is lowered to, with names around it. -/
def Program.lower (env : Bindings) (p : Program) : TryBuild σ Body :=
  withDefinitions (p.definitions.map Definition.name) env
    (fun env slots => fillDefinitions env slots p.definitions) (fun env => lowerForm env p.body)

/-! ## Operators -/

theorem member_drafts (object : NodeId) (property : String) (optional : Bool) :
    Build.Drafts Draft.Harmless (Build.member object property optional : Build σ NodeId) := by
  refine .create (harmless_template fun t ht => ?_)
  have ht : t = Build.memberAccess property optional := by simpa using ht
  exact ht ▸ lt_notMem_memberAccess property optional

theorem importFrom_drafts (address exported : String) :
    Build.Drafts Draft.Harmless (Build.importFrom address exported : Build σ NodeId) :=
  .bind (.create nofun) fun e => member_drafts e exported false

theorem construct_drafts (callee : NodeId) (args : List NodeId) :
    Build.Drafts Draft.Harmless (Build.construct callee args : Build σ NodeId) := by
  refine .create (harmless_template fun t ht => ?_)
  have ht : t = "new " ∨ t = "(" ∨ Part.text t ∈ commaSeparated (args.map .node) ∨ t = ")" := by
    simpa using ht
  rcases ht with rfl | rfl | ht | rfl
  · decide
  · decide
  · exact lt_notMem_commaSeparated ht
  · decide

theorem index_drafts (object key : NodeId) :
    Build.Drafts Draft.Harmless (Build.index object key : Build σ NodeId) :=
  .create fun t ht => by
    have ht : "[" = t ∨ "]" = t := by simpa [Draft.texts, Part.text?] using ht
    rcases ht with rfl | rfl <;> decide

theorem assign_drafts (target value : NodeId) :
    Build.Drafts Draft.Harmless (Build.assign target value : Build σ NodeId) :=
  .create fun t ht => by
    obtain rfl : "=" = t := by simpa [Draft.texts, Part.text?] using ht
    decide

theorem await_drafts (e : NodeId) :
    Build.Drafts Draft.Harmless (Build.await e : Build σ NodeId) :=
  .create fun t ht => by
    obtain rfl : t = "await " := by simpa [Draft.texts, Part.text?] using ht
    decide

theorem makeSlots_drafts (n : Nat) :
    (makeSlots n : TryBuild σ (List NodeId)).Drafts Draft.Harmless := by
  induction n with
  | zero => exact .pure _
  | succ n ih => exact .bind (.create nofun) fun _ => .bind ih fun _ => .pure _

theorem withDefinitions_drafts {names : List String} {env : Bindings}
    {fillSlots : Bindings → List NodeId → TryBuild σ Unit} {body : Bindings → TryBuild σ Body}
    (hfill : ∀ env slots, (fillSlots env slots).Drafts Draft.Harmless)
    (hbody : ∀ env, (body env).Drafts Draft.Harmless) :
    (withDefinitions names env fillSlots body).Drafts Draft.Harmless :=
  .bind (makeSlots_drafts _) fun slots => .bind (hfill _ slots) fun _ => hbody _

theorem recipe_drafts {p : Draft → Prop} {x : TryBuild σ Body} (h : x.Drafts p) :
    x.recipe.Drafts p := h _ fun _ => trivial

mutual

/-- The texts of the nodes that an expression is lowered to are those it hands over and others
without a `<`. -/
theorem Expression.lower_drafts : ∀ (x : Expression) (env : Bindings),
    (∀ t ∈ x.texts, '<' ∉ t.toList) → (x.lower env : TryBuild σ NodeId).Drafts Draft.Harmless
  | .value v, _, _ => HostValue.toNode_drafts (.json v) nofun
  | .raw code, _, h => .create h
  | .ident name, _, h => .create h
  | .template parts, env, h => fun next hnext =>
    lowerParts_drafts parts env h _ fun r hr => by
      cases r with
      | ok qs => exact ⟨harmless_template (hr qs rfl), fun e => hnext (.ok e)⟩
      | error fault => exact hnext (.error fault)
  | .member object property optional, env, h =>
    .bind (object.lower_drafts env h) fun e => .lift (member_drafts e property optional)
  | .index object key, env, h => by
    obtain ⟨ho, hk⟩ := List.forall_mem_append.1 h
    exact .bind (object.lower_drafts env ho) fun o => .bind (key.lower_drafts env hk) fun k =>
      .lift (index_drafts o k)
  | .call callee args optional pure, env, h => by
    obtain ⟨hc, ha⟩ := List.forall_mem_append.1 h
    exact .bind (callee.lower_drafts env hc) fun _ => .bind (lowerAll_drafts args env ha) fun _ =>
      .create nofun
  | .construct callee args, env, h => by
    obtain ⟨hc, ha⟩ := List.forall_mem_append.1 h
    exact .bind (callee.lower_drafts env hc) fun e => .bind (lowerAll_drafts args env ha) fun es =>
      .lift (construct_drafts e es)
  | .function name params definitions body, env, h => by
    obtain ⟨hd, hb⟩ := List.forall_mem_append.1 h
    exact .lift (.function _ fun me args => recipe_drafts (withDefinitions_drafts
      (fun env slots => fillDefinitions_drafts definitions env slots hd)
      (fun env => lowerForm_drafts body env hb)))
  | .await value, env, h => .bind (value.lower_drafts env h) fun e => .lift (await_drafts e)
  | .assign target value, env, h => by
    obtain ⟨ht, hv⟩ := List.forall_mem_append.1 h
    exact .bind (target.lower_drafts env ht) fun t => .bind (value.lower_drafts env hv) fun v =>
      .lift (assign_drafts t v)
  | .module address none, _, _ => .create nofun
  | .module address (some exported), _, _ => .lift (importFrom_drafts address exported)
  | .resource key value, _, _ => .create nofun
  | .placeholder, _, _ => .create nofun
  | .use name, env, _ => by
    rw [Expression.lower]
    cases env.lookup name with
    | none => exact .throw _
    | some e => exact .pure e

theorem lowerAll_drafts : ∀ (xs : List Expression) (env : Bindings),
    (∀ t ∈ textsOfAll xs, '<' ∉ t.toList) →
      (lowerAll env xs : TryBuild σ (List NodeId)).Drafts Draft.Harmless
  | [], _, _ => .pure _
  | x :: xs, env, h => by
    obtain ⟨hx, hxs⟩ := List.forall_mem_append.1 h
    exact .bind (x.lower_drafts env hx) fun _ => .bind (lowerAll_drafts xs env hxs) fun _ => .pure _

/-- The parts that are left after lowering have the texts that were handed over. -/
theorem lowerParts_drafts : ∀ (ps : List TemplatePart) (env : Bindings),
    (∀ t ∈ textsOfParts ps, '<' ∉ t.toList) → ∀ next : Except Fault (List Part) → Recipe σ,
      (∀ r, (∀ qs, r = .ok qs → ∀ t, Part.text t ∈ qs → '<' ∉ t.toList) →
        (next r).Drafts Draft.Harmless) → ((lowerParts env ps).run next).Drafts Draft.Harmless
  | [], _, _, _, hnext => hnext (.ok []) fun qs hqs t ht => by
    cases hqs
    cases ht
  | .text t :: ps, env, h, next, hnext => by
    obtain ⟨ht, hps⟩ := List.forall_mem_cons.1 h
    refine lowerParts_drafts ps env hps _ fun r hr => ?_
    cases r with
    | error fault => exact hnext (.error fault) nofun
    | ok qs =>
      refine hnext (.ok (.text t :: qs)) fun _ heq t' ht' => ?_
      cases heq
      rcases List.mem_cons.1 ht' with heq | ht'
      · cases heq
        exact ht
      · exact hr qs rfl t' ht'
  | .expression x :: ps, env, h, next, hnext => by
    obtain ⟨hx, hps⟩ := List.forall_mem_append.1 h
    refine x.lower_drafts env hx _ fun r => ?_
    cases r with
    | error fault => exact hnext (.error fault) nofun
    | ok e =>
      refine lowerParts_drafts ps env hps _ fun r hr => ?_
      cases r with
      | error fault => exact hnext (.error fault) nofun
      | ok qs =>
        refine hnext (.ok (.node e :: qs)) fun _ heq t ht => ?_
        cases heq
        exact hr qs rfl t ((List.mem_cons.1 ht).resolve_left nofun)

theorem Form.lower_drafts : ∀ (form : Form) (env : Bindings),
    (∀ t ∈ form.texts, '<' ∉ t.toList) → (form.lower env : TryBuild σ Body).Drafts Draft.Harmless
  | .statements list, env, h => .bind (lowerAll_drafts list env h) fun _ => .pure _
  | .value x, env, h => .bind (x.lower_drafts env h) fun _ => .pure _

theorem lowerForm_drafts : ∀ (form : Option Form) (env : Bindings),
    (∀ t ∈ textsOfForm form, '<' ∉ t.toList) →
      (lowerForm env form : TryBuild σ Body).Drafts Draft.Harmless
  | none, _, _ => .pure _
  | some form, env, h => form.lower_drafts env h

theorem Definition.fill_drafts : ∀ (d : Definition) (env : Bindings) (slot : NodeId),
    (∀ t ∈ d.texts, '<' ∉ t.toList) → (d.fill env slot : TryBuild σ Unit).Drafts Draft.Harmless
  | .mk _ value, env, slot, h => .bind (value.lower_drafts env h) fun n =>
    show Build.Drafts _ _ from .fill slot n

theorem fillDefinitions_drafts : ∀ (ds : List Definition) (env : Bindings) (slots : List NodeId),
    (∀ t ∈ textsOfDefinitions ds, '<' ∉ t.toList) →
      (fillDefinitions env slots ds : TryBuild σ Unit).Drafts Draft.Harmless
  | [], _, _, _ => .pure ()
  | _ :: _, _, [], _ => .pure ()
  | d :: ds, env, slot :: slots, h => by
    obtain ⟨hd, hds⟩ := List.forall_mem_append.1 h
    exact .bind (d.fill_drafts env slot hd) fun _ => fillDefinitions_drafts ds env slots hds

end

theorem Program.lower_drafts (p : Program) (env : Bindings) (h : ∀ t ∈ p.texts, '<' ∉ t.toList) :
    (p.lower env : TryBuild σ Body).Drafts Draft.Harmless := by
  obtain ⟨hd, hb⟩ := List.forall_mem_append.1 h
  exact withDefinitions_drafts (fun env slots => fillDefinitions_drafts p.definitions env slots hd)
    fun env => lowerForm_drafts p.body env hb

end ScriptGraph
