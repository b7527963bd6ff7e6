import ScriptGraph.Ecma.Expression
import ScriptGraph.Proofs.Analysis.Naming
import ScriptGraph.Proofs.Compile.Script
import ScriptGraph.Proofs.Emission.Splicing

/-!
# Generated names and the names among the options

* `Ecma.keywords` : the words that no variable may have as its name;
* `isGenerated_base36`, `isIdentifier_generated` : the form of generated names;
* `Access.nodup_params_iff` : when the parameters of an evaluation differ;
* `Builder.names_of_compile` : which texts are generated names of a compiled script;
* `Builder.names_clash_examples` : some of them are among the options or keywords.
-/

namespace ScriptGraph

/-- The words that no variable of a module may have as its name. -/
def Ecma.keywords : List String :=
  Ecma.reserved ++ ["implements", "interface", "package", "private", "protected", "public",
    "static", "yield"]

/-! ## The form of generated names -/

theorem isGenerated_base36 (stem : String) (n : Nat) : isGenerated stem (stem ++ base36 n) = true := by
  have hdrop : ((stem ++ base36 n).toList).drop stem.length = base36Chars n := by
    rw [String.toList_append, base36, String.toList_ofList, ← String.length_toList,
      List.drop_left]
  have hnil : (base36Chars n).isEmpty = false := by
    rw [List.isEmpty_eq_false_iff]
    exact base36Chars_ne_nil n
  rw [isGenerated, hdrop, hnil, all_base36Chars]
  simp [String.toList_append]

/-- Whether a stem with a number is an identifier does not depend on the number, unless the stem is
empty. -/
theorem isIdentifier_generated {stem : String} (h : isIdentifier (stem ++ "0") = true) (n : Nat) :
    isIdentifier (stem ++ base36 n) = true := by
  unfold isIdentifier at h ⊢
  rw [String.toList_append] at h ⊢
  cases hs : stem.toList with
  | nil =>
    rw [hs] at h
    exact absurd h (by decide)
  | cons c cs =>
    rw [hs] at h
    simp only [List.cons_append, List.all_append, Bool.and_eq_true] at h ⊢
    refine ⟨h.1, h.2.1, ?_⟩
    rw [base36, String.toList_ofList]
    exact List.all_eq_true.2 (isIdentifierPart_base36 n)

/-- No keyword begins with a stem that has something else than lowercase letters. -/
theorem not_isGenerated_of_keyword {stem word : String} (hword : word ∈ Ecma.keywords)
    (hstem : ∃ c ∈ stem.toList, c.isLower = false) : isGenerated stem word = false := by
  have hlower : ∀ w ∈ Ecma.keywords, w.toList.all Char.isLower = true := by decide
  obtain ⟨c, hc, hcl⟩ := hstem
  rw [← Bool.not_eq_true]
  intro hgenerated
  simp only [isGenerated, Bool.and_eq_true] at hgenerated
  have hprefix : stem.toList <+: word.toList := List.isPrefixOf_iff_prefix.1 hgenerated.1.1
  have hall := List.all_eq_true.1 (hlower word hword) c (List.IsPrefix.subset hprefix hc)
  rw [hcl] at hall
  cases hall

/-! ## Parameters of evaluations -/

theorem Access.nodup_params_iff (x : Access) (output : Output) :
    (x.params output).Nodup ↔ ¬(output.usesModules = true ∧ output.usesResources = true ∧
      x.resourceMode = .runtime ∧ ∃ name, x.moduleParam = some name ∧
        x.resourceParam = some name) := by
  obtain ⟨mode, accessor, moduleParam, resourceParam⟩ := x
  cases hm : output.usesModules <;> cases hr : output.usesResources <;> cases mode <;>
    cases moduleParam <;> cases resourceParam <;> simp [Access.params, hm, hr, eq_comm]

/-! ## Compiled scripts -/

namespace Builder

variable {σ : Type}

/-- **Which texts are generated names**: with options that pass their check, the generated names of
a compiled script are the identifiers made of the stem and the numbers below the number of names,
written in base 36. So a keyword or a name among the options is generated exactly when it is one of
these, and never if it has not the form of a generated name, as no keyword has when the stem is not
made of lowercase letters alone. The parameters of an evaluation differ, unless both are written and
the options give them the same name. -/
theorem names_of_compile {b c : Builder σ} {body : Body} {o : Options} {stores : Stores}
    {resolver : Resolver} {outcome : Outcome} {compiled : Compiled} (hb : b.Reached)
    (h : b.compile body o stores resolver = (outcome, c)) (hok : outcome.result = .ok compiled) :
    ∃ a output links, b.analyze body o.nameStem = (.ok a, c) ∧ b.script body o = .ok output ∧
      compiled.Presents o output links ∧
      (∀ name, a.Generates name ↔ ∃ i < a.named.length, name = o.nameStem ++ base36 i) ∧
      (∀ name, a.Generates name →
        isIdentifier name = true ∧ isGenerated o.nameStem name = true) ∧
      ((∃ ch ∈ o.nameStem.toList, ch.isLower = false) →
        ∀ word ∈ Ecma.keywords, ¬a.Generates word) ∧
      ((o.access.params output).Nodup ↔ ¬(o.mode = .evaluation ∧ output.usesModules = true ∧
        output.usesResources = true ∧ o.effectiveResourceMode = .runtime ∧
        o.moduleParam = o.resourceParam)) := by
  obtain ⟨a, output, ha, houtput, hcheck, hpresents, _⟩ := presents_of_compile hb h hok
  have hstem := stem_of_analyze ha
  have hiff : ∀ name, a.Generates name ↔
      ∃ i < a.named.length, name = o.nameStem ++ base36 i := fun name =>
    hstem ▸ (analyze_resolved hb ha).generates_iff
  have hform : ∀ name, a.Generates name →
      isIdentifier name = true ∧ isGenerated o.nameStem name = true := fun name hname => by
    obtain ⟨i, _, rfl⟩ := (hiff name).1 hname
    have hzero : isIdentifier (o.nameStem ++ "0") = true :=
      Options.isIdentifier_of_check hcheck List.mem_cons_self
    exact ⟨isIdentifier_generated hzero i, isGenerated_base36 _ i⟩
  refine ⟨a, output, _, ha, script_eq_ok.2 ⟨hcheck, a, c, ha, houtput⟩, hpresents, hiff, hform,
    fun hstem word hword hgenerated => ?_, ?_⟩
  · have hnot := not_isGenerated_of_keyword hword hstem
    rw [(hform word hgenerated).2] at hnot
    cases hnot
  · rw [Access.nodup_params_iff]
    refine not_congr ?_
    cases hmode : o.mode with
    | statements => simp [Options.access, hmode]
    | evaluation =>
      have hparams : (∃ name, some o.moduleParam = some name ∧ some o.resourceParam = some name) ↔
          o.moduleParam = o.resourceParam := by simp [eq_comm]
      simp only [Options.access, hmode, if_true, hparams, true_and]

/-- A function of some parameters that returns a placeholder. -/
def parametersExample (arity : Nat) : Builder Unit :=
  (Builder.run (Build.toRecipe do
    let f ← Build.function arity fun _ _ => Build.toRecipe do
      let placeholder ← Build.create .placeholder
      return .ok (.value placeholder)
    return .ok (.value f)) (.empty ())).2

theorem reached_parametersExample (arity : Nat) : (parametersExample arity).Reached :=
  (run_leads _ _).reached (reached_empty ())

/-- A list of a module and a resource. -/
def storesExample : Builder Unit :=
  (Builder.run (Build.toRecipe do
    let module ← Build.create (.module "m")
    let resource ← Build.create (.resource "r" (.eager .null))
    let list ← Build.template [.text "[", .node module, .text ",", .node resource, .text "]"]
    return .ok (.value list)) (.empty ())).2

theorem reached_storesExample : storesExample.Reached :=
  (run_leads _ _).reached (reached_empty ())

/-- The one parameter of the function has the name `_0`, which is no name of the options. -/
theorem names_parametersExample : ∃ outcome c compiled a,
    (parametersExample 1).compile (.statements [0]) {} {} Resolver.identity = (outcome, c) ∧
    outcome.result = .ok compiled ∧
    (parametersExample 1).analyze (.statements [0]) "_" = (.ok a, c) ∧
    a.Generates "_0" ∧ ¬a.Generates "$refs" ∧ ¬a.Generates "if" := by
  have hreached := reached_parametersExample 1
  have hsurvey : ((parametersExample 1).survey [] [0]).1 = .ok [0, 2] := by cbv
  obtain ⟨a, c, ha, _⟩ := exists_analysis (.statements [0]) "_" hsurvey (by cbv)
  obtain ⟨_, outcome, compiled, _, hcompile, hok⟩ :=
    exists_compile hreached (o := {}) ha (by cbv) rfl (by simp) {} Resolver.identity
  obtain ⟨a', _, _, ha', _, _, hiff, hform, hkeyword, _⟩ :=
    names_of_compile hreached hcompile hok
  obtain rfl : a' = a := by
    rw [ha] at ha'
    cases ha'
    rfl
  have hname : a'.name? 1 = some "_0" := by
    have hnames : ((parametersExample 1).analyze (.statements [0]) "_").1.map
        (·.name? 1) = .ok (some "_0") := by cbv
    rw [ha] at hnames
    exact Except.ok.inj hnames
  refine ⟨outcome, c, compiled, a', hcompile, hok, ha, ⟨1, hname⟩, fun hrefs => ?_,
    hkeyword ⟨'_', by decide, by decide⟩ "if" (by decide)⟩
  exact absurd (hform "$refs" hrefs).2 (by decide)

/-- A name that an analysis generates is one of a compiled script. -/
theorem exists_generated {b : Builder σ} (hb : b.Reached) (roots : List NodeId) (o : Options)
    (e : NodeId) (name : String) (hcheck : o.check = .ok ()) (hverify : o.verify = false)
    (hmode : o.mode = .statements)
    (hname : (b.analyze (.statements roots) o.nameStem).1.map (·.name? e) = .ok (some name)) :
    ∃ outcome c compiled a, b.compile (.statements roots) o {} Resolver.identity = (outcome, c) ∧
      outcome.result = .ok compiled ∧ b.analyze (.statements roots) o.nameStem = (.ok a, c) ∧
      a.Generates name := by
  rcases ha : b.analyze (.statements roots) o.nameStem with ⟨fault | a, c⟩
  · rw [ha] at hname
    cases hname
  · rw [ha] at hname
    obtain ⟨_, outcome, compiled, _, hcompile, hok⟩ := exists_compile hb ha hcheck hverify
      (fun h => absurd (hmode.symm.trans h) nofun) {} Resolver.identity
    exact ⟨outcome, c, compiled, a, hcompile, hok, rfl, e, Except.ok.inj hname⟩

/-- Options that pass their check do not keep names apart: a parameter may have the name of the
placeholders' array or a keyword as its name, and both parameters of an evaluation may have one. -/
theorem names_clash_examples :
    (∃ outcome c compiled a, ({ placeholderArray := "_0" } : Options).check = .ok () ∧
      (parametersExample 1).compile (.statements [0]) { placeholderArray := "_0" } {}
        Resolver.identity = (outcome, c) ∧ outcome.result = .ok compiled ∧
      (parametersExample 1).analyze (.statements [0]) "_" = (.ok a, c) ∧ a.Generates "_0") ∧
    (∃ outcome c compiled a, ({ nameStem := "i" } : Options).check = .ok () ∧
      (parametersExample 16).compile (.statements [0]) { nameStem := "i" } {}
        Resolver.identity = (outcome, c) ∧ outcome.result = .ok compiled ∧
      (parametersExample 16).analyze (.statements [0]) "i" = (.ok a, c) ∧ a.Generates "if" ∧
      "if" ∈ Ecma.keywords) ∧
    (∃ o : Options, o.check = .ok () ∧ ∃ output outcome c compiled,
      storesExample.compile (.value 4) o {} Resolver.identity = (outcome, c) ∧
      outcome.result = .ok compiled ∧ storesExample.script (.value 4) o = .ok output ∧
      o.access.params output = ["$x", "$x"]) := by
  refine ⟨?_, ?_, ?_⟩
  · have hcheck : ({ placeholderArray := "_0" } : Options).check = .ok () := by cbv
    obtain ⟨outcome, c, compiled, a, h⟩ := exists_generated (reached_parametersExample 1)
      [0] _ 1 "_0" hcheck rfl rfl (by cbv)
    exact ⟨outcome, c, compiled, a, hcheck, h⟩
  · have hcheck : ({ nameStem := "i" } : Options).check = .ok () := by cbv
    obtain ⟨outcome, c, compiled, a, hcompile, hok, ha, hname⟩ :=
      exists_generated (reached_parametersExample 16) [0] _ 16 "if" hcheck rfl rfl (by cbv)
    exact ⟨outcome, c, compiled, a, hcheck, hcompile, hok, ha, hname, by decide⟩
  · let o : Options := { mode := .evaluation, resourceMode := some .runtime, moduleParam := "$x",
                         resourceParam := "$x" }
    have hparams : (storesExample.script (.value 4) o).map o.access.params = .ok ["$x", "$x"] := by
      cbv
    have hsurvey : (storesExample.survey [] [4]).1 = .ok [4, 1, 3, 0, 2] := by cbv
    obtain ⟨a, c, ha, _⟩ := exists_analysis (.value 4) "_" hsurvey (by cbv)
    obtain ⟨output, outcome, compiled, hscript, hcompile, hok⟩ :=
      exists_compile reached_storesExample (o := o) ha (by cbv) rfl (fun _ => ⟨4, rfl⟩) {}
        Resolver.identity
    rw [hscript] at hparams
    exact ⟨o, by cbv, output, outcome, c, compiled, hcompile, hok, hscript,
      Except.ok.inj hparams⟩

end Builder

end ScriptGraph
