import ScriptGraph.Proofs.Program.Faults
import ScriptGraph.Proofs.Program.Resolution

/-!
# Unknown names

* `Builder.Labelled.meets_of_reaches`, `Graph.Surveyed.reaches_of_meets` : the roots of a program
  lead to nodes as they do to the pieces of the program that the nodes are made from;
* `Builder.Labelled.survey_iff` : the analysis meets an unknown name just if the roots lead to a
  function that uses one;
* `Program.names_resolve` : names stand for what their innermost binders do, and a program is
  rejected for a name just if a body that has to be lowered uses one without a binder.
-/

namespace ScriptGraph

variable {σ : Type}

namespace Builder

variable {b : Builder σ} {ρ : Labelling} {roots : List NodeId} {p : CoreFunction}

/-- Between constructions, a body that is asked for is there, or uses an unknown name, or is
lowered. -/
theorem Labelled.force (h : b.Labelled ρ []) (hsupplied : b.Supplied)
    (hscopes : b.state.scopes = []) {f : NodeId} (hf : b.state.graph.isFunction f = true) :
    (∃ name outer F, ρ.Has f (.code outer (.function F)) ∧ F.Unbound outer ∧
      (b.force f).1 = .error (.unknownName name)) ∨
    (∃ body, (b.force f).1 = .ok body) ∧ ∃ ρ', ρ.Grows ρ' ∧ (b.force f).2.Labelled ρ' [] := by
  rcases hsupplied.request hscopes hf with ⟨body, hbody, hreq⟩ | ⟨recipe, c, hreq⟩
  · rw [force_answer hreq]
    exact .inr ⟨⟨body, rfl⟩, ρ, .refl ρ, h⟩
  · obtain ⟨hc, hfun, outer, F, bodies, hlabel, hparams, hbodies, hrecipe⟩ := h.enter hreq
    have hcscopes := request_scopes hreq
    have hlowers : (F.lower bodies f (c.state.graph.params f)).Resolves (F :: outer) F.uses c ρ
        fun d ρ' body => MakesNodes (F :: outer) [] F.roots d ρ' body.roots :=
      CoreFunction.lower_resolves hc hbodies (.inr hlabel) hparams
    rw [force_construct hreq, hrecipe, TryBuild.recipe]
    rcases hlowers.run with
      ⟨_, ⟨name, hmem, hfree, rfl⟩, herror⟩ | ⟨body, d, hrun, hd, hnames, ρ', hρ, hbody, hroots⟩
    · exact .inl ⟨name, outer, F, hlabel, ⟨name, hmem, hfree⟩, herror⟩
    · rw [hrun]
      refine .inr ⟨⟨body, rfl⟩, ρ', hρ, ?_⟩
      have hbound : ¬F.Unbound outer := by
        rintro ⟨name, hmem, hfree⟩
        exact hnames name hmem hfree
      exact hbody.leave (hd.2.trans hcscopes) (hρ f _ hlabel) hroots hbound

/-- What the roots of a program lead to is made from what they lead to in the program. -/
theorem Labelled.meets_of_reaches (h : b.Labelled ρ [])
    (hroots : List.Forall₂ ρ.Has roots (p.roots.filterMap (Core.denote [p]))) {e : NodeId}
    (he : b.state.graph.Reaches roots e) :
    b.state.graph.IsStore e ∨ ∃ l, ρ.Has e l ∧ p.Meets l := by
  induction he with
  | root he =>
    obtain ⟨l, hl, hel⟩ := Labelling.exists_label hroots he
    obtain ⟨c, hc, hcl⟩ := List.mem_filterMap.1 hl
    exact .inr ⟨l, hel, .root hc hcl⟩
  | step _ hx ih =>
    rcases ih with hstore | ⟨l, hel, hl⟩
    · exact absurd (hstore.successors_eq ▸ hx) List.not_mem_nil
    · refine ((h.shows _ l hel (Graph.built_of_mem_successors hx)).forward _ hx).imp_right ?_
      exact fun ⟨l', hl', hxl⟩ => ⟨l', hxl, hl.step hl'⟩

end Builder

/-- Where a survey succeeded, there are nodes for all that the roots lead to in the program. -/
theorem Graph.Surveyed.reaches_of_meets {b : Builder σ} {ρ : Labelling} {roots order : List NodeId}
    {p : CoreFunction} (h : b.state.graph.Surveyed roots order) (hb : b.Labelled ρ [])
    (hroots : List.Forall₂ ρ.Has roots (p.roots.filterMap (Core.denote [p]))) {l : Label}
    (hl : p.Meets l) : ∃ e ∈ order, ρ.Has e l := by
  induction hl with
  | root hc hl =>
    obtain ⟨e, he, hel⟩ := Labelling.exists_node hroots (List.mem_filterMap.2 ⟨_, hc, hl⟩)
    exact ⟨e, h.root_mem he, hel⟩
  | step _ hl ih =>
    obtain ⟨e, he, hel⟩ := ih
    obtain ⟨x, hx, hxl⟩ := (hb.shows e _ hel (h.built e he)).backward _ hl
    exact ⟨x, h.successor_mem he hx, hxl⟩

namespace Builder

variable {b : Builder σ} {ρ : Labelling} {roots : List NodeId} {p : CoreFunction}

/-- Between constructions, with the roots of a program. -/
def Roots (p : CoreFunction) (roots : List NodeId) (b : Builder σ) : Prop :=
  (b.Lexical [] ∧ b.state.scopes = []) ∧ ∃ ρ, b.Labelled ρ [] ∧
    List.Forall₂ ρ.Has roots (p.roots.filterMap (Core.denote [p]))

theorem surveyable_roots : Surveyable (Roots (σ := σ) p roots) where
  sound b h := surveyable_lexical.sound b h.1
  filled b e h := surveyable_lexical.filled b e h.1
  children b e h := surveyable_lexical.children b e h.1
  force b f body h hf hbody := by
    obtain ⟨hlexical, hroots⟩ := surveyable_lexical.force b f body h.1 hf hbody
    obtain ⟨ρ, hlabelled, hlabels⟩ := h.2
    rcases hlabelled.force h.1.1.bodies h.1.2 hf with ⟨_, _, _, _, _, herror⟩ | ⟨_, ρ', hρ, hforce⟩
    · exact nomatch hbody.symm.trans herror
    · exact ⟨⟨hlexical, ρ', hforce, hlabels.imp hρ⟩, hroots⟩

/-- The survey of a program meets an unknown name just if the roots lead to a function that uses
one. -/
theorem Roots.survey_iff (h : b.Roots p roots) (hroots : ∀ e ∈ roots, e < b.state.graph.size) :
    (∃ name, (b.survey [] roots).1 = .error (.unknownName name)) ↔
      ∃ outer F, p.Meets (.code outer (.function F)) ∧ F.Unbound outer := by
  rcases surveyable_roots.survey h (.start _ roots) hroots with
    ⟨⟨found, hok⟩, _, ρ, hlabelled, hlabels⟩ |
    ⟨c, f, fault, ⟨⟨hc, hcscopes⟩, ρ, hlabelled, hlabels⟩, hreach, hf, herror, hsurvey⟩
  · have hsurveyed := survey_surveyed h.1.1.reached (Prod.ext hok rfl)
    constructor
    · rintro ⟨name, herror⟩
      exact nomatch hok.symm.trans herror
    · rintro ⟨outer, F, hmeets, hunbound⟩
      obtain ⟨e, he, hel⟩ := hsurveyed.reaches_of_meets hlabelled hlabels hmeets
      exact absurd hunbound ((hlabelled.shows e _ hel (hsurveyed.built e he)).bound outer F rfl)
  · rcases hlabelled.force hc.bodies hcscopes hf with
      ⟨name, outer, F, hlabel, hunbound, hname⟩ | ⟨⟨body, hbody⟩, _⟩
    · cases herror.symm.trans hname
      refine ⟨fun _ => ?_, fun _ => ⟨name, hsurvey⟩⟩
      rcases hlabelled.meets_of_reaches hlabels hreach with hstore | ⟨l, hl, hmeets⟩
      · exact nomatch hf.symm.trans hstore.not_isFunction
      · cases hlabel.symm.trans hl
        exact ⟨outer, F, hmeets, hunbound⟩
    · exact nomatch herror.symm.trans hbody

/-- A compilation fails for an unknown name just if the survey does. -/
theorem Lexical.compile_iff (h : b.Lexical []) (hscopes : b.state.scopes = []) {body : Body}
    (hroots : ∀ r ∈ body.roots, b.Sees r) {o : Options} {stores : Stores} {resolver : Resolver} :
    (∃ name, (b.compile body o stores resolver).1.result = .error (.unknownName name)) ↔
      o.check = .ok () ∧ ∃ name, (b.survey [] body.roots).1 = .error (.unknownName name) := by
  constructor
  · rintro ⟨name, hfault⟩
    rcases h.reached.compile_eq_error hfault with
      ⟨_, hcheck | ⟨hcheck, c, ha⟩ | ⟨_, hmode⟩⟩ | ⟨_, code, hcode⟩
    · obtain ⟨_, _, hoption⟩ := Options.check_eq_error hcheck
      cases hoption
    · rcases h.analyze hscopes hroots ha with ⟨_, hsurvey⟩ | hcycle
      · exact ⟨hcheck, name, hsurvey⟩
      · cases hcycle
    · cases hmode
    · rcases verifyScript_eq_error hcode with hparse | ⟨hstem, _⟩ | ⟨_, hbound⟩
      · cases hparse
      · cases hstem
      · cases hbound
  · rintro ⟨hcheck, name, hsurvey⟩
    refine ⟨name, ?_⟩
    rcases hs : b.survey [] body.roots with ⟨result, c⟩
    rw [hs] at hsurvey
    cases hsurvey
    rw [Builder.compile, hcheck]
    simp only [Builder.analyze, hs]
    rfl

end Builder

theorem Fault.OfProgram.code_iff {o : Options} {fault : Fault} (h : fault.OfProgram o) :
    fault.code = "Z-ERR-IR-001" ↔ ∃ name, fault = .unknownName name := by
  cases h <;> simp [code]

namespace Program

/-- Lowering a program's body uses an unknown name, or leads to a builder with the roots of the
program. -/
theorem run_core (p : Program) :
    (∃ name, p.core.Unbound [] ∧
      ((Builder.empty ()).run p.recipe).1 = .error (.unknownName name)) ∨
    ¬p.core.Unbound [] ∧ ∃ body c, (Builder.empty ()).run p.recipe = (.ok body, c) ∧
      c.Roots p.core body.roots ∧ ∀ r ∈ body.roots, c.Sees r := by
  have hlowers : (p.core.lower [] 0 []).Resolves [p.core] p.core.uses (Builder.empty ()) _ _ :=
    CoreFunction.lower_resolves (Builder.labelled_empty ()) .nil (.inl rfl) .nil
  have hrecipe := p.recipe_eq_core (σ := Unit)
  rw [CoreFunction.recipe, TryBuild.recipe] at hrecipe
  rcases hlowers.run with
    ⟨_, ⟨name, hmem, hfree, rfl⟩, herror⟩ | ⟨body, c, hrun, hc, hnames, ρ, _, hlabelled, hlabels⟩
  · exact .inl ⟨name, ⟨name, hmem, hfree⟩, hrecipe ▸ herror⟩
  · have hbound : ¬p.core.Unbound [] := by
      rintro ⟨name, hmem, hfree⟩
      exact hnames name hmem hfree
    refine .inr ⟨hbound, body, c, hrecipe ▸ hrun, ?_⟩
    rcases p.run_recipe with ⟨name, herror⟩ | ⟨body', c', hrun', hlexical, hscopes, hsees⟩
    · rw [hrecipe, hrun] at herror
      cases herror
    · rw [hrecipe, hrun] at hrun'
      cases hrun'
      exact ⟨⟨⟨hlexical, hscopes⟩, ρ, hlabelled, hlabels⟩, hsees⟩

/-- A program is rejected for an unknown name just if its body uses one, or the options are valid
and its roots lead to a function that uses one. -/
theorem compile_unknownName_iff (p : Program) (o : Options) :
    (∃ name, (p.compile o).1 = .error (.unknownName name)) ↔ p.core.Unbound [] ∨
      o.check = .ok () ∧ ∃ outer F, p.core.Meets (.code outer (.function F)) ∧ F.Unbound outer := by
  unfold compile
  rcases p.run_core with ⟨name, hunbound, herror⟩ | ⟨hbound, body, c, hrun, hroots, hsees⟩
  · refine ⟨fun _ => .inl hunbound, fun _ => ⟨name, ?_⟩⟩
    rcases hrun : (Builder.empty ()).run p.recipe with ⟨result, c⟩
    rw [hrun] at herror
    cases herror
    rfl
  · rw [hrun, or_iff_right hbound, ← hroots.survey_iff fun r hr => (hsees r hr).1]
    exact hroots.1.1.compile_iff hroots.1.2 hsees

/-- **Names resolve lexically.** A program is lowered as its core form is, where a name stands for
the node that the innermost body around it binds it to: the last of the definitions with this name,
else the last of the parameters, else the function itself. Bodies are lowered when they are asked
for, but their names were settled when the function was made.

A program is rejected for a name just if the name has no binder and is met: in the program's own
body, or, if the options are valid, in the body of a function that the program's roots lead to. -/
theorem names_resolve (p : Program) (o : Options) :
    (∀ σ : Type, (p.recipe : Recipe σ) = p.core.recipe) ∧
    ((∃ fault, (p.compile o).1 = .error fault ∧ fault.code = "Z-ERR-IR-001") ↔
      p.core.Unbound [] ∨
      o.check = .ok () ∧ ∃ outer F, p.core.Meets (.code outer (.function F)) ∧ F.Unbound outer) := by
  refine ⟨fun σ => p.recipe_eq_core, ?_⟩
  rw [← p.compile_unknownName_iff o]
  constructor
  · rintro ⟨fault, hfault, hcode⟩
    obtain ⟨name, rfl⟩ := (fault_of_compile hfault).code_iff.1 hcode
    exact ⟨name, hfault⟩
  · rintro ⟨name, hfault⟩
    exact ⟨_, hfault, rfl⟩

end Program

end ScriptGraph
