import ScriptGraph.Proofs.Compile.Script
import ScriptGraph.Proofs.Program.Lowering

/-!
# How compiling a program can fail

* `Builder.Lexical.force`, `Builder.Lexical.survey` : what is asked for while a program is analysed
  is there, unless a name is unknown;
* `Fault.OfProgram` : the faults of programs;
* `Program.exists_compiled` : when compiling a program succeeds;
* `Program.compile_result` : compiling a program succeeds or fails with one of them.
-/

namespace ScriptGraph

variable {σ : Type}

namespace Builder

variable {b : Builder σ} {f : NodeId}

/-- Inside a function the names of its recipe can be used: those around it, its own and those of its
parameters. -/
theorem Lexical.binds_function (h : b.Lexical []) (hscope : b.state.scope = some f)
    (hf : b.state.graph.isFunction f = true) {env : Bindings}
    (henv : ∀ p ∈ env, b.state.graph.Sees (b.state.graph.scopeOf f) p.2) (name : Option String)
    (params : List String) :
    b.Binds (env.bindFunction name f params (b.state.graph.params f)) := by
  have hg := h.sound.graph
  have houter : b.Binds env := fun p hp => by
    rw [Sees, hscope]
    exact ⟨(henv p hp).1, hg.isWithin_trans (hg.isWithin_function f) (henv p hp).2⟩
  have hme : b.Sees f := by
    rw [Sees, hscope]
    exact ⟨Graph.lt_size_of_isFunction hf, hg.isWithin_function f⟩
  refine (houter.bind _ (List.forall_mem_singleton.2 hme)).bind _ fun x hx => ?_
  obtain ⟨hx, hxs⟩ := hg.mem_params hx
  obtain ⟨n, hn, _⟩ := Graph.scopeOf_eq_some.1 hxs
  rw [Sees, hscope, Graph.Sees, hxs]
  exact ⟨Graph.lt_size hn, hg.isWithin_refl _⟩

theorem Lexical.force (h : b.Lexical []) (hscopes : b.state.scopes = [])
    (hf : b.state.graph.isFunction f = true) :
    (∃ name, (b.force f).1 = .error (.unknownName name)) ∨
      (∃ body, (b.force f).1 = .ok body) ∧ (b.force f).2.Lexical [] := by
  rcases h.bodies.request hscopes hf with ⟨body, hbody, hreq⟩ | ⟨recipe, c, hreq⟩
  · rw [force_answer hreq]
    exact .inr ⟨⟨body, rfl⟩, h⟩
  · obtain ⟨hc, hfun, env, name, params, definitions, body, henv, hrecipe⟩ := h.enter hreq
    have hcscopes := request_scopes hreq
    have hbinds := hc.binds_function (congrArg List.head? hcscopes) hfun henv name params
    have hlowers : TryBuild.Lowers (loweredBody env name params definitions body f
        (c.state.graph.params f)) c fun d body => ShowsAll [] d body.roots :=
      withDefinitions_lowers definitions body hc hbinds
    rw [force_construct hreq, hrecipe, TryBuild.recipe]
    rcases hlowers.run with ⟨_, ⟨name, rfl⟩, herror⟩ | ⟨body, d, hrun, hd, hbody, hroots⟩
    · exact .inl ⟨name, herror⟩
    · rw [hrun]
      exact .inr ⟨⟨body, rfl⟩, hbody.leave (hd.2.trans hcscopes) hroots⟩

theorem surveyable_lexical :
    Surveyable fun b : Builder σ => b.Lexical [] ∧ b.state.scopes = [] where
  sound b h := h.1.sound
  filled b e h := by
    rw [← Bool.not_eq_true, Graph.isUnfilledSlot_iff, h.1.slots]
    exact List.not_mem_nil
  children b e h c hc := (h.1.nested.children e c hc).1
  force b f body h hf hbody := by
    rcases h.1.force h.2 hf with ⟨name, herror⟩ | ⟨_, hlexical⟩
    · exact nomatch hbody.symm.trans herror
    · exact ⟨⟨hlexical, (b.force_leads f).2.trans h.2⟩, fun r hr =>
        (hlexical.nested.roots f body (force_ok h.1.sound hbody) r hr).1⟩

theorem Lexical.survey {roots : List NodeId} (h : b.Lexical []) (hscopes : b.state.scopes = [])
    (hroots : ∀ e ∈ roots, e < b.state.graph.size) :
    (∃ name, (b.survey [] roots).1 = .error (.unknownName name)) ∨
      (∃ found, (b.survey [] roots).1 = .ok found) ∧ (b.survey [] roots).2.Lexical [] := by
  rcases surveyable_lexical.survey ⟨h, hscopes⟩ (.start _ roots) hroots with
    ⟨hok, hlexical⟩ | ⟨c, f, fault, ⟨hc, hcscopes⟩, _, hf, herror, hsurvey⟩
  · exact .inr ⟨hok, hlexical.1⟩
  · rcases hc.force hcscopes hf with ⟨name, hname⟩ | ⟨⟨body, hbody⟩, _⟩
    · cases herror.symm.trans hname
      exact .inl ⟨name, hsurvey⟩
    · exact nomatch herror.symm.trans hbody

theorem error_of_analyze {c : Builder σ} {body : Body} {stem : String} {fault : Fault}
    (h : b.analyze body stem = (.error fault, c)) :
    b.survey [] body.roots = (.error fault, c) ∨
      ∃ order, b.survey [] body.roots = (.ok order, c) ∧
        c.state.graph.settle body.roots order = .error fault := by
  unfold analyze at h
  split at h
  · rename_i hs
    cases h
    exact .inl hs
  · rename_i order d hs
    unfold Graph.analysis at h
    cases hsettle : d.state.graph.settle body.roots order with
    | error fault' =>
      rw [hsettle] at h
      cases h
      exact .inr ⟨order, hs, hsettle⟩
    | ok settled =>
      rw [hsettle] at h
      cases h

/-- Analysing what can be used at the top level fails for an unknown name, which the survey finds,
or for a cycle. -/
theorem Lexical.analyze (h : b.Lexical []) (hscopes : b.state.scopes = []) {c : Builder σ}
    {body : Body} (hroots : ∀ r ∈ body.roots, b.Sees r) {stem : String} {fault : Fault}
    (hfault : b.analyze body stem = (.error fault, c)) :
    (∃ name, fault = .unknownName name) ∧ (b.survey [] body.roots).1 = .error fault ∨
      fault = .cyclicGraph := by
  have hsurvey := h.survey hscopes fun r hr => (hroots r hr).1
  rcases error_of_analyze hfault with hs | ⟨order, hs, hsettle⟩
  · rw [hs] at hsurvey
    rcases hsurvey with ⟨name, herror⟩ | ⟨⟨found, hok⟩, _⟩
    · exact .inl ⟨⟨name, Except.error.inj herror⟩, congrArg Prod.fst hs⟩
    · cases hok
  · have hleads := b.survey_leads [] body.roots
    rw [hs] at hsurvey hleads
    obtain ⟨_, hc⟩ := hsurvey.resolve_left nofun
    have hsurveyed := survey_surveyed h.reached hs
    have hscope : c.state.scope = none := congrArg List.head? (hleads.2.trans hscopes)
    have hsees : ∀ r ∈ body.roots, c.state.graph.Sees none r := fun r hr =>
      hscope ▸ (hroots r hr).leads h.sound hleads
    exact .inr (hc.nested.settle_eq_error hc.sound.graph hsees
      (fun _ hp _ hx => hsurveyed.child_mem hp hx) hsurveyed.nodup hsettle)

end Builder

/-- The faults that compiling a program ends with. -/
inductive Fault.OfProgram (o : Options) : Fault → Prop
  | unknownName (name : String) : OfProgram o (.unknownName name)
  | invalidOption (field name : String) : OfProgram o (.invalidOption field name)
  | cyclicGraph : OfProgram o .cyclicGraph
  | statementsInEvaluation (h : o.mode = .evaluation) : OfProgram o .statementsInEvaluation
  | unparsable (h : o.verify = true) (code : String) : OfProgram o (.unparsable code)
  | stemTooLong (h : o.verify = true) (hsize : patternLimit < patternSize o.nameStem) :
    OfProgram o (.stemTooLong o.nameStem patternLimit)
  | unboundName (h : o.verify = true) (name code : String) : OfProgram o (.unboundName name code)

theorem Options.check_eq_error {o : Options} {fault : Fault} (h : o.check = .error fault) :
    ∃ field name, fault = .invalidOption field name := by
  unfold check at h
  split at h
  · cases h
    exact ⟨_, _, rfl⟩
  · cases h

theorem verifyScript_eq_error {code stem : String} {fault : Fault}
    (h : verifyScript code stem = .error fault) :
    fault = .unparsable code ∨
      (fault = .stemTooLong stem patternLimit ∧ patternLimit < patternSize stem) ∨
      ∃ name, fault = .unboundName name code := by
  unfold verifyScript at h
  split at h
  · cases h
    exact .inl rfl
  · split at h
    · rename_i hsize
      cases h
      exact .inr (.inl ⟨rfl, hsize⟩)
    · split at h
      · cases h
        exact .inr (.inr ⟨_, rfl⟩)
      · cases h

/-- The tree of a body that was analysed can be written, unless statements are to be evaluated. -/
theorem Layout.output_eq_error {l : Layout} {body : Body} {mode : CompileMode} {fault : Fault}
    (h : l.graph.Resolved body l.analysis) (hfault : l.output mode body = .error fault) :
    mode = .evaluation ∧ fault = .statementsInEvaluation := by
  by_cases hmode : mode = .evaluation → ∃ root, body = .value root
  · obtain ⟨output, ho⟩ := l.exists_output h hmode
    rw [ho] at hfault
    cases hfault
  · rw [Classical.not_imp] at hmode
    obtain ⟨rfl, hroot⟩ := hmode
    cases body with
    | value root => exact absurd ⟨root, rfl⟩ hroot
    | statements roots =>
      cases hfault
      exact ⟨rfl, rfl⟩

theorem Fault.OfProgram.of_verifyScript {o : Options} {code : String} {fault : Fault}
    (hv : o.verify = true) (h : verifyScript code o.nameStem = .error fault) :
    fault.OfProgram o := by
  rcases verifyScript_eq_error h with rfl | ⟨rfl, hsize⟩ | ⟨name, rfl⟩
  · exact .unparsable hv _
  · exact .stemTooLong hv hsize
  · exact .unboundName hv name _

/-- The steps in which a compilation can fail. Before verification, it leaves the stores alone. -/
theorem Builder.Reached.compile_eq_error {b : Builder σ} (h : b.Reached) {body : Body} {o : Options}
    {stores : Stores} {resolver : Resolver} {fault : Fault}
    (hfault : (b.compile body o stores resolver).1.result = .error fault) :
    ((b.compile body o stores resolver).1 = .failed fault stores ∧
      (o.check = .error fault ∨
        (o.check = .ok () ∧ ∃ c, b.analyze body o.nameStem = (.error fault, c)) ∨
        (o.mode = .evaluation ∧ fault = .statementsInEvaluation))) ∨
    (o.verify = true ∧ ∃ code, verifyScript code o.nameStem = .error fault) := by
  cases hcheck : o.check with
  | error fault' =>
    rw [Builder.compile, hcheck] at hfault ⊢
    cases hfault
    exact .inl ⟨rfl, .inl rfl⟩
  | ok _ =>
    rcases ha : b.analyze body o.nameStem with ⟨fault' | a, c⟩
    · rw [Builder.compile, hcheck] at hfault ⊢
      simp only [ha] at hfault ⊢
      cases hfault
      exact .inl ⟨rfl, .inr (.inl ⟨trivial, c, rfl⟩)⟩
    · cases ho : (o.layout c.state.graph a).output o.mode body with
      | error fault' =>
        have hresolved := analyze_resolved h ha
        rw [Builder.compile, hcheck] at hfault ⊢
        simp only [ha, Graph.compile_of_error hresolved ho] at hfault ⊢
        cases hfault
        exact .inl ⟨rfl, .inr (.inr (Layout.output_eq_error hresolved ho))⟩
      | ok output =>
        obtain ⟨compiled, _, _, hcompile⟩ := exists_compiled h hcheck ha ho stores resolver
        rw [hcompile] at hfault
        dsimp only at hfault
        cases hv : o.verify with
        | false =>
          rw [hv] at hfault
          cases hfault
        | true =>
          rw [hv, if_pos rfl] at hfault
          cases hverdict : verifyScript compiled.code o.nameStem with
          | ok _ =>
            rw [hverdict] at hfault
            cases hfault
          | error fault' =>
            rw [hverdict] at hfault
            cases hfault
            exact .inr ⟨rfl, _, hverdict⟩

theorem Builder.Lexical.compile {b : Builder σ} (h : b.Lexical []) (hscopes : b.state.scopes = [])
    {body : Body} (hroots : ∀ r ∈ body.roots, b.Sees r) {o : Options} {stores : Stores}
    {resolver : Resolver} {fault : Fault}
    (hfault : (b.compile body o stores resolver).1.result = .error fault) : fault.OfProgram o := by
  rcases h.reached.compile_eq_error hfault with
    ⟨_, hcheck | ⟨_, c, ha⟩ | ⟨hmode, rfl⟩⟩ | ⟨hverify, code, hcode⟩
  · obtain ⟨field, name, rfl⟩ := Options.check_eq_error hcheck
    exact .invalidOption field name
  · rcases h.analyze hscopes hroots ha with ⟨⟨name, rfl⟩, _⟩ | rfl
    · exact .unknownName name
    · exact .cyclicGraph
  · exact .statementsInEvaluation hmode
  · exact .of_verifyScript hverify hcode

namespace Program

theorem run_recipe (p : Program) :
    (∃ name, ((Builder.empty ()).run p.recipe).1 = .error (.unknownName name)) ∨
      ∃ body c, (Builder.empty ()).run p.recipe = (.ok body, c) ∧ c.Lexical [] ∧
        c.state.scopes = [] ∧ ∀ r ∈ body.roots, c.Sees r := by
  have hbinds : (Builder.empty ()).Binds [] := nofun
  have hlowers := withDefinitions_lowers p.definitions p.body (Builder.lexical_empty ()) hbinds
  rcases hlowers.run with ⟨_, ⟨name, rfl⟩, herror⟩ | ⟨body, c, hrun, hc, hlexical, hroots⟩
  · exact .inl ⟨name, herror⟩
  · exact .inr ⟨body, c, hrun, hlexical, hc.2, hroots⟩

/-- A program compiles if its roots can be analysed and the options ask for nothing that may fail. -/
theorem exists_compiled {p : Program} {o : Options} {body : Body} {order : List NodeId}
    (hrun : ((Builder.empty ()).run p.recipe).1 = .ok body)
    (hsurvey : (((Builder.empty ()).run p.recipe).2.survey [] body.roots).1 = .ok order)
    (hsettle : ((((Builder.empty ()).run p.recipe).2.survey [] body.roots).2.state.graph.settle
      body.roots order).isOk = true)
    (hcheck : o.check = .ok ()) (hverify : o.verify = false)
    (hmode : o.mode = .evaluation → ∃ root, body = .value root) :
    ∃ compiled, (p.compile o).1 = .ok compiled := by
  obtain ⟨a, c, ha, _⟩ := Builder.exists_analysis body o.nameStem hsurvey hsettle
  have hreached := ((Builder.empty ()).run_leads p.recipe).reached (Builder.reached_empty ())
  obtain ⟨_, outcome, compiled, _, hcompile, hok⟩ :=
    Builder.exists_compile hreached ha hcheck hverify hmode {} o.resolver
  refine ⟨compiled, ?_⟩
  rw [Program.compile]
  rcases hb : (Builder.empty ()).run p.recipe with ⟨result, b⟩
  rw [hb] at hrun hcompile
  cases hrun
  dsimp only at hcompile ⊢
  rw [hcompile]
  exact hok

theorem fault_of_compile {p : Program} {o : Options} {fault : Fault}
    (h : (p.compile o).1 = .error fault) : fault.OfProgram o := by
  unfold compile at h
  rcases p.run_recipe with ⟨name, herror⟩ | ⟨body, c, hrun, hlexical, hscopes, hroots⟩
  · rcases hrun : (Builder.empty ()).run p.recipe with ⟨fault' | body, c⟩
    · rw [hrun] at h herror
      cases h
      cases herror
      exact .unknownName name
    · rw [hrun] at herror
      cases herror
  · rw [hrun] at h
    exact hlexical.compile hscopes hroots h

/-- **Compiling a program succeeds or fails for what is wrong with the program or the options.** A
name may be unknown, definitions may form a cycle, statements may be given to be evaluated, the
options may name what is no identifier; a script may be rejected only if the options ask for
verification. What may go wrong with a builder does not: no node is used outside the function it was
made in, no slot stays empty or is filled twice, and no body is asked for in vain. -/
theorem compile_result (p : Program) (o : Options) :
    (∃ compiled, (p.compile o).1 = .ok compiled) ∨
    ∃ fault, (p.compile o).1 = .error fault ∧ fault.OfProgram o ∧
      (fault.code ∈ ["Z-ERR-IR-001", "Z-ERR-IR-002", "Z-ERR-ANALYSIS-001", "Z-ERR-MODE-001"] ∨
        fault.code ∈ ["Z-ERR-VERIFY-001", "Z-ERR-VERIFY-002"] ∧ o.verify = true) ∧
      fault.code ∉ ["Z-ERR-SCOPE-LEAK", "Z-ERR-SLOT-001", "Z-ERR-SLOT-002", "Z-ERR-BODY-001",
        "Z-ERR-BODY-002", "Z-ERR-CONVERT-001", "Z-ERR-ANALYSIS-002"] := by
  cases h : (p.compile o).1 with
  | ok compiled => exact .inl ⟨compiled, rfl⟩
  | error fault =>
    have hfault := fault_of_compile h
    refine .inr ⟨fault, rfl, hfault, ?_⟩
    cases hfault with
    | unparsable hv => exact ⟨.inr ⟨by simp [Fault.code], hv⟩, by simp [Fault.code]⟩
    | unboundName hv => exact ⟨.inr ⟨by simp [Fault.code], hv⟩, by simp [Fault.code]⟩
    | _ => exact ⟨.inl (by simp [Fault.code]), by simp [Fault.code]⟩

end Program

end ScriptGraph
