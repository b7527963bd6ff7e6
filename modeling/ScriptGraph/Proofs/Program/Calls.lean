import ScriptGraph.Proofs.Analysis.Visits
import ScriptGraph.Proofs.Compile.References
import ScriptGraph.Proofs.Emission.Spelling
import ScriptGraph.Proofs.Program.UnknownNames

/-!
# The calls of a program

A call of a program that is marked as pure may be evaluated at every use. The mark is lost where the
call is optional.

* `Graph.IsCall.not_declares`, `Graph.IsCall.declares_iff` : when a call is declared;
* `Output.Unnamed`, `Output.WritesCall` : a node has no name in a script, and is written as a call;
* `Builder.Roots.analyze` : the nodes of an analysed program are made from pieces of it;
* `Program.calls_of_compile` : pure calls that are not optional are never declared, and all others are
  declared like any expression;
* `Program.calls_optionalExample` : a pure call that is.
-/

namespace ScriptGraph

variable {σ : Type}

/-! ## Which calls are declared -/

namespace Graph

variable {g : Graph} {e callee : NodeId} {args : List NodeId} {style : CallStyle}
  {landings : Scope → Nat}

/-- A pure call is not declared, however often and wherever it lands. -/
theorem IsCall.not_declares (h : g.IsCall e callee args .pure) : ¬g.Declares e landings := by
  obtain ⟨n, hn, -, r, hflags⟩ := h
  rw [Declares, flagsOf_of_node hn, hflags]
  rintro (hpinned | ⟨hinert, -⟩)
  · cases hpinned
  · cases hinert

/-- Any other call is declared unless it lands once, in its own scope. -/
theorem IsCall.declares_iff (h : g.IsCall e callee args style) (hstyle : style ≠ .pure) :
    g.Declares e landings ↔ ¬g.LandsOnce e landings := by
  obtain ⟨n, hn, -, r, hflags⟩ := h
  have hinert : n.flags.inert = false := by
    rw [hflags]
    cases style with
    | pure => exact absurd rfl hstyle
    | _ => rfl
  have hpinned : n.flags.pinned = false := by
    rw [hflags]
    cases style <;> rfl
  rw [Declares, flagsOf_of_node hn, hinert, hpinned, LandsOnce]
  grind

theorem IsCall.isParameter (h : g.IsCall e callee args style) : g.isParameter e = false := by
  obtain ⟨n, hn, hk, -⟩ := h
  rw [Graph.isParameter, kindOf?_of_node hn, hk]

theorem IsCall.isFunction (h : g.IsCall e callee args style) : g.isFunction e = false := by
  obtain ⟨n, hn, hk, -⟩ := h
  rw [Graph.isFunction, kindOf?_of_node hn, hk]

end Graph

/-! ## What is written for them -/

namespace Output

/-- The script gives the node no name: no declaration is for it, and no use of it is a name. -/
def Unnamed (o : Output) (e : NodeId) : Prop :=
  e ∉ o.bound ∧ e ∉ marked Mark.name? o.sites

/-- Wherever the node is written out, it is written as a call of `callee`. -/
def WritesCall (o : Output) (e callee : NodeId) (args : List NodeId) (optional : Bool) : Prop :=
  ∀ w ∈ o.written, w.node? = some e → ∃ pieces, w = .expansion e false pieces ∧
    List.Forall₂ (fun q f => Fragment.Spells f q)
      (.node callee :: .text (if optional then "?.(" else "(") ::
        commaSeparated (args.map .node) ++ [.text ")"]) pieces

end Output

namespace Layout

variable {l : Layout} {mode : CompileMode} {body : Body} {o : Output} {e callee : NodeId}
  {args : List NodeId} {style : CallStyle}

theorem writesCall_output (ho : l.output mode body = .ok o)
    (h : l.graph.IsCall e callee args style) :
    o.WritesCall e callee args (BuilderState.callFlags style).optional := by
  intro w hw hnode
  obtain ⟨⟨scope, flags, kind⟩, hn, rfl, r, rfl⟩ := id h
  obtain ⟨pos, spelled, hspelled, rfl⟩ :=
    (l.spellsNode_output ho w hw).exists_expansion hnode hn h.isFunction
  exact ⟨spelled, congrArg _ (List.append_nil spelled), hspelled⟩

theorem unnamed_output (h : l.graph.Resolved body l.analysis) (ho : l.output mode body = .ok o)
    (hd : l.analysis.isDeclared e = false) (hp : l.graph.isParameter e = false) : o.Unnamed e := by
  have hy := l.output_yields ho
  refine ⟨fun hbound => ?_, List.count_eq_zero.1 (Graph.Resolved.count_named_eq_zero hy hd hp)⟩
  exact absurd (h.isDeclared_of_bound hy hbound) (hd ▸ Bool.false_ne_true)

end Layout

/-! ## Programs -/

theorem optional_callStyle (optional pure : Bool) :
    (BuilderState.callFlags (callStyle optional pure)).optional = optional := by
  cases optional <;> cases pure <;> rfl

theorem callStyle_eq_pure_iff (optional pure : Bool) :
    callStyle optional pure = .pure ↔ pure = true ∧ optional = false := by
  cases optional <;> cases pure <;> simp [callStyle]

namespace Builder

variable {b c : Builder σ} {p : CoreFunction} {body : Body} {stem : String} {a : Analysis}

/-- The nodes of an analysed program are made from pieces of it. -/
theorem Roots.analyze (h : b.Roots p body.roots) (hroots : ∀ e ∈ body.roots, b.Sees e)
    (ha : b.analyze body stem = (.ok a, c)) : ∃ ρ, c.Labelled ρ [] ∧
      List.Forall₂ ρ.Has body.roots (p.roots.filterMap (Core.denote [p])) := by
  obtain ⟨d, hsurvey, -, hd⟩ := analyze_eq_ok.1 ha
  have hc : c.Reached := by
    have hreached := (b.analyze_leads body stem).reached h.1.1.reached
    rwa [ha] at hreached
  rcases surveyable_roots.survey h (.start _ _) fun e he => (hroots e he).1 with
    ⟨-, -, ρ, hlabelled, hlabels⟩ | ⟨_, _, _, _, _, _, _, herror⟩
  · rw [hsurvey] at hlabelled
    subst hd
    exact ⟨ρ, { hlabelled with reached := hc }, hlabels⟩
  · cases (congrArg Prod.fst hsurvey).symm.trans herror

end Builder

namespace Program

theorem exists_lowered {p : Program} {o : Options} {x : Compiled} (h : (p.compile o).1 = .ok x) :
    ∃ body b outcome c, (Builder.empty ()).run p.recipe = (.ok body, b) ∧
      b.Roots p.core body.roots ∧ (∀ r ∈ body.roots, b.Sees r) ∧
      b.compile body o {} o.resolver = (outcome, c) ∧ outcome.result = .ok x := by
  unfold compile at h
  rcases p.run_core with ⟨name, -, herror⟩ | ⟨-, body, b, hrun, hroots, hsees⟩
  · rcases hrun : (Builder.empty ()).run p.recipe with ⟨result, b⟩
    rw [hrun] at herror h
    cases herror
    cases h
  · rw [hrun] at h
    exact ⟨body, b, _, _, hrun, hroots, hsees, rfl, h⟩

/-- **Pure calls that are not optional are never declared.** In a compiled program each root is a
node made from its own piece of the program, and every call that the roots lead to has a node.
Wherever such a node is written out, it is written as the call, with `?.` exactly if the call is
optional. A pure call that is not optional is not among the declarations of any scope, and no use of
it is a name: it is written out at each use. Any other call, and so also an optional one that is
pure, is declared unless it lands once, in its own scope. -/
theorem calls_of_compile {p : Program} {o : Options} {x : Compiled} (h : (p.compile o).1 = .ok x) :
    ∃ body b c a output links ρ count, (Builder.empty ()).run p.recipe = (.ok body, b) ∧
      b.analyze body o.nameStem = (.ok a, c) ∧ b.script body o = .ok output ∧
      x.Presents o output links ∧ c.Labelled ρ [] ∧
      List.Forall₂ ρ.Has body.roots (p.core.roots.filterMap (Core.denote [p.core])) ∧
      c.state.graph.CountsLandings body.roots count ∧
      ∀ around callee args optional pure,
        let call := Label.code around (Expression.call callee args optional pure).core
        (p.core.Meets call → ∃ e ∈ a.order, ρ.Has e call) ∧
        ∀ e ∈ a.order, ρ.Has e call →
          (∃ f es, List.Forall₂ ρ.Has (f :: es) call.leadsTo ∧ output.WritesCall e f es optional) ∧
          (pure = true ∧ optional = false →
            (∀ scope, e ∉ a.declarationsOf scope) ∧ output.Unnamed e) ∧
          (pure = false ∨ optional = true →
            (a.isDeclared e = true ↔ ¬c.state.graph.LandsOnce e (count e))) := by
  obtain ⟨body, b, outcome, c, hrun, hroots, hsees, hcompile, hok⟩ := exists_lowered h
  obtain ⟨a, output, ha, houtput, hcheck, hpresents, -⟩ :=
    Builder.presents_of_compile hroots.1.1.reached hcompile hok
  obtain ⟨ρ, hlabelled, hlabels⟩ := hroots.analyze hsees ha
  have hresolved := Builder.analyze_resolved hroots.1.1.reached ha
  obtain ⟨count, hcount, hdeclared⟩ := hresolved.exists_countsLandings
  refine ⟨body, b, c, a, output, _, ρ, count, hrun, ha,
    Builder.script_eq_ok.2 ⟨hcheck, a, c, ha, houtput⟩, hpresents, hlabelled, hlabels,
    hcount, fun around callee args optional pure => ⟨fun hmeets => ?_, fun e he hcall => ?_⟩⟩
  · exact hresolved.surveyed.reaches_of_meets hlabelled hlabels hmeets
  · have hshows := hlabelled.shows e _ hcall (hresolved.surveyed.built e he)
    obtain ⟨f, es, hnode, hnodes⟩ := hshows.call around callee.core (cores args)
      (callStyle optional pure) rfl
    have hiff := hdeclared e ((hresolved.surveyed.mem_iff e).1 he)
    refine ⟨⟨f, es, hnodes, ?_⟩, fun hpure => ?_, fun hother => ?_⟩
    · have hwrites := Layout.writesCall_output (l := o.layout c.state.graph a) houtput hnode
      rwa [optional_callStyle] at hwrites
    · rw [(callStyle_eq_pure_iff _ _).2 hpure] at hnode
      have hnot : a.isDeclared e = false := by
        rw [← Bool.not_eq_true]
        exact fun hd => hnode.not_declares (hiff.1 hd)
      refine ⟨fun scope hmem => ?_, Layout.unnamed_output (l := o.layout c.state.graph a)
        hresolved houtput hnot hnode.isParameter⟩
      exact absurd (hresolved.mem_declarationsOf_iff.1 hmem).1 (hnot ▸ Bool.false_ne_true)
    · refine hiff.trans (hnode.declares_iff fun hpure => ?_)
      obtain ⟨hp, ho⟩ := (callStyle_eq_pure_iff _ _).1 hpure
      rcases hother with hother | hother
      · exact absurd (hp.symm.trans hother) nofun
      · exact absurd (ho.symm.trans hother) nofun

/-- A pure call that is used twice. -/
def pureExample (optional : Bool) : Program where
  definitions := [.mk "c" (.call (.ident "f") [] optional true)]
  body := some (.statements [.use "c", .use "c"])

/-- What is written for the call. -/
def pureCall (optional : Bool) : Fragment :=
  .expansion 2 false [.expansion 1 false [.text "f"], .text (if optional then "?.(" else "("),
    .text ")"]

def pureScript : Output :=
  .script [] [.expansion 0 false [pureCall false], .expansion 0 false [pureCall false]]

def optionalScript : Output :=
  .script [.mk 2 "_0" false (pureCall true)]
    [.expansion 0 false [.name 2 "_0" false], .expansion 0 false [.name 2 "_0" false]]

theorem compile_pureExample (optional : Bool) (output : Output) (code : String)
    (hrun : ((Builder.empty ()).run (pureExample optional).recipe).1 = .ok (.statements [0, 0]))
    (hscript : ((Builder.empty ()).run (pureExample optional).recipe).2.script
      (.statements [0, 0]) {} = .ok output)
    (hcode : ∀ links : Links, String.ofList (links.splice ({} : Options).access output
      (output.render links (({} : Options).access.params output))) = code) :
    ∃ x, ((pureExample optional).compile {}).1 = .ok x ∧ x.code = code := by
  obtain ⟨hcheck, a, c, ha, ho⟩ := Builder.script_eq_ok.1 hscript
  obtain ⟨x, hpresents, -, hcompile⟩ :=
    Builder.exists_compiled (Builder.run_leads _ _ |>.reached (Builder.reached_empty ())) hcheck ha ho {}
      ({} : Options).resolver
  refine ⟨x, ?_, hpresents.code.trans (hcode _)⟩
  rw [compile]
  rcases hb : (Builder.empty ()).run (pureExample optional).recipe with ⟨result, b⟩
  rw [hb] at hrun hcompile
  cases hrun
  dsimp only at hcompile ⊢
  rw [hcompile]
  rfl

/-- The call is written at both uses. -/
theorem calls_pureExample : ∃ x a e, ∃ output : Output,
    ((pureExample false).compile {}).1 = .ok x ∧ x.code = "f();f();" ∧ e ∈ a.order ∧
      (∀ scope, e ∉ Analysis.declarationsOf a scope) ∧ output.Unnamed e ∧
      ∃ f, output.WritesCall e f [] false := by
  obtain ⟨x, hok, hcode⟩ := compile_pureExample false pureScript "f();f();" (by cbv) (by cbv)
    fun links => by rfl
  obtain ⟨_, _, _, a, output, _, ρ, _, -, -, -, -, -, -, -, hcalls⟩ := calls_of_compile hok
  obtain ⟨hexists, hall⟩ := hcalls [(pureExample false).core] (.ident "f") [] false true
  have hmeets : (pureExample false).core.Meets (.code [(pureExample false).core]
      (Expression.call (.ident "f") [] false true).core) :=
    .step (.root (c := .use "c") List.mem_cons_self rfl) (List.mem_cons_self)
  obtain ⟨e, he, hcall⟩ := hexists hmeets
  obtain ⟨⟨f, es, hnodes, hwrites⟩, hpure, -⟩ := hall e he hcall
  have hes : es = [] := List.length_eq_zero_iff.1 (Nat.succ.inj hnodes.length_eq)
  subst hes
  exact ⟨x, a, e, output, hok, hcode, he, (hpure ⟨rfl, rfl⟩).1, (hpure ⟨rfl, rfl⟩).2, f, hwrites⟩

/-- An optional call is declared, although it is pure. -/
theorem calls_optionalExample : ∃ x, ((pureExample true).compile {}).1 = .ok x ∧
    x.code = "let _0=f?.();_0;_0;" :=
  compile_pureExample true optionalScript _ (by cbv) (by cbv) fun links => by rfl

end Program

end ScriptGraph
