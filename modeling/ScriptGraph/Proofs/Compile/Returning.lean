import ScriptGraph.Proofs.Compile.Names
import ScriptGraph.Proofs.Compile.Objects
import ScriptGraph.Proofs.Emission.Makeup
import ScriptGraph.Proofs.Emission.Margins

/-!
# What stands after `return`

* `Output.BodyAt` : a body of a script, between the text before and after it;
* `Links.margin_splice` : splicing leaves the space that a text begins with alone;
* `Builder.returns_of_compile` : between `return` and the returned expression there is the space that
  the texts of nodes bring, and no other;
* `Builder.returns_lineExample` : a line ends there if one of them brings a line end.
-/

namespace ScriptGraph

open Ecma

variable {σ : Type}

/-! ## Space -/

/-- A line ends before the first character that is no space. -/
def Ecma.LineFirst (cs : List Char) : Prop := ∃ c ∈ margin cs, isLineEnd c = true

instance (cs : List Char) : Decidable (LineFirst cs) :=
  decidable_of_iff ((margin cs).any isLineEnd = true) List.any_eq_true

section Splice

variable {links : Links} {x : Access} {o : Output}

/-- A replacement leaves the space that a text begins with alone, unless it brings some. -/
theorem margin_replaceAll {old new : List Char} (hold : old.head? = some '\x00')
    (hnew : Starts new) (cs : List Char) : margin (replaceAll old new cs) = margin cs := by
  obtain ⟨rest, rfl⟩ := List.head?_eq_some_iff.1 hold
  induction cs with
  | nil => rfl
  | cons c cs ih =>
    unfold replaceAll at ih ⊢
    rw [replaceFrom]
    split
    · rename_i hbegins
      obtain ⟨tail, heq⟩ := List.isPrefixOf_iff_prefix.1 hbegins
      obtain rfl : '\x00' = c := (List.cons.inj heq).1
      rw [(hnew.append _).margin_eq, Starts.margin_eq ⟨'\x00', cs, rfl, by decide⟩]
    · unfold margin at ih ⊢
      rw [List.takeWhile_cons, List.takeWhile_cons, ih]

theorem Options.starts_contents {o : Options} (h : o.check = .ok ()) (links : Links) (s : Store) :
    Starts (links.contents o.access s).toList := by
  have hname {field name : String} (hmem : (field, name) ∈ o.names) : Starts name.toList :=
    starts_of_isIdentifier (isIdentifier_of_check h hmem)
  have haccessor := hname (by simp [names] : ("resourceAccessor", o.resourceAccessor) ∈ o.names)
  cases s with
  | modules =>
    have hawait : Starts "await Promise.all(".toList := by decide
    exact (hawait.append_string _).append_string _
  | resources =>
    show Starts (o.access.resourcesText links.stores).toList
    have hbracketed (items : List String) : Starts (Stores.bracketed items).toList := by
      rw [Stores.toList_bracketed]
      exact ⟨'[', _, rfl, by decide⟩
    have htext (mode : ResourceMode) {accessor : String} (h : Starts accessor.toList)
        (keysInline : Bool) :
        Starts (links.stores.resourcesText mode accessor keysInline).toList := by
      cases mode with
      | snapshot => exact hbracketed _
      | runtime =>
        cases keysInline with
        | false => exact h
        | true => exact ((h.append_string _).append_string _).append_string _
    unfold Access.resourcesText
    split
    · rename_i param _ hp
      have hparam : o.resourceParam = param := by
        cases hmode : o.mode <;> simp_all [access]
      exact htext _ (hparam ▸ hname (by simp [names] : ("resourceParam", _) ∈ o.names)) _
    · exact htext _ haccessor _

theorem Links.margin_splice (h : ∀ s, Starts (links.contents x s).toList) (text : List Char) :
    margin (links.splice x o text) = margin text := by
  have hput (s : Store) (text : List Char) : margin (links.put x o s text) = margin text := by
    unfold put
    split
    · exact margin_replaceAll s.isMark_mark.1 (h s) text
    · rfl
  rw [splice_eq, hput, hput]

/-- Only the declarations and the result of a body are spliced, and what is around it. -/
theorem Links.splice_value (before after : List Char) (d : Declaration) (ds : List Declaration)
    (result : Fragment) :
    links.splice x o (before ++ (Block.value (d :: ds) result).render links ++ after) =
      links.splice x o before ++ '\x7b' :: links.splice x o (renderLet links (d :: ds)) ++
        "return ".toList ++ links.splice x o (result.render links) ++
          '\x7d' :: links.splice x o after := by
  have hopen : Separates ['\x7b'] :=
    separates_of_mem (c := '\x7b') (by decide) (by decide) (by decide)
  have hreturn : Separates "return ".toList :=
    separates_of_mem (c := ' ') (by decide) (by decide) (by decide)
  have hclose : Separates ['\x7d'] :=
    separates_of_mem (c := '\x7d') (by decide) (by decide) (by decide)
  have htext : before ++ (Block.value (d :: ds) result).render links ++ after =
      before ++ (['\x7b'] ++ (renderLet links (d :: ds) ++ ("return ".toList ++
        (result.render links ++ (['\x7d'] ++ after))))) := by
    rw [Block.render, if_neg (by simp)]
    simp
  rw [htext, splice_append hopen, splice_append hreturn, splice_append hclose]
  simp

end Splice

/-! ## Bodies -/

/-- The body of a scope, where that of the top level is given. -/
def Graph.bodyIn (g : Graph) (top : Body) : Scope → Option Body
  | none => some top
  | some f => g.body? f

/-- A body of a script with the text before and after it: that of an evaluation, or that of a function
where it is written. -/
inductive Output.BodyAt (o : Output) (links : Links) (params : List String) :
    Scope → Block → List Char → List Char → Prop
  | evaluation {b before after} (h : o = .evaluation b)
    (hbefore : before = "(async(".toList ++ joined [','] (params.map (·.toList)) ++ ")=>".toList)
    (hafter : after = [')']) : BodyAt o links params none b before after
  | function {p f enclosed suspends ps b} (hp : p ∈ o.placements links params)
    (hf : p.fragment = .lambda f enclosed suspends ps b) :
    BodyAt o links params (some f) b (p.before ++ opening enclosed ++ arrow suspends ps)
      (closing enclosed ++ p.after)

namespace Output.BodyAt

variable {o : Output} {links : Links} {params : List String} {scope : Scope} {b : Block}
  {before after : List Char}

theorem text (h : o.BodyAt links params scope b before after) :
    o.render links params = before ++ b.render links ++ after := by
  cases h with
  | evaluation h hbefore hafter => rw [h, hbefore, hafter, Output.render_evaluation]
  | @function p f enclosed suspends ps _ hp hf =>
    rw [← o.text_of_placement params p hp, Placement.text, hf, Fragment.render_lambda]
    simp

theorem blockAs {l : Layout} {P : NodeId → Position → Fragment → Prop} {mode : CompileMode}
    {top : Body} (h : o.BodyAt links params scope b before after) (hP : l.Closed P)
    (ho : l.output mode top = .ok o) :
    ∃ body, l.graph.bodyIn top scope = some body ∧ l.BlockAs P scope body b := by
  cases h with
  | evaluation h =>
    subst h
    have has := hP.of_output ho
    cases mode with
    | statements =>
      obtain ⟨_, _, _, heq⟩ := has
      cases heq
    | evaluation =>
      obtain ⟨root, _, rfl, hb, heq⟩ := has
      cases heq
      exact ⟨_, rfl, hb⟩
  | @function p f enclosed suspends ps _ hp hf =>
    have hmem : p.fragment ∈ o.written := o.fragment_mem_written hp
    exact hP.madeOf_output ho _ (hf ▸ hmem)

end Output.BodyAt

/-- Every reachable function has its body in the script. -/
theorem Layout.exists_bodyAt {l : Layout} {mode : CompileMode} {top : Body} {o : Output}
    (h : l.graph.Resolved top l.analysis) (ho : l.output mode top = .ok o) {f : NodeId}
    (hmem : f ∈ l.analysis.order) (hf : l.graph.isFunction f = true) (links : Links)
    (params : List String) : ∃ b before after, o.BodyAt links params (some f) b before after := by
  have hparam : l.graph.isParameter f = false := by
    rw [← Bool.not_eq_true]
    intro hp
    rw [Graph.not_isFunction_of_isParameter hp] at hf
    cases hf
  obtain ⟨around, hw⟩ := h.exists_written (l.output_yields ho) ((h.surveyed.mem_iff f).1 hmem) hparam
  have hnode : f ∈ (o.placements links params).filterMap (·.fragment.node?) := by
    have hmap := List.filterMap_map (f := fun p : Placement => p.fragment) (g := Fragment.node?)
      (l := o.placements links params)
    rw [o.map_fragment_placements params, o.nodes_written] at hmap
    exact hmap ▸ mem_marked_written.2 ⟨around, hw⟩
  obtain ⟨p, hp, hnode⟩ := List.mem_filterMap.1 hnode
  have hmade := closed_writesOut.madeOf_output ho p.fragment (o.fragment_mem_written hp)
  cases hfrag : p.fragment with
  | lambda f' enclosed suspends ps b =>
    rw [hfrag] at hnode
    cases hnode
    exact ⟨b, _, _, .function hp hfrag⟩
  | expansion e enclosed pieces =>
    rw [hfrag] at hnode hmade
    cases hnode
    exact absurd hf (hmade.1 ▸ Bool.false_ne_true)
  | _ =>
    rw [hfrag] at hmade
    exact hmade.elim

namespace Builder

variable {b c : Builder σ} {body : Body} {o : Options}

/-- **Between `return` and the returned expression there is the space that texts of nodes bring.**
This holds of every function of a compiled script, and of an evaluation, whose body is one expression
and has declarations. A line ends there exactly if the space that is brought has a line end, and then
the text of some node begins with such space. -/
theorem returns_of_compile (hb : b.Reached) {stores : Stores} {resolver : Resolver}
    {outcome : Outcome} {compiled : Compiled}
    (h : b.compile body o stores resolver = (outcome, c)) (hok : outcome.result = .ok compiled) :
    ∃ a output links, b.analyze body o.nameStem = (.ok a, c) ∧ b.script body o = .ok output ∧
      compiled.Presents o output links ∧
      (∀ f ∈ a.order, c.state.graph.isFunction f = true → ∃ block before after,
        output.BodyAt links (o.access.params output) (some f) block before after) ∧
      (o.mode = .evaluation → ∃ block before after,
        output.BodyAt links (o.access.params output) none block before after) ∧
      ∀ scope block before after root,
        output.BodyAt links (o.access.params output) scope block before after →
        c.state.graph.bodyIn body scope = some (.value root) →
        ∃ ds result, block = .value ds result ∧ (ds = [] ↔ a.declarationsOf scope = []) ∧
          (o.layout c.state.graph a).UseAs (o.layout c.state.graph a).WritesOut root .standalone
            result ∧
          (ds ≠ [] → ∃ text, text = links.splice o.access output (result.render links) ∧
            compiled.code.toList = links.splice o.access output before ++
              '\x7b' :: links.splice o.access output (renderLet links ds) ++ "return ".toList ++
              text ++ '\x7d' :: links.splice o.access output after ∧
            margin text = result.margin ∧
            (LineFirst text → ∃ t, c.state.graph.HasText t ∧ LineFirst t.toList)) := by
  obtain ⟨a, output, links, ha, hscript, hpresents, -, hform, -⟩ := names_of_compile hb h hok
  obtain ⟨hcheck, a', c', ha', ho⟩ := script_eq_ok.1 hscript
  obtain ⟨rfl, rfl⟩ : a = a' ∧ c = c' := by
    rw [ha, Prod.mk.injEq, Except.ok.injEq] at ha'
    exact ha'
  have hresolved := analyze_resolved hb ha
  have hfirm : (o.layout c.state.graph a).Firm := by
    refine ⟨fun e name hname => ?_, ?_⟩
    · exact starts_of_isIdentifier (hform name ⟨e, Layout.nameOf_eq_ok.1 hname⟩).1
    · show Starts o.placeholderArray.toList
      have hmem : ("refBinding", o.placeholderArray) ∈ o.names := by simp [Options.names]
      exact starts_of_isIdentifier (Options.isIdentifier_of_check hcheck hmem)
  have hclosed := Layout.closed_writesOut.and
    ((Layout.closed_margin hfirm).and (Layout.closed_given hfirm))
  refine ⟨a, output, links, ha, hscript, hpresents,
    fun f hf hfun => Layout.exists_bodyAt hresolved ho hf hfun links _, fun hmode => ?_, ?_⟩
  · have has := hclosed.of_output ho
    rw [hmode] at has
    obtain ⟨_, block, -, -, heq⟩ := has
    exact ⟨block, _, _, .evaluation heq rfl rfl⟩
  · intro scope block before after root hat hbody
    obtain ⟨body', hbody', ds, hds, hresult⟩ := hat.blockAs hclosed ho
    cases hbody.symm.trans hbody'
    obtain ⟨result, huse, rfl⟩ := hresult
    refine ⟨ds, result, rfl, ?_, huse.imp fun _ _ _ h => h.1, fun hne => ?_⟩
    · rw [← List.length_eq_zero_iff, ← hds.length_eq, List.length_eq_zero_iff]
      exact Iff.rfl
    obtain ⟨d, ds, rfl⟩ := List.exists_cons_of_ne_nil hne
    have hbegins : result.BeginsSo links :=
      Layout.of_use (Q := fun f => f.BeginsSo links) huse
        (fun name hn => Layout.beginsSo_name hfirm hn _ links) fun h => h.2.1 links
    have hgiven : (o.layout c.state.graph a).Given result :=
      Layout.of_use huse (fun _ _ ch hch => by cases hch) fun h => h.2.2
    have hmargin : margin (links.splice o.access output (result.render links)) = result.margin :=
      (Links.margin_splice (Options.starts_contents hcheck links) _).trans hbegins.margin
    refine ⟨_, rfl, ?_, hmargin, ?_⟩
    · rw [hpresents.code, String.toList_ofList, hat.text, Links.splice_value]
    · rintro ⟨ch, hch, hline⟩
      rw [hmargin] at hch
      obtain ⟨t, ht, hmem⟩ := hgiven ch hch
      exact ⟨t, ht, ch, hmem, hline⟩

/-- A template that begins with the given text and uses a call twice. -/
def sumExample (lead : String) : Builder Unit :=
  (run (Build.toRecipe do
    let x ← Build.raw "a()"
    let sum ← Build.template [.text lead, .node x, .text "+", .node x]
    return .ok (.value sum)) (.empty ())).2

def sumBlock (lead : String) : Block :=
  .value [.mk 0 "_0" false (.expansion 0 false [.text "a()"])]
    (.expansion 1 false [.text lead, .name 0 "_0" false, .text "+", .name 0 "_0" false])

theorem reached_sumExample (text : String) : (sumExample text).Reached :=
  (run_leads _ _).reached (reached_empty ())

theorem script_sumExample : (sumExample "").script (.value 1) { mode := .evaluation } =
    .ok (.evaluation (sumBlock "")) := by cbv

/-- The sum stands right after `return `. -/
theorem returns_sumExample : ∃ outcome c compiled before text after,
    (sumExample "").compile (.value 1) { mode := .evaluation } {} Resolver.identity =
      (outcome, c) ∧
    outcome.result = .ok compiled ∧
    compiled.code = "(async()=>\x7blet _0=a();return _0+_0\x7d)" ∧
    compiled.code.toList = before ++ "return ".toList ++ text ++ '\x7d' :: after ∧
    margin text = [] := by
  obtain ⟨hcheck, a, c, ha, ho⟩ := script_eq_ok.1 script_sumExample
  have hreached := reached_sumExample ""
  obtain ⟨compiled, hcode, -, hcompile⟩ := exists_compiled hreached hcheck ha ho {} Resolver.identity
  obtain ⟨_, output, links, -, hscript, -, -, -, hreturns⟩ :=
    returns_of_compile hreached hcompile rfl
  obtain rfl : output = .evaluation (sumBlock "") :=
    Except.ok.inj (hscript.symm.trans script_sumExample)
  obtain ⟨_, _, hblock, -, -, htext⟩ := hreturns none _ _ _ 1 (.evaluation rfl rfl rfl) rfl
  cases hblock
  obtain ⟨text, -, hwhole, hmargin, -⟩ := htext (List.cons_ne_nil _ _)
  refine ⟨_, c, compiled, _, text, _, hcompile, rfl, ?_, hwhole, hmargin.trans rfl⟩
  rw [hcode.code]
  decide

theorem script_lineExample : (sumExample "\n").script (.value 1) { mode := .evaluation } =
    .ok (.evaluation (sumBlock "\n")) := by cbv

/-- A line ends after `return `, and the sum is not returned. -/
theorem returns_lineExample : ∃ outcome c compiled before text after,
    (sumExample "\n").compile (.value 1) { mode := .evaluation } {} Resolver.identity =
      (outcome, c) ∧
    outcome.result = .ok compiled ∧
    compiled.code = "(async()=>\x7blet _0=a();return \n_0+_0\x7d)" ∧
    compiled.code.toList = before ++ "return ".toList ++ text ++ '\x7d' :: after ∧
    LineFirst text := by
  obtain ⟨hcheck, a, c, ha, ho⟩ := script_eq_ok.1 script_lineExample
  obtain ⟨compiled, hcode, -, hcompile⟩ :=
    exists_compiled (reached_sumExample _) hcheck ha ho {} Resolver.identity
  have htext : compiled.code = "(async()=>\x7blet _0=a();return \n_0+_0\x7d)" := by
    rw [hcode.code]
    decide
  refine ⟨_, c, compiled, "(async()=>\x7blet _0=a();".toList, "\n_0+_0".toList, [')'], hcompile,
    rfl, htext, ?_, by decide⟩
  rw [htext]
  decide

end Builder

end ScriptGraph
