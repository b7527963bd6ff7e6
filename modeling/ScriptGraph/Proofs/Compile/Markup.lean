import ScriptGraph.Proofs.Compile.Script
import ScriptGraph.Proofs.Emission.Pieces
import ScriptGraph.Proofs.Emission.Splicing
import ScriptGraph.Proofs.Program.Harmless

/-!
# Scripts have no `<`

Some texts are written into a script as they are: those of `raw`, `ident` and the text parts of
templates. If they have no `<`, no script has one: all other texts pass through a literal, a key or
a member access.

* `Recipe.Harmless`, `Builder.Harmless` : recipes and builders that are handed no `<` in such texts;
* `Recipe.Harmless.drafts`, `Builder.Harmless.clean` : the nodes that are made then have no `<`;
* `Layout.closed_unmarked` : what is written for them has none;
* `Builder.lt_notMem_of_compile` : nor has a compiled script.
-/

namespace ScriptGraph

variable {σ : Type}

/-! ## Harmless recipes and builders -/

/-- A recipe hands over no text with a `<` to be written as it is. Other texts may be any: those of
values, properties, addresses and keys. -/
inductive Recipe.Harmless : Recipe σ → Prop
  | done (result) : Harmless (.done result)
  | look {next} (h : ∀ s, Harmless (next s)) : Harmless (.look next)
  | share {update next} (h : Harmless next) : Harmless (.share update next)
  | create {draft next} (hdraft : draft.Harmless) (h : ∀ e, Harmless (next e)) :
    Harmless (.create draft next)
  | member {next} (object property optional) (h : ∀ e, Harmless (next e)) :
    Harmless (Build.member object property optional next)
  | function {arity inner next} (hinner : ∀ f args, Harmless (inner f args))
    (h : ∀ e, Harmless (next e)) : Harmless (.function arity inner next)
  /-- The conversion of a host value. -/
  | value {v : HostValue σ} {next} (hv : ∀ body ∈ v.bodies, ∀ args, Harmless (body args))
    (h : ∀ r, Harmless (next r)) : Harmless (v.toNode next)
  /-- The lowering of an expression. -/
  | lower {env} {x : Expression} {next} (hx : ∀ t ∈ x.texts, '<' ∉ t.toList)
    (h : ∀ r, Harmless (next r)) : Harmless (x.lower env next)
  /-- The lowering of a body with definitions. -/
  | program {env} {p : Program} {next} (hp : ∀ t ∈ p.texts, '<' ∉ t.toList)
    (h : ∀ r, Harmless (next r)) : Harmless (p.lower env next)
  | body {f next} (h : ∀ r, Harmless (next r)) : Harmless (.body f next)
  | fill {slot target next} (h : ∀ r, Harmless (next r)) : Harmless (.fill slot target next)
  | memoize {i e next} (h : Harmless next) : Harmless (.memoize i e next)
  | warn {ws next} (h : Harmless next) : Harmless (.warn ws next)
  | survey {roots next} (h : ∀ r, Harmless (next r)) : Harmless (.survey roots next)

/-- A builder that harmless recipes lead to, also in the middle of a construction. -/
inductive Builder.Harmless : Builder σ → Prop
  | empty (shared) : Harmless (.empty shared)
  | run {b r} (hb : Harmless b) (hr : r.Harmless) : Harmless (Builder.run r b).2
  | enter {b c f recipe} (hb : Harmless b) (h : b.request f = .construct recipe c) : Harmless c
  | leave {b f scopes} (hb : Harmless b) (h : b.state.scopes = f :: scopes) (outcome) :
    Harmless (b.leave f outcome)

theorem Builder.Harmless.reached {b : Builder σ} (h : b.Harmless) : b.Reached := by
  induction h with
  | empty shared => exact reached_empty shared
  | run _ _ ih => exact (run_leads _ _).reached ih
  | enter _ hreq ih => exact ih.enter hreq
  | leave _ hscopes outcome ih => exact ih.leave hscopes outcome

theorem Recipe.Harmless.drafts {r : Recipe σ} (h : r.Harmless) : r.Drafts Draft.Harmless := by
  induction h with
  | done result => trivial
  | create hdraft _ ih => exact ⟨hdraft, ih⟩
  | member object property optional _ ih => exact member_drafts object property optional _ ih
  | function _ _ ihb ihn => exact ⟨ihb, ihn⟩
  | value _ _ ihv ih => exact HostValue.toNode_drafts _ ihv _ ih
  | lower hx _ ih => exact Expression.lower_drafts _ _ hx _ ih
  | program hp _ ih => exact Program.lower_drafts _ _ hp _ ih
  | look _ ih | share _ ih | body _ ih | fill _ ih | memoize _ ih | warn _ ih | survey _ ih =>
    exact ih

theorem Builder.Harmless.clean {b : Builder σ} (h : b.Harmless) : b.Clean := by
  induction h with
  | empty shared => exact clean_empty shared
  | run _ hr ih => exact (follows_clean.run hr.drafts _ ih).2
  | @enter b c f recipe _ hreq ih => exact perform_enter hreq ▸ ih.perform (.enter f) trivial
  | @leave b f scopes _ hscopes outcome ih =>
    exact perform_leave hscopes outcome ▸ ih.perform (.leave outcome) trivial

/-! ## Writing -/

namespace Layout

variable {l : Layout} {links : Links} {e : NodeId} {pos : Position}

/-- What is written for a node has no `<`. -/
def Unmarked (links : Links) (_ : NodeId) (_ : Position) (f : Fragment) : Prop :=
  '<' ∉ f.render links

theorem lt_notMem_guardBlock {cs : List Char} (h : '<' ∉ cs) : '<' ∉ guardBlock cs := by
  unfold guardBlock
  split
  · exact lt_notMem_parenthesized.2 h
  · exact h

section Parts

variable (hl : l.Identifies)

include hl

theorem lt_notMem_name {name : String} (h : l.nameOf e = .ok name) : '<' ∉ name.toList :=
  fun hmem => absurd (hl.named e name h _ hmem) (by decide)

theorem lt_notMem_use {f : Fragment} (hf : l.UseAs (Unmarked links) e pos f) :
    '<' ∉ f.render links := by
  unfold UseAs at hf
  split at hf
  · obtain ⟨name, hn, rfl⟩ := hf
    have := lt_notMem_name hl hn
    rw [Fragment.render]
    split <;> simp [this]
  · exact hf

theorem lt_notMem_parts {ps : List (Part × Position)} {fs : List Fragment}
    (hfs : List.Forall₂ (l.PartAs (Unmarked links)) ps fs)
    (hps : ∀ t, Part.text t ∈ ps.map (·.1) → '<' ∉ t.toList) : '<' ∉ renderAll links fs := by
  induction hfs with
  | nil => exact List.not_mem_nil
  | @cons p f ps fs hp _ ih =>
    obtain ⟨part, pos⟩ := p
    have hrest := ih fun t ht => hps t (List.mem_cons_of_mem _ ht)
    rw [renderAll, List.mem_append, not_or]
    refine ⟨?_, hrest⟩
    cases part with
    | text t =>
      cases hp
      exact hps t List.mem_cons_self
    | node e => exact lt_notMem_use hl hp

theorem lt_notMem_statements {roots : List NodeId} {fs : List Fragment}
    (hfs : List.Forall₂ (l.PartAs (Unmarked links)) (statementParts roots) fs) :
    '<' ∉ renderStatements links fs := by
  induction roots generalizing fs with
  | nil =>
    cases hfs
    exact List.not_mem_nil
  | cons e roots ih =>
    obtain ⟨f, rest, hf, hrest, rfl⟩ := List.forall₂_cons_left_iff.1 hfs
    have huse : '<' ∉ f.render links := lt_notMem_use hl hf
    simp [renderStatements, lt_notMem_guardBlock huse, ih hrest]

theorem lt_notMem_declaration {d : Declaration} (hd : l.DeclarationAs (Unmarked links) e d) :
    '<' ∉ d.render links := by
  obtain ⟨name, init, hn, hinit, rfl⟩ := hd
  have hname := lt_notMem_name hl hn
  have hinit : '<' ∉ init.render links := hinit
  rw [Declaration.render]
  split
  · simp [hname, lt_notMem_guardBlock hinit]
  · simp [hname, hinit]

theorem lt_notMem_let {es : List NodeId} {ds : List Declaration}
    (hds : List.Forall₂ (l.DeclarationAs (Unmarked links)) es ds) :
    '<' ∉ renderLet links ds := by
  have hall : ∀ t ∈ renderDeclarations links ds, '<' ∉ t := by
    induction hds with
    | nil => exact nofun
    | cons hd _ ih => exact List.forall_mem_cons.2 ⟨lt_notMem_declaration hl hd, ih⟩
  cases ds with
  | nil => exact List.not_mem_nil
  | cons d ds =>
    have hjoined : '<' ∉ joined [','] (renderDeclarations links (d :: ds)) :=
      lt_notMem_joined (by decide) hall
    rw [renderLet_cons, List.mem_append, List.mem_append, not_or, not_or]
    exact ⟨⟨by decide, hjoined⟩, by decide⟩

theorem lt_notMem_block {scope : Scope} {body : Body} {b : Block}
    (hb : l.BlockAs (Unmarked links) scope body b) : '<' ∉ b.render links := by
  obtain ⟨ds, hds, hbody⟩ := hb
  have hlet := lt_notMem_let hl hds
  cases body with
  | value root =>
    obtain ⟨result, hresult, rfl⟩ := hbody
    have huse := lt_notMem_use hl hresult
    rw [Block.render]
    split
    · exact lt_notMem_guardBlock huse
    · simp [hlet, huse]
  | statements roots =>
    obtain ⟨list, hlist, rfl⟩ := hbody
    simp [Block.render, hlet, lt_notMem_statements hl hlist]

theorem lt_notMem_params {f : NodeId} {params : List (NodeId × String)}
    (h : l.paramNames f = .ok params) : ∀ t ∈ params.map (·.2.toList), '<' ∉ t := by
  rw [paramNames_eq_ok] at h
  generalize l.graph.params f = ps at h
  induction h with
  | nil => exact nofun
  | cons hp _ ih =>
    obtain ⟨name, hn, rfl⟩ := hp
    exact List.forall_mem_cons.2 ⟨lt_notMem_name hl hn, ih⟩

theorem lt_notMem_shape (links : Links) {n : Node} (hn : n.Harmless) :
    (∀ t, Part.text t ∈ (l.shape e n).1 → '<' ∉ t.toList) ∧
      '<' ∉ renderAll links (l.shape e n).2 := by
  have harray : '<' ∉ l.placeholderArray.toList := fun h =>
    absurd (hl.placeholders _ h) (by decide)
  have hmodules : '<' ∉ moduleMark := by decide
  have hresources : '<' ∉ resourceMark := by decide
  have hbrackets : '<' ∉ (resourceBrackets l.resourceMode).1.toList ∧
      '<' ∉ (resourceBrackets l.resourceMode).2.toList := by
    cases l.resourceMode <;> decide
  unfold shape
  split
  · simp [renderAll, Fragment.render]
  · simp [renderAll, Fragment.render, hbrackets]
  · simp [renderAll, Fragment.render, harray]
  · simp [renderAll, Fragment.render, hmodules]
  · simp [renderAll, Fragment.render, hresources]
  · exact ⟨hn, List.not_mem_nil⟩

/-- What is written for a node has no `<`, if no text of a node has one. -/
theorem closed_unmarked (hg : l.graph.Harmless) : l.Closed (Unmarked links) := by
  refine ⟨?_, ?_, ?_⟩
  · intro e pos name _ hn
    have := lt_notMem_name hl hn
    simp [Unmarked, Fragment.render, this]
  · intro f pos params body b _ hparams _ hb
    have hjoined : '<' ∉ joined [','] (params.map (·.2.toList)) :=
      lt_notMem_joined (by decide) (lt_notMem_params hl hparams)
    have hblock := lt_notMem_block hl hb
    have hasync : '<' ∉ if l.analysis.suspends (some f) then "async".toList else [] := by
      split <;> decide
    rw [Unmarked, Fragment.render]
    split <;> simp [hasync, hjoined, hblock, -String.reduceToList]
  · intro e n pos pieces hn _ _ _ hpieces
    have hparts := lt_notMem_parts hl hpieces fun t ht => by
      rw [map_fst_positioned] at ht
      exact (lt_notMem_shape hl links (hg e n hn)).1 t ht
    have hrest := (lt_notMem_shape (e := e) hl links (hg e n hn)).2
    rw [Unmarked, Fragment.render, renderAll_append]
    split <;> simp [hparts, hrest]

theorem lt_notMem_output (hg : l.graph.Harmless) {mode : CompileMode} {body : Body} {o : Output}
    (ho : l.output mode body = .ok o) {params : List String}
    (hparams : ∀ p ∈ params, '<' ∉ p.toList) : '<' ∉ o.render links params := by
  have hout := (closed_unmarked hl hg : l.Closed (Unmarked links)).of_output ho
  cases mode with
  | statements =>
    obtain ⟨ds, list, ⟨_, hds, _, hlist, heq⟩, rfl⟩ := hout
    cases heq
    show '<' ∉ renderLet links ds ++ renderStatements links list
    rw [List.mem_append, not_or]
    exact ⟨lt_notMem_let hl hds, lt_notMem_statements hl hlist⟩
  | evaluation =>
    obtain ⟨root, b, rfl, hb, rfl⟩ := hout
    have hjoined : '<' ∉ joined [','] (params.map (·.toList)) :=
      lt_notMem_joined (by decide) (List.forall_mem_map.2 hparams)
    have hblock := lt_notMem_block hl hb
    show '<' ∉ "(async(".toList ++ joined [','] (params.map (·.toList)) ++ ")=>".toList ++
      b.render links ++ [')']
    rw [List.mem_append, List.mem_append, List.mem_append, List.mem_append]
    simp only [not_or]
    exact ⟨⟨⟨⟨by decide, hjoined⟩, by decide⟩, hblock⟩, by decide⟩

end Parts

end Layout

/-! ## Stores and compiled scripts -/

theorem Options.lt_notMem_of_check {o : Options} (h : o.check = .ok ()) {field name : String}
    (hname : (field, name) ∈ o.names) : '<' ∉ name.toList :=
  lt_notMem_of_isIdentifier (isIdentifier_of_check h hname)

theorem Options.lt_notMem_access {o : Options} (h : o.check = .ok ()) :
    (∀ p ∈ o.access.moduleParam, '<' ∉ p.toList) ∧
      (∀ p ∈ o.access.resourceParam, '<' ∉ p.toList) ∧
      '<' ∉ o.access.resourceAccessor.toList := by
  have hmodule : '<' ∉ o.moduleParam.toList :=
    lt_notMem_of_check h (by simp [names] : ("moduleParam", _) ∈ o.names)
  have hresource : '<' ∉ o.resourceParam.toList :=
    lt_notMem_of_check h (by simp [names] : ("resourceParam", _) ∈ o.names)
  have haccessor : '<' ∉ o.resourceAccessor.toList :=
    lt_notMem_of_check h (by simp [names] : ("resourceAccessor", _) ∈ o.names)
  cases hmode : o.mode <;> simp [access, hmode, hmodule, hresource, haccessor]

/-- The contents of the stores bring no `<` into a text. -/
theorem Links.lt_notMem_splice {links : Links} {o : Options} (h : o.check = .ok ())
    (output : Output) {text : List Char} (htext : '<' ∉ text) :
    '<' ∉ links.splice o.access output text := by
  obtain ⟨hmodule, hresource, haccessor⟩ := Options.lt_notMem_access h
  have hmodules := links.stores.lt_notMem_modulesText hmodule
  have hresources : '<' ∉ (o.access.resourcesText links.stores).toList := by
    unfold Access.resourcesText
    split
    · rename_i param _ hparam
      exact links.stores.lt_notMem_resourcesText _ _ (hresource param hparam)
    · exact links.stores.lt_notMem_resourcesText _ _ haccessor
  have hfirst : '<' ∉ if output.usesModules then
      replaceAll moduleMark (links.stores.modulesText o.access.moduleParam).toList text
      else text := by
    split
    · exact lt_notMem_replaceAll hmodules htext
    · exact htext
  unfold splice
  dsimp only
  split
  · exact lt_notMem_replaceAll hresources hfirst
  · exact hfirst

namespace Builder

/-- **A script has no `<`**: if no text with a `<` was handed over to be written as it is, none is in
a compiled script, whatever the strings in host values, programs, properties, keys of records,
regular expressions, addresses of modules, keys and values of resources are, what the stores held
before and how addresses are resolved. -/
theorem lt_notMem_of_compile {b c : Builder σ} {body : Body} {o : Options} {stores : Stores}
    {resolver : Resolver} {outcome : Outcome} {compiled : Compiled} (hb : b.Harmless)
    (h : b.compile body o stores resolver = (outcome, c)) (hok : outcome.result = .ok compiled) :
    '<' ∉ compiled.code.toList := by
  obtain ⟨a, output, ha, houtput, hcheck, hpresents, _⟩ := presents_of_compile hb.reached h hok
  have hclean : c.Clean := by
    have := (follows_clean.analyze b body o.nameStem hb.clean).2
    rwa [ha] at this
  have hnames : (o.layout c.state.graph a).Identifies :=
    Layout.identifies_of_check hcheck _ (stem_of_analyze ha)
  obtain ⟨hmodule, hresource, _⟩ := Options.lt_notMem_access hcheck
  have hparams : ∀ p ∈ o.access.params output, '<' ∉ p.toList := by
    intro p hp
    rcases List.mem_append.1 hp with hp | hp
    · split at hp
      · exact hmodule p (Option.mem_toList.1 hp)
      · cases hp
    · split at hp
      · exact hresource p (Option.mem_toList.1 hp)
      · cases hp
  rw [hpresents.code, String.toList_ofList]
  exact Links.lt_notMem_splice hcheck output
    (Layout.lt_notMem_output hnames hclean.graph houtput hparams)

/-- A call with tags in a key, a string, a property, an address and a resource. -/
def taggedRecipe : Recipe Unit :=
  (HostValue.record 0 [("<a>", .string "</script>")]).toNode.run fun
    | .error fault => .done (.error fault)
    | .ok e =>
      Build.member e "<b>" false fun member =>
      Build.create (.module "<m>") fun namespaceNode =>
      Build.member namespaceNode "<c>" false fun imported =>
      Build.create (.resource "<r>" (.eager (.string "<"))) fun resource =>
      Build.create (.call imported [member, resource] .plain) fun call => .done (.ok (.value call))

theorem harmless_taggedRecipe : taggedRecipe.Harmless := by
  refine .value nofun fun r => ?_
  cases r with
  | error fault => exact .done _
  | ok e =>
    refine .member e "<b>" false fun member => .create nofun fun namespaceNode => ?_
    refine .member namespaceNode "<c>" false fun imported => .create nofun fun resource => ?_
    exact .create nofun fun call => .done _

def taggedExample : Builder Unit := (run taggedRecipe (.empty ())).2

theorem harmless_taggedExample : taggedExample.Harmless :=
  .run (.empty ()) harmless_taggedRecipe

/-- A script with tags in all its strings is compiled, and has no `<`. -/
theorem lt_notMem_taggedExample : ∃ outcome c compiled,
    taggedExample.compile (.statements [8]) {} {} Resolver.identity = (outcome, c) ∧
    outcome.result = .ok compiled ∧ '<' ∉ compiled.code.toList := by
  have hsurvey : (taggedExample.survey [] [8]).1 = .ok [8, 5, 2, 7, 4, 1, 6, 3, 0] := by cbv
  obtain ⟨a, c, ha, _⟩ := exists_analysis (.statements [8]) "_" hsurvey (by cbv)
  obtain ⟨_, outcome, compiled, _, hcompile, hok⟩ :=
    exists_compile harmless_taggedExample.reached (o := {}) ha (by cbv) rfl (by simp)
      {} Resolver.identity
  exact ⟨outcome, c, compiled, hcompile, hok,
    lt_notMem_of_compile harmless_taggedExample hcompile hok⟩

end Builder

end ScriptGraph
