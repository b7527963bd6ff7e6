import ScriptGraph.Proofs.Analysis.Classes
import ScriptGraph.Proofs.Compile.Script
import ScriptGraph.Proofs.Emission.Counts
import ScriptGraph.Proofs.Emission.Recursion

/-!
# Awaited nodes stand where the text may suspend

* `Encloser` : what the text around a place directly belongs to;
* `Output.writings` : the places where nodes are written out, with their enclosers;
* `Output.map_fst_writings` : these are all such places, in the order of the text;
* `Layout.closed_writtenWell` : what is written for a node suspends only where it may;
* `Builder.suspends_of_compile` : so does every compiled script.

An accessor's arrow is not a function of the graph, so the scopes that suspend say nothing about
it. It is kept free of awaited nodes by the class of its declaration.
-/

namespace ScriptGraph

/-- What the text around a place directly belongs to. -/
inductive Encloser
  | topLevel
  /-- The function that an evaluation is. -/
  | wrapper
  /-- A function of the graph, written as `async` if it `suspends`. -/
  | function (f : NodeId) (suspends : Bool)
  /-- The arrow that an accessor is declared as. -/
  | accessor (e : NodeId)
deriving DecidableEq

/-- Whether text may suspend where a script does so at its top level if `topLevelAwait`. -/
def Encloser.suspends (topLevelAwait : Bool) : Encloser → Bool
  | .topLevel => topLevelAwait
  | .wrapper => true
  | .function _ suspends => suspends
  | .accessor _ => false

mutual

/-- The nodes that are written out in a fragment, with what directly encloses them. -/
def Fragment.writings (outer : Encloser) : Fragment → List (NodeId × Encloser)
  | .expansion e _ pieces => (e, outer) :: writingsOfAll outer pieces
  | .lambda f _ suspends _ body => (f, outer) :: body.writings (.function f suspends)
  | .name .. => []
  | .text _ => []
  | .moduleIndex _ => []
  | .resourceIndex .. => []
  | .placeholderIndex _ => []
  | .moduleStore => []
  | .resourceStore => []

def writingsOfAll (outer : Encloser) : List Fragment → List (NodeId × Encloser)
  | [] => []
  | f :: rest => f.writings outer ++ writingsOfAll outer rest

def Block.writings (outer : Encloser) : Block → List (NodeId × Encloser)
  | .value ds result => writingsOfDeclarations outer ds ++ result.writings outer
  | .statements ds list => writingsOfDeclarations outer ds ++ writingsOfAll outer list

def Declaration.writings (outer : Encloser) : Declaration → List (NodeId × Encloser)
  | .mk e _ accessor init => init.writings (if accessor then .accessor e else outer)

def writingsOfDeclarations (outer : Encloser) : List Declaration → List (NodeId × Encloser)
  | [] => []
  | d :: rest => d.writings outer ++ writingsOfDeclarations outer rest

end

/-- The nodes that are written out in a script, with what directly encloses them. -/
def Output.writings : Output → List (NodeId × Encloser)
  | .script ds list => writingsOfDeclarations .topLevel ds ++ writingsOfAll .topLevel list
  | .evaluation body => body.writings .wrapper

/-! ## All places -/

mutual

theorem Fragment.map_fst_writings (outer : Encloser) (around : List Frame) :
    (f : Fragment) → (f.writings outer).map (·.1) = marked Mark.written? (f.sites around)
  | .text _ => rfl
  | .moduleIndex _ => rfl
  | .resourceIndex _ _ => rfl
  | .placeholderIndex _ => rfl
  | .moduleStore => rfl
  | .resourceStore => rfl
  | .name _ _ _ => rfl
  | .expansion e _ pieces => by
    rw [Fragment.writings, Fragment.sites, List.map_cons, writingsOfAll_map_fst outer around pieces]
    rfl
  | .lambda f _ suspends params body => by
    have hparams : (params.filterMap fun p => Mark.written? (.parameter p.1)) = [] :=
      List.filterMap_eq_nil_iff.2 fun _ _ => rfl
    rw [Fragment.writings, Fragment.sites, List.map_cons,
      body.map_fst_writings (.function f suspends) (.function f :: around), List.cons_append,
      marked_cons, marked_append, marked_map _ fun p : NodeId × String => .parameter p.1, hparams]
    rfl

theorem writingsOfAll_map_fst (outer : Encloser) (around : List Frame) :
    (fs : List Fragment) →
      (writingsOfAll outer fs).map (·.1) = marked Mark.written? (sitesOfAll around fs)
  | [] => rfl
  | f :: rest => by
    rw [writingsOfAll, sitesOfAll, List.map_append, marked_append, f.map_fst_writings outer around,
      writingsOfAll_map_fst outer around rest]

theorem Block.map_fst_writings (outer : Encloser) (around : List Frame) :
    (b : Block) → (b.writings outer).map (·.1) = marked Mark.written? (b.sites around)
  | .value ds result => by
    rw [Block.writings, Block.sites, List.map_append, marked_append,
      writingsOfDeclarations_map_fst outer around ds, result.map_fst_writings outer around]
  | .statements ds list => by
    rw [Block.writings, Block.sites, List.map_append, marked_append,
      writingsOfDeclarations_map_fst outer around ds, writingsOfAll_map_fst outer around list]

theorem Declaration.map_fst_writings (outer : Encloser) (around : List Frame) :
    (d : Declaration) → (d.writings outer).map (·.1) = marked Mark.written? (d.sites around)
  | .mk e _ accessor init =>
    init.map_fst_writings (if accessor then .accessor e else outer) (.initializer e :: around)

theorem writingsOfDeclarations_map_fst (outer : Encloser) (around : List Frame) :
    (ds : List Declaration) → (writingsOfDeclarations outer ds).map (·.1) =
      marked Mark.written? (sitesOfDeclarations around ds)
  | [] => rfl
  | d :: rest => by
    rw [writingsOfDeclarations, sitesOfDeclarations, List.map_append, marked_append,
      d.map_fst_writings outer around, writingsOfDeclarations_map_fst outer around rest]

end

/-- The writings of a script are all its places where a node is written out. -/
theorem Output.map_fst_writings :
    (o : Output) → o.writings.map (·.1) = marked Mark.written? o.sites
  | .script ds list => by
    rw [Output.writings, Output.sites, List.map_append, marked_append,
      writingsOfDeclarations_map_fst _ [], writingsOfAll_map_fst _ []]
  | .evaluation body => body.map_fst_writings .wrapper []

theorem writingsOfAll_append (outer : Encloser) (fs fs' : List Fragment) :
    writingsOfAll outer (fs ++ fs') = writingsOfAll outer fs ++ writingsOfAll outer fs' := by
  induction fs with
  | nil => rfl
  | cons f fs ih => rw [List.cons_append, writingsOfAll, ih, writingsOfAll, List.append_assoc]

namespace Layout

theorem writings_of_shape (l : Layout) (outer : Encloser) (e : NodeId) (n : Node) :
    writingsOfAll outer (l.shape e n).2 = [] := by
  unfold shape
  split <;> rfl

/-! ## Where awaited nodes are written -/

/-- Awaited nodes are written only where the text may suspend. -/
def SuspendsWell (g : Graph) (top : Bool) (writings : List (NodeId × Encloser)) : Prop :=
  ∀ w ∈ writings, (g.flagsOf w.1).awaits = true → w.2.suspends top = true

/-- A place in a scope may suspend if the scope does and the text of `e` needs it. -/
def Admits (l : Layout) (top : Bool) (outer : Encloser) (t : Scope) (e : NodeId) : Prop :=
  l.analysis.suspends t = true → e ∈ l.analysis.classes.awaiting → outer.suspends top = true

/-- What is written for a node suspends only where it may, wherever the node stands. -/
def WrittenWell (l : Layout) (body : Body) (top : Bool) (e : NodeId) (_ : Position)
    (f : Fragment) : Prop :=
  ∀ outer t, e ∈ l.analysis.order → l.analysis.StandsIn l.graph body e t →
    l.Admits top outer t e → SuspendsWell l.graph top (f.writings outer)

section Suspension

variable {l : Layout} {body : Body} {top : Bool} (h : l.graph.Resolved body l.analysis)
  {outer : Encloser} {t : Scope} {e : NodeId}

theorem suspendsWell_use {pos : Position} {f : Fragment}
    (hf : l.UseAs (l.WrittenWell body top) e pos f) (he : e ∈ l.analysis.order)
    (hu : 0 < l.analysis.usesIn l.graph body e t)
    (hadmits : l.analysis.isDeclared e = false → l.Admits top outer t e) :
    SuspendsWell l.graph top (f.writings outer) := by
  unfold UseAs at hf
  split at hf
  · obtain ⟨name, _, rfl⟩ := hf
    exact fun w hw => nomatch hw
  · rename_i hd
    rw [Bool.not_eq_true] at hd
    exact hf outer t he ((Graph.Resolved.standsIn_of_undeclared hd).2 hu) (hadmits hd)

theorem suspendsWell_parts {ps : List (Part × Position)} {fs : List Fragment}
    (hfs : List.Forall₂ (l.PartAs (l.WrittenWell body top)) ps fs)
    (hps : ∀ e ∈ (ps.map (·.1)).filterMap Part.node?, e ∈ l.analysis.order ∧
      0 < l.analysis.usesIn l.graph body e t ∧
      (l.analysis.isDeclared e = false → l.Admits top outer t e)) :
    SuspendsWell l.graph top (writingsOfAll outer fs) := by
  induction hfs with
  | nil => exact fun w hw => nomatch hw
  | @cons p f ps fs hp _ ih =>
    obtain ⟨part, pos⟩ := p
    cases part with
    | text t =>
      cases hp
      exact ih hps
    | node e =>
      have hps' := List.forall_mem_cons.1 hps
      obtain ⟨he, hu, hadmits⟩ := hps'.1
      exact List.forall_mem_append.2 ⟨suspendsWell_use hp he hu hadmits, ih hps'.2⟩

include h

/-- Where a declaration awaits something, it is no accessor. -/
theorem suspendsWell_declaration {d : Declaration}
    (hd : l.DeclarationAs (l.WrittenWell body top) e d) (he : e ∈ l.analysis.declarationsOf t)
    (houter : l.analysis.suspends t = true → outer.suspends top = true) :
    SuspendsWell l.graph top (d.writings outer) := by
  obtain ⟨name, init, _, hinit, rfl⟩ := hd
  obtain ⟨hdecl, hscope⟩ := h.mem_declarationsOf_iff.1 he
  refine hinit _ t (h.mem_order_of_isDeclared hdecl)
    ((Graph.Resolved.standsIn_of_declared hdecl).2 hscope) fun ht hawaits => ?_
  have haccessor : l.analysis.isAccessor e = false := by simp [Analysis.isAccessor, hawaits]
  rw [haccessor]
  exact houter ht

theorem suspendsWell_declarations {es : List NodeId} {ds : List Declaration}
    (hds : List.Forall₂ (l.DeclarationAs (l.WrittenWell body top)) es ds)
    (hes : es ⊆ l.analysis.declarationsOf t)
    (houter : l.analysis.suspends t = true → outer.suspends top = true) :
    SuspendsWell l.graph top (writingsOfDeclarations outer ds) := by
  induction hds with
  | nil => exact fun w hw => nomatch hw
  | cons hd _ ih =>
    obtain ⟨he, hes⟩ := List.cons_subset.1 hes
    exact List.forall_mem_append.2 ⟨suspendsWell_declaration h hd he houter, ih hes⟩

/-- The body of a scope suspends only if the scope may. -/
theorem suspendsWell_block {inner : Body} {b : Block}
    (hb : l.BlockAs (l.WrittenWell body top) t inner b)
    (hroots : ∀ e ∈ inner.roots, e ∈ l.analysis.order ∧ 0 < l.analysis.usesIn l.graph body e t)
    (houter : l.analysis.suspends t = true → outer.suspends top = true) :
    SuspendsWell l.graph top (b.writings outer) := by
  obtain ⟨ds, hds, hbody⟩ := hb
  have hdecls := suspendsWell_declarations h hds (List.Subset.refl _) houter
  cases inner with
  | value root =>
    obtain ⟨result, hresult, rfl⟩ := hbody
    obtain ⟨hmem, hu⟩ := hroots root List.mem_cons_self
    exact List.forall_mem_append.2
      ⟨hdecls, suspendsWell_use hresult hmem hu fun _ ht _ => houter ht⟩
  | statements roots =>
    obtain ⟨list, hlist, rfl⟩ := hbody
    refine List.forall_mem_append.2 ⟨hdecls, suspendsWell_parts (t := t) hlist fun e he => ?_⟩
    rw [filterMap_statementParts] at he
    obtain ⟨hmem, hu⟩ := hroots e he
    exact ⟨hmem, hu, fun _ ht _ => houter ht⟩

/-- What is written for a node suspends only where it may: an inline node stands where the node
around it stands, and makes this one await; a function has the scope of its own. -/
theorem closed_writtenWell : l.Closed (l.WrittenWell body top) := by
  refine ⟨?_, ?_, ?_⟩
  · rintro e pos name _ _ outer t _ _ _ w hw
    cases hw
  · rintro f pos params inner b hf _ hb hblock outer t hmem _ _
    refine List.forall_mem_cons.2 ⟨fun hawaits => ?_, ?_⟩
    · rw [h.sound.flagsOf_function hf] at hawaits
      cases hawaits
    · exact suspendsWell_block h hblock
        (fun e he => ⟨h.surveyed.body_mem hmem hb he, h.uses_body_root hmem hb he⟩) id
  · rintro e n pos pieces hn _ _ _ hpieces outer t hmem hstands hadmits
    refine List.forall_mem_cons.2 ⟨fun hawaits => ?_, ?_⟩
    · exact hadmits (h.suspends_of_standsIn hmem hawaits hstands)
        ((h.mem_awaiting_iff hmem).2 (.inl hawaits))
    · rw [writingsOfAll_append, writings_of_shape, List.append_nil]
      refine suspendsWell_parts (t := t) hpieces fun c hc => ?_
      rw [map_fst_positioned, children_of_shape hn] at hc
      exact ⟨h.surveyed.child_mem hmem hc, h.uses_child hmem hc hstands, fun hd ht hawaits =>
        hadmits ht ((h.mem_awaiting_iff hmem).2 (.inr ⟨c, hc, hd, hawaits⟩))⟩

/-- A script suspends only where it may. -/
theorem suspendsWell_output {mode : CompileMode} {o : Output} (ho : l.output mode body = .ok o) :
    SuspendsWell l.graph (mode = .statements && l.analysis.suspends none) o.writings := by
  have hroots : ∀ e ∈ body.roots, e ∈ l.analysis.order ∧
      0 < l.analysis.usesIn l.graph body e none := fun e he =>
    ⟨h.surveyed.root_mem he, h.uses_root he⟩
  have hclosed : l.Closed
      (l.WrittenWell body (mode = .statements && l.analysis.suspends none)) := closed_writtenWell h
  have hout := hclosed.of_output ho
  cases mode with
  | statements =>
    obtain ⟨ds, list, hb, rfl⟩ := hout
    have htop : l.analysis.suspends none = true → Encloser.topLevel.suspends
        (CompileMode.statements = .statements && l.analysis.suspends none) = true := fun ht => by
      simp [Encloser.suspends, ht]
    exact suspendsWell_block h hb hroots htop
  | evaluation =>
    obtain ⟨root, b, rfl, hb, rfl⟩ := hout
    have hwrapper : l.analysis.suspends none = true → Encloser.wrapper.suspends
        (CompileMode.evaluation = .statements && l.analysis.suspends none) = true := fun _ => rfl
    exact suspendsWell_block h hb hroots hwrapper

end Suspension

end Layout

namespace Builder

variable {σ : Type}

/-- **Awaited nodes stand where the text may suspend**: in a compiled script, every place where an
awaited node is written out is directly enclosed by an `async` function, by the function that an
evaluation is, or by the top level of a script that tells its host to await it. No accessor's arrow
and no other function directly encloses such a place. -/
theorem suspends_of_compile {b c : Builder σ} {body : Body} {o : Options} {stores : Stores}
    {resolver : Resolver} {outcome : Outcome} {compiled : Compiled} (hb : b.Reached)
    (h : b.compile body o stores resolver = (outcome, c)) (hok : outcome.result = .ok compiled) :
    ∃ output links, b.script body o = .ok output ∧ compiled.Presents o output links ∧
      output.writings.map (·.1) = marked Mark.written? output.sites ∧
      ∀ e encloser, (e, encloser) ∈ output.writings → (c.state.graph.flagsOf e).awaits = true →
        encloser.suspends compiled.topLevelAwait = true := by
  obtain ⟨a, output, ha, houtput, hcheck, hpresents, htop⟩ := presents_of_compile hb h hok
  refine ⟨output, _, script_eq_ok.2 ⟨hcheck, a, c, ha, houtput⟩, hpresents,
    output.map_fst_writings, fun e encloser he hawaits => ?_⟩
  have hresolved := analyze_resolved hb ha
  rw [htop]
  exact Layout.suspendsWell_output (l := o.layout c.state.graph a) hresolved houtput _ he hawaits

/-- A function that awaits a module, next to a value that reads a resource at each of two uses. -/
def awaitingExample : Builder Unit :=
  (Builder.run (Build.toRecipe do
    let resource ← Build.create (.resource "r" (.eager .null))
    let value ← Build.get resource "x"
    let module ← Build.create (.module "m")
    let f ← Build.function 0 fun _ _ => Build.toRecipe do
      let awaited ← Build.await module
      return .ok (.value awaited)
    let list ← Build.template
      [.text "[", .node value, .text ",", .node value, .text ",", .node f, .text "]"]
    return .ok (.value list)) (.empty ())).2

theorem reached_awaitingExample : awaitingExample.Reached :=
  (run_leads _ _).reached (reached_empty ())

theorem script_awaitingExample : ∃ output a c,
    awaitingExample.analyze (.statements [6]) "_" = (.ok a, c) ∧
    awaitingExample.script (.statements [6]) {} = .ok output ∧
    (({} : Options).layout c.state.graph a).output .statements (.statements [6]) = .ok output ∧
    c.state.graph = (awaitingExample.survey [] [6]).2.state.graph := by
  have hsurvey : (awaitingExample.survey [] [6]).1 = .ok [6, 2, 5, 1, 7, 0, 4, 3] := by cbv
  obtain ⟨a, c, ha, hc⟩ := exists_analysis (.statements [6]) "_" hsurvey (by cbv)
  obtain ⟨output, houtput⟩ := ((output_of_analyze reached_awaitingExample ha).1
    (({} : Options).layout c.state.graph a) rfl rfl).1
  exact ⟨output, a, c, ha, script_eq_ok.2 ⟨by cbv, a, c, ha, houtput⟩, houtput, hc⟩

/-- The function's node that awaits is written, and stands where the text may suspend. -/
theorem suspends_awaitingExample : ∃ outcome c compiled output,
    awaitingExample.compile (.statements [6]) {} {} Resolver.identity = (outcome, c) ∧
    outcome.result = .ok compiled ∧ awaitingExample.script (.statements [6]) {} = .ok output ∧
    ∃ encloser, (7, encloser) ∈ output.writings ∧
      encloser.suspends compiled.topLevelAwait = true := by
  obtain ⟨output, a, c, ha, hscript, ho, hc⟩ := script_awaitingExample
  obtain ⟨compiled, _, _, hcompile⟩ := exists_compiled reached_awaitingExample (by cbv) ha ho {} Resolver.identity
  obtain ⟨output', _, hscript', _, hwritings, hsuspends⟩ :=
    suspends_of_compile reached_awaitingExample hcompile rfl
  obtain rfl : output' = output := Except.ok.inj (hscript'.symm.trans hscript)
  have h := analyze_resolved reached_awaitingExample ha
  have hreach : c.state.graph.Reaches [6] 7 := by
    have hroot : c.state.graph.successors 6 = [2, 2, 5] := by
      rw [hc]
      cbv
    have hbody : c.state.graph.successors 5 = [7] := by
      rw [hc]
      cbv
    exact .step (.step (.root (List.mem_singleton_self 6)) (x := 5) (by simp [hroot]))
      (by simp [hbody])
  have hcount := h.count_written_eq_one (Layout.output_yields ho)
    ((h.surveyed.mem_iff 7).2 hreach) (.inr (by rw [hc]; cbv))
  have hmem : 7 ∈ output'.writings.map (·.1) :=
    hwritings ▸ List.count_pos_iff.1 (hcount ▸ Nat.one_pos)
  obtain ⟨⟨_, encloser⟩, hw, rfl⟩ := List.mem_map.1 hmem
  exact ⟨_, c, compiled, output', hcompile, rfl, hscript, encloser, hw,
    hsuspends 7 encloser hw (by rw [hc]; cbv)⟩

end Builder

end ScriptGraph
