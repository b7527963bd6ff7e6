import ScriptGraph.Proofs.Emission.Initialization
import ScriptGraph.Proofs.Emission.Substitution

/-!
# Unfolding the declarations of a script

* `Layout.source`, `Layout.Unfolds` : the text of a graph in which nothing is declared, some
  references deep;
* `Layout.Unfolds.unique` : there is at most one;
* `Layout.Closed.initializer` : the name of a declared node leads to what is written for the node;
* `Layout.closed_unfoldsTo` : what is written for a node unfolds to the text of the node;
* `Builder.unfolds_of_analyze` : so does every script.
-/

namespace ScriptGraph

/-! ## Graphs without declarations -/

def statementSource (roots : List NodeId) : List Part := roots.flatMap fun e => [.node e, .text ";"]

/-- What a function's body is written as when nothing is declared. -/
def Body.source : Body → List Part
  | .value root => [.node root]
  | .statements roots => .text "\x7b" :: statementSource roots ++ [.text "\x7d"]

/-- What a script is written as when nothing is declared. -/
def CompileMode.source (params : List String) (body : Body) : CompileMode → List Part
  | .statements => statementSource body.roots
  | .evaluation =>
    .text "(async(" :: .text (String.ofList (joined [','] (params.map (·.toList)))) ::
      .text ")=>" :: body.source ++ [.text ")"]

namespace Layout

/-- What a function is written as in front of its body. -/
def functionHead (l : Layout) (f : NodeId) (params : List (NodeId × String)) : String :=
  String.ofList ((if l.analysis.suspends (some f) then "async".toList else []) ++
    parenthesized (joined [','] (params.map (·.2.toList))) ++ ['=', '>'])

/-- What a node is written as when nothing is declared. The names of parameters, the functions that
suspend and the indices are those of the script. -/
def source (l : Layout) (links : Links) (e : NodeId) : Except Fault (List Part) :=
  match l.graph.node? e with
  | none => .error .cyclicGraph
  | some n =>
    match n.kind with
    | .parameter _ => (l.nameOf e).map fun name => [.text name]
    | .function _ _ => do
      let params ← l.paramNames e
      let body ← l.bodyOf e
      return .text (l.functionHead e params) :: body.source
    | .moduleRef store address =>
      .ok [.node store, .text "[",
        .text (String.ofList (natText (links.stores.moduleIndex address))), .text "]"]
    | .resourceRef store key _ =>
      let (opening, closing) := resourceBrackets l.resourceMode
      .ok [.node store, .text opening,
        .text (String.ofList (natText (links.stores.resourceIndex key))), .text closing]
    | .placeholder =>
      .ok [.text l.placeholderArray, .text "[",
        .text (String.ofList (natText (links.placeholders.idxOf e))), .text "]"]
    | .moduleStore => .ok [.text (String.ofList moduleMark)]
    | .resourceStore => .ok [.text (String.ofList resourceMark)]
    | .slot none => .error .unfilledSlot
    | _ => .ok n.template

/-- The text of nodes when nothing is declared. References to nodes that the analysis declares are
followed `k` times, one inside the other; at the next one stands what refers to the node in the
script. -/
inductive Unfolds (l : Layout) (links : Links) : Nat → List Part → List Char → Prop
  | nil {k} : Unfolds l links k [] []
  | text {k s ps t} (h : Unfolds l links k ps t) :
    Unfolds l links k (.text s :: ps) (s.toList ++ t)
  | inline {k e inner ps t t'} (hd : l.analysis.isDeclared e = false)
    (hs : l.source links e = .ok inner) (hi : Unfolds l links k inner t)
    (h : Unfolds l links k ps t') : Unfolds l links k (.node e :: ps) (t ++ t')
  | follow {k e inner ps t t'} (hd : l.analysis.isDeclared e = true)
    (hs : l.source links e = .ok inner) (hi : Unfolds l links k inner t)
    (h : Unfolds l links (k + 1) ps t') : Unfolds l links (k + 1) (.node e :: ps) (t ++ t')
  | cut {e name ps t} (hd : l.analysis.isDeclared e = true) (hn : l.nameOf e = .ok name)
    (h : Unfolds l links 0 ps t) :
    Unfolds l links 0 (.node e :: ps)
      ((name.toList ++ if l.analysis.isAccessor e then ['(', ')'] else []) ++ t)

variable {l : Layout} {links : Links} {k : Nat} {e : NodeId} {ps ps' : List Part}
  {t t' : List Char}

theorem Unfolds.unique (h : l.Unfolds links k ps t) (h' : l.Unfolds links k ps t') : t = t' := by
  induction h generalizing t' with
  | nil =>
    cases h'
    rfl
  | text _ ih =>
    cases h' with
    | text h' => rw [ih h']
  | inline hd hs _ _ ihi ih =>
    cases h' with
    | inline _ hs' hi' h' =>
      obtain rfl := Except.ok.inj (hs.symm.trans hs')
      rw [ihi hi', ih h']
    | follow hd' => exact absurd hd' (by simp [hd])
    | cut hd' => exact absurd hd' (by simp [hd])
  | follow hd hs _ _ ihi ih =>
    cases h' with
    | inline hd' => exact absurd hd (by simp [hd'])
    | follow _ hs' hi' h' =>
      obtain rfl := Except.ok.inj (hs.symm.trans hs')
      rw [ihi hi', ih h']
  | cut hd hn _ ih =>
    cases h' with
    | inline hd' => exact absurd hd (by simp [hd'])
    | cut _ hn' h' =>
      obtain rfl := Except.ok.inj (hn.symm.trans hn')
      rw [ih h']

theorem Unfolds.append (h : l.Unfolds links k ps t) (h' : l.Unfolds links k ps' t') :
    l.Unfolds links k (ps ++ ps') (t ++ t') := by
  induction h with
  | nil => exact h'
  | text _ ih =>
    rw [List.cons_append, List.append_assoc]
    exact .text (ih h')
  | inline hd hs hi _ _ ih =>
    rw [List.cons_append, List.append_assoc]
    exact .inline hd hs hi (ih h')
  | follow hd hs hi _ _ ih =>
    rw [List.cons_append, List.append_assoc]
    exact .follow hd hs hi (ih h')
  | cut hd hn _ ih =>
    rw [List.cons_append, List.append_assoc]
    exact .cut hd hn (ih h')

theorem unfolds_text (s : String) : l.Unfolds links k [.text s] s.toList := by
  simpa using (Unfolds.text (s := s) .nil : l.Unfolds links k _ _)

theorem source_parameter (hp : l.graph.isParameter e = true) :
    l.source links e = (l.nameOf e).map fun name => [.text name] := by
  obtain ⟨i, hk⟩ := Graph.isParameter_iff.1 hp
  obtain ⟨n, hn, hkind⟩ := Graph.kindOf?_eq_some.1 hk
  simp only [source, hn, hkind]

theorem source_function (hf : l.graph.isFunction e = true) : l.source links e = do
    let params ← l.paramNames e
    let body ← l.bodyOf e
    return .text (l.functionHead e params) :: body.source := by
  obtain ⟨arity, state, hk⟩ := Graph.isFunction_iff.1 hf
  obtain ⟨n, hn, hkind⟩ := Graph.kindOf?_eq_some.1 hk
  simp only [source, hn, hkind]

/-- A piece that mentions something, as a part of the graph without declarations. -/
def mentionPart (links : Links) (f : Fragment) : Part :=
  .text (String.ofList (f.print .bare links))

theorem source_inline {n : Node} (hn : l.graph.node? e = some n)
    (hf : l.graph.isFunction e = false) (hp : l.graph.isParameter e = false)
    (hs : l.graph.isUnfilledSlot e = false) :
    l.source links e =
      .ok ((l.shape e n).1 ++ (l.shape e n).2.map (mentionPart links)) := by
  have hk := Graph.kindOf?_of_node hn
  obtain ⟨scope, flags, kind⟩ := n
  rw [source, hn]
  cases kind with
  | function arity state => simp [Graph.isFunction, hk] at hf
  | parameter i => simp [Graph.isParameter, hk] at hp
  | slot target =>
    cases target with
    | none => simp [Graph.isUnfilledSlot, hk] at hs
    | some target => simp [shape]
  | _ => simp [shape, mentionPart, Fragment.print]

theorem unfolds_mentions (fs : List Fragment) :
    l.Unfolds links k (fs.map (mentionPart links)) (printAll .bare links fs) := by
  induction fs with
  | nil => exact .nil
  | cons f fs ih =>
    have htext := Unfolds.text (s := String.ofList (f.print .bare links)) ih
    rwa [String.toList_ofList] at htext

theorem iterate_mentions (ds : List Declaration) (n : Node) :
    (l.shape e n).2.map (Fragment.replaceNames ds)^[k] = (l.shape e n).2 := by
  have hfixed : ∀ f ∈ (l.shape e n).2, Fragment.replaceNames ds f = f := by
    unfold shape
    split <;> simp [Fragment.replaceNames]
  conv_rhs => rw [← List.map_id (l.shape e n).2]
  exact List.map_congr_left fun f hf => Function.iterate_fixed (hfixed f hf) k

end Layout

/-! ## Names and declarations -/

def Declaration.node : Declaration → NodeId
  | .mk e _ _ _ => e

mutual

theorem Fragment.map_node_declarations (around : List Frame) : (f : Fragment) →
    f.declarations.map Declaration.node = marked Mark.binding? (f.sites around)
  | .text _ => rfl
  | .moduleIndex _ => rfl
  | .resourceIndex _ _ => rfl
  | .placeholderIndex _ => rfl
  | .moduleStore => rfl
  | .resourceStore => rfl
  | .name _ _ _ => rfl
  | .expansion _ _ pieces => map_node_declarationsOfAll around pieces
  | .lambda f _ _ params body => by
    rw [Fragment.declarations, Fragment.sites, body.map_node_declarations (.function f :: around)]
    simp

theorem map_node_declarationsOfAll (around : List Frame) : (fs : List Fragment) →
    (declarationsOfAll fs).map Declaration.node = marked Mark.binding? (sitesOfAll around fs)
  | [] => rfl
  | f :: rest => by
    rw [declarationsOfAll, sitesOfAll, marked_append, List.map_append,
      f.map_node_declarations around, map_node_declarationsOfAll around rest]

theorem Block.map_node_declarations (around : List Frame) : (b : Block) →
    b.declarations.map Declaration.node = marked Mark.binding? (b.sites around)
  | .value ds result => by
    rw [Block.declarations, Block.sites, marked_append, List.map_append,
      map_node_declarationsWithin around ds, result.map_node_declarations around]
  | .statements ds list => by
    rw [Block.declarations, Block.sites, marked_append, List.map_append,
      map_node_declarationsWithin around ds, map_node_declarationsOfAll around list]

theorem Declaration.map_node_declarations (around : List Frame) : (d : Declaration) →
    d.declarations.map Declaration.node = marked Mark.binding? (d.sites around)
  | .mk e _ _ init => by
    rw [Declaration.declarations, List.map_cons,
      init.map_node_declarations (.initializer e :: around)]
    rfl

theorem map_node_declarationsWithin (around : List Frame) : (ds : List Declaration) →
    (declarationsWithin ds).map Declaration.node =
      marked Mark.binding? (sitesOfDeclarations around ds)
  | [] => rfl
  | d :: rest => by
    rw [declarationsWithin, sitesOfDeclarations, marked_append, List.map_append,
      d.map_node_declarations around, map_node_declarationsWithin around rest]

end

theorem Output.map_node_declarations : (o : Output) → o.declarations.map Declaration.node = o.bound
  | .script ds list => by
    rw [Output.declarations, Output.bound, Output.sites, marked_append, List.map_append,
      map_node_declarationsWithin [], map_node_declarationsOfAll []]
  | .evaluation body => body.map_node_declarations []

namespace Layout

variable {l : Layout} {P : NodeId → Position → Fragment → Prop} {body : Body} {e : NodeId}
  {pos : Position}

/-- Declarations of declared nodes, whose initializers have a property. -/
def AllDeclared (l : Layout) (P : NodeId → Position → Fragment → Prop) (ds : List Declaration) :
    Prop :=
  ∀ d ∈ ds, ∃ e, l.analysis.isDeclared e = true ∧ l.DeclarationAs P e d

theorem closed_true : l.Closed fun _ _ _ => True :=
  ⟨fun _ _ _ _ _ => trivial, fun _ _ _ _ _ _ _ _ _ => trivial,
    fun _ _ _ _ _ _ _ _ _ => trivial⟩

/-- A property of what is written and of all declarations in it. -/
def WithDeclarations (l : Layout) (P : NodeId → Position → Fragment → Prop) (e : NodeId)
    (pos : Position) (f : Fragment) : Prop :=
  P e pos f ∧ l.AllDeclared P f.declarations

theorem allDeclared_append {ds ds' : List Declaration} (h : l.AllDeclared P ds)
    (h' : l.AllDeclared P ds') : l.AllDeclared P (ds ++ ds') := List.forall_mem_append.2 ⟨h, h'⟩

theorem allDeclared_nil : l.AllDeclared P [] := fun _ hd => nomatch hd

theorem allDeclared_use {f : Fragment} (h : l.UseAs (l.WithDeclarations P) e pos f) :
    l.AllDeclared P f.declarations := by
  unfold UseAs at h
  split at h
  · obtain ⟨name, _, rfl⟩ := h
    exact allDeclared_nil
  · exact h.2

theorem allDeclared_parts {ps : List (Part × Position)} {fs : List Fragment}
    (h : List.Forall₂ (l.PartAs (l.WithDeclarations P)) ps fs) :
    l.AllDeclared P (declarationsOfAll fs) := by
  induction h with
  | nil => exact allDeclared_nil
  | @cons p f ps fs hp _ ih =>
    obtain ⟨part, pos⟩ := p
    refine allDeclared_append ?_ ih
    cases part with
    | text t =>
      cases hp
      exact allDeclared_nil
    | node e => exact allDeclared_use hp

theorem allDeclared_declarations {es : List NodeId} {ds : List Declaration}
    (h : List.Forall₂ (l.DeclarationAs (l.WithDeclarations P)) es ds)
    (hes : ∀ e ∈ es, l.analysis.isDeclared e = true) :
    l.AllDeclared P (declarationsWithin ds) := by
  induction h with
  | nil => exact allDeclared_nil
  | @cons e d es ds hd _ ih =>
    obtain ⟨he, hes⟩ := List.forall_mem_cons.1 hes
    refine allDeclared_append ?_ (ih hes)
    have hdecl := hd.imp (Q := P) fun _ _ _ h => h.1
    obtain ⟨name, init, _, hi, rfl⟩ := hd
    exact List.forall_mem_cons.2 ⟨⟨e, he, hdecl⟩, hi.2⟩

theorem declarationsOfAll_append (fs fs' : List Fragment) :
    declarationsOfAll (fs ++ fs') = declarationsOfAll fs ++ declarationsOfAll fs' := by
  induction fs with
  | nil => rfl
  | cons f fs ih =>
    rw [List.cons_append, declarationsOfAll, ih, declarationsOfAll, List.append_assoc]

theorem declarations_of_shape (n : Node) : declarationsOfAll (l.shape e n).2 = [] := by
  unfold shape
  split <;> rfl

section Resolved

variable (h : l.graph.Resolved body l.analysis)

include h

theorem allDeclared_block {scope : Scope} {inner : Body} {b : Block}
    (hb : l.BlockAs (l.WithDeclarations P) scope inner b) : l.AllDeclared P b.declarations := by
  obtain ⟨ds, hds, hbody⟩ := hb
  have hdecls := allDeclared_declarations hds fun e he => (h.mem_declarationsOf_iff.1 he).1
  cases inner with
  | value root =>
    obtain ⟨result, hr, rfl⟩ := hbody
    exact allDeclared_append hdecls (allDeclared_use hr)
  | statements roots =>
    obtain ⟨list, hl, rfl⟩ := hbody
    exact allDeclared_append hdecls (allDeclared_parts hl)

theorem Closed.withDeclarations (hP : l.Closed P) : l.Closed (l.WithDeclarations P) := by
  have hfst : ∀ e pos f, l.WithDeclarations P e pos f → P e pos f := fun _ _ _ h => h.1
  refine ⟨fun e pos name hp hn => ⟨hP.parameter e pos name hp hn, allDeclared_nil⟩, ?_, ?_⟩
  · intro f pos params inner b hf hparams hinner hb
    exact ⟨hP.function f pos params inner b hf hparams hinner (hb.imp hfst),
      allDeclared_block h hb⟩
  · intro e n pos pieces hn hf hp hs hpieces
    refine ⟨hP.inline e n pos pieces hn hf hp hs (hpieces.imp fun _ _ hpart => hpart.imp hfst), ?_⟩
    rw [Fragment.declarations, declarationsOfAll_append, declarations_of_shape, List.append_nil]
    exact allDeclared_parts hpieces

variable {mode : CompileMode} {o : Output} (ho : l.output mode body = .ok o)

include ho

theorem Closed.allDeclared (hP : l.Closed P) : l.AllDeclared P o.declarations := by
  have hout := (hP.withDeclarations h).of_output ho
  cases mode with
  | statements =>
    obtain ⟨ds, list, hb, rfl⟩ := hout
    exact allDeclared_block h hb
  | evaluation =>
    obtain ⟨root, b, _, hb, rfl⟩ := hout
    exact allDeclared_block h hb

omit h ho in
/-- A name is only set to what is written for the node it names. -/
theorem AllDeclared.initializer {ds : List Declaration} {name : String} {accessor : Bool}
    {init : Fragment} (hds : l.AllDeclared P ds) (hn : l.nameOf e = .ok name)
    (hinit : ds.findSome? (Declaration.initializer? name accessor) = some init) :
    l.analysis.isDeclared e = true ∧ P e .standalone init := by
  obtain ⟨d, hmem, hd⟩ := List.exists_of_findSome?_eq_some hinit
  obtain ⟨e', hdeclared, name', init', hn', hi, rfl⟩ := hds d hmem
  obtain ⟨⟨rfl, _⟩, hsome⟩ := Option.ite_none_right_eq_some.1 hd
  obtain rfl := Option.some.inj hsome
  obtain rfl := l.analysis.name?_inj (nameOf_eq_ok.1 hn) (nameOf_eq_ok.1 hn')
  exact ⟨hdeclared, hi⟩

/-- The name of a declared node is set to what is written for the node. -/
theorem Closed.initializer (hP : l.Closed P) (hd : l.analysis.isDeclared e = true) :
    ∃ name init, l.nameOf e = .ok name ∧
      o.declarations.findSome? (Declaration.initializer? name (l.analysis.isAccessor e)) =
        some init ∧ P e .standalone init := by
  have hall := hP.allDeclared h ho
  have hbound : e ∈ o.bound :=
    List.count_pos_iff.1 (h.count_bound_eq_one (l.output_yields ho) hd ▸ Nat.one_pos)
  rw [← o.map_node_declarations] at hbound
  obtain ⟨d, hmem, hnode⟩ := List.mem_map.1 hbound
  obtain ⟨e', _, name, init, hn, _, rfl⟩ := hall d hmem
  obtain rfl : e' = e := hnode
  have hset : (o.declarations.findSome?
      (Declaration.initializer? name (l.analysis.isAccessor e'))).isSome = true := by
    rw [List.findSome?_isSome_iff]
    exact ⟨_, hmem, by simp [Declaration.initializer?]⟩
  obtain ⟨init', hinit⟩ := Option.isSome_iff_exists.1 hset
  exact ⟨name, init', hn, hinit, (hall.initializer hn hinit).2⟩

theorem initializer_parameter {name : String} (hP : l.Closed P)
    (hp : l.graph.isParameter e = true) (hn : l.nameOf e = .ok name) :
    o.declarations.findSome? (Declaration.initializer? name false) = none := by
  by_contra hset
  obtain ⟨init, hinit⟩ := Option.ne_none_iff_exists'.1 hset
  have hd := ((hP.allDeclared h ho).initializer hn hinit).1
  rw [h.isDeclared_parameter hp] at hd
  cases hd

end Resolved

/-! ## Unfolding what is written -/

/-- When names are replaced `k` times, what is written for a node becomes the node's text at depth
`k`. -/
def UnfoldsTo (l : Layout) (links : Links) (ds : List Declaration) (k : Nat) (e : NodeId)
    (_ : Position) (f : Fragment) : Prop :=
  ∃ ps, l.source links e = .ok ps ∧
    l.Unfolds links k ps (((Fragment.replaceNames ds)^[k] f).print .bare links)

/-- The declared names are set to what is written for their nodes. -/
def Binds (l : Layout) (ds : List Declaration) (P : NodeId → Position → Fragment → Prop) : Prop :=
  ∀ e, l.analysis.isDeclared e = true → ∃ name init, l.nameOf e = .ok name ∧
    ds.findSome? (Declaration.initializer? name (l.analysis.isAccessor e)) = some init ∧
      P e .standalone init

section Unfolding

variable {links : Links} {ds : List Declaration} {k : Nat}
  (hbinds : ∀ j, k = j + 1 → l.Binds ds (l.UnfoldsTo links ds j))

include hbinds

/-- A name becomes the text of its node, one reference less deep. -/
theorem unfolds_use {f : Fragment} (h : l.UseAs (l.UnfoldsTo links ds k) e pos f) :
    l.Unfolds links k [.node e] (((Fragment.replaceNames ds)^[k] f).print .bare links) := by
  unfold UseAs at h
  cases hd : l.analysis.isDeclared e with
  | false =>
    rw [hd] at h
    obtain ⟨ps, hs, hps⟩ := h
    simpa using Unfolds.inline hd hs hps .nil
  | true =>
    rw [hd, if_pos rfl] at h
    obtain ⟨name, hn, rfl⟩ := h
    cases k with
    | zero => simpa [Fragment.print] using Unfolds.cut hd hn .nil
    | succ j =>
      obtain ⟨name', init, hn', hinit, ps, hs, hps⟩ := hbinds j rfl e hd
      obtain rfl := Except.ok.inj (hn.symm.trans hn')
      rw [Function.iterate_succ_apply, Fragment.replaceNames, hinit, Option.getD_some]
      simpa using Unfolds.follow hd hs hps .nil

theorem unfolds_part {p : Part × Position} {f : Fragment}
    (h : l.PartAs (l.UnfoldsTo links ds k) p f) :
    l.Unfolds links k [p.1] (((Fragment.replaceNames ds)^[k] f).print .bare links) := by
  obtain ⟨part, pos⟩ := p
  cases part with
  | text t =>
    obtain rfl : f = .text t := h
    rw [Fragment.iterate_text]
    exact unfolds_text t
  | node e => exact unfolds_use hbinds h

theorem unfolds_parts {ps : List (Part × Position)} {fs : List Fragment}
    (h : List.Forall₂ (l.PartAs (l.UnfoldsTo links ds k)) ps fs) :
    l.Unfolds links k (ps.map (·.1))
      (printAll .bare links (fs.map (Fragment.replaceNames ds)^[k])) := by
  induction h with
  | nil => exact .nil
  | cons hp _ ih => exact (unfolds_part hbinds hp).append ih

theorem unfolds_statements {roots : List NodeId} {list : List Fragment}
    (h : List.Forall₂ (l.PartAs (l.UnfoldsTo links ds k)) (statementParts roots) list) :
    l.Unfolds links k (statementSource roots)
      (printStatements .bare links (list.map (Fragment.replaceNames ds)^[k])) := by
  induction roots generalizing list with
  | nil =>
    cases h
    exact .nil
  | cons e roots ih =>
    obtain ⟨f, rest, he, hrest, rfl⟩ := List.forall₂_cons_left_iff.1 h
    exact (unfolds_use hbinds he).append (.text (ih hrest))

/-- Without its declarations, a body becomes the text of the body. -/
theorem unfolds_block {scope : Scope} {inner : Body} {b : Block}
    (h : l.BlockAs (l.UnfoldsTo links ds k) scope inner b) :
    l.Unfolds links k inner.source (((Block.replaceNames ds)^[k] b).print .bare links) := by
  obtain ⟨own, _, hbody⟩ := h
  cases inner with
  | value root =>
    obtain ⟨result, hr, rfl⟩ := hbody
    rw [Block.iterate_value]
    exact unfolds_use hbinds hr
  | statements roots =>
    obtain ⟨list, hl, rfl⟩ := hbody
    rw [Block.iterate_statements, Block.print, printLet_bare]
    exact .text ((unfolds_statements hbinds hl).append (unfolds_text _))

theorem closed_unfoldsTo (hparams : ∀ p name, l.graph.isParameter p = true → l.nameOf p = .ok name →
      ds.findSome? (Declaration.initializer? name false) = none) :
    l.Closed (l.UnfoldsTo links ds k) := by
  refine ⟨?_, ?_, ?_⟩
  · intro e pos name hp hn
    refine ⟨[.text name], by rw [source_parameter hp, hn]; rfl, ?_⟩
    have hfixed : Fragment.replaceNames ds (.name e name false) = .name e name false := by
      rw [Fragment.replaceNames, hparams e name hp hn]
      rfl
    rw [Function.iterate_fixed hfixed]
    simpa [Fragment.print] using unfolds_text name
  · intro f pos params inner b hf hnames hinner hb
    refine ⟨.text (l.functionHead f params) :: inner.source, ?_, ?_⟩
    · rw [source_function hf, hnames, bodyOf_eq_ok.2 hinner]
      rfl
    · rw [Fragment.iterate_lambda]
      have htext := Unfolds.text (s := l.functionHead f params) (unfolds_block hbinds hb)
      have harrow : "=>".toList = ['=', '>'] := by decide
      simpa [Fragment.print, functionHead, Style.enclose, Style.bare, harrow,
        -String.reduceToList] using htext
  · intro e n pos pieces hn hf hp hs hpieces
    refine ⟨_, source_inline hn hf hp hs, ?_⟩
    rw [Fragment.iterate_expansion, List.map_append, iterate_mentions]
    have htext := (unfolds_parts hbinds hpieces).append (unfolds_mentions (l.shape e n).2)
    rw [map_fst_positioned] at htext
    simpa [Fragment.print, Style.enclose, Style.bare, printAll_append] using htext

/-- Without its declarations, a script becomes the text of its body. -/
theorem unfolds_output {mode : CompileMode} {o : Output} (params : List String)
    (h : l.OutputAs (l.UnfoldsTo links ds k) mode body o) :
    l.Unfolds links k (mode.source params body)
      (((Output.replaceNames ds)^[k] o).print .bare links params) := by
  cases mode with
  | statements =>
    obtain ⟨own, list, ⟨_, _, list', hlist, hb⟩, rfl⟩ := h
    cases hb
    rw [Output.iterate_script]
    show l.Unfolds links k (statementSource body.roots) (printLet .bare links _ ++ _)
    rw [printLet_bare]
    exact unfolds_statements hbinds hlist
  | evaluation =>
    obtain ⟨root, b, rfl, hb, rfl⟩ := h
    rw [Output.iterate_evaluation]
    have hparams : l.Unfolds links k [.text (String.ofList (joined [','] (params.map (·.toList))))]
        (joined [','] (params.map (·.toList))) := by
      simpa using unfolds_text (String.ofList (joined [','] (params.map (·.toList))))
    exact ((((unfolds_text "(async(").append hparams).append (unfolds_text ")=>")).append
      (unfolds_block hbinds hb)).append (unfolds_text ")")

end Unfolding

section Output

variable (h : l.graph.Resolved body l.analysis) {mode : CompileMode} {o : Output}
  (ho : l.output mode body = .ok o) (links : Links)

include h ho

/-- What the names are set to unfolds one reference less deep, and so on down to where the
references are cut. -/
theorem closed_unfoldsTo_declarations (k : Nat) :
    l.Closed (l.UnfoldsTo links o.declarations k) := by
  have hparams : ∀ p name, l.graph.isParameter p = true → l.nameOf p = .ok name →
      o.declarations.findSome? (Declaration.initializer? name false) = none :=
    fun p name hp hn => initializer_parameter h ho closed_true hp hn
  induction k with
  | zero => exact closed_unfoldsTo (fun j hj => nomatch hj) hparams
  | succ k ih =>
    refine closed_unfoldsTo (fun j hj => ?_) hparams
    obtain rfl := Nat.succ.inj hj
    exact fun e hd => ih.initializer h ho hd

theorem unfolds_iff (params : List String) (k : Nat) (t : List Char) :
    l.Unfolds links k (mode.source params body) t ↔
      t = (o.unfold k).print .bare links params := by
  have hclosed := closed_unfoldsTo_declarations h ho links
  have hout := unfolds_output (fun j _ e hd => (hclosed j).initializer h ho hd) params
    ((hclosed k).of_output ho)
  exact ⟨fun ht => ht.unique hout, fun ht => ht ▸ hout⟩

/-- Each declared node has a name, which is set to what is written for the node. -/
theorem exists_initializer (hd : l.analysis.isDeclared e = true) :
    ∃ name init, l.nameOf e = .ok name ∧
      o.declarations.findSome? (Declaration.initializer? name (l.analysis.isAccessor e)) =
        some init ∧
      ∀ links k t, l.Unfolds links (k + 1) [.node e] t ↔
        t = ((Fragment.replaceNames o.declarations)^[k] init).print .bare links := by
  obtain ⟨name, init, hn, hinit, _⟩ := closed_true.initializer h ho hd
  refine ⟨name, init, hn, hinit, fun links k t => ?_⟩
  obtain ⟨name', init', hn', hinit', ps, hs, hps⟩ :=
    (closed_unfoldsTo_declarations h ho links k).initializer h ho hd
  obtain rfl := Except.ok.inj (hn.symm.trans hn')
  obtain rfl := Option.some.inj (hinit.symm.trans hinit')
  have hfollow := Unfolds.follow hd hs hps .nil
  rw [List.append_nil] at hfollow
  exact ⟨fun ht => ht.unique hfollow, fun ht => ht ▸ hfollow⟩

end Output

end Layout

namespace Builder

variable {σ : Type}

/-- **The declarations of a script unfold to the graph**: after every successful analysis, replacing
`k` times each name by what it is set to, and leaving out declarations and parentheses, gives the
text of the body in which nothing is declared and references to declared nodes are cut at depth `k`.
In particular the name of each declared node is set to the text of this node. -/
theorem unfolds_of_analyze {b c : Builder σ} {body : Body} {stem : String} {a : Analysis}
    (hb : b.Reached) (ha : b.analyze body stem = (.ok a, c)) (mode : CompileMode)
    (hmode : mode = .evaluation → ∃ root, body = .value root) (l : Layout)
    (hg : l.graph = c.state.graph) (hl : l.analysis = a) :
    ∃ o, l.output mode body = .ok o ∧
      (∀ links params, o.print .full links params = o.render links params ∧
        ∀ k t, l.Unfolds links k (mode.source params body) t ↔
          t = (o.unfold k).print .bare links params) ∧
      ∀ e, a.isDeclared e = true → ∃ name init, l.nameOf e = .ok name ∧
        o.declarations.findSome? (Declaration.initializer? name (a.isAccessor e)) = some init ∧
        ∀ links k t, l.Unfolds links (k + 1) [.node e] t ↔
          t = ((Fragment.replaceNames o.declarations)^[k] init).print .bare links := by
  have h := analyze_resolved hb ha
  rw [← hg, ← hl] at h
  rw [← hl]
  obtain ⟨o, ho⟩ := l.exists_output h hmode
  exact ⟨o, ho, fun links params => ⟨o.print_full links params, l.unfolds_iff h ho links params⟩,
    fun e hd => l.exists_initializer h ho hd⟩

theorem analyze_knotExample : ∃ a c, knotExample.analyze (.statements [1, 2]) "_" = (.ok a, c) ∧
    c.state.graph = (knotExample.survey [] [1, 2]).2.state.graph ∧
    (∀ e, a.isDeclared e = [1, 2].contains e) ∧ a.isAccessor 1 = false ∧
    a.isAccessor 2 = false ∧ a.suspends (some 1) = false := by
  have hsurvey : (knotExample.survey [] [1, 2]).1 = .ok [1, 2, 0] := by cbv
  obtain ⟨a, c, ha, hc⟩ := exists_analysis (.statements [1, 2]) "_" hsurvey (by cbv)
  have hfacts : ((knotExample.analyze (.statements [1, 2]) "_").1.map fun a =>
      (a.declared, a.isAccessor 1, a.isAccessor 2, a.suspends (some 1))) =
      .ok ([1, 2], false, false, false) := by cbv
  rw [ha, Except.map, Except.ok.injEq] at hfacts
  simp only [Prod.mk.injEq] at hfacts
  obtain ⟨hdeclared, hrest⟩ := hfacts
  exact ⟨a, c, ha, hc, fun e => by rw [Analysis.isDeclared, hdeclared], hrest⟩

theorem source_knotExample {a : Analysis} {l : Layout}
    (hg : l.graph = (knotExample.survey [] [1, 2]).2.state.graph) (hl : l.analysis = a)
    (hs : a.suspends (some 1) = false) (links : Links) :
    l.source links 0 = .ok [.node 2] ∧ l.source links 1 = .ok [.text "()=>", .node 0] ∧
      l.source links 2 = .ok [.text "[", .node 1, .text "]"] := by
  have hslot : l.graph.node? 0 = some ⟨none, .literal, .slot (some 2)⟩ := by
    rw [hg]
    cbv
  have hf : l.graph.node? 1 = some ⟨none, {}, .function 0 (.ready (.value 0))⟩ := by
    rw [hg]
    cbv
  have hlist : l.graph.node? 2 =
      some ⟨none, {}, .template [.text "[", .node 1, .text "]"]⟩ := by
    rw [hg]
    cbv
  refine ⟨?_, ?_, ?_⟩
  · simp [Layout.source, hslot, Node.template]
  · simp [Layout.source, hf, Layout.paramNames, Graph.params, Graph.kindOf?, Layout.bodyOf,
      Graph.body?, Layout.functionHead, hl, hs, parenthesized, joined, Body.source]
  · simp [Layout.source, hlist, Node.template]

/-- A function that returns a list of itself: one reference deep, each holds the other's name. -/
theorem unfolds_knotExample : ∃ a c o l f list,
    knotExample.analyze (.statements [1, 2]) "_" = (.ok a, c) ∧
    l = ({} : Options).layout c.state.graph a ∧
    l.output .statements (.statements [1, 2]) = .ok o ∧
    l.nameOf 1 = .ok f ∧ l.nameOf 2 = .ok list ∧
    (o.unfold 1).print .bare ⟨{}, []⟩ [] =
      "()=>".toList ++ list.toList ++ ";[".toList ++ f.toList ++ "];".toList := by
  obtain ⟨a, c, ha, hc, hd, hf, hlist, hs⟩ := analyze_knotExample
  obtain ⟨o, ho, htext, hnames⟩ := unfolds_of_analyze reached_knotExample ha .statements
    (by simp) (({} : Options).layout c.state.graph a) rfl rfl
  obtain ⟨f, _, hnf, _⟩ := hnames 1 (hd 1)
  obtain ⟨list, _, hnlist, _⟩ := hnames 2 (hd 2)
  obtain ⟨hslot, hone, htwo⟩ := source_knotExample (a := a)
    (l := ({} : Options).layout c.state.graph a) hc rfl hs ⟨{}, []⟩
  have hunfolds : (({} : Options).layout c.state.graph a).Unfolds ⟨{}, []⟩ 1
      (statementSource [1, 2]) _ :=
    .follow (hd 1) hone (.text (.inline (hd 0) hslot (.cut (hd 2) hnlist .nil) .nil)) <| .text <|
      .follow (hd 2) htwo (.text (.cut (hd 1) hnf (.text .nil))) (.text .nil)
  refine ⟨a, c, o, _, f, list, ha, rfl, ho, hnf, hnlist, ?_⟩
  rw [← ((htext ⟨{}, []⟩ []).2 1 _).1 hunfolds]
  simp [Options.layout, hf, hlist]

end Builder

end ScriptGraph
