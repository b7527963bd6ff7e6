import ScriptGraph.Proofs.Analysis.Classes
import ScriptGraph.Proofs.Analysis.Naming
import ScriptGraph.Proofs.Builder.StoreReferences
import ScriptGraph.Proofs.Emission.Flow
import ScriptGraph.Proofs.Emission.Recursion

/-!
# References in the text of a script

* `Piece` : a stretch of text, which may be what a reference is written as;
* `Layout.Spelled` : a reference names what it refers to, and has the index of its key;
* `Layout.Spells` : a text is made of pieces, in which the references are those of certain nodes;
* `Layout.closed_spelledOut` : what is written for a node is made of pieces;
* `Layout.spells_output` : so is a script.
-/

namespace ScriptGraph

/-- A stretch of text. -/
inductive Piece
  | text (cs : List Char)
  /-- The text of a node that refers to a store or is a placeholder: an index in brackets. -/
  | reference (e : NodeId) (array : String) (brackets : String × String) (index : Nat)

namespace Piece

def render : Piece → List Char
  | .text cs => cs
  | .reference _ array brackets index =>
    array.toList ++ brackets.1.toList ++ natText index ++ brackets.2.toList

def node? : Piece → Option NodeId
  | .text _ => none
  | .reference e .. => some e

end Piece

/-- Whether a mention is given an index. -/
def Mention.isIndexed : Mention → Bool
  | .module _ => true
  | .resource _ _ => true
  | .placeholder _ => true
  | .moduleStore => false
  | .resourceStore => false

/-- Whether a node is written as a reference. -/
def Graph.isReference (g : Graph) (e : NodeId) : Bool :=
  match g.kindOf? e with
  | some (.moduleRef ..) => true
  | some (.resourceRef ..) => true
  | some .placeholder => true
  | _ => false

namespace Graph.Resolved

variable {g : Graph} {body : Body} {a : Analysis} (h : g.Resolved body a) {s : NodeId}

include h

/-- The stores are declared, and they are no accessors: one awaits, the other reads nothing. -/
theorem declared_store (hs : s ∈ a.order)
    (hn : g.node? s = some .modules ∨ g.node? s = some .resources) :
    a.isDeclared s = true ∧ a.isAccessor s = false := by
  rcases hn with hn | hn
  · have hawaiting : s ∈ a.classes.awaiting :=
      (h.mem_awaiting_iff hs).2 (.inl (by rw [flagsOf_of_node hn]; rfl))
    refine ⟨h.isDeclared_of_pinned hs (by rw [flagsOf_of_node hn]; rfl), ?_⟩
    simp [Analysis.isAccessor, hawaiting]
  · have hdependent : s ∉ a.classes.dependent := by
      rw [h.mem_dependent_iff hs, flagsOf_of_node hn, children_of_node hn]
      simp [Node.resources, Node.template]
    refine ⟨h.isDeclared_of_pinned hs (by rw [flagsOf_of_node hn]; rfl), ?_⟩
    simp [Analysis.isAccessor, Analysis.readsResource, hdependent]

end Graph.Resolved

namespace Layout

/-- A reference names what it refers to, and has the index of its key there. -/
def Spelled (l : Layout) (links : Links) : Piece → Prop
  | .text _ => True
  | .reference e array brackets index =>
    match l.graph.kindOf? e with
    | some (.moduleRef store address) =>
      l.nameOf store = .ok array ∧ brackets = ("[", "]") ∧ index = links.stores.moduleIndex address
    | some (.resourceRef store key _) =>
      l.nameOf store = .ok array ∧ brackets = resourceBrackets l.resourceMode ∧
        index = links.stores.resourceIndex key
    | some .placeholder =>
      array = l.placeholderArray ∧ brackets = ("[", "]") ∧ index = links.placeholders.idxOf e
    | _ => False

/-- A text that mentions `ms` is made of pieces. The references in it are those among some nodes, in
order, and what they refer to are the mentions with indices. -/
def Spells (l : Layout) (links : Links) (cs : List Char) (es : List NodeId) (ms : List Mention) :
    Prop :=
  ∃ ps : List Piece, ps.flatMap Piece.render = cs ∧
    ps.filterMap Piece.node? = es.filter l.graph.isReference ∧
    ms.filter Mention.isIndexed = (ps.filterMap Piece.node?).flatMap l.graph.ownMentions ∧
    ∀ p ∈ ps, l.Spelled links p

variable {l : Layout} {links : Links} {cs cs' : List Char} {es es' : List NodeId}
  {ms ms' : List Mention} {e : NodeId} {pos : Position}

namespace Spells

theorem text (l : Layout) (links : Links) (cs : List Char) : l.Spells links cs [] [] :=
  ⟨[.text cs], List.append_nil cs, rfl, rfl, fun p hp => by
    rw [List.mem_singleton.1 hp]
    trivial⟩

theorem append (h : l.Spells links cs es ms) (h' : l.Spells links cs' es' ms') :
    l.Spells links (cs ++ cs') (es ++ es') (ms ++ ms') := by
  obtain ⟨ps, rfl, hes, hms, hps⟩ := h
  obtain ⟨ps', rfl, hes', hms', hps'⟩ := h'
  refine ⟨ps ++ ps', List.flatMap_append, ?_, ?_, List.forall_mem_append.2 ⟨hps, hps'⟩⟩
  · rw [List.filterMap_append, hes, hes', List.filter_append]
  · rw [List.filter_append, hms, hms', List.filterMap_append, List.flatMap_append]

theorem before (h : l.Spells links cs es ms) (t : List Char) : l.Spells links (t ++ cs) es ms :=
  (text l links t).append h

theorem after (h : l.Spells links cs es ms) (t : List Char) : l.Spells links (cs ++ t) es ms := by
  have := h.append (text l links t)
  rwa [List.append_nil, List.append_nil] at this

theorem parenthesized (h : l.Spells links cs es ms) :
    l.Spells links (parenthesized cs) es ms :=
  (h.before ['(']).after [')']

theorem guardBlock (h : l.Spells links cs es ms) : l.Spells links (guardBlock cs) es ms := by
  unfold ScriptGraph.guardBlock
  split
  · exact h.parenthesized
  · exact h

theorem cons (h : l.Spells links cs es ms) (he : l.graph.isReference e = false) :
    l.Spells links cs (e :: es) ms := by
  obtain ⟨ps, hcs, hes, hms, hps⟩ := h
  exact ⟨ps, hcs, by rw [List.filter_cons_of_neg (by simp [he]), hes], hms, hps⟩

theorem mention (h : l.Spells links cs es ms) (hms' : ms'.filter Mention.isIndexed = []) :
    l.Spells links cs es (ms ++ ms') := by
  obtain ⟨ps, hcs, hes, hms, hps⟩ := h
  exact ⟨ps, hcs, hes, by rw [List.filter_append, hms', List.append_nil, hms], hps⟩

theorem reference {array : String} {brackets : String × String} {index : Nat}
    (he : l.graph.isReference e = true)
    (h : l.Spelled links (.reference e array brackets index)) :
    l.Spells links (array.toList ++ brackets.1.toList ++ natText index ++ brackets.2.toList)
      [e] (l.graph.ownMentions e) := by
  refine ⟨[.reference e array brackets index], List.append_nil _, ?_, ?_, fun p hp => ?_⟩
  · rw [List.filter_cons_of_pos he]
    rfl
  · have hown : (l.graph.ownMentions e).filter Mention.isIndexed = l.graph.ownMentions e := by
      unfold Graph.isReference at he
      unfold Graph.ownMentions
      split at he <;> simp_all [Mention.isIndexed]
    rw [hown]
    exact (List.append_nil _).symm
  · rwa [List.mem_singleton.1 hp]

end Spells

/-- What is written for a node is made of pieces. -/
def SpelledOut (l : Layout) (links : Links) (e : NodeId) (_ : Position) (f : Fragment) : Prop :=
  e ∈ l.analysis.order → ∀ around,
    l.Spells links (f.render links) (marked Mark.written? (f.sites around)) f.mentions

theorem mentionsOfAll_append (fs fs' : List Fragment) :
    mentionsOfAll (fs ++ fs') = mentionsOfAll fs ++ mentionsOfAll fs' := by
  induction fs with
  | nil => rfl
  | cons f fs ih => rw [List.cons_append, mentionsOfAll, ih, mentionsOfAll, List.append_assoc]

theorem renderAll_append (links : Links) (fs fs' : List Fragment) :
    renderAll links (fs ++ fs') = renderAll links fs ++ renderAll links fs' := by
  induction fs with
  | nil => rfl
  | cons f fs ih => rw [List.cons_append, renderAll, ih, renderAll, List.append_assoc]

/-! ## Lists -/

section Lists

variable (around : List Frame)

theorem spells_use {f : Fragment} (hf : l.UseAs (l.SpelledOut links) e pos f)
    (he : e ∈ l.analysis.order) :
    l.Spells links (f.render links) (marked Mark.written? (f.sites around)) f.mentions := by
  unfold UseAs at hf
  split at hf
  · obtain ⟨name, _, rfl⟩ := hf
    exact .text ..
  · exact hf he around

theorem spells_parts {ps : List (Part × Position)} {fs : List Fragment}
    (hfs : List.Forall₂ (l.PartAs (l.SpelledOut links)) ps fs)
    (hps : ∀ e ∈ (ps.map (·.1)).filterMap Part.node?, e ∈ l.analysis.order) :
    l.Spells links (renderAll links fs) (marked Mark.written? (sitesOfAll around fs))
      (mentionsOfAll fs) := by
  induction hfs with
  | nil => exact .text ..
  | @cons p f ps fs hp _ ih =>
    obtain ⟨part, pos⟩ := p
    rw [renderAll, sitesOfAll, marked_append]
    cases part with
    | text t =>
      cases hp
      exact (ih hps).before _
    | node e =>
      obtain ⟨he, hps⟩ := List.forall_mem_cons.1 hps
      exact (spells_use around hp he).append (ih hps)

theorem spells_statements {roots : List NodeId} {fs : List Fragment}
    (hfs : List.Forall₂ (l.PartAs (l.SpelledOut links)) (statementParts roots) fs)
    (hroots : ∀ e ∈ roots, e ∈ l.analysis.order) :
    l.Spells links (renderStatements links fs) (marked Mark.written? (sitesOfAll around fs))
      (mentionsOfAll fs) := by
  induction roots generalizing fs with
  | nil =>
    cases hfs
    exact .text ..
  | cons e roots ih =>
    obtain ⟨f, rest, hf, hrest, rfl⟩ := List.forall₂_cons_left_iff.1 hfs
    obtain ⟨he, hroots⟩ := List.forall_mem_cons.1 hroots
    rw [renderStatements, sitesOfAll, marked_append]
    exact (spells_use around hf he).guardBlock.append ((ih hrest hroots).before [';'])

theorem spells_declaration {d : Declaration} (hd : l.DeclarationAs (l.SpelledOut links) e d)
    (he : e ∈ l.analysis.order) :
    l.Spells links (d.render links) (marked Mark.written? (d.sites around)) d.mentions := by
  obtain ⟨name, init, _, hinit, rfl⟩ := hd
  have h := hinit he (.initializer e :: around)
  rw [Declaration.render, Declaration.sites, marked_cons]
  split
  · exact (h.guardBlock.before ['=', '(', ')', '=', '>']).before name.toList
  · exact (h.before ['=']).before name.toList

theorem spells_declarations {ds : List Declaration}
    (hds : List.Forall₂ (l.DeclarationAs (l.SpelledOut links)) es ds)
    (hes : ∀ e ∈ es, e ∈ l.analysis.order) :
    l.Spells links (joined [','] (renderDeclarations links ds))
      (marked Mark.written? (sitesOfDeclarations around ds)) (mentionsOfDeclarations ds) := by
  induction hds with
  | nil => exact .text ..
  | @cons e d es ds hd hds ih =>
    obtain ⟨he, hes⟩ := List.forall_mem_cons.1 hes
    have h := spells_declaration around hd he
    cases hds with
    | nil =>
      rw [sitesOfDeclarations, sitesOfDeclarations, List.append_nil, mentionsOfDeclarations,
        mentionsOfDeclarations, List.append_nil]
      exact h
    | cons _ _ =>
      rw [sitesOfDeclarations, marked_append]
      exact (h.after [',']).append (ih hes)

theorem spells_let {ds : List Declaration}
    (hds : List.Forall₂ (l.DeclarationAs (l.SpelledOut links)) es ds)
    (hes : ∀ e ∈ es, e ∈ l.analysis.order) :
    l.Spells links (renderLet links ds)
      (marked Mark.written? (sitesOfDeclarations around ds)) (mentionsOfDeclarations ds) := by
  have h := spells_declarations around hds hes
  cases ds with
  | nil => exact h
  | cons d ds => exact (h.before "let ".toList).after [';']

theorem spells_block (hdecls : ∀ e ∈ l.analysis.declarationsOf scope, e ∈ l.analysis.order)
    {inner : Body} {b : Block} (hb : l.BlockAs (l.SpelledOut links) scope inner b)
    (hroots : ∀ e ∈ inner.roots, e ∈ l.analysis.order) :
    l.Spells links (b.render links) (marked Mark.written? (b.sites around)) b.mentions := by
  obtain ⟨ds, hds, hbody⟩ := hb
  have hlet := spells_let around hds hdecls
  cases inner with
  | value root =>
    obtain ⟨result, hresult, rfl⟩ := hbody
    have h := spells_use around hresult (hroots root List.mem_cons_self)
    rw [Block.render, Block.sites, marked_append, Block.mentions]
    cases ds with
    | nil => exact h.guardBlock
    | cons d ds =>
      have := ((hlet.before ['\x7b']).append ((h.before "return ".toList).after ['\x7d']))
      simpa using this
  | statements roots =>
    obtain ⟨list, hlist, rfl⟩ := hbody
    have h := spells_statements around hlist hroots
    rw [Block.render, Block.sites, marked_append, Block.mentions]
    have := ((hlet.before ['\x7b']).append (h.after ['\x7d']))
    simpa using this

end Lists

/-! ## Nodes -/

section Nodes

variable {body : Body} (h : l.graph.Resolved body l.analysis)

include h

theorem declarationsOf_mem_order (scope : Scope) :
    ∀ e ∈ l.analysis.declarationsOf scope, e ∈ l.analysis.order := fun _ he =>
  h.mem_order_of_isDeclared (h.mem_declarationsOf_iff.1 he).1

theorem spells_function {f : NodeId} {params : List (NodeId × String)} {inner : Body} {b : Block}
    {enclosed suspends : Bool} {around : List Frame} (hf : l.graph.isFunction f = true)
    (hmem : f ∈ l.analysis.order) (hbody : l.graph.body? f = some inner)
    (hb : l.BlockAs (l.SpelledOut links) (some f) inner b) :
    l.Spells links ((Fragment.lambda f enclosed suspends params b).render links)
      (marked Mark.written? ((Fragment.lambda f enclosed suspends params b).sites around))
      b.mentions := by
  have href : l.graph.isReference f = false := by
    obtain ⟨arity, state, hk⟩ := Graph.isFunction_iff.1 hf
    simp [Graph.isReference, hk]
  have hparams : (params.filterMap fun p => Mark.written? (.parameter p.1)) = [] :=
    List.filterMap_eq_nil_iff.2 fun _ _ => rfl
  have hblock := spells_block (.function f :: around) (declarationsOf_mem_order h (some f))
    hb fun e he => h.surveyed.body_mem hmem hbody he
  have htext := ((hblock.before ['=', '>']).before
    ((if suspends then "async".toList else []) ++
      ScriptGraph.parenthesized (joined [','] (params.map (·.2.toList))))).cons href
  rw [Fragment.render, Fragment.sites, List.cons_append, marked_cons, marked_append,
    marked_map _ fun p : NodeId × String => .parameter p.1, hparams]
  split
  · exact htext.parenthesized
  · exact htext

/-- A node that is no reference is made of its parts and text of its own. -/
theorem spells_inline {n : Node} {pieces : List Fragment} {around : List Frame}
    (hn : l.graph.node? e = some n) (hmem : e ∈ l.analysis.order)
    (href : l.graph.isReference e = false)
    (hpieces : List.Forall₂ (l.PartAs (l.SpelledOut links)) (positioned pos (l.shape e n).1)
      pieces) :
    l.Spells links (renderAll links (pieces ++ (l.shape e n).2))
      (e :: marked Mark.written? (sitesOfAll around (pieces ++ (l.shape e n).2)))
      (mentionsOfAll (pieces ++ (l.shape e n).2)) := by
  have hmentions : (mentionsOfAll (l.shape e n).2).filter Mention.isIndexed = [] := by
    have hk := Graph.kindOf?_of_node hn
    unfold shape
    split <;> simp_all [Graph.isReference, mentionsOfAll, Fragment.mentions, Mention.isIndexed]
  have htail : marked Mark.written? (sitesOfAll around (l.shape e n).2) = [] := by
    rw [mentions_of_shape hn, marked_map]
    exact List.filterMap_eq_nil_iff.2 fun _ _ => rfl
  rw [renderAll_append, sitesOfAll_append, marked_append, htail, List.append_nil,
    mentionsOfAll_append]
  refine (((spells_parts around hpieces fun c hc => ?_).after _).mention hmentions).cons href
  rw [map_fst_positioned, children_of_shape hn] at hc
  exact h.surveyed.child_mem hmem hc

omit h in
/-- A reference is one piece: the name of its store, and an index in brackets. -/
theorem spells_reference {store : NodeId} (brackets : String × String) {position : Fragment}
    {index : Nat} {pieces : List Fragment} {around : List Frame} (he : l.graph.isReference e = true)
    (hstore : l.analysis.isDeclared store = true ∧ l.analysis.isAccessor store = false)
    (hposition : position.render links = natText index ∧
      marked Mark.written? (position.sites around) = [] ∧
      position.mentions = l.graph.ownMentions e)
    (hspelled : ∀ name, l.nameOf store = .ok name →
      l.Spelled links (.reference e name brackets index))
    (hpieces : List.Forall₂ (l.PartAs (l.SpelledOut links))
      (positioned pos [.node store, .text brackets.1]) pieces) :
    l.Spells links (renderAll links (pieces ++ [position, .text brackets.2]))
      (e :: marked Mark.written? (sitesOfAll around (pieces ++ [position, .text brackets.2])))
      (mentionsOfAll (pieces ++ [position, .text brackets.2])) := by
  obtain ⟨f, _, hf, hrest, rfl⟩ := List.forall₂_cons_left_iff.1 hpieces
  obtain ⟨_, _, rfl, hnil, rfl⟩ := List.forall₂_cons_left_iff.1 hrest
  cases hnil
  have hname : l.UseAs (l.SpelledOut links) store _ f := hf
  rw [UseAs, if_pos hstore.1] at hname
  obtain ⟨name, hn, rfl⟩ := hname
  rw [hstore.2]
  have hpiece := Spells.reference he (hspelled name hn)
  simp only [List.cons_append, List.nil_append, renderAll, Fragment.render, sitesOfAll,
    Fragment.sites, marked_append, marked_cons, marked_nil, hposition, mentionsOfAll,
    Fragment.mentions]
  simpa using hpiece

/-- The store of a reference is declared, and is no accessor. -/
theorem declared_of_reference (hlinked : l.graph.Linked) {n m : Node} {store : NodeId}
    (hn : l.graph.node? e = some n) (hmem : e ∈ l.analysis.order)
    (hs : n.kind.store? = some (store, m)) (hm : m = .modules ∨ m = .resources) :
    l.analysis.isDeclared store = true ∧ l.analysis.isAccessor store = false := by
  have hchild : store ∈ l.graph.children e := by
    rw [Graph.children_of_node hn]
    unfold Kind.store? at hs
    split at hs <;> cases hs <;> simp_all [Node.template, Part.node?]
  have hnode := hlinked.reference e n.kind store m (Graph.kindOf?_of_node hn) hs
  refine h.declared_store (h.surveyed.child_mem hmem hchild) ?_
  rcases hm with rfl | rfl
  · exact .inl hnode
  · exact .inr hnode

theorem closed_spelledOut (hlinked : l.graph.Linked) : l.Closed (l.SpelledOut links) := by
  refine ⟨?_, ?_, ?_⟩
  · intro e pos name _ _ _ around
    exact .text ..
  · intro f pos params inner b hf _ hbody hb hmem around
    exact spells_function h hf hmem hbody hb
  · intro e n pos pieces hn _ _ _ hpieces hmem around
    have hkind := Graph.kindOf?_of_node hn
    have htext : l.Spells links (renderAll links (pieces ++ (l.shape e n).2))
        (e :: marked Mark.written? (sitesOfAll around (pieces ++ (l.shape e n).2)))
        (mentionsOfAll (pieces ++ (l.shape e n).2)) := by
      obtain ⟨scope, flags, kind⟩ := n
      cases kind with
      | moduleRef store address =>
        exact spells_reference ("[", "]") (by simp [Graph.isReference, hkind])
          (declared_of_reference h hlinked hn hmem rfl (.inl rfl))
          ⟨rfl, rfl, by rw [Graph.ownMentions, hkind]; rfl⟩ (fun name hname => by
            rw [Spelled, hkind]
            exact ⟨hname, rfl, rfl⟩) hpieces
      | resourceRef store key value =>
        exact spells_reference (resourceBrackets l.resourceMode)
          (by simp [Graph.isReference, hkind])
          (declared_of_reference h hlinked hn hmem rfl (.inr rfl))
          ⟨rfl, rfl, by rw [Graph.ownMentions, hkind]; rfl⟩ (fun name hname => by
            rw [Spelled, hkind]
            exact ⟨hname, rfl, rfl⟩) hpieces
      | placeholder =>
        cases hpieces
        have hspelled : l.Spelled links (.reference e l.placeholderArray ("[", "]")
            (links.placeholders.idxOf e)) := by simp [Spelled, hkind]
        have hpiece := Spells.reference (by simp [Graph.isReference, hkind]) hspelled
        rw [Graph.ownMentions, hkind] at hpiece
        simpa [shape, renderAll, Fragment.render, sitesOfAll, Fragment.sites, mentionsOfAll,
          Fragment.mentions] using hpiece
      | _ => exact spells_inline h hn hmem (by simp [Graph.isReference, hkind]) hpieces
    rw [Fragment.render, Fragment.sites, marked_cons, Fragment.mentions]
    split
    · exact htext.parenthesized
    · exact htext

theorem spells_output (hlinked : l.graph.Linked) {mode : CompileMode} {o : Output}
    (ho : l.output mode body = .ok o) (params : List String) :
    l.Spells links (o.render links params) (marked Mark.written? o.sites) o.mentions := by
  have hclosed : l.Closed (l.SpelledOut links) := closed_spelledOut h hlinked
  have hout := hclosed.of_output ho
  have hroots : ∀ e ∈ body.roots, e ∈ l.analysis.order := fun e he => h.surveyed.root_mem he
  cases mode with
  | statements =>
    obtain ⟨ds, list, ⟨_, hds, _, hlist, heq⟩, rfl⟩ := hout
    cases heq
    rw [Output.sites, marked_append]
    exact (spells_let [] hds (declarationsOf_mem_order h none)).append
      (spells_statements [] hlist hroots)
  | evaluation =>
    obtain ⟨root, b, rfl, hb, rfl⟩ := hout
    have hblock := spells_block [] (declarationsOf_mem_order h none) hb hroots
    exact (hblock.before ("(async(".toList ++ joined [','] (params.map (·.toList)) ++
      ")=>".toList)).after [')']

end Nodes

end Layout

end ScriptGraph
