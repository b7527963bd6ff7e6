import ScriptGraph.Proofs.Analysis.Copies
import ScriptGraph.Proofs.Emission.Writing

/-!
# Copies are written alike

* `Fragment.map`, `Output.map` : what is written, with other handles;
* `Layout.Copies` : a layout of a copied graph;
* `Layout.Copies.expansion`, `Layout.Copies.output` : what is written for a copy is what is written
  for the graph, with other handles;
* `Output.mentions_map`, `Output.render_map` : it mentions the same and reads the same.
-/

namespace ScriptGraph

variable {ι : NodeId → NodeId}

/-! ## Other handles -/

mutual

def Fragment.map (ι : NodeId → NodeId) : Fragment → Fragment
  | .text code => .text code
  | .moduleIndex address => .moduleIndex address
  | .resourceIndex key value => .resourceIndex key value
  | .placeholderIndex e => .placeholderIndex (ι e)
  | .moduleStore => .moduleStore
  | .resourceStore => .resourceStore
  | .name e name accessor => .name (ι e) name accessor
  | .expansion e enclosed pieces => .expansion (ι e) enclosed (mapFragments ι pieces)
  | .lambda e enclosed suspends params body =>
    .lambda (ι e) enclosed suspends (params.map fun p => (ι p.1, p.2)) (body.map ι)

def mapFragments (ι : NodeId → NodeId) : List Fragment → List Fragment
  | [] => []
  | f :: rest => f.map ι :: mapFragments ι rest

def Block.map (ι : NodeId → NodeId) : Block → Block
  | .value declarations result => .value (mapDeclarations ι declarations) (result.map ι)
  | .statements declarations list =>
    .statements (mapDeclarations ι declarations) (mapFragments ι list)

def Declaration.map (ι : NodeId → NodeId) : Declaration → Declaration
  | .mk e name accessor initializer => .mk (ι e) name accessor (initializer.map ι)

def mapDeclarations (ι : NodeId → NodeId) : List Declaration → List Declaration
  | [] => []
  | d :: rest => d.map ι :: mapDeclarations ι rest

end

def Output.map (ι : NodeId → NodeId) : Output → Output
  | .script declarations list => .script (mapDeclarations ι declarations) (mapFragments ι list)
  | .evaluation body => .evaluation (body.map ι)

def Mention.map (ι : NodeId → NodeId) : Mention → Mention
  | .placeholder e => .placeholder (ι e)
  | mention => mention

theorem mapFragments_eq (fs : List Fragment) : mapFragments ι fs = fs.map (Fragment.map ι) := by
  induction fs with
  | nil => rfl
  | cons f fs ih => rw [mapFragments, ih, List.map_cons]

theorem mapDeclarations_eq (ds : List Declaration) :
    mapDeclarations ι ds = ds.map (Declaration.map ι) := by
  induction ds with
  | nil => rfl
  | cons d ds ih => rw [mapDeclarations, ih, List.map_cons]

theorem idxOf?_map (hι : Function.Injective ι) (e : NodeId) (l : List NodeId) :
    (l.map ι).idxOf? (ι e) = l.idxOf? e := by
  induction l with
  | nil => rfl
  | cons x l ih => simp [List.idxOf?_cons, ih, hι.eq_iff]

theorem positionBetween_map (outer : Position) (before after : Option Part) :
    positionBetween outer (before.map (Part.map ι)) (after.map (Part.map ι)) =
      positionBetween outer before after := by
  rcases before with _ | (_ | _) <;> rcases after with _ | (_ | _) <;> rfl

theorem positionedAfter_map (outer : Position) (before : Option Part) (parts : List Part) :
    positionedAfter outer (before.map (Part.map ι)) (parts.map (Part.map ι)) =
      (positionedAfter outer before parts).map fun p => (p.1.map ι, p.2) := by
  induction parts generalizing before with
  | nil => rfl
  | cons p parts ih =>
    have hrest := ih (some p)
    rw [Option.map_some] at hrest
    rw [List.map_cons, positionedAfter, positionedAfter, List.head?_map, positionBetween_map, hrest]
    rfl

theorem positioned_map (outer : Position) (parts : List Part) :
    positioned outer (parts.map (Part.map ι)) =
      (positioned outer parts).map fun p => (p.1.map ι, p.2) :=
  positionedAfter_map outer none parts

/-! ## Layouts -/

/-- A layout of a copied graph. -/
structure Layout.Copies (ι : NodeId → NodeId) (l l' : Layout) : Prop where
  graph : l.graph.Copies ι l'.graph
  analysis : l'.analysis = l.analysis.map ι
  resourceMode : l'.resourceMode = l.resourceMode
  placeholderArray : l'.placeholderArray = l.placeholderArray

namespace Layout.Copies

variable {l l' : Layout} (h : l.Copies ι l')

include h

theorem isDeclared (e : NodeId) : l'.analysis.isDeclared (ι e) = l.analysis.isDeclared e := by
  rw [h.analysis]
  exact h.graph.contains _ e

theorem isAccessor (e : NodeId) : l'.analysis.isAccessor (ι e) = l.analysis.isAccessor e := by
  have hreads : l'.analysis.readsResource (ι e) = l.analysis.readsResource e := by
    rw [h.analysis]
    exact h.graph.contains _ e
  have hawaits : l'.analysis.classes.awaiting.contains (ι e) =
      l.analysis.classes.awaiting.contains e := by
    rw [h.analysis]
    exact h.graph.contains _ e
  rw [Analysis.isAccessor, Analysis.isAccessor, h.isDeclared, hreads, hawaits]

theorem suspends (scope : Scope) :
    l'.analysis.suspends (scope.map ι) = l.analysis.suspends scope := by
  rw [Bool.eq_iff_iff, Analysis.suspends, Analysis.suspends, List.contains_iff_mem,
    List.contains_iff_mem, h.analysis]
  exact List.mem_map_of_injective (Option.map_injective h.graph.injective)

theorem declarationsOf (scope : Scope) :
    l'.analysis.declarationsOf (scope.map ι) = (l.analysis.declarationsOf scope).map ι := by
  have hlookup : ∀ ds : List (Scope × List NodeId),
      (ds.map (mapScoped ι)).lookup (scope.map ι) = (ds.lookup scope).map (List.map ι) := by
    intro ds
    induction ds with
    | nil => rfl
    | cons d ds ih =>
      obtain ⟨s, nodes⟩ := d
      rw [List.map_cons, mapScoped, List.lookup_cons, List.lookup_cons, ih]
      simp only [beq_eq_decide, h.graph.scope_eq_iff]
      split <;> rfl
  rw [Analysis.declarationsOf, Analysis.declarationsOf, h.analysis]
  show (List.lookup _ (l.analysis.declarations.map (mapScoped ι))).getD [] = _
  rw [hlookup]
  cases l.analysis.declarations.lookup scope <;> rfl

theorem nameOf {e : NodeId} {name : String} (hn : l.nameOf e = .ok name) :
    l'.nameOf (ι e) = .ok name := by
  rw [nameOf_eq_ok, Analysis.name?] at hn ⊢
  rw [h.analysis]
  show ((l.analysis.named.map ι).idxOf? (ι e)).map _ = _
  rw [idxOf?_map h.graph.injective]
  exact hn

theorem paramNames {f : NodeId} {params : List (NodeId × String)} (hp : l.paramNames f = .ok params) :
    l'.paramNames (ι f) = .ok (params.map fun p => (ι p.1, p.2)) := by
  rw [paramNames_eq_ok] at hp ⊢
  rw [h.graph.params, List.forall₂_map_left_iff, List.forall₂_map_right_iff]
  exact hp.imp fun p q ⟨name, hn, hq⟩ => ⟨name, h.nameOf hn, by rw [hq]⟩

theorem shape (e : NodeId) (n : Node) : l'.shape (ι e) (n.map ι) =
    ((l.shape e n).1.map (Part.map ι), mapFragments ι (l.shape e n).2) := by
  have htemplate := n.template_map (ι := ι)
  obtain ⟨scope, flags, kind⟩ := n
  cases kind with
  | resourceRef store key value => simp [Layout.shape, Node.map, Kind.map, h.resourceMode,
      mapFragments, Fragment.map, Part.map]
  | placeholder => simp [Layout.shape, Node.map, Kind.map, h.placeholderArray, mapFragments,
      Fragment.map]
  | moduleRef store address => simp [Layout.shape, Node.map, Kind.map, mapFragments, Fragment.map,
      Part.map]
  | moduleStore | resourceStore => simp [Layout.shape, Node.map, Kind.map, mapFragments,
      Fragment.map]
  | _ => exact congrArg (·, []) htemplate

omit h in
theorem encloses (n : Node) (pos : Position) :
    Layout.encloses (n.map ι) pos = Layout.encloses n pos := by
  obtain ⟨scope, flags, kind⟩ := n
  cases kind <;> rfl

variable {within : List NodeId}

section Lists

-- The nodes of `within` are written alike.
variable (hexp : ∀ e pos frag, l.expansion within e pos = .ok frag →
  l'.expansion (within.map ι) (ι e) pos = .ok (frag.map ι))

include hexp

theorem use_of {e : NodeId} {pos : Position} {frag : Fragment}
    (hw : l.use within e pos = .ok frag) :
    l'.use (within.map ι) (ι e) pos = .ok (frag.map ι) := by
  cases hd : l.analysis.isDeclared e with
  | true =>
    rw [use_declared hd, map_eq_ok] at hw
    obtain ⟨name, hn, rfl⟩ := hw
    rw [use_declared ((h.isDeclared e).trans hd), h.nameOf hn, h.isAccessor]
    rfl
  | false =>
    rw [use_undeclared hd] at hw
    rw [use_undeclared ((h.isDeclared e).trans hd)]
    exact hexp e pos frag hw

theorem parts_of {ps : List (Part × Position)} {fs : List Fragment}
    (hw : l.parts within ps = .ok fs) :
    l'.parts (within.map ι) (ps.map fun p => (p.1.map ι, p.2)) = .ok (mapFragments ι fs) := by
  rw [parts_eq_ok] at hw ⊢
  rw [mapFragments_eq, List.forall₂_map_left_iff, List.forall₂_map_right_iff]
  refine hw.imp fun p f hp => ?_
  obtain ⟨part, pos⟩ := p
  cases part with
  | text t =>
    obtain rfl : f = .text t := hp
    rfl
  | node e => exact h.use_of hexp hp

theorem statements_of {roots : List NodeId} {fs : List Fragment}
    (hw : l.parts within (statementParts roots) = .ok fs) :
    l'.parts (within.map ι) (statementParts (roots.map ι)) = .ok (mapFragments ι fs) := by
  have hparts := h.parts_of hexp hw
  rw [statementParts, List.map_map] at hparts ⊢
  exact hparts

theorem declarations_of {es : List NodeId} {ds : List Declaration}
    (hw : l.declarations within es = .ok ds) :
    l'.declarations (within.map ι) (es.map ι) = .ok (mapDeclarations ι ds) := by
  rw [declarations_eq_ok] at hw ⊢
  rw [mapDeclarations_eq, List.forall₂_map_left_iff, List.forall₂_map_right_iff]
  refine hw.imp fun e d ⟨name, init, hn, hi, hd⟩ => ?_
  exact ⟨name, init.map ι, h.nameOf hn, hexp _ _ _ hi, by rw [hd, h.isAccessor, Declaration.map]⟩

theorem block_of {scope : Scope} {body : Body} {b : Block}
    (hw : l.block within scope body = .ok b) :
    l'.block (within.map ι) (scope.map ι) (body.map ι) = .ok (b.map ι) := by
  obtain ⟨ds, hds, hbody⟩ := block_eq_ok.1 hw
  refine block_eq_ok.2 ⟨mapDeclarations ι ds, ?_, ?_⟩
  · rw [h.declarationsOf]
    exact h.declarations_of hexp hds
  · cases body with
    | value root =>
      obtain ⟨result, hr, rfl⟩ := hbody
      exact ⟨result.map ι, h.use_of hexp hr, by rw [Block.map]⟩
    | statements roots =>
      obtain ⟨list, hl, rfl⟩ := hbody
      exact ⟨mapFragments ι list, h.statements_of hexp hl, by rw [Block.map]⟩

end Lists

/-- **What is written for a node is written for its copy**, with other handles. -/
theorem expansion {e : NodeId} {pos : Position} {frag : Fragment}
    (hw : l.expansion within e pos = .ok frag) :
    l'.expansion (within.map ι) (ι e) pos = .ok (frag.map ι) := by
  induction hlen : within.length using Nat.strongRecOn generalizing within e pos frag with
  | _ n ih =>
    obtain ⟨he, hin, hs⟩ := expansion_ok_built hw
    have he' : ι e ∈ within.map ι := List.mem_map_of_mem he
    have hexp : ∀ x p f, l.expansion (within.erase e) x p = .ok f →
        l'.expansion ((within.map ι).erase (ι e)) (ι x) p = .ok (f.map ι) := fun x p f hx => by
      rw [← List.map_erase h.graph.injective]
      exact ih _ (hlen ▸ length_erase_lt he) hx rfl
    rw [← List.map_erase h.graph.injective] at hexp
    cases hf : l.graph.isFunction e with
    | true =>
      have hf' := (h.graph.isFunction e).trans hf
      rw [expansion_function he hf] at hw
      simp only [bind_eq_ok, pure, Except.pure, Except.ok.injEq] at hw
      obtain ⟨params, hparams, body, hbody, b, hb, rfl⟩ := hw
      have hbody' : l'.bodyOf (ι e) = .ok (body.map ι) := by
        rw [bodyOf_eq_ok] at hbody ⊢
        rw [h.graph.body?, hbody]
        rfl
      have hb' := h.block_of hexp hb
      have hsuspends := h.suspends (some e)
      rw [Option.map_some] at hb' hsuspends
      rw [expansion_function he' hf', h.paramNames hparams, hbody', ← List.map_erase h.graph.injective]
      show (l'.block _ _ _ >>= _) = _
      rw [hb', hsuspends]
      rfl
    | false =>
      have hf' := (h.graph.isFunction e).trans hf
      cases hp : l.graph.isParameter e with
      | true =>
        rw [expansion_parameter he hp, map_eq_ok] at hw
        obtain ⟨name, hn, rfl⟩ := hw
        rw [expansion_parameter he' ((h.graph.isParameter e).trans hp), h.nameOf hn]
        rfl
      | false =>
        obtain ⟨m, hm⟩ := Graph.exists_node hin
        have hm' : l'.graph.node? (ι e) = some (m.map ι) := by rw [h.graph.node, hm]; rfl
        rw [expansion_inline he hm hf hp hs, map_eq_ok] at hw
        obtain ⟨pieces, hpieces, rfl⟩ := hw
        have hpieces' := h.parts_of hexp hpieces
        rw [← positioned_map] at hpieces'
        rw [expansion_inline he' hm' hf' ((h.graph.isParameter e).trans hp)
          ((h.graph.isUnfilledSlot e).trans hs), h.shape, ← List.map_erase h.graph.injective,
          hpieces', encloses]
        simp [Except.map, Fragment.map, mapFragments_eq]

/-- **A copy is written as the graph is**, with other handles. -/
theorem output {mode : CompileMode} {body : Body} {o : Output} (hw : l.output mode body = .ok o) :
    l'.output mode (body.map ι) = .ok (o.map ι) := by
  have hwithin : l'.analysis.order = l.analysis.order.map ι := by rw [h.analysis]; rfl
  have hexp : ∀ e pos frag, l.expansion l.analysis.order e pos = .ok frag →
      l'.expansion (l.analysis.order.map ι) (ι e) pos = .ok (frag.map ι) :=
    fun _ _ _ => h.expansion
  cases mode with
  | statements =>
    have hw : l.script body.roots = .ok o := hw
    obtain ⟨ds, hds, list, hl, rfl⟩ := script_eq_ok.1 hw
    have hdeclarations := h.declarations_of hexp hds
    have hlist := h.statements_of hexp hl
    rw [← h.declarationsOf] at hdeclarations
    rw [← Body.roots_map] at hlist
    exact script_eq_ok.2 ⟨_, hwithin ▸ hdeclarations, _, hwithin ▸ hlist, rfl⟩
  | evaluation =>
    cases body with
    | value root =>
      have hw : l.evaluation root = .ok o := hw
      obtain ⟨b, hb, rfl⟩ := evaluation_eq_ok.1 hw
      have hb' := h.block_of hexp hb
      exact evaluation_eq_ok.2 ⟨_, hwithin ▸ hb', rfl⟩
    | statements roots => cases hw

end Layout.Copies

/-! ## Mentions and texts -/

mutual

theorem Fragment.mentions_map : ∀ f : Fragment,
    (f.map ι).mentions = f.mentions.map (Mention.map ι)
  | .text _ | .moduleIndex _ | .resourceIndex _ _ | .placeholderIndex _ | .moduleStore
  | .resourceStore | .name _ _ _ => by
    simp [Fragment.map, Fragment.mentions, Mention.map]
  | .expansion _ _ pieces => by
    rw [Fragment.map, Fragment.mentions, Fragment.mentions, mentionsOfAll_map pieces]
  | .lambda _ _ _ _ body => by
    rw [Fragment.map, Fragment.mentions, Fragment.mentions, body.mentions_map]

theorem mentionsOfAll_map : ∀ fs : List Fragment,
    mentionsOfAll (mapFragments ι fs) = (mentionsOfAll fs).map (Mention.map ι)
  | [] => rfl
  | f :: fs => by
    rw [mapFragments, mentionsOfAll, mentionsOfAll, f.mentions_map, mentionsOfAll_map fs,
      List.map_append]

theorem Block.mentions_map : ∀ b : Block, (b.map ι).mentions = b.mentions.map (Mention.map ι)
  | .value declarations result => by
    rw [Block.map, Block.mentions, Block.mentions, mentionsOfDeclarations_map declarations,
      result.mentions_map, List.map_append]
  | .statements declarations list => by
    rw [Block.map, Block.mentions, Block.mentions, mentionsOfDeclarations_map declarations,
      mentionsOfAll_map list, List.map_append]

theorem Declaration.mentions_map : ∀ d : Declaration,
    (d.map ι).mentions = d.mentions.map (Mention.map ι)
  | .mk _ _ _ initializer => by
    rw [Declaration.map, Declaration.mentions, Declaration.mentions, initializer.mentions_map]

theorem mentionsOfDeclarations_map : ∀ ds : List Declaration,
    mentionsOfDeclarations (mapDeclarations ι ds) =
      (mentionsOfDeclarations ds).map (Mention.map ι)
  | [] => rfl
  | d :: ds => by
    rw [mapDeclarations, mentionsOfDeclarations, mentionsOfDeclarations, d.mentions_map,
      mentionsOfDeclarations_map ds, List.map_append]

end

namespace Output

/-- The same is mentioned, in the same order. -/
theorem mentions_map (o : Output) : (o.map ι).mentions = o.mentions.map (Mention.map ι) := by
  cases o with
  | script declarations list =>
    rw [Output.map, mentions, mentions, mentionsOfDeclarations_map, mentionsOfAll_map,
      List.map_append]
  | evaluation body => exact body.mentions_map

theorem usesModules_map (o : Output) : (o.map ι).usesModules = o.usesModules := by
  rw [usesModules, usesModules, mentions_map, List.any_map]
  congr 1
  funext mention
  cases mention <;> rfl

theorem usesResources_map (o : Output) : (o.map ι).usesResources = o.usesResources := by
  rw [usesResources, usesResources, mentions_map, List.any_map]
  congr 1
  funext mention
  cases mention <;> rfl

end Output

theorem idxOf_map (hι : Function.Injective ι) (e : NodeId) (l : List NodeId) :
    (l.map ι).idxOf (ι e) = l.idxOf e := by
  induction l with
  | nil => rfl
  | cons x l ih => simp [List.idxOf_cons, ih, hι.eq_iff, beq_eq_decide]

/-- Stores, and placeholders under other handles. -/
def Links.map (ι : NodeId → NodeId) (links : Links) : Links where
  stores := links.stores
  placeholders := links.placeholders.map ι

theorem Links.ofMentions_map (hι : Function.Injective ι) (resolver : Resolver)
    (stores : Stores) (mentions : List Mention) :
    Links.ofMentions resolver stores (mentions.map (Mention.map ι)) =
      (Links.ofMentions resolver stores mentions).map ι := by
  rw [ofMentions, ofMentions, List.foldl_map]
  show List.foldl _ (Links.map ι ⟨stores, []⟩) mentions = _
  refine List.foldl_hom (Links.map ι) fun links mention => ?_
  cases mention with
  | placeholder e =>
    have hcontains : (links.placeholders.map ι).contains (ι e) = links.placeholders.contains e := by
      simp [List.contains_eq_mem, List.mem_map_of_injective hι]
    simp only [Mention.map, register, Links.map, hcontains]
    split <;> simp
  | _ => rfl

mutual

theorem Fragment.render_map (hι : Function.Injective ι) (links : Links) : ∀ f : Fragment,
    (f.map ι).render (links.map ι) = f.render links
  | .text _ | .moduleIndex _ | .resourceIndex _ _ | .moduleStore | .resourceStore
  | .name _ _ _ => by
    simp [Fragment.map, Fragment.render, Links.map]
  | .placeholderIndex e => by
    simp [Fragment.map, Fragment.render, Links.map, idxOf_map hι]
  | .expansion _ _ pieces => by
    rw [Fragment.map, Fragment.render, Fragment.render, renderAll_map hι links pieces]
  | .lambda _ _ _ params body => by
    have hparams : (params.map fun p => (ι p.1, p.2)).map (·.2.toList) =
        params.map (·.2.toList) := by simp
    rw [Fragment.map, Fragment.render, Fragment.render, body.render_map hι links, hparams]

theorem renderAll_map (hι : Function.Injective ι) (links : Links) : ∀ fs : List Fragment,
    renderAll (links.map ι) (mapFragments ι fs) = renderAll links fs
  | [] => rfl
  | f :: fs => by
    rw [mapFragments, renderAll, renderAll, f.render_map hι links, renderAll_map hι links fs]

theorem renderStatements_map (hι : Function.Injective ι) (links : Links) : ∀ fs : List Fragment,
    renderStatements (links.map ι) (mapFragments ι fs) = renderStatements links fs
  | [] => rfl
  | f :: fs => by
    rw [mapFragments, renderStatements, renderStatements, f.render_map hι links,
      renderStatements_map hι links fs]

theorem Declaration.render_map (hι : Function.Injective ι) (links : Links) : ∀ d : Declaration,
    (d.map ι).render (links.map ι) = d.render links
  | .mk _ _ _ initializer => by
    rw [Declaration.map, Declaration.render, Declaration.render, initializer.render_map hι links]

theorem renderDeclarations_map (hι : Function.Injective ι) (links : Links) : ∀ ds : List Declaration,
    renderDeclarations (links.map ι) (mapDeclarations ι ds) = renderDeclarations links ds
  | [] => rfl
  | d :: ds => by
    rw [mapDeclarations, renderDeclarations, renderDeclarations, d.render_map hι links,
      renderDeclarations_map hι links ds]

theorem renderLet_map (hι : Function.Injective ι) (links : Links) : ∀ ds : List Declaration,
    renderLet (links.map ι) (mapDeclarations ι ds) = renderLet links ds
  | [] => rfl
  | d :: ds => by
    rw [mapDeclarations, renderLet_cons, renderLet_cons, d.render_map hι links,
      renderDeclarations_map hι links ds]

theorem Block.render_map (hι : Function.Injective ι) (links : Links) : ∀ b : Block,
    (b.map ι).render (links.map ι) = b.render links
  | .value ds result => by
    have hempty : (mapDeclarations ι ds).isEmpty = ds.isEmpty := by cases ds <;> rfl
    rw [Block.map, Block.render, Block.render, result.render_map hι links,
      renderLet_map hι links ds, hempty]
  | .statements ds list => by
    rw [Block.map, Block.render, Block.render, renderLet_map hι links ds,
      renderStatements_map hι links list]

end

/-- The text does not tell the handles. -/
theorem Output.render_map (hι : Function.Injective ι) (links : Links) (params : List String)
    (o : Output) : (o.map ι).render (links.map ι) params = o.render links params := by
  cases o with
  | script ds list =>
    exact congrArg₂ (· ++ ·) (renderLet_map hι links ds) (renderStatements_map hι links list)
  | evaluation body =>
    exact congrArg (fun text => "(async(".toList ++ joined [','] (params.map (·.toList)) ++
      ")=>".toList ++ text ++ [')']) (body.render_map hι links)

end ScriptGraph
