import ScriptGraph.Builder.Operators
import ScriptGraph.Proofs.Analysis.Classes
import ScriptGraph.Proofs.Builder.Creation
import ScriptGraph.Proofs.Builder.Nodewise

/-!
# Which nodes read resources

* `Graph.Resolved.mem_gather_iff_path` : what passes from nodes to those that refer to them has come
  along a path of references;
* `Node.Inherits`, `Builder.Reached.inherits` : a node that was known to read a resource when it was
  made refers to the resources, or to a node that was known to read one;
* `Graph.ReadsResource` : references lead from a node to a resource;
* `Graph.AwaitsInline` : references through undeclared nodes lead from a node to an awaited one;
* `Builder.resources_of_analyze` : an analysis finds exactly these.

What was known when a node was made may be too little: a slot leads to a resource only once it is
filled. So both properties are read off the finished graph.
-/

namespace ScriptGraph

namespace Graph

/-! ## Paths of references -/

/-- References lead from one node to another, and every node after the first has the property. -/
def RefersThrough (g : Graph) (p : NodeId → Prop) : NodeId → NodeId → Prop :=
  Relation.ReflTransGen fun e c => g.Refers e c ∧ p c

/-- A node is gathered if there is a path, along which its property is passed on, from one that has
it of its own. -/
theorem Resolved.mem_gather_iff_path {g : Graph} {body : Body} {a : Analysis}
    (h : g.Resolved body a) {own passes : NodeId → Bool} {e : NodeId} (he : e ∈ a.order) :
    e ∈ g.gather own passes (a.settled.map (·.node)) ↔
      ∃ x, g.RefersThrough (passes · = true) e x ∧ own x = true := by
  constructor
  · intro hmem
    revert hmem
    refine h.children_first (P := fun e => e ∈ g.gather own passes (a.settled.map (·.node)) →
      ∃ x, g.RefersThrough (passes · = true) e x ∧ own x = true) ?_ e he
    intro e he ih hmem
    rcases (h.mem_gather_iff he).1 hmem with hown | ⟨c, hc, hpass, hbelow⟩
    · exact ⟨e, .refl, hown⟩
    · obtain ⟨x, hpath, hown⟩ := ih c hc hbelow
      exact ⟨x, .head ⟨hc, hpass⟩ hpath, hown⟩
  · rintro ⟨x, hpath, hown⟩
    induction hpath using Relation.ReflTransGen.head_induction_on with
    | refl => exact (h.mem_gather_iff he).2 (.inl hown)
    | @head e c hstep _ ih =>
      exact (h.mem_gather_iff he).2
        (.inr ⟨c, hstep.1, hstep.2, ih (h.surveyed.child_mem he hstep.1)⟩)

/-! ## Resources -/

/-- A reference to a resource. -/
def IsResource (g : Graph) (e : NodeId) : Prop :=
  ∃ store key value, g.kindOf? e = some (.resourceRef store key value)

/-- References lead from the node to a resource. The body of a function is not a reference. -/
def ReadsResource (g : Graph) (e : NodeId) : Prop :=
  ∃ r, Relation.ReflTransGen g.Refers e r ∧ g.IsResource r

/-- References through undeclared nodes lead from the node to an awaited one. -/
def AwaitsInline (g : Graph) (a : Analysis) (e : NodeId) : Prop :=
  ∃ w, g.RefersThrough (a.isDeclared · = false) e w ∧ (g.flagsOf w).awaits = true

end Graph

/-! ## What is known when a node is made -/

/-- A reference to a resource is marked as one that reads it; any other node that is no function and
no parameter is marked so only if it refers to a marked one. -/
def Node.Inherits (marked : NodeId → Prop) (n : Node) : Prop :=
  match n.kind with
  | .function .. => True
  | .parameter _ => True
  | .resourceRef .. => n.flags.readsResource = true
  | _ => n.flags.readsResource = true → ∃ c ∈ n.template.filterMap Part.node?, marked c

/-- A node of a graph is marked. -/
def Graph.Marked (g : Graph) (e : NodeId) : Prop := (g.flagsOf e).readsResource = true

theorem Graph.Extends.marked {g g' : Graph} (h : g.Extends g') {e : NodeId} (he : g.Marked e) :
    g'.Marked e := by
  unfold Graph.Marked at he ⊢
  cases hn : g.node? e with
  | none =>
    rw [Graph.flagsOf, hn] at he
    cases he
  | some n =>
    obtain ⟨n', hn', hgrow⟩ := h e n hn
    rw [Graph.flagsOf_of_node hn] at he
    rw [Graph.flagsOf_of_node hn', hgrow.flags, he]

theorem lasting_inherits (marked : NodeId → Prop) : Lasting fun _ n => n.Inherits marked where
  function _ _ _ _ _ := trivial
  parameter _ _ _ _ := trivial
  fill _ _ _ _ h hread := by
    obtain ⟨_, hc, _⟩ := h hread
    cases hc

namespace BuilderState

variable {σ : Type} {s : BuilderState σ} {marked : NodeId → Prop}

theorem exists_marked {es : List NodeId} (hmarked : ∀ e, s.graph.Marked e → marked e)
    (h : s.anyReadsResource es = true) : ∃ c ∈ es, marked c := by
  obtain ⟨c, hc, hread⟩ := List.any_eq_true.1 h
  exact ⟨c, hc, hmarked c hread⟩

/-- What is made for a draft is marked because of the nodes of the draft. -/
theorem create_inherits (hmarked : ∀ e, s.graph.Marked e → marked e)
    (h : s.graph.Each fun _ n => n.Inherits marked) (draft : Draft) :
    (s.create draft).2.graph.Each fun _ n => n.Inherits marked := by
  have hmodules : s.moduleStore.2.graph.Each fun _ n => n.Inherits marked :=
    Graph.Each.moduleStore h fun hread => absurd hread Bool.false_ne_true
  have hresources : s.resourceStore.2.graph.Each fun _ n => n.Inherits marked :=
    Graph.Each.resourceStore h fun hread => absurd hread Bool.false_ne_true
  cases draft with
  | ident name =>
    simp only [create]
    split <;> exact Graph.Each.make h fun hread => absurd hread Bool.false_ne_true
  | template parts awaits inert optional => exact Graph.Each.make h (exists_marked hmarked)
  | call callee args style =>
    refine Graph.Each.make h fun hread => ?_
    obtain ⟨c, hc, hmark⟩ := exists_marked hmarked hread
    refine ⟨c, ?_, hmark⟩
    rw [← filterMap_node?_arguments args] at hc
    exact hc
  | moduleStore => exact hmodules
  | resourceStore => exact hresources
  | module address => exact Graph.Each.make hmodules fun hread => absurd hread Bool.false_ne_true
  | resource key value => exact Graph.Each.make hresources rfl
  | _ => exact Graph.Each.make h fun hread => absurd hread Bool.false_ne_true

end BuilderState

namespace Builder

variable {σ : Type} {b : Builder σ}

theorem Reached.inherits (h : b.Reached) :
    b.state.graph.Each fun _ n => n.Inherits b.state.graph.Marked := by
  obtain ⟨shared, ops, rfl⟩ := h
  -- The induction is on the operations; the marks are those of the final graph throughout, since a
  -- node that is marked stays so.
  suffices hall : ∀ g, ((empty shared).performAll ops).state.graph.Extends g →
      ((empty shared).performAll ops).state.graph.Each fun _ n => n.Inherits g.Marked from
    hall _ (.refl _)
  intro g
  induction ops using List.reverseRecOn with
  | nil => exact fun _ => Graph.each_empty
  | append_singleton ops op ih =>
    intro hext
    have hreached : ((empty shared).performAll ops).Reached := ⟨shared, ops, rfl⟩
    rw [performAll, List.foldl_append] at hext ⊢
    have hext' := (perform_sound_extends hreached.sound op).2.trans hext
    exact Graph.Each.perform (lasting_inherits g.Marked) (ih hext') fun draft _ =>
      BuilderState.create_inherits (fun _ => hext'.marked) (ih hext') draft

end Builder

namespace Graph

variable {g : Graph} {e : NodeId}

/-- A mark comes from a resource, or from a marked node that is referred to. -/
theorem Marked.cases (hg : g.Sound) (hi : g.Each fun _ n => n.Inherits g.Marked)
    (he : g.Marked e) : g.IsResource e ∨ ∃ c ∈ g.children e, g.Marked c := by
  cases hn : g.node? e with
  | none =>
    rw [Marked, flagsOf, hn] at he
    cases he
  | some n =>
    have hk := kindOf?_of_node hn
    have hinherits : n.Inherits g.Marked := hi e n hn
    have hread : n.flags.readsResource = true := by rwa [Marked, flagsOf_of_node hn] at he
    unfold Node.Inherits at hinherits
    rw [children_of_node hn]
    split at hinherits
    · rename_i arity state hkind
      rw [Marked, hg.flagsOf_function (isFunction_iff.2 ⟨arity, state, hk.trans (by rw [hkind])⟩)]
        at he
      cases he
    · rename_i i hkind
      rw [Marked, (hg.isParameter (isParameter_iff.2 ⟨i, hk.trans (by rw [hkind])⟩)).1] at he
      cases he
    · rename_i store key value hkind
      exact .inl ⟨store, key, value, hk.trans (by rw [hkind])⟩
    · exact .inr (hinherits hread)

theorem IsResource.marked (hi : g.Each fun _ n => n.Inherits g.Marked) (he : g.IsResource e) :
    g.Marked e := by
  obtain ⟨store, key, value, hk⟩ := he
  obtain ⟨n, hn, hkind⟩ := kindOf?_eq_some.1 hk
  have hinherits : n.Inherits g.Marked := hi e n hn
  rw [Node.Inherits, hkind] at hinherits
  rwa [Marked, flagsOf_of_node hn]

namespace Resolved

variable {body : Body} {a : Analysis} (h : g.Resolved body a)

include h

/-- From a marked node, references lead to a resource. -/
theorem readsResource_of_marked (hi : g.Each fun _ n => n.Inherits g.Marked) (he : e ∈ a.order)
    (hmark : g.Marked e) : g.ReadsResource e := by
  revert hmark
  refine h.children_first (P := fun e => g.Marked e → g.ReadsResource e) ?_ e he
  intro e he ih hmark
  rcases hmark.cases h.sound hi with hres | ⟨c, hc, hmark⟩
  · exact ⟨e, .refl, hres⟩
  · obtain ⟨r, hpath, hres⟩ := ih c hc hmark
    exact ⟨r, .head hc hpath, hres⟩

/-- Reachable nodes are dependent if references lead to a marked node. -/
theorem mem_dependent_iff_path (he : e ∈ a.order) : e ∈ a.classes.dependent ↔
    ∃ x, Relation.ReflTransGen g.Refers e x ∧ g.Marked x := by
  rw [h.classes_eq, classify_dependent, h.mem_gather_iff_path he]
  simp only [RefersThrough, and_true, Marked]

/-- Reachable nodes await inline if references through undeclared nodes lead to an awaited one. -/
theorem mem_awaiting_iff_awaitsInline (he : e ∈ a.order) :
    e ∈ a.classes.awaiting ↔ g.AwaitsInline a e := by
  rw [h.classes_eq, classify_awaiting, h.mem_gather_iff_path he]
  simp only [AwaitsInline, Bool.not_eq_true', Analysis.isDeclared]

theorem mem_order_of_dependent (he : e ∈ a.classes.dependent) : e ∈ a.order := by
  rw [h.classes_eq, classify_dependent] at he
  exact h.settled_perm.mem_iff.1 (gather_subset he)

theorem isAccessor_iff : a.isAccessor e = true ↔
    a.isDeclared e = true ∧ a.readsResource e = true ∧ ¬g.AwaitsInline a e := by
  rw [Analysis.isAccessor, Bool.and_eq_true, Bool.and_eq_true, and_assoc]
  refine and_congr_right fun hd => and_congr_right fun _ => ?_
  rw [← h.mem_awaiting_iff_awaitsInline (h.mem_order_of_isDeclared hd), Bool.not_eq_true',
    ← Bool.not_eq_true, List.contains_iff_mem]

end Resolved

end Graph

namespace Builder

variable {σ : Type}

/-- **Which nodes read resources**: an analysis finds that a reachable node reads a resource exactly
if references lead from it to a resource, through slots but not into the bodies of functions. A node
is an accessor exactly if it is declared, reads a resource and does not await inline. What was known
when a node was made is found again. -/
theorem resources_of_analyze {b c : Builder σ} {body : Body} {stem : String} {a : Analysis}
    (hb : b.Reached) (h : b.analyze body stem = (.ok a, c)) :
    (∀ e, a.readsResource e = true ↔
      c.state.graph.Reaches body.roots e ∧ c.state.graph.ReadsResource e) ∧
    (∀ e, a.isAccessor e = true ↔ a.isDeclared e = true ∧ a.readsResource e = true ∧
      ¬c.state.graph.AwaitsInline a e) ∧
    (∀ e, c.state.graph.Reaches body.roots e → (c.state.graph.flagsOf e).readsResource = true →
      a.readsResource e = true) := by
  have hresolved := analyze_resolved hb h
  have hi := ((b.analyze_leads body stem).reached hb).inherits
  rw [h] at hi
  have hmem : ∀ e, a.readsResource e = true ↔ e ∈ a.classes.dependent := fun e => by
    rw [Analysis.readsResource, List.contains_iff_mem]
  refine ⟨fun e => ?_, fun e => hresolved.isAccessor_iff, fun e hreach hread => ?_⟩
  · rw [hmem]
    constructor
    · intro he
      have horder := hresolved.mem_order_of_dependent he
      obtain ⟨x, hpath, hmark⟩ := (hresolved.mem_dependent_iff_path horder).1 he
      have hx : x ∈ a.order := by
        clear hmark
        induction hpath with
        | refl => exact horder
        | tail _ hc ih => exact hresolved.surveyed.child_mem ih hc
      obtain ⟨r, hpath', hres⟩ := hresolved.readsResource_of_marked hi hx hmark
      exact ⟨(hresolved.surveyed.mem_iff e).1 horder, r, hpath.trans hpath', hres⟩
    · rintro ⟨hreach, r, hpath, hres⟩
      exact (hresolved.mem_dependent_iff_path ((hresolved.surveyed.mem_iff e).2 hreach)).2
        ⟨r, hpath, hres.marked hi⟩
  · rw [hmem]
    exact (hresolved.mem_dependent_iff_path ((hresolved.surveyed.mem_iff e).2 hreach)).2
      ⟨e, .refl, hread⟩

/-- A member access on a slot that is directed to a resource later, used twice. -/
def lateResourceExample : Builder Unit :=
  (Builder.run (Build.toRecipe do
    let slot ← Build.create .slot
    let access ← Build.get slot "p"
    let resource ← Build.create (.resource "r" (.eager .null))
    let _ ← Build.fill slot resource
    let list ← Build.template [.text "[", .node access, .text ",", .node access, .text "]"]
    return .ok (.value list)) (.empty ())).2

/-- The slot, the access, the store, the resource and the list. -/
def lateResourceGraph : Graph where
  nodes := #[⟨none, { inert := true }, .slot (some 3)⟩,
    ⟨none, {}, .template [.node 0, .text ".p"]⟩,
    ⟨none, { pinned := true }, .resourceStore⟩,
    ⟨none, { inert := true, readsResource := true }, .resourceRef 2 "r" (.eager .null)⟩,
    ⟨none, {}, .template [.text "[", .node 1, .text ",", .node 1, .text "]"]⟩]
  resourceStore := some 2

/-- The access was not known to read a resource when it was made; it is an accessor now. -/
theorem resources_lateResourceExample : ∃ a c,
    lateResourceExample.analyze (.value 4) "_" = (.ok a, c) ∧
    (c.state.graph.flagsOf 1).readsResource = false ∧ a.readsResource 1 = true ∧
    a.isAccessor 1 = true := by
  have hsurvey : (lateResourceExample.survey [] [4]).1 = .ok [4, 1, 0, 3, 2] := by cbv
  obtain ⟨a, c, ha, hfinal⟩ := exists_analysis (.value 4) "_" hsurvey (by cbv)
  have hgraph : c.state.graph = lateResourceGraph := by
    rw [hfinal]
    cbv
  have hreached : lateResourceExample.Reached := (run_leads _ _).reached (reached_empty ())
  obtain ⟨hreads, haccessor, _⟩ := resources_of_analyze hreached ha
  have hreach : c.state.graph.Reaches [4] 1 :=
    .step (.root List.mem_cons_self)
      (Graph.mem_successors.2 (.inl (by rw [hgraph]; decide)))
  have hpath : Relation.ReflTransGen c.state.graph.Refers 1 3 := by
    rw [hgraph]
    exact .head (by decide : 0 ∈ lateResourceGraph.children 1)
      (.single (by decide : 3 ∈ lateResourceGraph.children 0))
  have hread : a.readsResource 1 = true :=
    (hreads 1).2 ⟨hreach, 3, hpath, 2, "r", .eager .null, by rw [hgraph]; rfl⟩
  have hdeclared : (lateResourceExample.analyze (.value 4) "_").1.map (·.isDeclared 1) =
      .ok true := by cbv
  rw [ha] at hdeclared
  have hcalm : ∀ e, (c.state.graph.flagsOf e).awaits = false := fun e => by
    have hall : c.state.graph.nodes.all (!·.flags.awaits) = true := by
      rw [hgraph]
      cbv
    cases hn : c.state.graph.node? e with
    | none => rw [Graph.flagsOf, hn]; rfl
    | some n =>
      rw [Graph.flagsOf_of_node hn]
      simpa using Array.all_eq_true'.1 hall n (Array.mem_of_getElem? hn)
  refine ⟨a, c, ha, by rw [hgraph]; rfl, hread,
    (haccessor 1).2 ⟨Except.ok.inj hdeclared, hread, ?_⟩⟩
  rintro ⟨w, _, hawaits⟩
  rw [hcalm w] at hawaits
  cases hawaits

end Builder

end ScriptGraph
