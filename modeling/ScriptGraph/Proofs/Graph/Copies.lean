import ScriptGraph.Proofs.Graph.Nesting

/-!
# Copies of graphs

Handles tell only in which order nodes were made. A graph may stand in another one under other
handles.

* `Node.map` : a node that refers to other handles;
* `Graph.Copies` : all nodes of a graph stand in another one, under other handles;
* `Graph.Copies.children`, `Graph.Copies.params`, `Graph.Copies.isWithin`, … : what a node is does
  not depend on its handle.
-/

namespace ScriptGraph

variable {ι : NodeId → NodeId}

/-! ## Other handles -/

def Part.map (ι : NodeId → NodeId) : Part → Part
  | .text t => .text t
  | .node e => .node (ι e)

def Body.map (ι : NodeId → NodeId) : Body → Body
  | .value root => .value (ι root)
  | .statements roots => .statements (roots.map ι)

def BodyState.map (ι : NodeId → NodeId) : BodyState → BodyState
  | .ready body => .ready (body.map ι)
  | state => state

def Kind.map (ι : NodeId → NodeId) : Kind → Kind
  | .template parts => .template (parts.map (Part.map ι))
  | .function arity state => .function arity (state.map ι)
  | .call callee args => .call (ι callee) (args.map ι)
  | .moduleRef store address => .moduleRef (ι store) address
  | .resourceRef store key value => .resourceRef (ι store) key value
  | .slot target => .slot (target.map ι)
  | kind => kind

def Node.map (ι : NodeId → NodeId) (n : Node) : Node where
  scope := n.scope.map ι
  flags := n.flags
  kind := n.kind.map ι

@[simp] theorem Body.roots_map (body : Body) : (body.map ι).roots = body.roots.map ι := by
  cases body <;> rfl

@[simp] theorem Kind.label_map (kind : Kind) : (kind.map ι).label = kind.label := by
  cases kind <;> rfl

theorem Part.node?_map (p : Part) : (p.map ι).node? = p.node?.map ι := by
  cases p <;> rfl

theorem filterMap_node?_mapParts (parts : List Part) :
    (parts.map (Part.map ι)).filterMap Part.node? = (parts.filterMap Part.node?).map ι := by
  simp [List.filterMap_map, List.map_filterMap, Part.node?_map]

theorem commaSeparated_mapParts (parts : List Part) :
    commaSeparated (parts.map (Part.map ι)) = (commaSeparated parts).map (Part.map ι) := by
  induction parts using commaSeparated.induct with
  | case1 => rfl
  | case2 p => rfl
  | case3 p rest hrest ih =>
    rw [List.map_cons, commaSeparated, commaSeparated, ih]
    · rfl
    · exact hrest
    · simpa using hrest

theorem Node.template_map (n : Node) : (n.map ι).template = n.template.map (Part.map ι) := by
  obtain ⟨scope, flags, kind⟩ := n
  cases kind with
  | call callee args =>
    have hargs : (args.map ι).map Part.node = (args.map Part.node).map (Part.map ι) := by
      simp [Part.map]
    rw [Node.template, Node.map, Kind.map]
    dsimp only
    rw [hargs, commaSeparated_mapParts]
    simp [Node.template, Part.map]
  | slot target => cases target <;> rfl
  | _ => rfl

/-! ## Copies -/

namespace Graph

/-- All nodes of `g` stand in `g'` under the handles that `ι` gives them, and handles outside `g`
are given handles outside `g'`. -/
structure Copies (ι : NodeId → NodeId) (g g' : Graph) : Prop where
  injective : Function.Injective ι
  node : ∀ e, g'.node? (ι e) = (g.node? e).map (Node.map ι)
  source : g.Sound
  target : g'.Sound

namespace Copies

variable {g g' : Graph} (h : Copies ι g g')

include h

@[simp] theorem contains (l : List NodeId) (e : NodeId) :
    (l.map ι).contains (ι e) = l.contains e := by
  simp [List.contains_eq_mem, List.mem_map_of_injective h.injective]

@[simp] theorem scope_eq_iff (s t : Scope) : s.map ι = t.map ι ↔ s = t :=
  (Option.map_injective h.injective).eq_iff

@[simp] theorem scopeOf (e : NodeId) : g'.scopeOf (ι e) = (g.scopeOf e).map ι := by
  rw [Graph.scopeOf, Graph.scopeOf, h.node]
  cases g.node? e <;> rfl

@[simp] theorem flagsOf (e : NodeId) : g'.flagsOf (ι e) = g.flagsOf e := by
  rw [Graph.flagsOf, Graph.flagsOf, h.node]
  cases g.node? e <;> rfl

@[simp] theorem kindOf? (e : NodeId) : g'.kindOf? (ι e) = (g.kindOf? e).map (Kind.map ι) := by
  rw [Graph.kindOf?, Graph.kindOf?, h.node]
  cases g.node? e <;> rfl

@[simp] theorem label (e : NodeId) : g'.label (ι e) = g.label e := by
  rw [Graph.label, Graph.label, h.kindOf?]
  cases g.kindOf? e <;> simp

@[simp] theorem children (e : NodeId) : g'.children (ι e) = (g.children e).map ι := by
  rw [Graph.children, Graph.children, h.node]
  cases g.node? e with
  | none => rfl
  | some n =>
    show (n.map ι).template.filterMap Part.node? = _
    rw [Node.template_map, filterMap_node?_mapParts]

@[simp] theorem isFunction (e : NodeId) : g'.isFunction (ι e) = g.isFunction e := by
  rw [Graph.isFunction, Graph.isFunction, h.kindOf?]
  rcases g.kindOf? e with _ | kind
  · rfl
  · cases kind <;> rfl

@[simp] theorem isParameter (e : NodeId) : g'.isParameter (ι e) = g.isParameter e := by
  rw [Graph.isParameter, Graph.isParameter, h.kindOf?]
  rcases g.kindOf? e with _ | kind
  · rfl
  · cases kind <;> rfl

@[simp] theorem body? (f : NodeId) : g'.body? (ι f) = (g.body? f).map (Body.map ι) := by
  rw [Graph.body?, Graph.body?, h.kindOf?]
  rcases g.kindOf? f with _ | kind
  · rfl
  · cases kind with
    | function arity state => cases state <;> rfl
    | _ => rfl

@[simp] theorem isUnfilledSlot (e : NodeId) : g'.isUnfilledSlot (ι e) = g.isUnfilledSlot e := by
  rw [Graph.isUnfilledSlot, Graph.isUnfilledSlot, h.kindOf?]
  rcases g.kindOf? e with _ | kind
  · rfl
  · cases kind with
    | slot target => cases target <;> rfl
    | _ => rfl

theorem parameter {f i arity : Nat} {state : BodyState}
    (hf : g.kindOf? f = some (.function arity state)) (hi : i < arity) :
    ι (f + 1 + i) = ι f + 1 + i := by
  obtain ⟨n, hn, hk⟩ := kindOf?_eq_some.1 hf
  have hsound := (h.source f n hn).kind
  rw [hk] at hsound
  obtain ⟨m, hm, hscope, hkind⟩ := hsound.2 i hi
  have hcopy : g'.node? (ι (f + 1 + i)) = some (m.map ι) := by rw [h.node, hm]; rfl
  have hsound' := (h.target _ _ hcopy).kind
  rw [show (m.map ι).kind = .parameter i by rw [Node.map, hkind]; rfl] at hsound'
  obtain ⟨-, f', -, -, hscope', -, -, heq⟩ := hsound'
  rw [show (m.map ι).scope = some (ι f) by rw [Node.map, hscope]; rfl] at hscope'
  cases hscope'
  exact heq

@[simp] theorem params (f : NodeId) : g'.params (ι f) = (g.params f).map ι := by
  rcases hk : g.kindOf? f with _ | kind
  · simp [Graph.params, h.kindOf?, hk]
  · cases kind with
    | function arity state =>
      have hk' : g'.kindOf? (ι f) = some (.function arity (state.map ι)) := by
        rw [h.kindOf?, hk]
        rfl
      rw [params_of_kind hk, params_of_kind hk', List.range'_eq_map_range, List.range'_eq_map_range,
        List.map_map]
      exact List.map_congr_left fun i hi => (h.parameter hk (List.mem_range.1 hi)).symm
    | _ => simp [Graph.params, h.kindOf?, hk, Kind.map]

/-! ## Scopes -/

@[simp] theorem scopeChain (s : Scope) :
    g'.scopeChain (s.map ι) = (g.scopeChain s).map (Option.map ι) := by
  induction s using h.source.scope_induction with
  | top => simp
  | inner f ih =>
    rw [Option.map_some, h.target.scopeChain_some, h.source.scopeChain_some, h.scopeOf, ih]
    rfl

@[simp] theorem isWithin (inner outer : Scope) :
    g'.isWithin (inner.map ι) (outer.map ι) = g.isWithin inner outer := by
  rw [Bool.eq_iff_iff, isWithin_iff, isWithin_iff, h.scopeChain,
    List.mem_map_of_injective (Option.map_injective h.injective)]

end Copies

end Graph

end ScriptGraph
