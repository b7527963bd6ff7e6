import ScriptGraph.Analysis.Basic
import ScriptGraph.Proofs.Emission.Writing
import ScriptGraph.Proofs.Graph.Copies
import ScriptGraph.Proofs.Order.FirstOccurrences

/-!
# Copies are analysed alike

* `Analysis.map` : an analysis with other handles;
* `Graph.Copies.settle`, `Graph.Copies.classify`, `Graph.Copies.ordered` : decisions on nodes, their
  classes and the order of declarations do not depend on handles;
* `Graph.Copies.analysis` : so a copy is analysed as the graph is.
-/

namespace ScriptGraph

variable {ι : NodeId → NodeId}

/-! ## Other handles -/

def Landings.map (ι : NodeId → NodeId) (l : Landings) : Landings :=
  List.map (fun place => (place.1.map ι, place.2)) l

def Settled.map (ι : NodeId → NodeId) (s : Settled) : Settled where
  node := ι s.node
  declared := s.declared
  landings := s.landings.map ι

def Classes.map (ι : NodeId → NodeId) (c : Classes) : Classes where
  dependent := c.dependent.map ι
  awaiting := c.awaiting.map ι

/-- Lists of nodes that belong to scopes. -/
def mapScoped (ι : NodeId → NodeId) (p : Scope × List NodeId) : Scope × List NodeId :=
  (p.1.map ι, p.2.map ι)

def Analysis.map (ι : NodeId → NodeId) (a : Analysis) : Analysis where
  order := a.order.map ι
  settled := a.settled.map (Settled.map ι)
  declared := a.declared.map ι
  classes := a.classes.map ι
  declarations := a.declarations.map (mapScoped ι)
  named := a.named.map ι
  stem := a.stem
  suspending := a.suspending.map (Option.map ι)

theorem Landings.scopes_map (l : Landings) : (l.map ι).scopes = l.scopes.map (Option.map ι) := by
  simp [Landings.map, scopes]

theorem Landings.total_map (l : Landings) : (l.map ι).total = l.total := by
  simp [Landings.map, total, List.foldr_map]

theorem nodes_mapSettled (settled : List Settled) :
    (settled.map (Settled.map ι)).map (·.node) = (settled.map (·.node)).map ι := by
  simp [Settled.map]

namespace Graph.Copies

variable {g g' : Graph} (h : Copies ι g g')

include h

/-! ## Landings -/

theorem place (scope : Scope) (count : Nat) (l : Landings) :
    (l.map ι).place (scope.map ι) count = (l.place scope count).map ι := by
  induction l with
  | nil => rfl
  | cons p rest ih =>
    obtain ⟨s, n⟩ := p
    show Landings.place (scope.map ι) count ((s.map ι, n) :: Landings.map ι rest) = _
    rw [Landings.place, Landings.place, ih]
    simp only [h.scope_eq_iff]
    split <;> rfl

theorem rootLandings (bodies : List (Scope × List NodeId)) (e : NodeId) :
    Graph.rootLandings (bodies.map (mapScoped ι)) (ι e) =
      (Graph.rootLandings bodies e).map ι := by
  rw [Graph.rootLandings, Graph.rootLandings, List.foldl_map]
  show List.foldl _ (Landings.map ι []) bodies = _
  refine List.foldl_hom (Landings.map ι) fun l p => ?_
  obtain ⟨s, roots⟩ := p
  simp only [mapScoped, h.contains, List.count_map_of_injective _ _ h.injective, h.place]
  split <;> rfl

theorem bodies (roots order : List NodeId) :
    g'.bodies (roots.map ι) (order.map ι) = (g.bodies roots order).map (mapScoped ι) := by
  simp only [Graph.bodies, List.map_cons, mapScoped, List.filterMap_map, List.map_filterMap]
  congr 1
  refine List.filterMap_congr fun f _ => ?_
  rw [Function.comp_apply, h.body?]
  cases g.body? f <;> simp [mapScoped]

theorem handedDown (s : Settled) : g'.handedDown (s.map ι) = (g.handedDown s).map ι := by
  simp only [Graph.handedDown, Settled.map, h.scopeOf]
  split <;> rfl

theorem landings (bodies : List (Scope × List NodeId)) (settled : List Settled) (e : NodeId) :
    g'.landings (bodies.map (mapScoped ι)) (settled.map (Settled.map ι)) (ι e) =
      (g.landings bodies settled e).map ι := by
  rw [Graph.landings, Graph.landings, h.rootLandings, List.foldl_map]
  refine List.foldl_hom (Landings.map ι) fun l s => ?_
  have htimes : (g'.children (Settled.map ι s).node).count (ι e) = (g.children s.node).count e := by
    rw [Settled.map, h.children, List.count_map_of_injective _ _ h.injective]
  simp only [htimes, h.handedDown]
  split
  · rfl
  · rw [show (g.handedDown s).map ι = List.map _ _ from rfl, List.foldl_map]
    exact List.foldl_hom (Landings.map ι) fun l p => h.place _ _ l

/-! ## Decisions -/

theorem mustDeclare (e : NodeId) (l : Landings) :
    g'.mustDeclare (ι e) (l.map ι) = g.mustDeclare e l := by
  have hany : (l.map ι).scopes.any (fun s => s != (g.scopeOf e).map ι) =
      l.scopes.any fun s => s != g.scopeOf e := by
    simp [Landings.scopes_map, List.any_map, Function.comp_def, bne, h.scope_eq_iff, beq_eq_decide]
  simp only [Graph.mustDeclare, h.flagsOf, h.scopeOf, Landings.total_map, hany]

theorem decideNode {e : NodeId} {l : Landings} {s : Settled} (hs : g.decideNode e l = .ok s) :
    g'.decideNode (ι e) (l.map ι) = .ok (s.map ι) := by
  have hfind : (l.map ι).scopes.find? (fun s => !g'.isWithin s ((g.scopeOf e).map ι)) =
      (l.scopes.find? fun s => !g.isWithin s (g.scopeOf e)).map (Option.map ι) := by
    rw [Landings.scopes_map, List.find?_map]
    simp [h.isWithin]
  simp only [Graph.decideNode, h.mustDeclare, h.isParameter, h.scopeOf, hfind] at hs ⊢
  split at hs
  · cases hs
  · next hleak =>
    cases hs
    have hleak' : (if (g.mustDeclare e l || g.isParameter e) = true then
        (l.scopes.find? fun s => !g.isWithin s (g.scopeOf e)).map (Option.map ι) else none) =
        none := by
      split at hleak <;> simp_all
    rw [hleak']
    rfl

theorem isReady (order settled : List NodeId) (e : NodeId) :
    g'.isReady (order.map ι) (settled.map ι) (ι e) = g.isReady order settled e := by
  rw [Graph.isReady, Graph.isReady, List.all_map]
  simp only [Function.comp_def, h.children, h.contains]

theorem ready (order settled : List NodeId) (e : NodeId) :
    (g'.children (ι e)).eraseDups.filter (g'.isReady (order.map ι) (settled.map ι)) =
      ((g.children e).eraseDups.filter (g.isReady order settled)).map ι := by
  rw [h.children, eraseDups_map fun _ _ _ _ heq => h.injective heq, List.filter_map]
  simp only [Function.comp_def, h.isReady]

theorem settleRounds {bodies : List (Scope × List NodeId)} {order : List NodeId} {rounds : Nat}
    {queue : List NodeId} {settled found : List Settled}
    (hs : g.settleRounds bodies order rounds queue settled = .ok found) :
    g'.settleRounds (bodies.map (mapScoped ι)) (order.map ι) rounds (queue.map ι)
      (settled.map (Settled.map ι)) = .ok (found.map (Settled.map ι)) := by
  induction rounds generalizing queue settled with
  | zero =>
    cases hs
    rfl
  | succ rounds ih =>
    cases queue with
    | nil =>
      cases hs
      rfl
    | cons e queue =>
      rw [Graph.settleRounds] at hs
      cases hd : g.decideNode e (g.landings bodies settled e) with
      | error fault =>
        rw [hd] at hs
        cases hs
      | ok s =>
        rw [hd] at hs
        have hnext := ih hs
        rw [List.map_append, ← h.ready, ← nodes_mapSettled, List.map_append] at hnext
        rw [List.map_cons, Graph.settleRounds, h.landings, h.decideNode hd]
        exact hnext

theorem settle {roots order : List NodeId} {settled : List Settled}
    (hs : g.settle roots order = .ok settled) :
    g'.settle (roots.map ι) (order.map ι) = .ok (settled.map (Settled.map ι)) := by
  simp only [Graph.settle, bind_eq_ok] at hs ⊢
  obtain ⟨found, hrounds, hs⟩ := hs
  have hqueue : (order.map ι).filter (g'.isReady (order.map ι) []) =
      (order.filter (g.isReady order [])).map ι := by
    rw [List.filter_map]
    congr 1
    exact List.filter_congr fun e _ => h.isReady order [] e
  refine ⟨found.map (Settled.map ι), ?_, ?_⟩
  · rw [h.bodies, List.length_map, hqueue]
    exact h.settleRounds hrounds
  · rw [List.length_map, List.length_map]
    split at hs
    · cases hs
    · next hlength =>
      cases hs
      rw [if_neg hlength]

/-! ## Classes -/

theorem classify (declared nodes : List NodeId) :
    g'.classify (declared.map ι) (nodes.map ι) = (g.classify declared nodes).map ι := by
  induction nodes with
  | nil => rfl
  | cons e rest ih =>
    have hdepends : ((g.children e).map ι).any ((g.classify declared rest).dependent.map ι).contains =
        (g.children e).any (g.classify declared rest).dependent.contains := by
      rw [List.any_map]
      simp only [Function.comp_def, h.contains]
    have hawaits : ((g.children e).map ι).any (fun c => !(declared.map ι).contains c &&
          ((g.classify declared rest).awaiting.map ι).contains c) =
        (g.children e).any fun c => !declared.contains c &&
          (g.classify declared rest).awaiting.contains c := by
      rw [List.any_map]
      simp only [Function.comp_def, h.contains]
    simp only [List.map_cons, Graph.classify, ih, h.flagsOf, h.children]
    simp only [Classes.map, hdepends, hawaits]
    split <;> split <;> simp_all

/-! ## Declarations -/

theorem declaredNodes (order : List NodeId) (settled : List Settled) :
    Analysis.declaredNodes (order.map ι) (settled.map (Settled.map ι)) =
      (Analysis.declaredNodes order settled).map ι := by
  have hdeclared : ((settled.map (Settled.map ι)).filter (·.declared)).map (·.node) =
      ((settled.filter (·.declared)).map (·.node)).map ι := by
    rw [List.filter_map, ← nodes_mapSettled]
    rfl
  rw [Analysis.declaredNodes, Analysis.declaredNodes, hdeclared, List.filter_map]
  simp only [Function.comp_def, h.contains]

end Graph.Copies

/-- The declared nodes of a copy. -/
def Declared.copy (ι : NodeId → NodeId) (g' : Graph) (d : Declared) : Declared where
  graph := g'
  order := d.order.map ι
  nodes := d.nodes.map ι

def Declared.Search.map (ι : NodeId → NodeId) (s : Declared.Search) : Declared.Search where
  visited := s.visited.map ι
  found := s.found.map ι

def Declared.Placing.map (ι : NodeId → NodeId) (p : Declared.Placing) : Declared.Placing where
  begun := p.begun.map ι
  placed := p.placed.map ι

namespace Graph.Copies

variable {g' : Graph} {d : Declared} (h : Copies ι d.graph g')

include h

theorem group (scope : Scope) : (d.copy ι g').group (scope.map ι) = (d.group scope).map ι := by
  rw [Declared.group, Declared.group, Declared.copy, List.filter_map]
  congr 1
  refine List.filter_congr fun e _ => ?_
  simp [h.scopeOf, beq_eq_decide, h.scope_eq_iff]

theorem neighbours (e : NodeId) : (d.copy ι g').neighbours (ι e) = (d.neighbours e).map ι := by
  have hgroup := h.group (some e)
  rw [Declared.neighbours, Declared.neighbours, List.map_append]
  show g'.children (ι e) ++ _ = _
  rw [h.children]
  congr 1
  rw [show (d.copy ι g').graph.body? (ι e) = (d.graph.body? e).map (·.map ι) from h.body? e]
  cases d.graph.body? e with
  | none => rfl
  | some body => simpa using hgroup

theorem search (scope : Scope) (depth : Nat) (e : NodeId) (s : Declared.Search) :
    (d.copy ι g').search (scope.map ι) depth (ι e) (s.map ι) =
      (d.search scope depth e s).map ι := by
  induction depth generalizing e s with
  | zero => rfl
  | succ depth ih =>
    rw [Declared.search, Declared.search, h.neighbours, List.foldl_map]
    refine List.foldl_hom (Declared.Search.map ι) fun s c => ?_
    have hown : (d.copy ι g').graph.scopeOf (ι c) = (d.graph.scopeOf c).map ι := h.scopeOf c
    have hnodes : (d.copy ι g').nodes.contains (ι c) = d.nodes.contains c := h.contains _ _
    have hfound : (s.map ι).found.contains (ι c) = s.found.contains c := h.contains _ _
    have hvisited : (s.map ι).visited.contains (ι c) = s.visited.contains c := h.contains _ _
    have hsame : ((d.graph.scopeOf c).map ι == scope.map ι) = (d.graph.scopeOf c == scope) := by
      simp [beq_eq_decide, h.scope_eq_iff]
    have hwithin : (d.copy ι g').graph.isWithin ((d.graph.scopeOf c).map ι) (scope.map ι) =
        d.graph.isWithin (d.graph.scopeOf c) scope := h.isWithin _ _
    simp only [hown, hnodes, hfound, hvisited, hsame, hwithin]
    split
    · split
      · rfl
      · simp [Declared.Search.map]
    · split
      · rfl
      · split
        · rfl
        · rw [← ih]
          rfl

theorem references (scope : Scope) (e : NodeId) :
    (d.copy ι g').references (scope.map ι) (ι e) = (d.references scope e).map ι := by
  have hsearch := h.search scope (d.order.length + 1) e ⟨[e], []⟩
  rw [Declared.references, Declared.references]
  show ((d.copy ι g').search (scope.map ι) ((d.order.map ι).length + 1) (ι e) _).found = _
  rw [List.length_map]
  exact congrArg Declared.Search.found hsearch

theorem placeAfterReferences (scope : Scope) (depth : Nat) (p : Declared.Placing) (e : NodeId) :
    (d.copy ι g').placeAfterReferences (scope.map ι) depth (p.map ι) (ι e) =
      (d.placeAfterReferences scope depth p e).map ι := by
  induction depth generalizing p e with
  | zero => rfl
  | succ depth ih =>
    have hbegun : (p.map ι).begun.contains (ι e) = p.begun.contains e := h.contains _ _
    have hfold : ∀ p : Declared.Placing, ((d.references scope e).map ι).foldl
        ((d.copy ι g').placeAfterReferences (scope.map ι) depth) (p.map ι) =
        ((d.references scope e).foldl (d.placeAfterReferences scope depth) p).map ι := fun p => by
      rw [List.foldl_map]
      exact List.foldl_hom (Declared.Placing.map ι) fun p x => ih p x
    rw [Declared.placeAfterReferences, Declared.placeAfterReferences, hbegun, h.references]
    split
    · rfl
    · have hstart : ({ p.map ι with begun := ι e :: (p.map ι).begun } : Declared.Placing) =
          Declared.Placing.map ι { p with begun := e :: p.begun } := rfl
      simp only [hstart, hfold]
      simp [Declared.Placing.map]

theorem ordered (scope : Scope) :
    (d.copy ι g').ordered (scope.map ι) = (d.ordered scope).map ι := by
  rw [Declared.ordered, Declared.ordered, h.group]
  simp only [List.length_map, List.foldl_map]
  show (List.foldl _ (Declared.Placing.map ι ⟨[], []⟩) _).placed = _
  rw [List.foldl_hom (Declared.Placing.map ι) fun p e => h.placeAfterReferences scope _ p e]
  rfl

end Graph.Copies

/-! ## The whole analysis -/

namespace Graph.Copies

variable {g g' : Graph} (h : Copies ι g g')

include h

theorem suspendedBy (s : Settled) :
    g'.suspendedBy (s.map ι) = (g.suspendedBy s).map (Option.map ι) := by
  simp only [Graph.suspendedBy, Settled.map, h.flagsOf, h.scopeOf, Landings.scopes_map]
  split
  · split <;> rfl
  · rfl

theorem analysisOf (order : List NodeId) (settled : List Settled) (stem : String) :
    g'.analysisOf (order.map ι) (settled.map (Settled.map ι)) stem =
      (g.analysisOf order settled stem).map ι := by
  have hordered (scope : Scope) : (Declared.mk g' (order.map ι)
      ((Analysis.declaredNodes order settled).map ι)).ordered (scope.map ι) =
      ((Declared.mk g order (Analysis.declaredNodes order settled)).ordered scope).map ι :=
    Copies.ordered (d := ⟨g, order, Analysis.declaredNodes order settled⟩) h scope
  have hscopes : (none :: ((order.map ι).filter g'.isFunction).map some : List Scope) =
      (none :: (order.filter g.isFunction).map some).map (Option.map ι) := by
    rw [List.filter_map]
    simp [Function.comp_def, h.isFunction]
  have hdeclarations : (none :: ((order.map ι).filter g'.isFunction).map some : List Scope).map
      (fun s => (s, (Declared.mk g' (order.map ι)
        ((Analysis.declaredNodes order settled).map ι)).ordered s)) =
      ((none :: (order.filter g.isFunction).map some).map fun s =>
        (s, (Declared.mk g order (Analysis.declaredNodes order settled)).ordered s)).map
          (mapScoped ι) := by
    rw [hscopes, List.map_map, List.map_map]
    exact List.map_congr_left fun s _ => by simp [mapScoped, hordered]
  simp only [Graph.analysisOf, h.declaredNodes, hdeclarations, nodes_mapSettled, h.classify]
  simp only [Analysis.map, List.flatMap_map, List.map_flatMap, List.map_append, h.params, mapScoped,
    h.suspendedBy]

/-- **A copy is analysed as the graph is.** -/
theorem analysis {body : Body} {order : List NodeId} {stem : String} {a : Analysis}
    (ha : g.analysis body order stem = .ok a) :
    g'.analysis (body.map ι) (order.map ι) stem = .ok (a.map ι) := by
  obtain ⟨settled, hsettled, rfl⟩ := map_eq_ok.1 ha
  rw [Graph.analysis, Body.roots_map, h.settle hsettled]
  exact congrArg Except.ok (h.analysisOf order settled stem)

end Graph.Copies

end ScriptGraph
