import ScriptGraph.Graph.Basic

/-!
# Where nodes land

The text of a node lands in the scopes it is written in. A root lands where its body is; a node
written inline hands its landings down to the nodes it refers to; a declared node is written once,
in its own scope.

* `Landings` : scopes with counts, of which only "once" and "more than once" matter;
* `Settled` : the decision on a node, once all its landings are known;
* `Graph.settle` : decides all reachable nodes, parents first.
-/

namespace ScriptGraph

/-- The scopes a node lands in, in the order in which they came up, with counts. -/
abbrev Landings := List (Scope × Nat)

namespace Landings

/-- Counts stop here: the decision asks only for "more than once". -/
def cap : Nat := 2

def place (scope : Scope) (count : Nat) : Landings → Landings
  | [] => [(scope, min count cap)]
  | (s, n) :: rest =>
    if s = scope then (s, min (n + count) cap) :: rest else (s, n) :: place scope count rest

def total (l : Landings) : Nat := l.foldr (fun place n => place.2 + n) 0

def scopes (l : Landings) : List Scope := l.map (·.1)

end Landings

/-- The decision on a node. -/
structure Settled where
  node : NodeId
  declared : Bool
  landings : Landings
deriving DecidableEq

namespace Graph

/-- The bodies in whose text nodes land: the top level, then the functions in order. -/
def bodies (g : Graph) (roots order : List NodeId) : List (Scope × List NodeId) :=
  (none, roots) :: order.filterMap fun f => (g.body? f).map fun body => (some f, body.roots)

/-- The landings of `e` as a root of bodies. -/
def rootLandings (bodies : List (Scope × List NodeId)) (e : NodeId) : Landings :=
  bodies.foldl (fun l (scope, roots) =>
    if roots.contains e then l.place scope (roots.count e) else l) []

/-- The landings that a settled node hands down, once for each time it refers to a node. -/
def handedDown (g : Graph) (s : Settled) : Landings :=
  if s.declared then [(g.scopeOf s.node, 1)] else s.landings

/-- The landings of `e`, with those that its settled parents hand down. -/
def landings (g : Graph) (bodies : List (Scope × List NodeId)) (settled : List Settled)
    (e : NodeId) : Landings :=
  settled.foldl (fun l s =>
    let times := (g.children s.node).count e
    if times = 0 then l
    else (g.handedDown s).foldl (fun l (scope, count) => l.place scope (count * times)) l)
    (rootLandings bodies e)

/-- A node is declared when it must be, or when it is not inert and lands more than once or in
another scope than its own. -/
def mustDeclare (g : Graph) (e : NodeId) (l : Landings) : Bool :=
  (g.flagsOf e).pinned ||
    (!(g.flagsOf e).inert && (l.total ≥ Landings.cap || l.scopes.any (· != g.scopeOf e)))

/-- Decides a node whose landings are known. Declared nodes and parameters may land only inside the
function they belong to. -/
def decideNode (g : Graph) (e : NodeId) (l : Landings) : Except Fault Settled :=
  let declared := g.mustDeclare e l
  let leak := if declared || g.isParameter e
    then l.scopes.find? fun s => !g.isWithin s (g.scopeOf e)
    else none
  match leak with
  | some used => .error (.scopeLeak (g.label e) e (g.scopeOf e) used)
  | none => .ok ⟨e, declared, l⟩

/-- Whether all reachable nodes that refer to `e` are settled. -/
def isReady (g : Graph) (order settled : List NodeId) (e : NodeId) : Bool :=
  order.all fun p => !(g.children p).contains e || settled.contains p

/-- Settles the nodes of a queue and those that become ready, for a number of rounds. -/
def settleRounds (g : Graph) (bodies : List (Scope × List NodeId)) (order : List NodeId) :
    Nat → List NodeId → List Settled → Except Fault (List Settled)
  | 0, _, settled => .ok settled
  | _ + 1, [], settled => .ok settled
  | rounds + 1, e :: queue, settled => do
    let s ← g.decideNode e (g.landings bodies settled e)
    let settled := settled ++ [s]
    let ready := (g.children e).eraseDups.filter (g.isReady order (settled.map (·.node)))
    settleRounds g bodies order rounds (queue ++ ready) settled

/-- Decides the reachable nodes, each after all nodes that refer to it. Nodes on a cycle never
become ready. -/
def settle (g : Graph) (roots order : List NodeId) : Except Fault (List Settled) := do
  let settled ← g.settleRounds (g.bodies roots order) order order.length
    (order.filter (g.isReady order [])) []
  if settled.length < order.length then .error .cyclicGraph else .ok settled

end Graph

end ScriptGraph
