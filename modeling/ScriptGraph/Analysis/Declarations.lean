import ScriptGraph.Analysis.Landing

/-!
# The order of declarations

The declarations of a scope are written in an order in which each follows the declarations of the
same scope that occur in its initializer, bodies of functions included. Where functions refer to
each other in a circle, the order in which they were met decides.

* `Declared` : the declared nodes of a survey;
* `Declared.references` : the declarations of a scope that occur in a node's text;
* `Declared.ordered` : the declarations of a scope in the order of writing.
-/

namespace ScriptGraph

/-- The declared nodes of a survey. -/
structure Declared where
  graph : Graph
  /-- The reachable nodes, as they were met. -/
  order : List NodeId
  /-- The declared ones, as they were met. -/
  nodes : List NodeId

namespace Declared

/-- The declarations of a scope, as they were met. -/
def group (d : Declared) (scope : Scope) : List NodeId :=
  d.nodes.filter fun e => d.graph.scopeOf e == scope

/-- What a node is written with: its parts, and for a function its body and the declarations of
its body. -/
def neighbours (d : Declared) (e : NodeId) : List NodeId :=
  d.graph.children e ++
    match d.graph.body? e with
    | some body => body.roots ++ d.group (some e)
    | none => []

/-- The nodes visited while looking for references, and the references found. -/
structure Search where
  visited : List NodeId
  found : List NodeId

/-- Looks for declarations of `scope` in the text of `e`, to a given depth. A declaration of an
enclosing scope is only named there; one of a scope further inside is written out. -/
def search (d : Declared) (scope : Scope) : Nat → NodeId → Search → Search
  | 0, _, s => s
  | depth + 1, e, s =>
    (d.neighbours e).foldl (fun s c =>
      let own := d.graph.scopeOf c
      if d.nodes.contains c && own == scope then
        if s.found.contains c then s else { s with found := s.found ++ [c] }
      else if d.nodes.contains c && !d.graph.isWithin own scope then s
      else if s.visited.contains c then s
      else search d scope depth c { s with visited := c :: s.visited }) s

/-- The declarations of `scope` that occur in the text of `e`. No search is deeper than there are
nodes, since none is visited twice. -/
def references (d : Declared) (scope : Scope) (e : NodeId) : List NodeId :=
  (d.search scope (d.order.length + 1) e ⟨[e], []⟩).found

/-- The declarations begun, and those placed. -/
structure Placing where
  begun : List NodeId
  placed : List NodeId

/-- Places a declaration after those it refers to. One that is begun already is left alone. -/
def placeAfterReferences (d : Declared) (scope : Scope) : Nat → Placing → NodeId → Placing
  | 0, p, _ => p
  | depth + 1, p, e =>
    if p.begun.contains e then p
    else
      let p := (d.references scope e).foldl (d.placeAfterReferences scope depth)
        { p with begun := e :: p.begun }
      { p with placed := p.placed ++ [e] }

/-- The declarations of a scope in the order of writing. -/
def ordered (d : Declared) (scope : Scope) : List NodeId :=
  let group := d.group scope
  (group.foldl (d.placeAfterReferences scope (group.length + 1)) ⟨[], []⟩).placed

end Declared

end ScriptGraph
