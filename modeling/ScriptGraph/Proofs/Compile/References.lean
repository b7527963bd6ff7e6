import ScriptGraph.Proofs.Analysis.Cycles
import ScriptGraph.Proofs.Compile.Script
import ScriptGraph.Proofs.Emission.References
import ScriptGraph.Proofs.Graph.Redirection

/-!
# When a script keeps the places that it writes to

* `Output.KeepsPlaces` : every member access that is assigned to or called is written there as one;
* `Builder.places_of_compile` : a script keeps the places exactly if each such access lands once, in
  its own scope;
* `Builder.places_reusedExample` : a script that does not.

Declarations are decided by landings alone. So an access that lands twice is declared: an assignment
to its name does not reach the object, and a call of its name has no receiver.
-/

namespace ScriptGraph

/-- Every member access that an assignment writes to or a call calls is written there as one. -/
def Output.KeepsPlaces (g : Graph) (o : Output) : Prop :=
  ∀ p enclosed pieces, .expansion p enclosed pieces ∈ o.written → ∀ x, g.reference? p = some x →
    ∀ m object member, g.StandsFor x m → g.Selects m object member →
      ∃ first rest, pieces = first :: rest ∧ first.ReadsMember g m object member

/-- A use of `x` reads as the member access that `x` stands for if its text lands once, in its own
scope. If not, it is the name of the access, which is called if that is declared as an accessor. -/
def Fragment.ReadsByLandings (g : Graph) (a : Analysis) (count : NodeId → Scope → Nat) (x : NodeId)
    (f : Fragment) : Prop :=
  ∀ m object member, g.StandsFor x m → g.Selects m object member →
    (g.LandsOnce m (count m) → f.ReadsMember g m object member) ∧
    (¬g.LandsOnce m (count m) → ∃ name, a.name? m = some name ∧
      f.Shows g (.name m name (a.isAccessor m)))

namespace Graph

variable {g : Graph} {p x : NodeId}

theorem mem_children_of_reference? (hx : g.reference? p = some x) : x ∈ g.children p := by
  obtain ⟨k, hk, hkx⟩ := Option.bind_eq_some_iff.1 hx
  obtain ⟨n, hn, rfl⟩ := kindOf?_eq_some.1 hk
  rw [children_of_node hn, Node.template]
  rcases Kind.reference?_eq_some.1 hkx with ⟨args, hkind⟩ | ⟨value, hkind⟩ <;> rw [hkind] <;>
    exact List.mem_cons_self

end Graph

namespace Layout

variable {l : Layout} {body : Body} {mode : CompileMode} {o : Output} {p : NodeId}

/-- The assignments and calls that a script writes out are the reachable ones. -/
theorem reaches_iff_written (h : l.graph.Resolved body l.analysis)
    (ho : l.output mode body = .ok o) (hkeeps : ∀ w ∈ o.written, l.KeepsPlace w) {x : NodeId}
    (hx : l.graph.reference? p = some x) : l.graph.Reaches body.roots p ↔
      ∃ enclosed pieces, .expansion p enclosed pieces ∈ o.written := by
  have hy := l.output_yields ho
  constructor
  · intro hreach
    have hparam : l.graph.isParameter p = false := by
      rw [← Bool.not_eq_true, Graph.isParameter_iff]
      rintro ⟨i, hk⟩
      rw [Graph.reference?, hk] at hx
      cases hx
    obtain ⟨around, hw⟩ := h.exists_written hy hreach hparam
    have hmem := mem_marked_written.2 ⟨around, hw⟩
    rw [← o.nodes_written] at hmem
    obtain ⟨w, hw, hnode⟩ := List.mem_filterMap.1 hmem
    have hkeep := hkeeps w hw
    cases w with
    | expansion e enclosed pieces =>
      cases hnode
      exact ⟨enclosed, pieces, hw⟩
    | lambda f enclosed suspends params b =>
      cases hnode
      obtain ⟨arity, state, hf⟩ := Graph.isFunction_iff.1 hkeep
      rw [Graph.reference?, hf] at hx
      cases hx
    | _ => exact hkeep.elim
  · rintro ⟨enclosed, pieces, hw⟩
    have hmem : p ∈ o.written.filterMap Fragment.node? := List.mem_filterMap.2 ⟨_, hw, rfl⟩
    rw [o.nodes_written] at hmem
    exact (h.surveyed.mem_iff p).1 (h.written_subset hy hmem)

/-- If every place reads by the landings, all are kept where all accesses land once. -/
theorem keepsPlaces_iff {roots : List NodeId} {g : Graph} {a : Analysis}
    {count : NodeId → Scope → Nat}
    (hwritten : ∀ p x, g.reference? p = some x →
      (g.Reaches roots p ↔ ∃ enclosed pieces, .expansion p enclosed pieces ∈ o.written))
    (hplaces : ∀ p enclosed pieces, .expansion p enclosed pieces ∈ o.written →
      ∀ x, g.reference? p = some x → ∃ first rest, pieces = first :: rest ∧
        first.ReadsByLandings g a count x) :
    o.KeepsPlaces g ↔ ∀ p x m object member, g.Reaches roots p → g.reference? p = some x →
      g.StandsFor x m → g.Selects m object member → g.LandsOnce m (count m) := by
  constructor
  · intro hkept p x m object member hreach hx hxm hm
    obtain ⟨enclosed, pieces, hw⟩ := (hwritten p x hx).1 hreach
    obtain ⟨first, rest, rfl, hread⟩ := hplaces p enclosed pieces hw x hx
    obtain ⟨_, _, heq, hmember⟩ := hkept p enclosed _ hw x hx m object member hxm hm
    cases heq
    by_contra hnot
    obtain ⟨name, _, hshows⟩ := (hread m object member hxm hm).2 hnot
    exact hshows.not_readsMember hm.not_isSlot hmember
  · intro honce p enclosed pieces hw x hx m object member hxm hm
    obtain ⟨first, rest, hpieces, hread⟩ := hplaces p enclosed pieces hw x hx
    have hreach := (hwritten p x hx).2 ⟨enclosed, pieces, hw⟩
    exact ⟨first, rest, hpieces,
      (hread m object member hxm hm).1 (honce p x m object member hreach hx hxm hm)⟩

end Layout

namespace Builder

variable {σ : Type}

/-- **When the places are kept**: in a compiled script, an assignment or a call begins with what it
writes to or calls. If this is a member access, directly or behind slots, it is written there as a
member of its object where its text lands once, in its own scope. Where it lands a second time, or in
another function, its name stands there instead, and is called if the declaration is an accessor. So
the places are kept in all of a script exactly if every member access that is assigned to or called
lands once, in its own scope. -/
theorem places_of_compile {b c : Builder σ} {body : Body} {o : Options} {stores : Stores}
    {resolver : Resolver} {outcome : Outcome} {compiled : Compiled} (hb : b.Reached)
    (h : b.compile body o stores resolver = (outcome, c)) (hok : outcome.result = .ok compiled) :
    ∃ a output links count, b.analyze body o.nameStem = (.ok a, c) ∧
      b.script body o = .ok output ∧ compiled.Presents o output links ∧
      c.state.graph.CountsLandings body.roots count ∧
      (∀ p enclosed pieces, .expansion p enclosed pieces ∈ output.written →
        ∀ x, c.state.graph.reference? p = some x → ∃ first rest, pieces = first :: rest ∧
          first.ReadsByLandings c.state.graph a count x) ∧
      (output.KeepsPlaces c.state.graph ↔ ∀ p x m object member,
        c.state.graph.Reaches body.roots p → c.state.graph.reference? p = some x →
        c.state.graph.StandsFor x m → c.state.graph.Selects m object member →
          c.state.graph.LandsOnce m (count m)) := by
  obtain ⟨a, output, ha, houtput, hcheck, hpresents, _⟩ := presents_of_compile hb h hok
  have hresolved := analyze_resolved hb ha
  have hforwards : c.state.graph.Forwards := by
    have hc := (b.analyze_leads body o.nameStem).reached hb
    rw [ha] at hc
    exact hc.forwards
  obtain ⟨count, hcount, hdeclared⟩ := hresolved.exists_countsLandings
  have hkeeps := Layout.keepsPlace_output (l := o.layout c.state.graph a)
    (fun e he => hresolved.isDeclared_slot hforwards he) houtput
  have hwritten := fun p x (hx : c.state.graph.reference? p = some x) =>
    Layout.reaches_iff_written (l := o.layout c.state.graph a) hresolved houtput hkeeps hx
  have hplaces : ∀ p enclosed pieces, .expansion p enclosed pieces ∈ output.written →
      ∀ x, c.state.graph.reference? p = some x → ∃ first rest, pieces = first :: rest ∧
        first.ReadsByLandings c.state.graph a count x := by
    intro p enclosed pieces hw x hx
    obtain ⟨first, rest, hpieces, hreads⟩ := hkeeps _ hw x hx
    refine ⟨first, rest, hpieces, fun m object member hxm hm => ?_⟩
    have hreach : c.state.graph.Reaches body.roots x :=
      .step ((hwritten p x hx).2 ⟨enclosed, pieces, hw⟩)
        (Graph.mem_successors.2 (.inl (Graph.mem_children_of_reference? hx)))
    have hiff := (hdeclared m (hxm.reaches hreach)).trans hm.declares_iff
    refine ⟨fun honce => (hreads m object member hxm hm).inlined ?_, fun hnot => ?_⟩
    · rw [← Bool.not_eq_true]
      exact fun hd => hiff.1 hd honce
    · obtain ⟨name, hname, hshows⟩ := (hreads m object member hxm hm).named (hiff.2 hnot)
      exact ⟨name, Layout.nameOf_eq_ok.1 hname, hshows⟩
  exact ⟨a, output, _, count, ha, script_eq_ok.2 ⟨hcheck, a, c, ha, houtput⟩, hpresents, hcount,
    hplaces, Layout.keepsPlaces_iff hwritten hplaces⟩

/-- An assignment to a slot that is directed to a member access. -/
def directedExample : Builder Unit :=
  (Builder.run (Build.toRecipe do
    let object ← Build.ident "o"
    let value ← Build.ident "u"
    let slot ← Build.create .slot
    let assignment ← Build.assign slot value
    let access ← Build.get object "p"
    let _ ← Build.fill slot access
    return .ok (.value assignment)) (.empty ())).2

/-- What is written for the slot. -/
def directedTarget : Fragment :=
  .expansion 2 false [.expansion 4 false [.expansion 0 false [.text "o"], .text ".p"]]

def directedScript : Output :=
  .script [] [.expansion 3 false [directedTarget, .text "=", .expansion 1 false [.text "u"]]]

def directedGraph : Graph where
  nodes := #[⟨none, { inert := true }, .text "o"⟩, ⟨none, { inert := true }, .text "u"⟩,
    ⟨none, { inert := true }, .slot (some 4)⟩,
    ⟨none, {}, .template [.node 2, .text "=", .node 1]⟩,
    ⟨none, {}, .template [.node 0, .text ".p"]⟩]

theorem script_directedExample :
    directedExample.script (.statements [3]) {} = .ok directedScript := by cbv

/-- The access lands once, and is written behind the slot as one. -/
theorem places_directedExample : ∃ outcome c compiled count,
    directedExample.compile (.statements [3]) {} {} Resolver.identity = (outcome, c) ∧
    outcome.result = .ok compiled ∧ c.state.graph.CountsLandings [3] count ∧
    c.state.graph.LandsOnce 4 (count 4) ∧
    directedTarget.ReadsMember c.state.graph 4 0 (.property "p" false) := by
  obtain ⟨hcheck, a, c, ha, ho⟩ := script_eq_ok.1 script_directedExample
  have hreached : directedExample.Reached := (run_leads _ _).reached (reached_empty ())
  obtain ⟨compiled, _, _, hcompile⟩ := exists_compiled hreached hcheck ha ho {} Resolver.identity
  obtain ⟨_, output, _, count, _, hscript, _, hcount, hplaces, _⟩ :=
    places_of_compile hreached hcompile rfl
  obtain rfl : directedScript = output :=
    Except.ok.inj (script_directedExample.symm.trans hscript)
  have hgraph : c.state.graph = directedGraph :=
    (congrArg (fun r => r.2.state.graph) ha).symm.trans (by cbv)
  have hslot : c.state.graph.kindOf? 2 = some (.slot (some 4)) := by
    rw [hgraph]
    rfl
  have hselects : c.state.graph.Selects 4 0 (.property "p" false) := by
    rw [hgraph]
    exact ⟨⟨none, {}, .template [.node 0, .text ".p"]⟩, rfl, by cbv, false, rfl⟩
  have hwritten : .expansion 3 false [directedTarget, .text "=", .expansion 1 false [.text "u"]] ∈
      directedScript.written := by
    simp [directedScript, Output.written, writtenInDeclarations, writtenInAll, Fragment.written]
  obtain ⟨first, rest, hpieces, hreads⟩ := hplaces 3 false _ hwritten 2 (by rw [hgraph]; rfl)
  cases hpieces
  obtain ⟨honce, htwice⟩ := hreads 4 0 (.property "p" false) (.single hslot) hselects
  have hlands : c.state.graph.LandsOnce 4 (count 4) := by
    by_contra hnot
    obtain ⟨name, _, hshows⟩ := htwice hnot
    cases hshows with
    | slot _ hshows => cases hshows
  exact ⟨_, c, compiled, count, hcompile, rfl, hcount, hlands, honce hlands⟩

/-- An assignment to a member access, and a call of the same one. -/
def reusedExample : Builder Unit :=
  (Builder.run (Build.toRecipe do
    let object ← Build.ident "o"
    let value ← Build.ident "u"
    let access ← Build.get object "p"
    let assignment ← Build.assign access value
    let _ ← Build.call access []
    return .ok (.value assignment)) (.empty ())).2

def reusedScript : Output :=
  .script [.mk 2 "_0" false (.expansion 2 false [.expansion 0 false [.text "o"], .text ".p"])]
    [.expansion 3 false [.name 2 "_0" false, .text "=", .expansion 1 false [.text "u"]],
      .expansion 4 false [.name 2 "_0" false, .text "(", .text ")"]]

def reusedGraph : Graph where
  nodes := #[⟨none, { inert := true }, .text "o"⟩, ⟨none, { inert := true }, .text "u"⟩,
    ⟨none, {}, .template [.node 0, .text ".p"]⟩,
    ⟨none, {}, .template [.node 2, .text "=", .node 1]⟩,
    ⟨none, {}, .call 2 []⟩]

theorem script_reusedExample :
    reusedExample.script (.statements [3, 4]) {} = .ok reusedScript := by cbv

/-- The assignment does not reach the object, and the call has no receiver. -/
theorem places_reusedExample : ∃ outcome c compiled,
    reusedExample.compile (.statements [3, 4]) {} {} Resolver.identity = (outcome, c) ∧
    outcome.result = .ok compiled ∧ compiled.code = "let _0=o.p;_0=u;_0();" ∧
    reusedExample.script (.statements [3, 4]) {} = .ok reusedScript ∧
    ¬reusedScript.KeepsPlaces c.state.graph := by
  obtain ⟨hcheck, a, c, ha, ho⟩ := script_eq_ok.1 script_reusedExample
  have hreached : reusedExample.Reached := (run_leads _ _).reached (reached_empty ())
  obtain ⟨compiled, hpresents, _, hcompile⟩ := exists_compiled hreached hcheck ha ho {} Resolver.identity
  have hgraph : c.state.graph = reusedGraph :=
    (congrArg (fun r => r.2.state.graph) ha).symm.trans (by cbv)
  have hselects : c.state.graph.Selects 2 0 (.property "p" false) := by
    rw [hgraph]
    exact ⟨⟨none, {}, .template [.node 0, .text ".p"]⟩, rfl, by cbv, false, rfl⟩
  refine ⟨_, c, compiled, hcompile, rfl, ?_, script_reusedExample, fun hkeeps => ?_⟩
  · rw [hpresents.code]
    decide
  · have hwritten : .expansion 3 false
        [.name 2 "_0" false, .text "=", .expansion 1 false [.text "u"]] ∈ reusedScript.written := by
      simp [reusedScript, Output.written, writtenInDeclarations, Declaration.written, writtenInAll,
        Fragment.written]
    obtain ⟨first, rest, hpieces, hmember⟩ := hkeeps 3 false _ hwritten 2 (by rw [hgraph]; rfl) 2 0
      (.property "p" false) .refl hselects
    cases hpieces
    exact (Fragment.Shows.refl _).not_readsMember hselects.not_isSlot hmember

end Builder

end ScriptGraph
