import ScriptGraph.Proofs.Analysis.Exhaustion
import ScriptGraph.Proofs.Emission.Completion
import ScriptGraph.Proofs.Program.Size

/-!
# Compiling a program comes to an end

* `Builder.EndsWithin` : something is done in finitely many steps, with at most so many nodes at any
  moment;
* `Graph.SettlesInTime`, `Declared.OrdersInTime` : larger limits on deciding nodes and on ordering
  declarations would change nothing;
* `Program.compile_terminates` : this holds of every stage of a compilation.
-/

namespace ScriptGraph

variable {σ : Type}

/-! ## Running -/

namespace Builder

/-- An agenda is done in finitely many steps, and at no moment there are more than `n` nodes. -/
def EndsWithin (t : Agenda σ) (b : Builder σ) (out : Except Fault Body) (d : Builder σ) (n : Nat) :
    Prop :=
  ∃ hist, Runs t b hist out d ∧ d.state.graph.size ≤ n ∧
    ∀ op before, Event.performed op before ∈ hist → (before.perform op).state.graph.size ≤ n

theorem Runs.endsWithin {t : Agenda σ} {b d : Builder σ} {hist : List (Event σ)}
    {out : Except Fault Body} (h : Runs t b hist out d) (hb : b.state.Sound) {n : Nat}
    (hsize : d.state.graph.size ≤ n) : EndsWithin t b out d n :=
  ⟨hist, h, hsize, fun op before hmem => (h.size_le hb op before hmem).trans hsize⟩

/-- A survey is a walk that may construct bodies. -/
theorem exists_runs_survey (b : Builder σ) (roots : List NodeId) (result : Except Fault Body) :
    ∃ hist, Runs (.walk (fun _ => .done result) [] roots) b hist result (b.survey [] roots).2 :=
  exists_of_walk (q := ⟨.done result :: b.recipes⟩) (fun recipe c _ => exists_runs recipe c) b []
    roots .drop (.stop rfl)

/-- An analysis only reads what its survey has found. -/
theorem graph_analyze (b : Builder σ) (body : Body) (stem : String) :
    (b.analyze body stem).2.state.graph = (b.survey [] body.roots).2.state.graph := by
  unfold analyze
  split
  · rename_i heq
    rw [heq]
  · rename_i heq
    rw [heq]
    split <;> rfl

end Builder

/-! ## Analysing -/

/-- More rounds of settling would change nothing. -/
def Graph.SettlesInTime (g : Graph) (roots order : List NodeId) : Prop :=
  ∀ rounds, order.length ≤ rounds →
    g.settleRounds (g.bodies roots order) order rounds (order.filter (g.isReady order [])) [] =
      g.settleRounds (g.bodies roots order) order order.length
        (order.filter (g.isReady order [])) []

theorem Graph.Surveyed.settlesInTime {g : Graph} {roots order : List NodeId}
    (h : g.Surveyed roots order) : g.SettlesInTime roots order := fun _ hrounds =>
  (Settling.start h.nodup).settleRounds_congr (fun _ hp _ hc => h.child_mem hp hc) hrounds
    (Nat.le_refl _)

/-- Deeper searches and deeper placing would change nothing. -/
structure Declared.OrdersInTime (d : Declared) : Prop where
  search : ∀ scope, ∀ e ∈ d.order, ∀ depth, d.order.length < depth →
    (d.search scope depth e ⟨[e], []⟩).found = d.references scope e
  place : ∀ scope depth, (d.group scope).length < depth →
    ((d.group scope).foldl (d.placeAfterReferences scope depth) ⟨[], []⟩).placed = d.ordered scope

theorem Declared.Closed.ordersInTime {d : Declared} (hd : d.Closed) : d.OrdersInTime where
  search scope e he depth hdepth := by
    obtain ⟨depth, rfl⟩ := Nat.exists_eq_add_one.2 (Nat.lt_of_le_of_lt (Nat.zero_le _) hdepth)
    have hle := unbegun_le_length d.order [e]
    rw [references, search_succ, search_succ,
      search_congr hd (hd.neighbours e he) (hle.trans (Nat.lt_succ_iff.1 hdepth)) hle]
  place scope depth hdepth := by
    have hle := unbegun_le_length (d.group scope) []
    rw [ordered, place_congr hd (List.Subset.refl _) (hle.trans hdepth.le)
      (hle.trans (Nat.le_succ _))]

/-! ## Programs -/

namespace Program

open Builder

/-- Lowering a program and looking for the reachable nodes take what its tally allows, and two nodes
for the stores. -/
theorem size_le (p : Program) (body : Body) :
    (run p.recipe (.empty ())).2.state.graph.size ≤ p.tally.bound + 2 ∧
      ((run p.recipe (.empty ())).2.survey [] body.roots).2.state.graph.size ≤
        p.tally.bound + 2 := by
  obtain ⟨hist, hrun⟩ := exists_runs p.recipe (.empty ())
  obtain ⟨k, j, howes, hk, hadds⟩ := hrun.within (p.recipe_within) (.nil 0)
  obtain ⟨hist', hwalk⟩ :=
    exists_runs_survey (run p.recipe (.empty ())).2 body.roots (.ok body)
  obtain ⟨k', j', _, hk', hadds'⟩ := hwalk.within (n := 0) (fun _ => trivial) howes
  have hstores := Graph.storeCount_le (run p.recipe (.empty ())).2.state.graph
  have hstores' := Graph.storeCount_le
    ((run p.recipe (.empty ())).2.survey [] body.roots).2.state.graph
  have hall := hadds.trans hadds'
  have hempty : (Builder.empty ()).state.graph.size = 0 := rfl
  unfold Graph.Adds at hadds hall
  rw [hempty] at hadds hall
  omega

/-- **Compiling a program comes to an end, with a graph of linear size.** Whatever the options are,
lowering takes finitely many steps; so does the walk to the reachable nodes, which lowers the bodies
of functions; deciding the nodes and ordering the declarations are not cut off by their limits; and
the text of an analysed program is always written. With `N` nodes, `P` parameters and `D`
definitions at all depths, there are never more than `2 * N + P + D + 2` nodes in the graph. -/
theorem compile_terminates (p : Program) (o : Options) :
    EndsWithin (.run p.recipe) (.empty ()) (run p.recipe (.empty ())).1
        (run p.recipe (.empty ())).2
        (2 * p.tally.nodes + p.tally.params + p.tally.definitions + 2) ∧
      ∀ body b, run p.recipe (.empty ()) = (.ok body, b) →
        EndsWithin (.walk (fun _ => .done (.ok body)) [] body.roots) b (.ok body)
          (b.survey [] body.roots).2
          (2 * p.tally.nodes + p.tally.params + p.tally.definitions + 2) ∧
        (b.compile body o {} o.resolver).2.state.graph.size ≤
          2 * p.tally.nodes + p.tally.params + p.tally.definitions + 2 ∧
        (∀ order c, b.survey [] body.roots = (.ok order, c) →
          c.state.graph.SettlesInTime body.roots order) ∧
        ∀ a c, b.analyze body o.nameStem = (.ok a, c) →
          (a.declaredOf c.state.graph).OrdersInTime ∧
            ((∃ out, (o.layout c.state.graph a).output o.mode body = .ok out) ∨
              (o.layout c.state.graph a).output o.mode body = .error .statementsInEvaluation) := by
  obtain ⟨hist, hrun⟩ := exists_runs p.recipe (.empty ())
  have hreached : (run p.recipe (.empty ())).2.Reached :=
    (run_leads _ _).reached (reached_empty ())
  refine ⟨hrun.endsWithin (reached_empty ()).sound (p.size_le (.statements [])).1,
    fun body b hb => ?_⟩
  have hsizes := p.size_le body
  rw [hb] at hsizes hreached
  obtain ⟨hist', hwalk⟩ := exists_runs_survey b body.roots (.ok body)
  refine ⟨hwalk.endsWithin hreached.sound hsizes.2, ?_, fun order c hs => ?_, fun a c ha => ?_⟩
  · rw [Builder.compile]
    split
    · exact hsizes.1
    · have hgraph := b.graph_analyze body o.nameStem
      split <;> rename_i heq <;> rw [heq] at hgraph <;> exact hgraph ▸ hsizes.2
  · exact (survey_surveyed hreached hs).settlesInTime
  · have hresolved := analyze_resolved hreached ha
    refine ⟨hresolved.closed.ordersInTime, ?_⟩
    by_cases hmode : o.mode = .evaluation → ∃ root, body = .value root
    · exact .inl ((o.layout c.state.graph a).exists_output hresolved hmode)
    · obtain ⟨hevaluation, hbody⟩ := Classical.not_imp.1 hmode
      cases body with
      | value root => exact absurd ⟨root, rfl⟩ hbody
      | statements roots =>
        rw [hevaluation]
        exact .inr rfl

end Program

end ScriptGraph
