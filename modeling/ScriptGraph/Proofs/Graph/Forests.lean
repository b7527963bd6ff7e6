import ScriptGraph.Proofs.Graph.Nesting

/-!
# Forests of scopes

A scope is older than what is inside it. So the way from the inside out comes to an end, wherever it
begins.

* `Graph.Climbs` : the search for a scope from the inside out, as a loop without any bound;
* `Graph.Sound.climbs_iff` : it comes to an end, with the answer of `Graph.isWithin`;
* `Graph.Encloses`, `Graph.Forest` : the nodes and the functions they were made in are a forest;
* `Graph.Sound.forest` : so they are in a sound graph.
-/

namespace ScriptGraph.Graph

variable {g : Graph} {s t : Scope} {e f r : NodeId} {answer : Bool}

/-! ## Searching from the inside out -/

/-- The search for `outer` from some scope on. It ends where `outer` is found or the top level is
reached, and otherwise it goes on with the scope of the function; a handle without a node leaves it
without an answer. -/
inductive Climbs (g : Graph) (outer : Scope) : Scope → Bool → Prop
  | found : Climbs g outer outer true
  | top (h : none ≠ outer) : Climbs g outer none false
  | up {f : NodeId} {n : Node} {answer : Bool} (h : some f ≠ outer) (hn : g.node? f = some n)
    (hrest : Climbs g outer n.scope answer) : Climbs g outer (some f) answer

theorem isWithin_none (h : none ≠ t) : g.isWithin none t = false := by
  rw [← Bool.not_eq_true, isWithin_iff, scopeChain_none, List.mem_singleton]
  exact h.symm

theorem Sound.isWithin_some (hg : g.Sound) (h : some f ≠ t) :
    g.isWithin (some f) t = g.isWithin (g.scopeOf f) t := by
  rw [Bool.eq_iff_iff, isWithin_iff, isWithin_iff, hg.scopeChain_some, List.mem_cons]
  exact or_iff_right h.symm

theorem Climbs.eq_isWithin (h : g.Climbs t s answer) (hg : g.Sound) : answer = g.isWithin s t := by
  induction h with
  | found => exact (hg.isWithin_refl t).symm
  | top h => exact (isWithin_none h).symm
  | up h hn _ ih => rw [ih, hg.isWithin_some h, scopeOf_of_node hn]

/-- From a scope whose function exists the search passes existing functions only, and these become
older and older. -/
theorem Sound.climbs_isWithin (hg : g.Sound) (s t : Scope) (hs : ∀ f, s = some f → f < g.size) :
    g.Climbs t s (g.isWithin s t) := by
  induction s using hg.scope_induction with
  | top =>
    by_cases h : none = t
    · subst h
      rw [hg.isWithin_refl]
      exact .found
    · rw [isWithin_none h]
      exact .top h
  | inner f ih =>
    by_cases h : some f = t
    · subst h
      rw [hg.isWithin_refl]
      exact .found
    · obtain ⟨n, hn⟩ := exists_node (hs f rfl)
      have hscope : g.scopeOf f = n.scope := scopeOf_of_node hn
      have hrest : g.Climbs t (g.scopeOf f) (g.isWithin (g.scopeOf f) t) :=
        ih fun outer ho => Nat.lt_trans (hg.scope_lt ho) (hs f rfl)
      rw [hg.isWithin_some h]
      exact .up h hn (hscope ▸ hrest)

/-- **The search comes to an end**, and with one answer. -/
theorem Sound.climbs_iff (hg : g.Sound) (hs : ∀ f, s = some f → f < g.size) :
    g.Climbs t s answer ↔ answer = g.isWithin s t := by
  refine ⟨fun h => h.eq_isWithin hg, fun h => ?_⟩
  rw [h]
  exact hg.climbs_isWithin s t hs

/-! ## Forests -/

/-- The node `e` was made in the function `f`. -/
def Encloses (g : Graph) (f e : NodeId) : Prop := g.scopeOf e = some f

/-- No node is around itself, and every node is in the tree of exactly one node of the top level. -/
structure Forest (g : Graph) : Prop where
  acyclic : ∀ e, ¬Relation.TransGen g.Encloses e e
  root : ∀ e < g.size, ∃! r, Relation.ReflTransGen g.Encloses r e ∧ g.scopeOf r = none

theorem encloses_unique {f' : NodeId} (h : g.Encloses f e) (h' : g.Encloses f' e) : f = f' :=
  Option.some.inj (h.symm.trans h')

theorem Sound.lt_of_transGen (hg : g.Sound) (h : Relation.TransGen g.Encloses f e) : f < e := by
  induction h with
  | single hstep => exact hg.scope_lt hstep
  | tail _ hstep ih => exact Nat.lt_trans ih (hg.scope_lt hstep)

/-- Around a node of the top level there is nothing. -/
theorem eq_of_reflTransGen (h : Relation.ReflTransGen g.Encloses r e) (he : g.scopeOf e = none) :
    r = e := by
  rcases h.cases_tail with heq | ⟨f, -, hf⟩
  · exact heq.symm
  · cases he.symm.trans hf

theorem Sound.exists_root (hg : g.Sound) (e : NodeId) :
    ∃! r, Relation.ReflTransGen g.Encloses r e ∧ g.scopeOf r = none := by
  induction e using Nat.strongRecOn with
  | _ e ih =>
    cases he : g.scopeOf e with
    | none => exact ⟨e, ⟨.refl, he⟩, fun r hr => eq_of_reflTransGen hr.1 he⟩
    | some f =>
      obtain ⟨r, ⟨hr, htop⟩, hunique⟩ := ih f (hg.scope_lt he)
      refine ⟨r, ⟨hr.tail he, htop⟩, ?_⟩
      rintro r' ⟨hr', htop'⟩
      rcases hr'.cases_tail with heq | ⟨f', hf', he'⟩
      · subst heq
        cases he.symm.trans htop'
      · exact hunique r' ⟨encloses_unique he' he ▸ hf', htop'⟩

/-- **Scopes form a forest.** -/
theorem Sound.forest (hg : g.Sound) : g.Forest where
  acyclic e h := Nat.lt_irrefl e (hg.lt_of_transGen h)
  root e _ := hg.exists_root e

end ScriptGraph.Graph
