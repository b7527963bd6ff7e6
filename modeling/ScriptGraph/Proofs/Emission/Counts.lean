import ScriptGraph.Proofs.Emission.Completion
import ScriptGraph.Proofs.Emission.Flow

/-!
# How often nodes are written

* `Graph.Resolved.mem_order_of_site` : only reachable nodes are written, named or declared;
* `Graph.Resolved.count_written_eq_uses` : a node is written inline as often as it is used in the
  scopes that are written;
* `Graph.Resolved.count_written_eq_one` : a declared node, and one that may not be written twice, is
  written once;
* `Builder.timesWritten_of_analyze` : so it is in every script.
-/

namespace ScriptGraph

def Task.node : Task → NodeId
  | .use e _ => e
  | .write e _ => e
  | .declare e _ => e

/-- The node that a place writes, names or declares. -/
def Mark.node? : Mark → Option NodeId
  | .written e => some e
  | .name e => some e
  | .binding e => some e
  | _ => none

theorem sum_map_eq_sum_count {order l : List NodeId} (hl : l ⊆ order) (f : NodeId → Nat) :
    (l.map f).sum = ∑ p ∈ order.toFinset, l.count p * f p := by
  rw [Finset.sum_list_map_count]
  refine Finset.sum_subset (fun p hp => ?_) fun p _ hp => ?_
  · exact List.mem_toFinset.2 (hl (List.mem_toFinset.1 hp))
  · rw [List.count_eq_zero.2 fun h => hp (List.mem_toFinset.2 h), zero_nsmul]

namespace Graph.Resolved

variable {g : Graph} {body : Body} {a : Analysis} (h : g.Resolved body a) {tasks : List Task}
  {sites : List Site} {e f : NodeId}

include h

theorem mem_order_of_site (hy : a.Yields g tasks sites) (ht : ∀ t ∈ tasks, t.node ∈ a.order) :
    ∀ s ∈ sites, ∀ e, s.mark.node? = some e → e ∈ a.order := by
  have declared : ∀ {scope e}, e ∈ a.declarationsOf scope → e ∈ a.order := fun he =>
    h.mem_order_of_isDeclared (h.mem_declarationsOf_iff.1 he).1
  refine hy.forall_sites (I := fun t => t.node ∈ a.order) ?_ ht
  refine ⟨?_, fun _ _ _ he => he, ?_, ?_, ?_, ?_⟩
  · rintro e around _ he _ ⟨⟩
    exact he
  · rintro e around _ he _ ⟨⟩
    exact he
  · intro f inner around hb hf
    refine ⟨?_, by rintro p _ e ⟨⟩, Analysis.forall_bodyTasks (I := fun t => t.node ∈ a.order)
      (fun e he => declared he) fun e he => h.surveyed.body_mem hf hb he⟩
    rintro _ ⟨⟩
    exact hf
  · intro e around _ _ he
    refine ⟨?_, by rintro m _ e ⟨⟩, fun x hx => h.surveyed.child_mem he hx⟩
    rintro _ ⟨⟩
    exact he
  · intro e around he
    refine ⟨?_, he⟩
    rintro _ ⟨⟩
    exact he

omit h in
theorem declared_or_parameter_of_named (hy : a.Yields g tasks sites) :
    ∀ s ∈ sites, ∀ e, s.mark.name? = some e → a.isDeclared e = true ∨ g.isParameter e = true := by
  refine hy.forall_sites (I := fun _ => True) ?_ fun _ _ => trivial
  refine ⟨?_, fun _ _ _ _ => trivial, ?_, ?_, ?_, ?_⟩
  · rintro e around hd _ _ ⟨⟩
    exact .inl hd
  · rintro e around hp _ _ ⟨⟩
    exact .inr hp
  · exact fun f inner around _ _ => ⟨by rintro _ ⟨⟩, by rintro p _ _ ⟨⟩, fun _ _ => trivial⟩
  · exact fun e around _ _ _ => ⟨by rintro _ ⟨⟩, by rintro m _ _ ⟨⟩, fun _ _ => trivial⟩
  · exact fun e around _ => ⟨by rintro _ ⟨⟩, trivial⟩

omit h in
theorem count_named_eq_zero (hy : a.Yields g tasks sites) (hd : a.isDeclared e = false)
    (hp : g.isParameter e = false) : (marked Mark.name? sites).count e = 0 := by
  apply List.count_eq_zero.2
  intro he
  obtain ⟨s, hs, hname⟩ := List.mem_filterMap.1 he
  rcases declared_or_parameter_of_named hy s hs e hname with h | h <;> simp_all

end Graph.Resolved

/-! ## Sums over scopes -/

/-- What happens in the scopes of a script, as often as each of them is written. -/
def Analysis.overScopes (a : Analysis) (times : NodeId → Nat) (u : Scope → Nat) : Nat :=
  u none + ∑ f ∈ a.order.toFinset, times f * u (some f)

/-- How often a scope is written, given how often functions are. -/
def Scope.times (s : Scope) (times : NodeId → Nat) : Nat := s.elim 1 times

section OverScopes

variable (a : Analysis) (times : NodeId → Nat)

theorem overScopes_add (u v : Scope → Nat) :
    a.overScopes times (fun t => u t + v t) = a.overScopes times u + a.overScopes times v := by
  simp only [Analysis.overScopes, Nat.mul_add, Finset.sum_add_distrib]
  omega

theorem overScopes_mul (k : Nat) (u : Scope → Nat) :
    a.overScopes times (fun t => k * u t) = k * a.overScopes times u := by
  simp only [Analysis.overScopes, Nat.mul_add, Finset.mul_sum]
  congr 1
  exact Finset.sum_congr rfl fun f _ => Nat.mul_left_comm ..

theorem overScopes_sum (u : NodeId → Scope → Nat) :
    a.overScopes times (fun t => ∑ p ∈ a.order.toFinset, u p t) =
      ∑ p ∈ a.order.toFinset, a.overScopes times (u p) := by
  simp only [Analysis.overScopes, Finset.sum_add_distrib, Finset.mul_sum]
  rw [Finset.sum_comm]

theorem overScopes_single {s : Scope} (hs : ∀ f, s = some f → f ∈ a.order) :
    a.overScopes times (fun t => if s = t then 1 else 0) = s.times times := by
  cases s with
  | none => simp [Analysis.overScopes, Scope.times]
  | some f =>
    have hf : f ∈ a.order.toFinset := List.mem_toFinset.2 (hs f rfl)
    simp [Analysis.overScopes, Scope.times, Finset.sum_ite_eq, List.mem_toFinset.1 hf]

end OverScopes

/-! ## The balance of uses -/

namespace Graph

variable {g : Graph} {roots order : List NodeId} {e f : NodeId}

theorem rootCount_none (g : Graph) (roots order : List NodeId) (e : NodeId) :
    rootCount (g.bodies roots order) e none = roots.count e := by
  rw [rootCount, bodies, List.map_cons, List.sum_cons, if_pos rfl]
  refine Nat.add_eq_left.2 (List.sum_eq_zero fun n hn => ?_)
  obtain ⟨b, hb, rfl⟩ := List.mem_map.1 hn
  obtain ⟨f, _, hf⟩ := List.mem_filterMap.1 hb
  obtain ⟨inner, _, rfl⟩ := Option.map_eq_some_iff.1 hf
  rfl

/-- The roots of a function's body, none if there is no body. -/
def bodyRoots (g : Graph) (f : NodeId) : List NodeId := ((g.body? f).map Body.roots).getD []

theorem count_successors (g : Graph) (p e : NodeId) :
    (g.successors p).count e = (g.bodyRoots p).count e + (g.children p).count e := by
  rw [successors, List.count_append, Nat.add_comm]
  rfl

theorem rootCount_some (hn : order.Nodup) (hf : f ∈ order) :
    rootCount (g.bodies roots order) e (some f) = (g.bodyRoots f).count e := by
  have hsum : ((order.filterMap fun x => (g.body? x).map fun inner => (some x, inner.roots)).map
      fun b : Scope × List NodeId => if b.1 = some f then b.2.count e else 0).sum =
      (order.map fun x => if x = f then (g.bodyRoots x).count e else 0).sum := by
    clear hn hf
    induction order with
    | nil => rfl
    | cons x order ih =>
      rw [List.map_cons, List.sum_cons, ← ih]
      cases hb : g.body? x <;> simp [hb, bodyRoots]
  rw [rootCount, bodies, List.map_cons, List.sum_cons, if_neg (by simp), Nat.zero_add, hsum,
    ← List.sum_toFinset _ hn, Finset.sum_ite_eq', if_pos (List.mem_toFinset.2 hf)]

/-- Over all scopes, a body's roots count as often as the body is written. -/
theorem overScopes_rootCount (g : Graph) (body : Body) (a : Analysis) (hn : a.order.Nodup)
    (times : NodeId → Nat) (e : NodeId) :
    a.overScopes times (rootCount (g.bodies body.roots a.order) e) =
      body.roots.count e + ∑ p ∈ a.order.toFinset, times p * (g.bodyRoots p).count e := by
  rw [Analysis.overScopes, rootCount_none]
  congr 1
  apply Finset.sum_congr rfl
  intro p hp
  rw [rootCount_some hn (List.mem_toFinset.1 hp)]

namespace Resolved

variable {body : Body} {a : Analysis} (h : g.Resolved body a) {sites : List Site}

include h

/-- Over all scopes, uses come from bodies and from the nodes that refer to a node. -/
theorem overScopes_usesIn (times : NodeId → Nat) (e : NodeId) :
    a.overScopes times (a.usesIn g body e) =
      body.roots.count e + ∑ p ∈ a.order.toFinset, times p * (g.bodyRoots p).count e +
      ∑ p ∈ a.order.toFinset, (g.children p).count e * a.overScopes times fun t =>
        if a.isDeclared p then (if g.scopeOf p = t then 1 else 0) else a.usesIn g body p t := by
  have huses : a.usesIn g body e = fun t => rootCount (g.bodies body.roots a.order) e t +
      ∑ p ∈ a.order.toFinset, (g.children p).count e *
        if a.isDeclared p then (if g.scopeOf p = t then 1 else 0) else a.usesIn g body p t := by
    funext t
    rw [h.usesIn_eq e t, List.sum_toFinset _ h.surveyed.nodup]
  rw [huses, overScopes_add, overScopes_rootCount g body a h.surveyed.nodup, overScopes_sum]
  simp only [overScopes_mul]

variable (hy : a.Yields g (a.bodyTasks none body.roots []) sites)

include hy

omit hy in
theorem bodyTasks_order : ∀ t ∈ a.bodyTasks none body.roots [], t.node ∈ a.order :=
  Analysis.forall_bodyTasks (I := fun t => t.node ∈ a.order)
    (fun _ he => h.mem_order_of_isDeclared (h.mem_declarationsOf_iff.1 he).1)
    fun _ he => h.surveyed.root_mem he

theorem written_subset : marked Mark.written? sites ⊆ a.order := by
  intro e he
  obtain ⟨around, hs⟩ := mem_marked_written.1 he
  exact h.mem_order_of_site hy h.bodyTasks_order _ hs e rfl

theorem count_bound : (marked Mark.binding? sites).count e =
    (a.declarationsOf none).count e + ∑ f ∈ a.order.toFinset,
      (marked Mark.written? sites).count f * (a.declarationsOf (some f)).count e := by
  rw [hy.count_bound e, (filterMap_bodyTasks a none body.roots []).2.2,
    sum_map_eq_sum_count (h.written_subset hy)]
  intro p hp
  apply List.eq_nil_iff_forall_not_mem.2
  intro x hx
  rw [h.sound.scope_isFunction (h.mem_declarationsOf_iff.1 hx).2] at hp
  cases hp

theorem count_written_declared (hd : a.isDeclared e = true) :
    (marked Mark.written? sites).count e =
        (g.scopeOf e).times (marked Mark.written? sites).count ∧
      (marked Mark.binding? sites).count e = (marked Mark.written? sites).count e := by
  have hwritten := hy.count_written_declared e hd (h.not_isParameter_of_isDeclared hd)
  rw [(filterMap_bodyTasks a none body.roots []).2.1, List.count_nil, Nat.zero_add] at hwritten
  refine ⟨?_, hwritten.symm⟩
  rw [hwritten, h.count_bound hy]
  simp only [h.count_declarationsOf hd]
  exact overScopes_single a _ fun f hf => h.scope_mem (h.mem_order_of_isDeclared hd) (.inl hd) hf

/-- A node that is not declared is written, or named if it is a parameter, as often as it is used in
the scopes that are written. -/
theorem count_written_eq_uses : ∀ e ∈ a.order, a.isDeclared e = false →
    (marked Mark.written? sites).count e + (marked Mark.name? sites).count e =
      a.overScopes (marked Mark.written? sites).count (a.usesIn g body e) := by
  refine h.parents_first fun e he hparents hd => ?_
  have hzero : ∀ s, (a.declarationsOf s).count e = 0 := fun s => List.count_eq_zero.2 fun hmem => by
    rw [(h.mem_declarationsOf_iff.1 hmem).1] at hd
    cases hd
  have hbound : (marked Mark.binding? sites).count e = 0 := by
    rw [h.count_bound hy]
    simp only [hzero, Nat.mul_zero, Finset.sum_const_zero, Nat.add_zero]
  rw [hy.count_written e, (filterMap_bodyTasks a none body.roots []).1,
    (filterMap_bodyTasks a none body.roots []).2.1, hbound,
    sum_map_eq_sum_count (h.written_subset hy), h.overScopes_usesIn]
  simp only [count_successors, Nat.mul_add, Finset.sum_add_distrib, List.count_nil, Nat.add_zero,
    Nat.add_assoc]
  congr 2
  apply Finset.sum_congr rfl
  intro p hp
  rw [Nat.mul_comm]
  by_cases hc : e ∈ g.children p
  · congr 1
    have hpo := List.mem_toFinset.1 hp
    cases hdp : a.isDeclared p with
    | true =>
      simp only [if_true]
      rw [(h.count_written_declared hy hdp).1]
      exact (overScopes_single a _ fun f hf => h.scope_mem hpo (.inl hdp) hf).symm
    | false =>
      have hparam : g.isParameter p = false := by
        rw [← Bool.not_eq_true]
        intro hparam
        rw [children_of_isParameter hparam] at hc
        cases hc
      have hw := hparents p hpo hc hdp
      rw [count_named_eq_zero hy hdp hparam, Nat.add_zero] at hw
      exact hw
  · rw [List.count_eq_zero.2 hc, Nat.zero_mul, Nat.zero_mul]

theorem count_written_eq_times (he : e ∈ a.order)
    (hi : a.isDeclared e = true ∨ (g.flagsOf e).inert = false) :
    (marked Mark.written? sites).count e =
      (g.scopeOf e).times (marked Mark.written? sites).count := by
  cases hd : a.isDeclared e with
  | true => exact (h.count_written_declared hy hd).1
  | false =>
    have hi : (g.flagsOf e).inert = false := hi.resolve_left (by simp [hd])
    have hp : g.isParameter e = false := by
      rw [← Bool.not_eq_true]
      intro hp
      rw [(h.sound.isParameter hp).1] at hi
      cases hi
    have huses : a.usesIn g body e = fun t => if g.scopeOf e = t then 1 else 0 := by
      obtain ⟨hle, hown⟩ := h.uses_of_undeclared he hd hi
      funext t
      split
      · rename_i ht
        obtain ⟨t', hpos, _⟩ := h.exists_use he
        rw [hown t' hpos, ht] at hpos
        exact Nat.le_antisymm (ht ▸ hle) hpos
      · rename_i ht
        exact Nat.eq_zero_of_not_pos fun hpos => ht (hown t hpos).symm
    have hcount := h.count_written_eq_uses hy e he hd
    rw [count_named_eq_zero hy hd hp, Nat.add_zero, huses] at hcount
    rw [hcount]
    exact overScopes_single a _ fun f hf => h.scope_mem he (.inr (.inr hi)) hf

/-- Scopes are written once. -/
theorem times_eq_one (s : Scope) (hs : g.Found a.order s)
    (hfun : ∀ f, s = some f → g.isFunction f = true) :
    s.times (marked Mark.written? sites).count = 1 := by
  induction s using h.sound.scope_induction with
  | top => rfl
  | inner f ih =>
    have hf := hs.mem h.sound
    have hinert : (g.flagsOf f).inert = false := by rw [h.sound.flagsOf_function (hfun f rfl)]
    show (marked Mark.written? sites).count f = 1
    rw [h.count_written_eq_times hy hf (.inr hinert)]
    exact ih (hs.outer h.sound (h.sound.isWithin_function f)) fun x hx => h.sound.scope_isFunction hx

theorem count_written_eq_one (he : e ∈ a.order)
    (hi : a.isDeclared e = true ∨ (g.flagsOf e).inert = false) :
    (marked Mark.written? sites).count e = 1 := by
  rw [h.count_written_eq_times hy he hi]
  exact h.times_eq_one hy _ (h.found_scope he (hi.imp_right .inr)) fun f hf =>
    h.sound.scope_isFunction hf

end Resolved

end Graph

namespace Builder

variable {σ : Type}

/-- **Nothing is evaluated twice and nothing is lost**: after every successful analysis, a reachable
node that may not be written twice is written out once in the whole script, and a node that is not
reachable is neither written nor named nor declared. -/
theorem timesWritten_of_analyze {b c : Builder σ} {body : Body} {stem : String} {a : Analysis}
    (hb : b.Reached) (ha : b.analyze body stem = (.ok a, c)) (mode : CompileMode)
    (hmode : mode = .evaluation → ∃ root, body = .value root) (l : Layout)
    (hg : l.graph = c.state.graph) (hl : l.analysis = a) :
    ∃ o, l.output mode body = .ok o ∧ ∀ e,
      (c.state.graph.Reaches body.roots e → (c.state.graph.flagsOf e).inert = false →
        o.timesWritten e = 1) ∧
      (¬c.state.graph.Reaches body.roots e →
        o.timesWritten e = 0 ∧ ∀ s ∈ o.sites, s.mark.node? ≠ some e) := by
  have h := analyze_resolved hb ha
  rw [← hg, ← hl] at h
  obtain ⟨o, ho⟩ := l.exists_output h hmode
  have hy := l.output_yields ho
  refine ⟨o, ho, fun e => ⟨fun he hi => ?_, fun he => ?_⟩⟩
  · rw [← hg] at he hi
    exact h.count_written_eq_one hy ((h.surveyed.mem_iff e).2 he) (.inr hi)
  · rw [← hg, ← h.surveyed.mem_iff] at he
    refine ⟨List.count_eq_zero.2 fun hw => he (h.written_subset hy hw), fun s hs hmark => ?_⟩
    exact he (h.mem_order_of_site hy h.bodyTasks_order s hs e hmark)

theorem timesWritten_recursiveExample :
    ∃ a c, recursiveExample.analyze (.value 6) "_" = (.ok a, c) ∧
      ∃ o, (({} : Options).layout c.state.graph a).output .evaluation (.value 6) = .ok o ∧
        o.timesWritten 5 = 1 := by
  obtain ⟨a, c, ha, hc⟩ := analyze_recursiveExample "_"
  obtain ⟨o, ho, htimes⟩ := timesWritten_of_analyze reached_recursiveExample ha .evaluation
    (fun _ => ⟨6, rfl⟩) (({} : Options).layout c.state.graph a) rfl rfl
  refine ⟨a, c, ha, o, ho, (htimes 5).1 ?_ ?_⟩
  · have hsuccessors : c.state.graph.successors 6 = [5, 5] := by
      rw [hc]
      cbv
    exact .step (.root (List.mem_singleton_self 6)) (hsuccessors ▸ List.mem_cons_self)
  · rw [hc]
    cbv

end Builder

end ScriptGraph
