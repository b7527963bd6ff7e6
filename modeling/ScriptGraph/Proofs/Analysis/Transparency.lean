import ScriptGraph.Builder.Operators
import ScriptGraph.Proofs.Analysis.Cycles
import ScriptGraph.Proofs.Analysis.Dependence
import ScriptGraph.Proofs.Analysis.Naming
import ScriptGraph.Proofs.Analysis.Visits
import ScriptGraph.Proofs.Graph.Redirection

/-!
# Slots change no decision

* `Graph.CountsLandings.redirected` : a node other than a slot lands as often where references lead to
  destinations;
* `Graph.CountsLandings.usesIn_eq` : an analysis counts the landings;
* `Builder.redirected` : a builder whose references lead to their destinations;
* `Builder.slots_of_analyze` : its analysis succeeds if the other one does, and decides the same.

A slot is written inline, so it hands all its landings down to its target. The landings of a node are
therefore those of the slots that stand for it and of the other references to it, and it does not
matter in which scopes the slots were made.
-/

namespace ScriptGraph

open Classical

namespace Graph

variable {g : Graph} {roots : List NodeId} {e p x : NodeId} {s t : Scope}

/-! ## Rules that references do not occur in -/

@[simp] theorem scopes_redirected : g.redirected.scopes = g.scopes := by
  rw [scopes, scopes, size_redirected]

theorem declares_redirected {landings : Scope → Nat} :
    g.redirected.Declares e landings ↔ g.Declares e landings := by
  rw [Declares, Declares, flagsOf_redirected, scopeOf_redirected, scopes_redirected]

theorem passedOn_redirected {landings : Scope → Nat} :
    g.redirected.passedOn p landings t = g.passedOn p landings t := by
  rw [passedOn, passedOn, scopeOf_redirected, if_congr declares_redirected rfl rfl]

theorem inside_redirected_iff : g.redirected.Inside s t ↔ g.Inside s t := by
  constructor
  · intro h
    induction h with
    | refl t => exact .refl t
    | inner _ ih => exact .inner (scopeOf_redirected (g := g) _ ▸ ih)
  · intro h
    induction h with
    | refl t => exact .refl t
    | inner _ ih => exact .inner ((scopeOf_redirected (g := g) _).symm ▸ ih)

theorem Forwards.not_declares_slot (hg : g.Forwards) (he : g.IsSlot e) (landings : Scope → Nat) :
    ¬g.Declares e landings := by
  rw [Declares, hg.flagsOf_slot he]
  simp [Flags.literal]

/-! ## Landings -/

theorem reaches_of_mem_reachable (he : e ∈ g.reachable roots) : g.Reaches roots e :=
  (Finset.mem_filter.1 he).2

/-- Occurrences are counted by what they are mapped to. -/
theorem sum_count_fibre (ι : NodeId → NodeId) (nodes : Finset NodeId) (l : List NodeId)
    (hl : ∀ x ∈ l, x ∈ nodes) :
    ∑ x ∈ nodes, (if ι x = e then l.count x else 0) = (l.map ι).count e := by
  induction l with
  | nil => simp
  | cons y l ih =>
    have hy := hl y List.mem_cons_self
    have hrest := ih fun x hx => hl x (List.mem_cons_of_mem y hx)
    have hstep : ∀ x ∈ nodes, (if ι x = e then (y :: l).count x else 0) =
        (if ι x = e then l.count x else 0) + if y = x then (if ι y = e then 1 else 0) else 0 := by
      intro x _
      rw [List.count_cons]
      by_cases hyx : y = x
      · subst hyx
        by_cases hxe : ι y = e <;> simp [hxe]
      · simp [hyx]
    rw [Finset.sum_congr rfl hstep, Finset.sum_add_distrib, hrest, Finset.sum_ite_eq, if_pos hy,
      List.map_cons, List.count_cons]
    simp

namespace Directed

variable (h : g.Directed roots)

include h

omit h in
theorem mem_reachable (hexists : ∀ e, g.Reaches roots e → e < g.size)
    (he : g.Reaches roots e) : e ∈ g.reachable roots :=
  Finset.mem_filter.2 ⟨Finset.mem_range.2 (hexists e he), he⟩

theorem reachable_redirected : g.redirected.reachable (roots.map g.destination) =
    (g.reachable roots).filter (¬g.IsSlot ·) := by
  ext e
  simp only [reachable, Finset.mem_filter, size_redirected, h.reaches_redirected_iff, and_assoc]

theorem rootsIn_redirected (t : Scope) :
    g.redirected.rootsIn (roots.map g.destination) t = (g.rootsIn roots t).map g.destination := by
  cases t with
  | none => rfl
  | some f =>
    rw [rootsIn, rootsIn, body?_redirected]
    cases hb : g.body? f with
    | none => simp
    | some body =>
      have hslot : ¬g.IsSlot f := fun hslot => by
        have hfun := hslot.isFunction
        rw [isFunction_of_body? hb] at hfun
        cases hfun
      have hiff : g.redirected.Reaches (roots.map g.destination) f ↔ g.Reaches roots f := by
        rw [h.reaches_redirected_iff, and_iff_left hslot]
      rw [if_congr hiff rfl rfl]
      split <;> simp

omit h in
theorem reaches_rootsIn (hx : x ∈ g.rootsIn roots t) : g.Reaches roots x := by
  cases t with
  | none => exact .root hx
  | some f =>
    rw [rootsIn] at hx
    split at hx
    · rename_i hf
      cases hb : g.body? f with
      | none =>
        rw [hb] at hx
        cases hx
      | some body =>
        rw [hb] at hx
        exact .step hf (mem_successors.2 (.inr ⟨body, hb, hx⟩))
    · cases hx

/-- What reaches a node through a slot is what the slot passes on. -/
theorem passedOn_slot (he : g.Reaches roots e) (hslot : g.IsSlot e) (landings : Scope → Nat)
    (y : NodeId) : ((g.children e).map g.destination).count y * g.passedOn e landings t =
      if g.destination e = y then landings t else 0 := by
  obtain ⟨x, hx⟩ := h.exists_target he hslot
  rw [children_of_slot hx, passedOn, if_neg (h.slots.not_declares_slot hslot landings),
    List.map_singleton, List.count_singleton, h.destination_of_slot he hx]
  simp

end Directed

/-- The landings of the nodes that stand for `e` come from the bodies and from the nodes that refer to
one of them. -/
theorem CountsLandings.sum_destination {count : NodeId → Scope → Nat}
    (hexists : ∀ e, g.Reaches roots e → e < g.size) (hcount : g.CountsLandings roots count)
    (e : NodeId) (t : Scope) :
    ∑ x ∈ g.reachable roots, (if g.destination x = e then count x t else 0) =
      ((g.rootsIn roots t).map g.destination).count e + ∑ p ∈ g.reachable roots,
        ((g.children p).map g.destination).count e * g.passedOn p (count p) t := by
  have hrule : ∀ x ∈ g.reachable roots, (if g.destination x = e then count x t else 0) =
      (if g.destination x = e then (g.rootsIn roots t).count x else 0) +
        ∑ p ∈ g.reachable roots,
          (if g.destination x = e then (g.children p).count x else 0) * g.passedOn p (count p) t := by
    intro x hx
    rw [hcount x (reaches_of_mem_reachable hx)]
    split <;> simp
  have hroots := sum_count_fibre (e := e) g.destination (g.reachable roots) (g.rootsIn roots t)
    fun x hx => Directed.mem_reachable hexists (Directed.reaches_rootsIn hx)
  rw [Finset.sum_congr rfl hrule, Finset.sum_add_distrib, hroots, Finset.sum_comm]
  congr 1
  refine Finset.sum_congr rfl fun p hp => ?_
  rw [← Finset.sum_mul, sum_count_fibre _ _ _ fun x hx => Directed.mem_reachable hexists
    (.step (reaches_of_mem_reachable hp) (mem_successors.2 (.inl hx)))]

/-- **Slots hand on all their landings**: with references that lead to destinations, the nodes other
than slots land as often as before. -/
theorem CountsLandings.redirected {count : NodeId → Scope → Nat} (h : g.Directed roots)
    (hexists : ∀ e, g.Reaches roots e → e < g.size) (hcount : g.CountsLandings roots count) :
    g.redirected.CountsLandings (roots.map g.destination) count := by
  intro e hreach t
  obtain ⟨hreach, hslot⟩ := h.reaches_redirected_iff.1 hreach
  have hsum := hcount.sum_destination hexists e t
  -- The slots that stand for `e` occur on both sides: with their landings, and with what they hand
  -- down, which is the same.
  have hleft : ∀ x ∈ g.reachable roots, (if g.destination x = e then count x t else 0) =
      (if g.IsSlot x then (if g.destination x = e then count x t else 0) else 0) +
        if e = x then count x t else 0 := by
    intro x _
    by_cases hx : g.IsSlot x
    · have hne : e ≠ x := fun heq => hslot (heq ▸ hx)
      simp [hx, hne]
    · simp [hx, destination_of_not_isSlot hx, eq_comm]
  have hright : ∀ p ∈ g.reachable roots,
      ((g.children p).map g.destination).count e * g.passedOn p (count p) t =
      (if g.IsSlot p then (if g.destination p = e then count p t else 0) else 0) +
        if ¬g.IsSlot p then ((g.children p).map g.destination).count e * g.passedOn p (count p) t
        else 0 := by
    intro p hp
    by_cases hp' : g.IsSlot p
    · simp [hp', h.passedOn_slot (reaches_of_mem_reachable hp) hp']
    · simp [hp']
  rw [Finset.sum_congr rfl hleft, Finset.sum_add_distrib, Finset.sum_ite_eq,
    if_pos (Directed.mem_reachable hexists hreach), Finset.sum_congr rfl hright,
    Finset.sum_add_distrib, ← Finset.sum_filter (¬g.IsSlot ·)] at hsum
  rw [h.rootsIn_redirected, h.reachable_redirected]
  simp only [children_redirected, passedOn_redirected]
  omega

/-- No slot leaks, so the same nodes do. -/
theorem Directed.leaks_redirected_iff (h : g.Directed roots) {count : NodeId → Scope → Nat} :
    g.redirected.Leaks (roots.map g.destination) count ↔ g.Leaks roots count := by
  refine exists_congr fun e => ?_
  rw [h.reaches_redirected_iff, declares_redirected, isParameter_redirected, scopeOf_redirected]
  simp only [inside_redirected_iff]
  constructor
  · rintro ⟨⟨hreach, _⟩, hrest⟩
    exact ⟨hreach, hrest⟩
  · rintro ⟨hreach, hexposed, hlands⟩
    refine ⟨⟨hreach, fun hslot => ?_⟩, hexposed, hlands⟩
    rcases hexposed with hdeclares | hparameter
    · exact h.slots.not_declares_slot hslot _ hdeclares
    · rw [hslot.isParameter] at hparameter
      cases hparameter

/-! ## Paths -/

theorem StandsFor.refersThrough {through : NodeId → Prop} (hslots : ∀ s, g.IsSlot s → through s)
    (h : g.StandsFor e x) (hx : through x) : through e ∧ g.RefersThrough through e x := by
  induction h using Relation.ReflTransGen.head_induction_on with
  | refl => exact ⟨hx, .refl⟩
  | @head e y hy _ ih =>
    refine ⟨hslots e ⟨_, hy⟩, .head ⟨?_, ih.1⟩ ih.2⟩
    rw [Refers, children_of_slot hy]
    exact List.mem_singleton_self y

theorem refersThrough_of_redirected {through : NodeId → Prop}
    (hslots : ∀ s, g.IsSlot s → through s) (h : g.redirected.RefersThrough through e x) :
    g.RefersThrough through e x := by
  refine Relation.ReflTransGen.trans_induction_on h (fun _ => .refl) (fun hstep => ?_)
    fun _ _ h h' => h.trans h'
  obtain ⟨hc, hthrough⟩ := hstep
  rw [Refers, children_redirected] at hc
  obtain ⟨y, hy, rfl⟩ := List.mem_map.1 hc
  obtain ⟨hown, hpath⟩ := (standsFor_destination y).refersThrough hslots hthrough
  exact .head ⟨hy, hown⟩ hpath

/-- A path that does not end at a slot goes on where the slots on it are left out. -/
theorem Directed.refersThrough_redirected (h : g.Directed roots) {through : NodeId → Prop}
    (hpath : g.RefersThrough through e x) (hreach : g.Reaches roots e) (hx : ¬g.IsSlot x) :
    (through e → through (g.destination e)) ∧
      g.redirected.RefersThrough through (g.destination e) x := by
  induction hpath using Relation.ReflTransGen.head_induction_on with
  | refl =>
    rw [destination_of_not_isSlot hx]
    exact ⟨id, .refl⟩
  | @head e c hstep _ ih =>
    obtain ⟨hown, hpath⟩ := ih (.step hreach (mem_successors.2 (.inl hstep.1)))
    by_cases hslot : g.IsSlot e
    · obtain ⟨y, hy⟩ := h.exists_target hreach hslot
      have hc : c ∈ g.children e := hstep.1
      rw [children_of_slot hy, List.mem_singleton] at hc
      rw [hc, h.destination_of_slot hreach hy] at hown hpath
      exact ⟨fun _ => hown (hc ▸ hstep.2), hpath⟩
    · rw [destination_of_not_isSlot hslot]
      refine ⟨id, .head ⟨?_, hown hstep.2⟩ hpath⟩
      rw [Refers, children_redirected]
      exact List.mem_map_of_mem hstep.1

theorem Directed.refersThrough_redirected_iff (h : g.Directed roots) {through : NodeId → Prop}
    (hslots : ∀ s, g.IsSlot s → through s) (hreach : g.Reaches roots e) (he : ¬g.IsSlot e)
    (hx : ¬g.IsSlot x) : g.redirected.RefersThrough through e x ↔ g.RefersThrough through e x := by
  refine ⟨refersThrough_of_redirected hslots, fun hpath => ?_⟩
  have hpath' := (h.refersThrough_redirected hpath hreach hx).2
  rwa [destination_of_not_isSlot he] at hpath'

/-! ## Two analyses -/

section Analyses

variable {body : Body} {a a' : Analysis} (h : g.Directed body.roots) (hr : g.Resolved body a)
  (hr' : g.redirected.Resolved (body.map g.destination) a')

include h hr hr'

theorem Directed.mem_order_iff : e ∈ a'.order ↔ e ∈ a.order ∧ ¬g.IsSlot e := by
  rw [hr'.surveyed.mem_iff, hr.surveyed.mem_iff, Body.roots_map, h.reaches_redirected_iff]

omit hr' in
theorem Directed.exists_count : ∃ count, g.CountsLandings body.roots count ∧
    g.redirected.CountsLandings (body.map g.destination).roots count := by
  obtain ⟨count, hcount, _⟩ := hr.exists_countsLandings
  rw [Body.roots_map]
  exact ⟨count, hcount, hcount.redirected h fun e hreach =>
    hr.surveyed.lt_size ((hr.surveyed.mem_iff e).2 hreach)⟩

theorem Directed.isDeclared_eq (e : NodeId) : a'.isDeclared e = a.isDeclared e := by
  obtain ⟨count, hcount, hcount'⟩ := h.exists_count hr
  by_cases he : e ∈ a'.order
  · obtain ⟨horder, _⟩ := (h.mem_order_iff hr hr').1 he
    rw [Bool.eq_iff_iff, hcount'.isDeclared_iff hr' ((hr'.surveyed.mem_iff e).1 he),
      hcount.isDeclared_iff hr ((hr.surveyed.mem_iff e).1 horder), declares_redirected]
  · have hnot' : a'.isDeclared e = false := by
      rw [← Bool.not_eq_true]
      exact fun hd => he (hr'.mem_order_of_isDeclared hd)
    rw [hnot', eq_comm, ← Bool.not_eq_true]
    intro hd
    refine he ((h.mem_order_iff hr hr').2 ⟨hr.mem_order_of_isDeclared hd, fun hslot => ?_⟩)
    rw [hr.isDeclared_slot h.slots hslot] at hd
    cases hd

theorem Directed.readsResource_eq (he : ¬g.IsSlot e) : a'.readsResource e = a.readsResource e := by
  rw [Bool.eq_iff_iff, Analysis.readsResource, Analysis.readsResource, List.contains_iff_mem,
    List.contains_iff_mem]
  by_cases horder : e ∈ a.order
  · rw [hr'.mem_dependent_iff_path ((h.mem_order_iff hr hr').2 ⟨horder, he⟩),
      hr.mem_dependent_iff_path horder]
    refine exists_congr fun x => ?_
    rw [Marked, Marked, flagsOf_redirected, and_congr_left_iff]
    intro hmark
    have hx : ¬g.IsSlot x := fun hslot => by
      rw [h.slots.flagsOf_slot hslot] at hmark
      cases hmark
    have hiff : g.redirected.RefersThrough (fun _ => True) e x ↔
        g.RefersThrough (fun _ => True) e x :=
      h.refersThrough_redirected_iff (fun _ _ => trivial) ((hr.surveyed.mem_iff e).1 horder) he hx
    simpa only [RefersThrough, and_true] using hiff
  · exact iff_of_false
      (fun hd => horder ((h.mem_order_iff hr hr').1 (hr'.mem_order_of_dependent hd)).1)
      fun hd => horder (hr.mem_order_of_dependent hd)

theorem Directed.awaitsInline_iff (horder : e ∈ a.order) (he : ¬g.IsSlot e) :
    g.redirected.AwaitsInline a' e ↔ g.AwaitsInline a e := by
  refine exists_congr fun w => ?_
  simp only [flagsOf_redirected, h.isDeclared_eq hr hr']
  rw [and_congr_left_iff]
  intro hawaits
  refine h.refersThrough_redirected_iff (fun s hslot => hr.isDeclared_slot h.slots hslot)
    ((hr.surveyed.mem_iff e).1 horder) he fun hslot => ?_
  rw [h.slots.flagsOf_slot hslot] at hawaits
  cases hawaits

theorem Directed.isAccessor_eq (he : ¬g.IsSlot e) : a'.isAccessor e = a.isAccessor e := by
  rw [Bool.eq_iff_iff, hr'.isAccessor_iff, hr.isAccessor_iff, h.isDeclared_eq hr hr',
    h.readsResource_eq hr hr' he]
  refine and_congr_right fun hd => and_congr_right fun _ => not_congr ?_
  exact h.awaitsInline_iff hr hr' (hr.mem_order_of_isDeclared hd) he

theorem Directed.suspends_eq (t : Scope) : a'.suspends t = a.suspends t := by
  obtain ⟨count, hcount, hcount'⟩ := h.exists_count hr
  rw [Bool.eq_iff_iff, hr'.suspends_iff, hr.suspends_iff]
  refine exists_congr fun e => ?_
  rw [h.mem_order_iff hr hr', flagsOf_redirected, scopeOf_redirected, h.isDeclared_eq hr hr']
  have hslot : (g.flagsOf e).awaits = true → ¬g.IsSlot e := fun hawaits hslot => by
    rw [h.slots.flagsOf_slot hslot] at hawaits
    cases hawaits
  constructor
  · rintro ⟨⟨he, hslot⟩, hawaits, hcause⟩
    rw [hcount'.usesIn_eq hr' ((hr'.surveyed.mem_iff e).1 ((h.mem_order_iff hr hr').2 ⟨he, hslot⟩))]
      at hcause
    rw [hcount.usesIn_eq hr ((hr.surveyed.mem_iff e).1 he)]
    exact ⟨he, hawaits, hcause⟩
  · rintro ⟨he, hawaits, hcause⟩
    have he' : e ∈ a'.order := (h.mem_order_iff hr hr').2 ⟨he, hslot hawaits⟩
    rw [hcount.usesIn_eq hr ((hr.surveyed.mem_iff e).1 he)] at hcause
    rw [hcount'.usesIn_eq hr' ((hr'.surveyed.mem_iff e).1 he')]
    exact ⟨⟨he, hslot hawaits⟩, hawaits, hcause⟩

theorem Directed.declarations_perm (t : Scope) :
    (a'.declarationsOf t).Perm (a.declarationsOf t) := by
  rw [List.perm_ext_iff_of_nodup (hr'.nodup_declarationsOf t) (hr.nodup_declarationsOf t)]
  intro e
  rw [hr'.mem_declarationsOf_iff, hr.mem_declarationsOf_iff, h.isDeclared_eq hr hr',
    scopeOf_redirected]

end Analyses

end Graph

/-! ## Builders -/

namespace Builder

variable {σ : Type} {b c : Builder σ}

/-- The same builder with a graph in which references lead to their destinations. -/
def redirected (b : Builder σ) : Builder σ :=
  b.update { b.state with graph := b.state.graph.redirected }

theorem sound_redirected (hb : b.state.Sound) : b.redirected.state.Sound := by
  refine ⟨hb.graph.redirected, fun f hf => ?_, hb.nodup⟩
  obtain ⟨arity, hk⟩ := hb.building f hf
  refine ⟨arity, (Graph.kindOf?_redirected f).trans ?_⟩
  rw [hk]
  rfl

section Finished

variable {body : Body} {stem : String} {a : Analysis} (hb : b.state.Sound)
  (hbodies : ∀ f, b.state.graph.Reaches body.roots f → b.state.graph.isFunction f = true →
    ∃ inner, b.state.graph.body? f = some inner)

include hb hbodies

/-- An analysis of a finished graph is one of this graph. -/
theorem resolved_of_bodies (h : (b.analyze body stem).1 = .ok a) :
    b.state.graph.Resolved body a := by
  have ha : b.analyze body stem = (.ok a, (b.analyze body stem).2) := Prod.ext h rfl
  rw [← graph_analyze_of_bodies hb hbodies ha]
  exact resolved_of_analyze hb ha

theorem surveyed_of_bodies (stem : String)
    (hbuilt : ∀ e, b.state.graph.Reaches body.roots e → b.state.graph.Built e) :
    ∃ order, b.state.graph.Surveyed body.roots order ∧
      (b.analyze body stem).1 = b.state.graph.analysis body order stem := by
  have ha : b.analyze body stem = ((b.analyze body stem).1, (b.analyze body stem).2) := rfl
  have hgraph := graph_analyze_of_bodies hb hbodies ha
  rw [← hgraph] at hbuilt ⊢
  exact surveyed_of_built hb ha hbuilt

theorem exists_ok_iff (hbuilt : ∀ e, b.state.graph.Reaches body.roots e → b.state.graph.Built e)
    (hacyclic : ∀ e, b.state.graph.Reaches body.roots e →
      ¬Relation.TransGen b.state.graph.Refers e e)
    {count : NodeId → Scope → Nat} (hcount : b.state.graph.CountsLandings body.roots count) :
    (∃ a, (b.analyze body stem).1 = .ok a) ↔ ¬b.state.graph.Leaks body.roots count := by
  obtain ⟨order, hfound, hout⟩ := surveyed_of_bodies hb hbodies stem hbuilt
  obtain ⟨herror, hok⟩ := hcount.of_analysis hfound
    (fun e he => hacyclic e ((hfound.mem_iff e).1 he)) hout
  constructor
  · rintro ⟨a, ha⟩ hleaks
    obtain ⟨fault, hfault, _⟩ := herror.2 hleaks
    cases ha.symm.trans hfault
  · intro hnot
    obtain ⟨a, ha, _⟩ := hok hnot
    exact ⟨a, ha⟩

end Finished

/-- **Slots are transparent**: take a graph whose reachable bodies are built, whose reachable slots
are filled and where no reachable node leads back to itself, and let every reference, the roots of
bodies included, lead to what it stands for. The analysis of the one succeeds if that of the other
does. Then both declare the same nodes, in the same scopes, and agree on accessors, on what reads
resources, and on the scopes that suspend. -/
theorem slots_of_analyze (hb : b.Reached) (body : Body) (stem : String)
    (hbodies : ∀ f, b.state.graph.Reaches body.roots f → b.state.graph.isFunction f = true →
      ∃ inner, b.state.graph.body? f = some inner)
    (hfilled : ∀ e, b.state.graph.Reaches body.roots e → b.state.graph.isUnfilledSlot e = false)
    (hacyclic : ∀ e, b.state.graph.Reaches body.roots e →
      ¬Relation.TransGen b.state.graph.Refers e e) :
    (∀ e, b.state.graph.Reaches body.roots e →
      b.state.graph.StandsFor e (b.state.graph.destination e) ∧
      ¬b.state.graph.IsSlot (b.state.graph.destination e)) ∧
    ((∃ a, (b.analyze body stem).1 = .ok a) ↔
      ∃ a, (b.redirected.analyze (body.map b.state.graph.destination) stem).1 = .ok a) ∧
    ∀ a a', (b.analyze body stem).1 = .ok a →
      (b.redirected.analyze (body.map b.state.graph.destination) stem).1 = .ok a' →
      (∀ e, ¬b.state.graph.IsSlot e → a'.isDeclared e = a.isDeclared e ∧
        a'.isAccessor e = a.isAccessor e ∧ a'.readsResource e = a.readsResource e) ∧
      (∀ t, a'.suspends t = a.suspends t) ∧
      ∀ t, (a'.declarationsOf t).Perm (a.declarationsOf t) := by
  have h : b.state.graph.Directed body.roots :=
    ⟨hb.sound.graph, hb.forwards, hfilled, hacyclic⟩
  have hs := sound_redirected hb.sound
  have hgraph : b.redirected.state.graph = b.state.graph.redirected := rfl
  have hreaches : ∀ e, b.redirected.state.graph.Reaches
      (body.map b.state.graph.destination).roots e ↔
      b.state.graph.Reaches body.roots e ∧ ¬b.state.graph.IsSlot e := fun e => by
    rw [Body.roots_map, hgraph, h.reaches_redirected_iff]
  have hbodies' : ∀ f, b.redirected.state.graph.Reaches
      (body.map b.state.graph.destination).roots f →
      b.redirected.state.graph.isFunction f = true →
      ∃ inner, b.redirected.state.graph.body? f = some inner := fun f hf hfun => by
    rw [hgraph, Graph.isFunction_redirected] at hfun
    obtain ⟨inner, hinner⟩ := hbodies f ((hreaches f).1 hf).1 hfun
    exact ⟨_, by rw [hgraph, Graph.body?_redirected, hinner]; rfl⟩
  refine ⟨fun e hreach => ⟨Graph.standsFor_destination e, h.not_isSlot_destination hreach⟩, ?_,
    fun a a' ha ha' => ?_⟩
  · by_cases hexists : ∀ e, b.state.graph.Reaches body.roots e → e < b.state.graph.size
    · have hbuilt : ∀ e, b.state.graph.Reaches body.roots e → b.state.graph.Built e :=
        fun e he => ⟨hexists e he, hfilled e he, hbodies e he⟩
      obtain ⟨order, hfound, _⟩ := surveyed_of_bodies hb.sound hbodies stem hbuilt
      obtain ⟨count, hcount⟩ := hfound.exists_countsLandings fun e he =>
        hacyclic e ((hfound.mem_iff e).1 he)
      have hcount' := hcount.redirected h hexists
      rw [← Body.roots_map] at hcount'
      rw [exists_ok_iff hb.sound hbodies hbuilt hacyclic hcount,
        exists_ok_iff hs hbodies' (fun e he => Graph.built_redirected_iff.2
          (hbuilt e ((hreaches e).1 he).1)) (fun e he => h.acyclic_redirected
            (Body.roots_map (ι := b.state.graph.destination) body ▸ he)) hcount',
        hgraph, Body.roots_map, h.leaks_redirected_iff]
    · -- A handle without a node ends both analyses.
      obtain ⟨e, hreach, hout⟩ : ∃ e, b.state.graph.Reaches body.roots e ∧
          ¬e < b.state.graph.size := by simpa using hexists
      have hslot : ¬b.state.graph.IsSlot e := fun ⟨target, hk⟩ => by
        obtain ⟨n, hn, _⟩ := Graph.kindOf?_eq_some.1 hk
        exact hout (Graph.lt_size hn)
      refine iff_of_false (fun ⟨a, ha⟩ => ?_) fun ⟨a, ha⟩ => ?_
      · have hr := resolved_of_bodies hb.sound hbodies ha
        exact hout (hr.surveyed.lt_size ((hr.surveyed.mem_iff e).2 hreach))
      · have hr := resolved_of_bodies hs hbodies' ha
        have hlt := hr.surveyed.lt_size ((hr.surveyed.mem_iff e).2 ((hreaches e).2 ⟨hreach, hslot⟩))
        rw [hgraph, Graph.size_redirected] at hlt
        exact hout hlt
  · have hr := resolved_of_bodies hb.sound hbodies ha
    have hr' : b.state.graph.redirected.Resolved _ a' := resolved_of_bodies hs hbodies' ha'
    exact ⟨fun e he => ⟨h.isDeclared_eq hr hr' e, h.isAccessor_eq hr hr' he,
      h.readsResource_eq hr hr' he⟩, h.suspends_eq hr hr', h.declarations_perm hr hr'⟩

/-- A member access that is used directly, and through a slot that is directed to another slot. -/
def forwardedExample : Builder Unit :=
  (Builder.run (Build.toRecipe do
    let outer ← Build.create .slot
    let inner ← Build.create .slot
    let object ← Build.ident "o"
    let access ← Build.get object "p"
    let _ ← Build.fill outer inner
    let _ ← Build.fill inner access
    let list ← Build.template [.text "[", .node outer, .text ",", .node access, .text "]"]
    return .ok (.value list)) (.empty ())).2

/-- The access is declared, as it is without the slots. -/
theorem slots_forwardedExample : ∃ a a',
    (forwardedExample.analyze (.statements [4, 0]) "_").1 = .ok a ∧
    (forwardedExample.redirected.analyze (.statements [4, 3]) "_").1 = .ok a' ∧
    a.isDeclared 3 = true ∧ a'.isDeclared 3 = true := by
  have hreached : forwardedExample.Reached := (run_leads _ _).reached (reached_empty ())
  have hsurvey : forwardedExample.survey [] [4, 0] = (.ok [4, 0, 3, 1, 2], forwardedExample) := by
    cbv
  obtain ⟨a, c, ha, hgraph⟩ := exists_analysis (.statements [4, 0]) "_"
    (congrArg Prod.fst hsurvey) (by cbv)
  have hr := resolved_of_analyze hreached.sound ha
  have hsame : c.state.graph = forwardedExample.state.graph :=
    hgraph.trans (congrArg (·.2.state.graph) hsurvey)
  rw [hsame] at hr
  have hbody : (Body.statements [4, 0]).map forwardedExample.state.graph.destination =
      .statements [4, 3] := by cbv
  obtain ⟨_, hiff, hagree⟩ := slots_of_analyze hreached (.statements [4, 0]) "_"
    (fun f hf => (hr.surveyed.built f ((hr.surveyed.mem_iff f).2 hf)).2.2)
    (fun e he => (hr.surveyed.built e ((hr.surveyed.mem_iff e).2 he)).2.1)
    (fun e he => hr.acyclicOn e ((hr.surveyed.mem_iff e).2 he))
  rw [hbody] at hiff hagree
  have hok : (forwardedExample.analyze (.statements [4, 0]) "_").1 = .ok a := congrArg Prod.fst ha
  obtain ⟨a', ha'⟩ := hiff.1 ⟨a, hok⟩
  have hdeclared : (forwardedExample.analyze (.statements [4, 0]) "_").1.map (·.isDeclared 3) =
      .ok true := by cbv
  rw [hok] at hdeclared
  have hthree : ¬forwardedExample.state.graph.IsSlot 3 := by
    rintro ⟨target, hk⟩
    have hlabel : (forwardedExample.state.graph.kindOf? 3).map Kind.label = some .template := by cbv
    rw [hk] at hlabel
    cases hlabel
  have hone : a.isDeclared 3 = true := Except.ok.inj hdeclared
  exact ⟨a, a', hok, ha', hone, ((hagree a a' hok ha').1 3 hthree).1.trans hone⟩

end Builder

end ScriptGraph
