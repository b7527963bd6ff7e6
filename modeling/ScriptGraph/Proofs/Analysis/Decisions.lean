import ScriptGraph.Builder.Operators
import ScriptGraph.Proofs.Analysis.Resolution
import ScriptGraph.Proofs.Graph.Visibility

/-!
# Decisions without an order of deciding

Where a node lands, and whether it is declared, can be said of a finished graph by rules that refer
to each other. Without cycles the rules have one solution, and an analysis finds it.

* `Graph.Inside` : a scope and the scopes nested in it;
* `Graph.Declares` : when a node that lands so often is declared;
* `Graph.CountsLandings` : how often each node lands in each scope;
* `Graph.exists_countsLandings`, `Graph.CountsLandings.unique` : there is one such count;
* `Graph.CountsLandings.agrees` : decisions that were made parents first follow the rules;
* `Graph.Leaks` : a declared node or a parameter lands outside its scope;
* `Builder.decisions_of_analyze` : an analysis fails for a leak exactly if there is one, and decides
  by the rules otherwise.
-/

namespace ScriptGraph

open Classical

namespace Graph

variable {g : Graph} {roots order : List NodeId} {e p : NodeId} {s t : Scope}

/-! ## The rules -/

/-- A scope is inside another one if it is the same or nested in it. -/
inductive Inside (g : Graph) : Scope → Scope → Prop
  | refl (t : Scope) : Inside g t t
  | inner {f : NodeId} {t : Scope} (h : Inside g (g.scopeOf f) t) : Inside g (some f) t

theorem Sound.isWithin_iff_inside (hg : g.Sound) : g.isWithin s t = true ↔ g.Inside s t := by
  constructor
  · intro h
    rw [isWithin_iff] at h
    induction s using hg.scope_induction with
    | top =>
      rw [scopeChain_none, List.mem_singleton] at h
      exact h ▸ .refl _
    | inner f ih =>
      rw [hg.scopeChain_some] at h
      rcases List.mem_cons.1 h with rfl | h
      · exact .refl _
      · exact .inner (ih h)
  · intro h
    induction h with
    | refl t => exact hg.isWithin_refl t
    | inner _ ih =>
      rw [isWithin_iff] at ih ⊢
      rw [hg.scopeChain_some]
      exact List.mem_cons_of_mem _ ih

/-- The nodes that the roots lead to. -/
noncomputable def reachable (g : Graph) (roots : List NodeId) : Finset NodeId :=
  {e ∈ Finset.range g.size | g.Reaches roots e}

/-- The top level and all nodes as scopes. -/
def scopes (g : Graph) : Finset Scope := (Finset.range g.size).insertNone

/-- The roots of the body that is written in a scope. -/
noncomputable def rootsIn (g : Graph) (roots : List NodeId) : Scope → List NodeId
  | none => roots
  | some f => if g.Reaches roots f then ((g.body? f).map Body.roots).getD [] else []

/-- A node that lands so often is declared: because it must be, or because it is not inert and lands
more than once or in another scope than its own. -/
def Declares (g : Graph) (e : NodeId) (landings : Scope → Nat) : Prop :=
  (g.flagsOf e).pinned = true ∨ (g.flagsOf e).inert = false ∧
    (2 ≤ ∑ t ∈ g.scopes, landings t ∨ ∃ t, t ≠ g.scopeOf e ∧ 0 < landings t)

/-- How often what a node refers to once lands in a scope because of that: once in its own scope if
the node is declared, and as often as the node itself if not. -/
noncomputable def passedOn (g : Graph) (p : NodeId) (landings : Scope → Nat) (t : Scope) : Nat :=
  if g.Declares p landings then (if g.scopeOf p = t then 1 else 0) else landings t

/-- The counts say how often each reachable node lands in each scope: as a root, and through the
reachable nodes that refer to it. -/
def CountsLandings (g : Graph) (roots : List NodeId) (count : NodeId → Scope → Nat) : Prop :=
  ∀ e, g.Reaches roots e → ∀ t, count e t = (g.rootsIn roots t).count e +
    ∑ p ∈ g.reachable roots, (g.children p).count e * g.passedOn p (count p) t

/-- A declared node or a parameter lands in a scope that is not inside its own one. -/
def Leaks (g : Graph) (roots : List NodeId) (count : NodeId → Scope → Nat) : Prop :=
  ∃ e, g.Reaches roots e ∧ (g.Declares e (count e) ∨ g.isParameter e = true) ∧
    ∃ t, 0 < count e t ∧ ¬g.Inside t (g.scopeOf e)

/-! ## Sums over the reachable nodes -/

theorem rootCount_filterMap (hnodup : order.Nodup) (f e : NodeId) :
    rootCount (order.filterMap fun f => (g.body? f).map fun body => (some f, body.roots)) e (some f) =
      if f ∈ order then (((g.body? f).map Body.roots).getD []).count e else 0 := by
  induction order with
  | nil => rfl
  | cons x order ih =>
    obtain ⟨hx, hnodup⟩ := List.nodup_cons.1 hnodup
    have hrest := ih hnodup
    simp only [rootCount] at hrest ⊢
    by_cases hf : x = f
    · subst hf
      rw [if_neg hx] at hrest
      cases hb : g.body? x with
      | none => simp [hb, hrest]
      | some body => simp [hb, hrest]
    · have hmem : f ∈ x :: order ↔ f ∈ order := by simp [Ne.symm hf]
      cases hb : g.body? x with
      | none => simp [hb, hrest, hmem]
      | some body => simp [hb, hrest, hmem, hf]

namespace Surveyed

variable (h : g.Surveyed roots order)

include h

theorem toFinset_order : order.toFinset = g.reachable roots := by
  ext e
  rw [List.mem_toFinset, h.mem_iff, reachable, Finset.mem_filter, Finset.mem_range]
  exact ⟨fun he => ⟨h.lt_size ((h.mem_iff e).2 he), he⟩, fun he => he.2⟩

theorem rootCount_eq (e : NodeId) (t : Scope) :
    rootCount (g.bodies roots order) e t = (g.rootsIn roots t).count e := by
  cases t with
  | none =>
    have hinner : rootCount (order.filterMap fun f => (g.body? f).map fun body =>
        (some f, body.roots)) e none = 0 := by
      rw [rootCount, List.sum_eq_zero_iff]
      intro n hn
      obtain ⟨b, hb, rfl⟩ := List.mem_map.1 hn
      obtain ⟨f, _, hf⟩ := List.mem_filterMap.1 hb
      obtain ⟨body, _, rfl⟩ := Option.map_eq_some_iff.1 hf
      rfl
    show roots.count e + rootCount _ e none = _
    rw [hinner]
    rfl
  | some f =>
    show 0 + rootCount _ e (some f) = _
    rw [rootCount_filterMap h.nodup, rootsIn, Nat.zero_add]
    by_cases hf : g.Reaches roots f
    · rw [if_pos ((h.mem_iff f).2 hf), if_pos hf]
    · rw [if_neg (mt (h.mem_iff f).1 hf), if_neg hf]
      rfl

/-! ## One solution -/

theorem sum_reachable (f : NodeId → Nat) : ∑ p ∈ g.reachable roots, f p = (order.map f).sum := by
  rw [← h.toFinset_order, List.sum_toFinset f h.nodup]

theorem exists_countsLandings (hacyclic : g.AcyclicOn order) :
    ∃ count, g.CountsLandings roots count := by
  let next (e : {x // x ∈ order}) (above : ∀ p, g.RefersWithin order p e → Scope → Nat)
      (t : Scope) : Nat :=
    (g.rootsIn roots t).count e.1 + (order.attach.map fun p =>
      if hc : g.RefersWithin order p e then (g.children p).count e.1 * g.passedOn p (above p hc) t
      else 0).sum
  let count (e : NodeId) (t : Scope) : Nat :=
    if he : e ∈ order then hacyclic.wellFounded.fix next ⟨e, he⟩ t else 0
  have hcount : ∀ p : {x // x ∈ order}, count p = hacyclic.wellFounded.fix next p :=
    fun p => funext fun t => dif_pos p.2
  refine ⟨count, fun e hreach t => ?_⟩
  have he := (h.mem_iff e).2 hreach
  rw [hcount ⟨e, he⟩, WellFounded.fix_eq, h.sum_reachable, ← List.attach_map_val]
  apply congrArg fun l => (g.rootsIn roots t).count e + List.sum l
  apply List.map_congr_left
  intro p _
  by_cases hc : g.RefersWithin order p ⟨e, he⟩
  · rw [dif_pos hc, hcount p]
  · rw [dif_neg hc, List.count_eq_zero.2 hc, Nat.zero_mul]

end Surveyed

namespace CountsLandings

variable {count count' : NodeId → Scope → Nat} (hcount : g.CountsLandings roots count)
  (h : g.Surveyed roots order)

include hcount h

theorem unique (hcount' : g.CountsLandings roots count') (hacyclic : g.AcyclicOn order) :
    ∀ e, g.Reaches roots e → count e = count' e := by
  have hall : ∀ e ∈ order, count e = count' e := by
    refine hacyclic.parents_first (P := fun e => count e = count' e) fun e he hparents => ?_
    funext t
    rw [hcount e ((h.mem_iff e).1 he), hcount' e ((h.mem_iff e).1 he)]
    congr 1
    apply Finset.sum_congr rfl
    intro p hp
    rw [← h.toFinset_order, List.mem_toFinset] at hp
    by_cases hc : e ∈ g.children p
    · rw [hparents p hp hc]
    · rw [List.count_eq_zero.2 hc, Nat.zero_mul, Nat.zero_mul]
  exact fun e he => hall e ((h.mem_iff e).2 he)

theorem mem_scopes (hacyclic : g.AcyclicOn order) {e : NodeId} (he : e ∈ order) {t : Scope}
    (ht : 0 < count e t) : t ∈ g.scopes := by
  have hnode : ∀ f ∈ order, some f ∈ g.scopes := fun f hf => by
    rw [scopes, Finset.some_mem_insertNone, Finset.mem_range]
    exact h.lt_size hf
  suffices hall : ∀ e ∈ order, ∀ t, 0 < count e t → t ∈ g.scopes from hall e he t ht
  clear ht he e t
  refine hacyclic.parents_first (P := fun e => ∀ t, 0 < count e t → t ∈ g.scopes)
    fun e he hparents t ht => ?_
  cases t with
  | none => exact Finset.none_mem_insertNone
  | some f =>
    rw [hcount e ((h.mem_iff e).1 he), Nat.add_pos_iff_pos_or_pos] at ht
    rcases ht with hroot | hsum
    · have hmem := List.count_pos_iff.1 hroot
      rw [rootsIn] at hmem
      split at hmem
      · exact hnode f ((h.mem_iff f).2 ‹_›)
      · cases hmem
    · obtain ⟨p, hp, hpos⟩ := Finset.sum_pos_iff.1 hsum
      rw [← h.toFinset_order, List.mem_toFinset] at hp
      have hc := List.count_pos_iff.1 (Nat.pos_of_mul_pos_right hpos)
      have hpassed := Nat.pos_of_mul_pos_left hpos
      rw [passedOn] at hpassed
      split at hpassed
      · split at hpassed
        · rename_i hscope
          rw [scopes, Finset.some_mem_insertNone, Finset.mem_range]
          exact Nat.lt_trans (h.sound.scope_lt hscope) (h.lt_size hp)
        · cases hpassed
      · exact hparents p hp hc _ hpassed

end CountsLandings

/-! ## Decisions follow the rules -/

theorem min_sum_min {ι : Type} (s : Finset ι) (f : ι → Nat) (c : Nat) :
    min (∑ i ∈ s, min (f i) c) c = min (∑ i ∈ s, f i) c := by
  induction s using Finset.induction_on with
  | empty => rfl
  | insert i s hi ih =>
    rw [Finset.sum_insert hi, Finset.sum_insert hi]
    omega

/-- A decision on landings that are counted up to the cap is one on the counts. -/
theorem mustDeclare_iff_declares {l : Landings} (hproper : l.Proper) {landings : Scope → Nat}
    (hland : ∀ t, l.countAt t = min (landings t) Landings.cap)
    (hscopes : ∀ t, 0 < landings t → t ∈ g.scopes) :
    g.mustDeclare e l = true ↔ g.Declares e landings := by
  have hmem : ∀ t, t ∈ l.scopes ↔ 0 < landings t := fun t => by
    rw [hproper.mem_scopes_iff, hland, Landings.cap]
    omega
  have htotal : l.total = ∑ t ∈ g.scopes, min (landings t) Landings.cap := by
    rw [Landings.total_eq_sum hproper.nodup, ← List.sum_toFinset _ hproper.nodup]
    apply (Finset.sum_congr rfl fun t _ => hland t).trans
    apply Finset.sum_subset
    · exact fun t ht => hscopes t ((hmem t).1 (List.mem_toFinset.1 ht))
    · intro t _ ht
      rw [List.mem_toFinset, hmem, Nat.not_lt, Nat.le_zero] at ht
      rw [ht, Nat.zero_min]
  have hsum := min_sum_min g.scopes landings Landings.cap
  rw [← htotal] at hsum
  have htwice : Landings.cap ≤ l.total ↔ 2 ≤ ∑ t ∈ g.scopes, landings t := by
    rw [Landings.cap] at hsum ⊢
    omega
  have habroad : (l.scopes.any (· != g.scopeOf e)) = true ↔
      ∃ t, t ≠ g.scopeOf e ∧ 0 < landings t := by
    rw [List.any_eq_true]
    exact exists_congr fun t => by rw [hmem, bne_iff_ne, and_comm]
  rw [mustDeclare, Declares, Bool.or_eq_true, Bool.and_eq_true, Bool.not_eq_true', Bool.or_eq_true,
    decide_eq_true_eq, ge_iff_le, htwice, habroad]

namespace CountsLandings

variable {count : NodeId → Scope → Nat} (hcount : g.CountsLandings roots count)
  (h : g.Surveyed roots order) (hacyclic : g.AcyclicOn order) {settled : List Settled}

include hcount h

/-- Landings are counted exactly once all nodes that refer to a node are decided by the rules. -/
theorem exactLandings_eq (hs : g.Settles (g.bodies roots order) order settled)
    (hall : ∀ s ∈ settled, (s.declared = true ↔ g.Declares s.node (count s.node)) ∧
      g.exactLandings (g.bodies roots order) settled s.node = count s.node)
    (he : e ∈ order) (hparents : ∀ p ∈ order, e ∈ g.children p → p ∈ settled.map (·.node)) :
    g.exactLandings (g.bodies roots order) settled e = count e := by
  funext t
  rw [hs.exactLandings_eq, h.rootCount_eq, hcount e ((h.mem_iff e).1 he), ← h.toFinset_order]
  congr 1
  have hsub : (settled.map (·.node)).toFinset ⊆ order.toFinset :=
    fun p hp => List.mem_toFinset.2 (hs.subset (List.mem_toFinset.1 hp))
  have hzero : ∀ p ∈ order.toFinset, p ∉ (settled.map (·.node)).toFinset →
      (g.children p).count e * g.passedOn p (count p) t = 0 := by
    intro p hp hnot
    rw [List.mem_toFinset] at hp hnot
    rw [List.count_eq_zero.2 fun hc => hnot (hparents p hp hc), Nat.zero_mul]
  rw [← Finset.sum_subset hsub hzero, List.sum_toFinset _ hs.nodup, List.map_map]
  congr 1
  apply List.map_congr_left
  intro s hmem
  obtain ⟨hagrees, hexact⟩ := hall s hmem
  rw [Function.comp_apply, passedOn, hexact, if_congr hagrees rfl rfl]

include hacyclic

theorem agrees (hs : g.Settles (g.bodies roots order) order settled) :
    ∀ s ∈ settled, (s.declared = true ↔ g.Declares s.node (count s.node)) ∧
      g.exactLandings (g.bodies roots order) settled s.node = count s.node := by
  induction hs with
  | nil => exact fun s hs => nomatch hs
  | @cons s earlier hearlier hmem hnew hparents hdec ih =>
    have hlast : g.Settles (g.bodies roots order) order (s :: earlier) :=
      .cons hearlier hmem hnew hparents hdec
    have hkeep : ∀ x ∈ (s :: earlier).map (·.node),
        g.exactLandings (g.bodies roots order) (s :: earlier) x =
          g.exactLandings (g.bodies roots order) earlier x :=
      fun x hx => funext (hlast.exactLandings_cons hx)
    have hown := hcount.exactLandings_eq h hearlier ih hmem hparents
    intro s' hs'
    rw [hkeep s'.node (List.mem_map_of_mem hs')]
    rcases List.mem_cons.1 hs' with rfl | hs'
    · refine ⟨?_, hown⟩
      obtain ⟨hproper, hland⟩ := hearlier.landings_proper s'.node
      rw [(decideNode_eq_ok.1 hdec).1, ← hown]
      exact mustDeclare_iff_declares hproper hland fun t ht =>
        hcount.mem_scopes h hacyclic hmem (hown ▸ ht)
    · exact ih s' hs'

/-- If decisions on all nodes can be made, they follow the rules, and nothing leaks. -/
theorem of_settle_ok (hok : g.settle roots order = .ok settled) :
    ¬g.Leaks roots count ∧
      ∀ s ∈ settled, (s.declared = true ↔ g.Declares s.node (count s.node)) := by
  obtain ⟨hs, hperm⟩ := settle_settles h.nodup (fun _ hp _ hc => h.child_mem hp hc) hok
  have hall := hcount.agrees h hacyclic hs
  refine ⟨?_, fun s hmem => (hall s (List.mem_reverse.2 hmem)).1⟩
  rintro ⟨e, hreach, hexposed, t, ht, hout⟩
  obtain ⟨s, hmem, rfl⟩ := List.mem_map.1 (hperm.mem_iff.2 ((h.mem_iff e).2 hreach))
  obtain ⟨hagrees, hexact⟩ := hall s (List.mem_reverse.2 hmem)
  obtain ⟨_, hproper, hland, hleak⟩ := hs.decision (List.mem_reverse.2 hmem)
  rw [hexact] at hland
  apply hout
  rw [← h.sound.isWithin_iff_inside]
  refine hleak ?_ t ?_
  · rw [Bool.or_eq_true, hagrees]
    exact hexposed
  · rw [hproper.mem_scopes_iff, hland, Landings.cap]
    omega

theorem of_settle_error {fault : Fault} (herror : g.settle roots order = .error fault) :
    g.Leaks roots count ∧ fault.code = "Z-ERR-SCOPE-LEAK" := by
  have hclosed : ∀ p ∈ order, ∀ c ∈ g.children p, c ∈ order := fun _ hp _ hc => h.child_mem hp hc
  rcases settle_eq_error h.nodup hclosed herror with
    ⟨e, he, earlier, hs, hparents, hdec⟩ | ⟨_, out, hlen, hout⟩
  · obtain ⟨hexposed, t, ht, hout, rfl⟩ := decideNode_eq_error hdec
    have hall := hcount.agrees h hacyclic hs
    have hown := hcount.exactLandings_eq h hs hall he (by simpa using hparents)
    obtain ⟨hproper, hland⟩ := hs.landings_proper e
    rw [List.reverse_reverse] at hproper hland
    rw [hown] at hland
    rw [Bool.or_eq_true, mustDeclare_iff_declares hproper hland fun t ht =>
      hcount.mem_scopes h hacyclic he ht] at hexposed
    refine ⟨⟨e, (h.mem_iff e).1 he, hexposed, t, ?_, ?_⟩, rfl⟩
    · rw [hproper.mem_scopes_iff, hland] at ht
      exact Nat.lt_of_lt_of_le ht (Nat.min_le_left ..)
    · rw [← h.sound.isWithin_iff_inside, hout]
      exact Bool.false_ne_true
  · have := Prompt.start.length_le h.nodup hacyclic (by simp) hout
    exact absurd hlen (Nat.not_lt.2 this)

end CountsLandings

/-- An analysis fails for a leak exactly if there is one, and decides by the rules otherwise. -/
theorem CountsLandings.of_analysis {body : Body} {count : NodeId → Scope → Nat}
    (hcount : g.CountsLandings body.roots count) (h : g.Surveyed body.roots order)
    (hacyclic : g.AcyclicOn order) {stem : String} {out : Except Fault Analysis}
    (hout : out = g.analysis body order stem) :
    ((∃ fault, out = .error fault ∧ fault.code = "Z-ERR-SCOPE-LEAK") ↔
        g.Leaks body.roots count) ∧
      (¬g.Leaks body.roots count → ∃ a, out = .ok a ∧
        ∀ e, a.isDeclared e = true ↔ g.Reaches body.roots e ∧ g.Declares e (count e)) := by
  rw [analysis] at hout
  cases hsettle : g.settle body.roots order with
  | error fault =>
    rw [hsettle] at hout
    obtain ⟨hleak, hcode⟩ := hcount.of_settle_error h hacyclic hsettle
    exact ⟨⟨fun _ => hleak, fun _ => ⟨fault, hout, hcode⟩⟩, fun hnot => absurd hleak hnot⟩
  | ok settled =>
    rw [hsettle] at hout
    obtain ⟨hleak, hagrees⟩ := hcount.of_settle_ok h hacyclic hsettle
    have hresolved : g.Resolved body (g.analysisOf order settled stem) := ⟨h, hsettle, rfl⟩
    have hdeclared : ∀ e, g.Reaches body.roots e →
        ((g.analysisOf order settled stem).isDeclared e = true ↔ g.Declares e (count e)) :=
      fun e hreach => by
        obtain ⟨s, hs, rfl⟩ := hresolved.exists_settled ((h.mem_iff e).2 hreach)
        rw [← hresolved.declared_eq hs]
        exact hagrees s hs
    refine ⟨⟨?_, fun h => absurd h hleak⟩, fun _ => ⟨_, hout, fun e => ⟨fun hd => ?_, ?_⟩⟩⟩
    · rintro ⟨fault, herror, _⟩
      cases herror.symm.trans hout
    · have hreach := (h.mem_iff e).1 (hresolved.mem_order_of_isDeclared hd)
      exact ⟨hreach, (hdeclared e hreach).1 hd⟩
    · rintro ⟨hreach, hdec⟩
      exact (hdeclared e hreach).2 hdec

end Graph

/-! ## Analyses -/

namespace Builder

variable {σ : Type} {b c : Builder σ} {roots order queue : List NodeId} {f : NodeId}
  {fault : Fault}

theorem force_error (hb : b.state.Sound) (h : (b.force f).1 = .error fault) :
    (b.force f).2.state.graph.body? f = none := by
  rw [Option.eq_none_iff_forall_ne_some]
  intro body hbody
  obtain ⟨arity, hk⟩ := Graph.body?_eq_some.1 hbody
  cases hreq : b.request f with
  | answer result =>
    rw [force_answer hreq] at h hk
    rw [request, hk] at hreq
    cases hreq
    cases h
  | construct recipe c =>
    rw [force_construct hreq] at h hk
    dsimp only at h hk
    obtain ⟨⟨_, hpending⟩, hc⟩ := request_construct hreq
    have hsound := (run_leads recipe c).sound (hc ▸ (hb.enter hpending).1)
    obtain ⟨_, hbuilding⟩ := hsound.building f (by
      rw [(run_leads recipe c).2, request_scopes hreq]
      exact List.mem_cons_self)
    rw [h] at hk
    change (Graph.setBodyState _ f (.failed fault)).kindOf? f = _ at hk
    rw [Graph.setBodyState_eq hbuilding, Graph.kindOf?_setKind_self hbuilding] at hk
    cases hk

/-- A survey fails at a node that leads nowhere: a handle without a node, an empty slot, or a
function without a body. -/
theorem survey_eq_error (hb : b.state.Sound) (hw : b.state.graph.Walk roots order queue)
    (h : b.survey order queue = (.error fault, c)) :
    ∃ e, c.state.graph.Reaches roots e ∧ ¬c.state.graph.Built e := by
  fun_induction survey b order queue with
  | case1 => cases h
  | case2 b order e rest he ih => exact ih hb (hw.skip he) h
  | case3 b order e rest _ hin =>
    cases h
    exact ⟨e, hw.reached e (.inr List.mem_cons_self), fun hbuilt => Nat.not_lt.2 hin hbuilt.1⟩
  | case4 b order e rest _ _ hslot =>
    cases h
    exact ⟨e, hw.reached e (.inr List.mem_cons_self), fun hbuilt =>
      Bool.false_ne_true (hbuilt.2.1.symm.trans hslot)⟩
  | case5 b order e rest _ _ _ hfun fault' hforce =>
    cases h
    have hext := (b.force_leads e).extends hb
    refine ⟨e, (hw.reached e (.inr List.mem_cons_self)).grow hext, fun hbuilt => ?_⟩
    obtain ⟨body, hbody⟩ := hbuilt.2.2 (hext.isFunction hfun)
    rw [force_error hb hforce] at hbody
    cases hbody
  | case6 b order e rest he hin hslot hfun body hforce ih =>
    exact ih ((b.force_leads e).sound hb) (walk_force hb hw he hfun hforce) h
  | case7 b order e rest he hin hslot hfun ih =>
    exact ih hb (walk_children hw he hin hslot hfun) h

/-- Where every reachable node is built, an analysis gets to the decisions. -/
theorem surveyed_of_built (hb : b.state.Sound) {body : Body} {stem : String}
    {out : Except Fault Analysis} (h : b.analyze body stem = (out, c))
    (hbuilt : ∀ e, c.state.graph.Reaches body.roots e → c.state.graph.Built e) :
    ∃ order, c.state.graph.Surveyed body.roots order ∧
      out = c.state.graph.analysis body order stem := by
  unfold analyze at h
  rcases hsurvey : b.survey [] body.roots with ⟨fault | order, d⟩
  · rw [hsurvey] at h
    cases h
    obtain ⟨e, hreach, hnot⟩ := survey_eq_error hb (.start _ _) hsurvey
    exact absurd (hbuilt e hreach) hnot
  · have hfound := surveyed_of_survey hb hsurvey
    rw [hsurvey] at h
    dsimp only at h
    split at h
    · rename_i ha
      cases h
      exact ⟨order, hfound, ha.symm⟩
    · rename_i ha
      cases h
      exact ⟨order, hfound, ha.symm⟩

theorem exists_surveyed (hb : b.Reached) {body : Body} {stem : String}
    {out : Except Fault Analysis} (h : b.analyze body stem = (out, c))
    (hbuilt : ∀ e, c.state.graph.Reaches body.roots e → c.state.graph.Built e) :
    ∃ order, c.state.graph.Surveyed body.roots order ∧
      out = c.state.graph.analysis body order stem :=
  surveyed_of_built hb.sound h hbuilt

/-- Where every reachable node is built and none leads back to itself, the rules say how an analysis
ends: landings can be counted in one way, the analysis fails if something leaks, and otherwise
declares the nodes that land accordingly. -/
theorem decisions_of_analyze (hb : b.Reached) {body : Body} {stem : String}
    {out : Except Fault Analysis} (h : b.analyze body stem = (out, c))
    (hbuilt : ∀ e, c.state.graph.Reaches body.roots e → c.state.graph.Built e)
    (hacyclic : ∀ e, c.state.graph.Reaches body.roots e →
      ¬Relation.TransGen c.state.graph.Refers e e) :
    ∃ count, c.state.graph.CountsLandings body.roots count ∧
      (∀ count', c.state.graph.CountsLandings body.roots count' →
        ∀ e, c.state.graph.Reaches body.roots e → count' e = count e) ∧
      ((∃ fault, out = .error fault ∧ fault.code = "Z-ERR-SCOPE-LEAK") ↔
        c.state.graph.Leaks body.roots count) ∧
      (¬c.state.graph.Leaks body.roots count → ∃ a, out = .ok a ∧
        ∀ e, a.isDeclared e = true ↔
          c.state.graph.Reaches body.roots e ∧ c.state.graph.Declares e (count e)) := by
  obtain ⟨order, hfound, hout⟩ := exists_surveyed hb h hbuilt
  have hacyclic' : c.state.graph.AcyclicOn order :=
    fun e he => hacyclic e ((hfound.mem_iff e).1 he)
  obtain ⟨count, hcount⟩ := hfound.exists_countsLandings hacyclic'
  exact ⟨count, hcount, fun _ hcount' => hcount'.unique hfound hcount hacyclic',
    hcount.of_analysis hfound hacyclic' hout⟩

/-- A function that returns its parameter, next to the parameter itself. -/
def leakingExample : Builder Unit :=
  (Builder.run (Build.toRecipe do
    let f ← Build.function 1 fun _ params => Build.toRecipe do
      return .ok (.statements params)
    let pair ← Build.template [.node f, .text ", ", .node (f + 1)]
    return .ok (.value pair)) (.empty ())).2

/-- The parameter lands at the top level, outside the function it belongs to. -/
theorem decisions_leakingExample : ∃ fault c count,
    leakingExample.analyze (.value 2) "_" = (.error fault, c) ∧ fault.code = "Z-ERR-SCOPE-LEAK" ∧
      c.state.graph.CountsLandings [2] count ∧ c.state.graph.Leaks [2] count := by
  have hreached : leakingExample.Reached := (run_leads _ _).reached (reached_empty ())
  obtain ⟨out, c, hanalyze⟩ : ∃ out c, leakingExample.analyze (.value 2) "_" = (out, c) :=
    ⟨_, _, rfl⟩
  have hout : out = .error (.scopeLeak .argument 1 (some 0) none) :=
    (congrArg Prod.fst hanalyze).symm.trans (by cbv)
  have hgraph : c.state.graph = (leakingExample.survey [] [2]).2.state.graph :=
    (congrArg (fun p => p.2.state.graph) hanalyze).symm.trans (by cbv)
  have hfound : c.state.graph.Surveyed [2] [2, 0, 1] := by
    have hfirst : (leakingExample.survey [] [2]).1 = .ok [2, 0, 1] := by cbv
    rw [hgraph]
    exact survey_surveyed hreached (Prod.ext hfirst rfl)
  have holder : ∀ p, ∀ x ∈ c.state.graph.children p, x < p := fun p x hx => by
    have hsize : c.state.graph.size = 3 := by rw [hgraph]; cbv
    have hall : ((List.range 3).all fun p => (c.state.graph.children p).all (· < p)) = true := by
      rw [hgraph]
      cbv
    have hp : p < 3 := hsize ▸ Graph.lt_size_of_children hx
    simpa using List.all_eq_true.1 (List.all_eq_true.1 hall p (List.mem_range.2 hp)) x hx
  obtain ⟨count, hcount, _, hleak, _⟩ := decisions_of_analyze hreached hanalyze
    (fun e he => hfound.built e ((hfound.mem_iff e).2 he))
    fun e he => Graph.acyclicOn_of_older holder e ((hfound.mem_iff e).2 he)
  subst hout
  exact ⟨_, c, count, hanalyze, rfl, hcount, hleak.1 ⟨_, rfl, rfl⟩⟩

end Builder

end ScriptGraph
