import ScriptGraph.Proofs.Analysis.LandingCounts
import ScriptGraph.Proofs.Builder.Growth
import ScriptGraph.Proofs.Graph.Acyclic
import ScriptGraph.Proofs.Order.FirstOccurrences

/-!
# Settling parents first

* `Graph.Settles` : a list of decisions, latest first, each made when all parents are decided;
* `Graph.settle_settles` : `Graph.settle` makes such a list of all nodes, or fails;
* `Graph.settle_eq_error` : how it fails;
* `Graph.Prompt.length_le` : without cycles no node stays undecided;
* `Graph.exactLandings` : how often a node lands in a scope, without a cap;
* `Graph.Settles.landings_proper` : the landings are the exact ones up to the cap.
-/

namespace ScriptGraph.Graph

variable {g : Graph}

/-! ## Decisions -/

/-- The decision on a node depends on its landings only; a declared node or a parameter must land
within its own scope. -/
theorem decideNode_eq_ok {e : NodeId} {l : Landings} {s : Settled} :
    g.decideNode e l = .ok s ↔ s = ⟨e, g.mustDeclare e l, l⟩ ∧
      ((g.mustDeclare e l || g.isParameter e) = true →
        ∀ t ∈ l.scopes, g.isWithin t (g.scopeOf e) = true) := by
  unfold decideNode
  by_cases hd : (g.mustDeclare e l || g.isParameter e) = true
  · dsimp only
    rw [if_pos hd]
    cases hf : l.scopes.find? fun s => !g.isWithin s (g.scopeOf e) with
    | none =>
      rw [List.find?_eq_none] at hf
      dsimp only
      rw [Except.ok.injEq, eq_comm]
      exact ⟨fun h => ⟨h, fun _ t ht => by simpa using hf t ht⟩, fun h => h.1⟩
    | some t =>
      have ht := List.mem_of_find?_eq_some hf
      have hout := List.find?_some hf
      refine ⟨fun h => (nomatch h), fun h => ?_⟩
      simp [h.2 hd t ht] at hout
  · dsimp only
    rw [if_neg hd, Except.ok.injEq, eq_comm]
    exact ⟨fun h => ⟨h, fun h' => absurd h' hd⟩, fun h => h.1⟩

/-- A decision fails for a declared node or a parameter that lands in a scope where it may not. -/
theorem decideNode_eq_error {e : NodeId} {l : Landings} {fault : Fault}
    (h : g.decideNode e l = .error fault) :
    (g.mustDeclare e l || g.isParameter e) = true ∧
      ∃ t ∈ l.scopes, g.isWithin t (g.scopeOf e) = false ∧
        fault = .scopeLeak (g.label e) e (g.scopeOf e) t := by
  unfold decideNode at h
  dsimp only at h
  split at h
  · rename_i t hleak
    cases h
    split at hleak
    · rename_i hexposed
      have hout := List.find?_some hleak
      rw [Bool.not_eq_true'] at hout
      exact ⟨hexposed, t, List.mem_of_find?_eq_some hleak, hout, rfl⟩
    · cases hleak
  · cases h

theorem isReady_iff {order settled : List NodeId} {e : NodeId} :
    g.isReady order settled e = true ↔ ∀ p ∈ order, e ∈ g.children p → p ∈ settled := by
  simp only [isReady, List.all_eq_true, Bool.or_eq_true, Bool.not_eq_true', List.contains_eq_mem,
    decide_eq_false_iff_not, decide_eq_true_eq]
  exact forall₂_congr fun p _ => ⟨fun h hc => h.resolve_left (not_not_intro hc),
    fun h => or_iff_not_imp_left.2 fun hc => h (not_not.1 hc)⟩

/-- Decisions, latest first: each on a new node, all of whose parents are decided. -/
inductive Settles (g : Graph) (bodies : List (Scope × List NodeId)) (order : List NodeId) :
    List Settled → Prop
  | nil : Settles g bodies order []
  | cons {s : Settled} {earlier : List Settled} (h : Settles g bodies order earlier)
    (hmem : s.node ∈ order) (hnew : s.node ∉ earlier.map (·.node))
    (hparents : ∀ p ∈ order, s.node ∈ g.children p → p ∈ earlier.map (·.node))
    (hdec : g.decideNode s.node (g.landings bodies earlier.reverse s.node) = .ok s) :
    Settles g bodies order (s :: earlier)

variable {bodies : List (Scope × List NodeId)} {order : List NodeId}

namespace Settles

theorem nodup {settled : List Settled} (h : g.Settles bodies order settled) :
    (settled.map (·.node)).Nodup := by
  induction h with
  | nil => exact .nil
  | cons _ _ hnew _ _ ih => exact List.nodup_cons.2 ⟨hnew, ih⟩

theorem subset {settled : List Settled} (h : g.Settles bodies order settled) :
    settled.map (·.node) ⊆ order := by
  induction h with
  | nil => exact List.nil_subset _
  | cons _ hmem _ _ _ ih => exact List.cons_subset.2 ⟨hmem, ih⟩

theorem parents {settled : List Settled} (h : g.Settles bodies order settled) {e p : NodeId}
    (he : e ∈ settled.map (·.node)) (hp : p ∈ order) (hc : e ∈ g.children p) :
    p ∈ settled.map (·.node) := by
  induction h with
  | nil => cases he
  | cons _ _ _ hparents _ ih =>
    rcases List.mem_cons.1 he with rfl | he
    · exact List.mem_cons_of_mem _ (hparents p hp hc)
    · exact List.mem_cons_of_mem _ (ih he)

theorem of_append {later earlier : List Settled} (h : g.Settles bodies order (later ++ earlier)) :
    g.Settles bodies order earlier := by
  induction later with
  | nil => exact h
  | cons s later ih =>
    cases h with
    | cons h _ _ _ _ => exact ih h

theorem not_mem_children {s : Settled} {earlier : List Settled}
    (h : g.Settles bodies order (s :: earlier)) {e : NodeId}
    (he : e ∈ (s :: earlier).map (·.node)) : e ∉ g.children s.node := by
  cases h with
  | cons h hmem hnew hparents _ =>
    intro hc
    rcases List.mem_cons.1 he with rfl | he
    · exact hnew (hparents _ hmem hc)
    · exact hnew (h.parents he hmem hc)

/-- What passes from all parents to a node holds of all decided nodes. -/
theorem parents_first {settled : List Settled} (h : g.Settles bodies order settled)
    {P : NodeId → Prop} (step : ∀ e ∈ order, (∀ p ∈ order, e ∈ g.children p → P p) → P e) :
    ∀ e ∈ settled.map (·.node), P e := by
  induction h with
  | nil => exact fun e he => nomatch he
  | cons _ hmem _ hparents _ ih =>
    intro e he
    rcases List.mem_cons.1 he with rfl | he
    · exact step _ hmem fun p hp hc => ih p (hparents p hp hc)
    · exact ih e he

/-- What passes from all children to a node holds of all decided nodes, if it holds of the nodes
that are not decided. -/
theorem children_first {settled : List Settled} (h : g.Settles bodies order settled)
    {P : NodeId → Prop} (hclosed : ∀ p ∈ order, ∀ c ∈ g.children p, c ∈ order)
    (step : ∀ e ∈ order, (∀ c ∈ g.children e, P c) → P e)
    (hrest : ∀ e ∈ order, e ∉ settled.map (·.node) → P e) : ∀ e ∈ settled.map (·.node), P e := by
  induction h with
  | nil => exact fun e he => nomatch he
  | @cons s earlier hearlier hmem hnew hparents hdec ih =>
    have hall : g.Settles bodies order (s :: earlier) := .cons hearlier hmem hnew hparents hdec
    have hs : P s.node := step _ hmem fun c hc =>
      hrest c (hclosed _ hmem c hc) fun hin => hall.not_mem_children hin hc
    have hearly := ih fun e he hnot => by
      by_cases heq : e = s.node
      · exact heq ▸ hs
      · exact hrest e he fun hin => (List.mem_cons.1 hin).elim heq hnot
    intro e he
    rcases List.mem_cons.1 he with rfl | he
    · exact hs
    · exact hearly e he

end Settles

/-! ## The rounds of settling -/

/-- A moment of settling: the nodes in the queue wait for their decision only. -/
structure Settling (g : Graph) (bodies : List (Scope × List NodeId)) (order queue : List NodeId)
    (settled : List Settled) : Prop where
  settles : g.Settles bodies order settled.reverse
  nodup : queue.Nodup
  queued : ∀ e ∈ queue, e ∈ order ∧ e ∉ settled.map (·.node) ∧
    g.isReady order (settled.map (·.node)) e = true

theorem Settling.start (hnodup : order.Nodup) :
    g.Settling bodies order (order.filter (g.isReady order [])) [] where
  settles := .nil
  nodup := hnodup.filter _
  queued := fun e he => by
    rw [List.mem_filter] at he
    exact ⟨he.1, List.not_mem_nil, he.2⟩

theorem Settling.step {e : NodeId} {queue : List NodeId} {settled : List Settled} {s : Settled}
    (h : g.Settling bodies order (e :: queue) settled)
    (hclosed : ∀ p ∈ order, ∀ c ∈ g.children p, c ∈ order)
    (hdec : g.decideNode e (g.landings bodies settled e) = .ok s) :
    g.Settling bodies order
      (queue ++ (g.children e).eraseDups.filter (g.isReady order ((settled ++ [s]).map (·.node))))
      (settled ++ [s]) := by
  have hs : s.node = e := by rw [(decideNode_eq_ok.1 hdec).1]
  obtain ⟨hmem, hnew, hready⟩ := h.queued e List.mem_cons_self
  obtain ⟨heq, hq⟩ := List.nodup_cons.1 h.nodup
  have hnodes : (settled ++ [s]).map (·.node) = settled.map (·.node) ++ [e] := by simp [hs]
  have hparents : ∀ x p, x ∈ settled.map (·.node) → p ∈ order → x ∈ g.children p →
      p ∈ settled.map (·.node) := fun x p hx hp hc => by
    have := h.settles.parents (e := x) (by simpa using hx) hp hc
    simpa using this
  refine ⟨?_, ?_, fun x hx => ?_⟩
  · rw [List.reverse_append, List.reverse_singleton, List.singleton_append]
    refine .cons h.settles (hs ▸ hmem) ?_ ?_ ?_
    · simpa [hs] using hnew
    · simpa [hs] using isReady_iff.1 hready
    · rw [List.reverse_reverse, hs]
      exact hdec
  · rw [List.nodup_append]
    refine ⟨hq, (nodup_eraseDups _).filter _, ?_⟩
    rintro x hx y hy rfl
    rw [List.mem_filter, List.mem_eraseDups] at hy
    obtain ⟨_, _, hx'⟩ := h.queued x (List.mem_cons_of_mem _ hx)
    exact hnew (isReady_iff.1 hx' e hmem hy.1)
  · rw [hnodes] at hx ⊢
    rw [List.mem_append, List.mem_singleton, not_or]
    rcases List.mem_append.1 hx with hx | hx
    · obtain ⟨hxo, hxn, hxr⟩ := h.queued x (List.mem_cons_of_mem _ hx)
      refine ⟨hxo, ⟨hxn, fun heq' => heq (heq' ▸ hx)⟩, isReady_iff.2 fun p hp hc => ?_⟩
      exact List.mem_append_left _ (isReady_iff.1 hxr p hp hc)
    · rw [List.mem_filter, List.mem_eraseDups] at hx
      refine ⟨hclosed e hmem x hx.1, ⟨fun hxs => hnew (hparents x e hxs hmem hx.1), ?_⟩, hx.2⟩
      rintro rfl
      exact hnew (isReady_iff.1 hready x hmem hx.1)

theorem settleRounds_settles {rounds : Nat} {queue : List NodeId} {settled out : List Settled}
    (hclosed : ∀ p ∈ order, ∀ c ∈ g.children p, c ∈ order)
    (h : g.Settling bodies order queue settled)
    (hout : g.settleRounds bodies order rounds queue settled = .ok out) :
    g.Settles bodies order out.reverse := by
  induction rounds generalizing queue settled with
  | zero =>
    cases hout
    exact h.settles
  | succ rounds ih =>
    cases queue with
    | nil =>
      cases hout
      exact h.settles
    | cons e queue =>
      rw [settleRounds] at hout
      cases hdec : g.decideNode e (g.landings bodies settled e) with
      | error fault =>
        rw [hdec] at hout
        cases hout
      | ok s =>
        rw [hdec] at hout
        exact ih (h.step hclosed hdec) hout

/-- Settling fails at a node all of whose parents are decided. -/
theorem settleRounds_eq_error {rounds : Nat} {queue : List NodeId} {settled : List Settled}
    {fault : Fault} (hclosed : ∀ p ∈ order, ∀ c ∈ g.children p, c ∈ order)
    (h : g.Settling bodies order queue settled)
    (hfault : g.settleRounds bodies order rounds queue settled = .error fault) :
    ∃ e ∈ order, ∃ earlier, g.Settles bodies order earlier.reverse ∧
      (∀ p ∈ order, e ∈ g.children p → p ∈ earlier.map (·.node)) ∧
      g.decideNode e (g.landings bodies earlier e) = .error fault := by
  induction rounds generalizing queue settled with
  | zero => cases hfault
  | succ rounds ih =>
    cases queue with
    | nil => cases hfault
    | cons e queue =>
      rw [settleRounds] at hfault
      cases hdec : g.decideNode e (g.landings bodies settled e) with
      | error fault' =>
        rw [hdec] at hfault
        cases hfault
        obtain ⟨hmem, _, hready⟩ := h.queued e List.mem_cons_self
        exact ⟨e, hmem, settled, h.settles, isReady_iff.1 hready, hdec⟩
      | ok s =>
        rw [hdec] at hfault
        exact ih (h.step hclosed hdec) hfault

/-- Settling fails at a node all of whose parents are decided, or leaves nodes undecided. -/
theorem settle_eq_error {roots : List NodeId} {fault : Fault} (hnodup : order.Nodup)
    (hclosed : ∀ p ∈ order, ∀ c ∈ g.children p, c ∈ order)
    (h : g.settle roots order = .error fault) :
    (∃ e ∈ order, ∃ earlier, g.Settles (g.bodies roots order) order earlier.reverse ∧
      (∀ p ∈ order, e ∈ g.children p → p ∈ earlier.map (·.node)) ∧
      g.decideNode e (g.landings (g.bodies roots order) earlier e) = .error fault) ∨
    fault = .cyclicGraph ∧ ∃ out, out.length < order.length ∧
      g.settleRounds (g.bodies roots order) order order.length
        (order.filter (g.isReady order [])) [] = .ok out := by
  unfold settle at h
  cases hr : g.settleRounds (g.bodies roots order) order order.length
      (order.filter (g.isReady order [])) [] with
  | error fault' =>
    rw [hr] at h
    cases h
    exact .inl (settleRounds_eq_error hclosed (.start hnodup) hr)
  | ok out =>
    rw [hr] at h
    change (if out.length < order.length then _ else _) = _ at h
    split at h
    · rename_i hlen
      cases h
      exact .inr ⟨rfl, out, hlen, rfl⟩
    · cases h

/-- All nodes are decided, each after those that refer to it. -/
theorem settle_settles {roots : List NodeId} {settled : List Settled} (hnodup : order.Nodup)
    (hclosed : ∀ p ∈ order, ∀ c ∈ g.children p, c ∈ order)
    (h : g.settle roots order = .ok settled) :
    g.Settles (g.bodies roots order) order settled.reverse ∧
      (settled.map (·.node)).Perm order := by
  unfold settle at h
  cases hr : g.settleRounds (g.bodies roots order) order order.length
      (order.filter (g.isReady order [])) [] with
  | error fault =>
    rw [hr] at h
    cases h
  | ok out =>
    rw [hr] at h
    change (if out.length < order.length then _ else _) = _ at h
    split at h
    · cases h
    · rename_i hlen
      cases h
      have hs := settleRounds_settles hclosed (.start hnodup) hr
      refine ⟨hs, ?_⟩
      have hsub : (settled.map (·.node)).Subperm order := by
        refine List.Nodup.subperm ?_ ?_
        · have hn := hs.nodup
          rwa [List.map_reverse, (List.reverse_perm _).nodup_iff] at hn
        · simpa using hs.subset
      exact hsub.perm_of_length_le (by simpa using hlen)

/-! ## Graphs without cycles -/

/-- No node that is ready is forgotten. -/
def Prompt (g : Graph) (order queue : List NodeId) (settled : List Settled) : Prop :=
  ∀ e ∈ order, g.isReady order (settled.map (·.node)) e = true →
    e ∈ settled.map (·.node) ∨ e ∈ queue

theorem Prompt.start : g.Prompt order (order.filter (g.isReady order [])) [] :=
  fun _ he hready => .inr (List.mem_filter.2 ⟨he, hready⟩)

theorem Prompt.step {e : NodeId} {queue : List NodeId} {settled : List Settled} {s : Settled}
    (h : g.Prompt order (e :: queue) settled) (hs : s.node = e) :
    g.Prompt order
      (queue ++ (g.children e).eraseDups.filter (g.isReady order ((settled ++ [s]).map (·.node))))
      (settled ++ [s]) := by
  intro x hx hready
  have hnodes : (settled ++ [s]).map (·.node) = settled.map (·.node) ++ [e] := by simp [hs]
  by_cases hbefore : g.isReady order (settled.map (·.node)) x = true
  · rw [hnodes]
    rcases h x hx hbefore with hsettled | hqueue
    · exact .inl (List.mem_append_left _ hsettled)
    · rcases List.mem_cons.1 hqueue with rfl | hqueue
      · exact .inl (List.mem_append_right _ (List.mem_singleton_self _))
      · exact .inr (List.mem_append_left _ hqueue)
  · -- The node became ready with the decision on `e`, so `e` refers to it.
    rw [isReady_iff] at hbefore
    push Not at hbefore
    obtain ⟨p, hp, hc, hnot⟩ := hbefore
    have hpe : p = e := by
      have hin := isReady_iff.1 hready p hp hc
      rw [hnodes, List.mem_append, List.mem_singleton] at hin
      exact hin.resolve_left hnot
    exact .inr (List.mem_append_right _
      (List.mem_filter.2 ⟨List.mem_eraseDups.2 (hpe ▸ hc), hready⟩))

/-- Without cycles some node is ready as long as any is left. -/
theorem Prompt.subset {settled : List Settled} (h : g.Prompt order [] settled)
    (hacyclic : g.AcyclicOn order) : order ⊆ settled.map (·.node) :=
  hacyclic.parents_first fun e he hparents =>
    (h e he (isReady_iff.2 hparents)).resolve_right List.not_mem_nil

theorem Prompt.length_le {rounds : Nat} {queue : List NodeId} {settled out : List Settled}
    (h : g.Prompt order queue settled) (hnodup : order.Nodup)
    (hacyclic : g.AcyclicOn order)
    (hrounds : order.length ≤ settled.length + rounds)
    (hout : g.settleRounds bodies order rounds queue settled = .ok out) :
    order.length ≤ out.length := by
  induction rounds generalizing queue settled with
  | zero =>
    cases hout
    exact hrounds
  | succ rounds ih =>
    cases queue with
    | nil =>
      cases hout
      have := (hnodup.subperm (h.subset hacyclic)).length_le
      rwa [List.length_map] at this
    | cons e queue =>
      rw [settleRounds] at hout
      cases hdec : g.decideNode e (g.landings bodies settled e) with
      | error fault =>
        rw [hdec] at hout
        cases hout
      | ok s =>
        rw [hdec] at hout
        have hs : s.node = e := by rw [(decideNode_eq_ok.1 hdec).1]
        refine ih (h.step hs) ?_ hout
        rw [List.length_append, List.length_singleton]
        omega

/-! ## Exact landings -/

/-- How often `e` is a root of the bodies of a scope. -/
def rootCount (bodies : List (Scope × List NodeId)) (e : NodeId) (t : Scope) : Nat :=
  (bodies.map fun b => if b.1 = t then b.2.count e else 0).sum

theorem count_le_rootCount {t : Scope} {roots : List NodeId} (h : (t, roots) ∈ bodies)
    (e : NodeId) : roots.count e ≤ rootCount bodies e t :=
  List.le_sum_of_mem (List.mem_map.2 ⟨_, h, if_pos rfl⟩)

/-- How often a node lands in a scope: as a root, and through the nodes that refer to it. The
decisions are listed latest first. -/
def exactLandings (g : Graph) (bodies : List (Scope × List NodeId)) :
    List Settled → NodeId → Scope → Nat
  | [], e, t => rootCount bodies e t
  | s :: earlier, e, t => exactLandings g bodies earlier e t + (g.children s.node).count e *
    if s.declared then (if g.scopeOf s.node = t then 1 else 0)
    else exactLandings g bodies earlier s.node t

/-- The landings of `e` with those as a root of one body. -/
def placeRoots (e : NodeId) (l : Landings) (b : Scope × List NodeId) : Landings :=
  if b.2.contains e then l.place b.1 (b.2.count e) else l

theorem rootLandings_eq (e : NodeId) : rootLandings bodies e = bodies.foldl (placeRoots e) [] :=
  rfl

theorem rootLandings_proper (e : NodeId) : (rootLandings bodies e).Proper ∧
    ∀ t, (rootLandings bodies e).countAt t = min (rootCount bodies e t) Landings.cap := by
  rw [rootLandings_eq]
  suffices h : ∀ l : Landings, l.Proper → (bodies.foldl (placeRoots e) l).Proper ∧
      ∀ t, Landings.countAt (bodies.foldl (placeRoots e) l) t =
        min (l.countAt t + rootCount bodies e t) Landings.cap by
    simpa using h [] Landings.proper_nil
  induction bodies with
  | nil =>
    refine fun l hl => ⟨hl, fun t => ?_⟩
    simpa [rootCount] using (Nat.min_eq_left (hl.countAt_le t)).symm
  | cons b bodies ih =>
    intro l hl
    obtain ⟨s, roots⟩ := b
    rw [List.foldl_cons, placeRoots]
    have hcount : ∀ t, rootCount ((s, roots) :: bodies) e t =
        (if s = t then roots.count e else 0) + rootCount bodies e t := fun t => by
      simp [rootCount]
    by_cases he : e ∈ roots
    · rw [if_pos (by simpa using he)]
      obtain ⟨hp, hc⟩ := ih _ (hl.place (List.count_pos_iff.2 he) s)
      refine ⟨hp, fun t => ?_⟩
      rw [hc, Landings.countAt_place, hcount]
      by_cases hts : t = s
      · subst hts
        simp only [if_true]
        omega
      · rw [if_neg hts, if_neg (Ne.symm hts), Nat.zero_add]
    · rw [if_neg (by simpa using he)]
      obtain ⟨hp, hc⟩ := ih l hl
      refine ⟨hp, fun t => ?_⟩
      rw [hc, hcount, List.count_eq_zero.2 he]
      simp

theorem min_add_min_mul (a b c : Nat) {k : Nat} (hk : 0 < k) :
    min (min a c + min b c * k) c = min (a + k * b) c := by
  rcases Nat.le_total b c with h | h
  · rw [Nat.min_eq_left h, Nat.mul_comm k]
    omega
  · have h₁ : c ≤ c * k := Nat.le_mul_of_pos_right c hk
    have h₂ : b ≤ k * b := Nat.le_mul_of_pos_left b hk
    rw [Nat.min_eq_right h]
    omega

namespace Settles

variable {settled : List Settled} (h : g.Settles bodies order settled)

include h

/-- Up to the cap, landings are the exact ones. -/
theorem landings_proper (e : NodeId) : (g.landings bodies settled.reverse e).Proper ∧
    ∀ t, (g.landings bodies settled.reverse e).countAt t =
      min (g.exactLandings bodies settled e t) Landings.cap := by
  induction h generalizing e with
  | nil => exact rootLandings_proper e
  | @cons s earlier _ _ _ _ hdec ih =>
    obtain ⟨hs, _⟩ := decideNode_eq_ok.1 hdec
    have hland : s.landings = g.landings bodies earlier.reverse s.node := by rw [hs]
    have hstep : g.landings bodies (s :: earlier).reverse e =
        if (g.children s.node).count e = 0 then g.landings bodies earlier.reverse e
        else Landings.spread ((g.children s.node).count e) (g.landings bodies earlier.reverse e)
          (g.handedDown s) := by
      rw [List.reverse_cons, landings, List.foldl_append]
      rfl
    have hdown : (g.handedDown s).Proper ∧ ∀ t, (g.handedDown s).countAt t =
        min (if s.declared then (if g.scopeOf s.node = t then 1 else 0)
          else g.exactLandings bodies earlier s.node t) Landings.cap := by
      unfold handedDown
      by_cases hd : s.declared = true
      · simp only [hd, if_true]
        refine ⟨⟨by simp [Landings.scopes], ?_⟩, fun t => ?_⟩
        · intro p hp
          rw [List.mem_singleton.1 hp]
          exact ⟨Nat.one_pos, show 1 ≤ 2 from Nat.le_succ 1⟩
        · rw [Landings.countAt_cons, Landings.countAt_nil]
          by_cases ht : t = g.scopeOf s.node
          · rw [if_pos ht, if_pos ht.symm]
            decide
          · rw [if_neg ht, if_neg (Ne.symm ht)]
            decide
      · simp only [hd, if_false, Bool.false_eq_true]
        rw [hland]
        exact ih s.node
    obtain ⟨hp, hc⟩ := ih e
    rw [hstep]
    split
    · rename_i hzero
      refine ⟨hp, fun t => ?_⟩
      rw [hc, exactLandings, hzero, Nat.zero_mul, Nat.add_zero]
    · rename_i hpos
      have hpos' := Nat.pos_of_ne_zero hpos
      refine ⟨hp.spread hpos' hdown.1, fun t => ?_⟩
      rw [Landings.countAt_spread hp.countAt_le hdown.1.nodup, hc, hdown.2, exactLandings,
        min_add_min_mul _ _ _ hpos']

end Settles

/-- A decision adds nothing to the landings of nodes that were decided before, or of its own. -/
theorem Settles.exactLandings_cons {s : Settled} {earlier : List Settled}
    (h : g.Settles bodies order (s :: earlier)) {e : NodeId}
    (he : e ∈ (s :: earlier).map (·.node)) (t : Scope) :
    g.exactLandings bodies (s :: earlier) e t = g.exactLandings bodies earlier e t := by
  rw [exactLandings, List.count_eq_zero.2 (h.not_mem_children he), Nat.zero_mul, Nat.add_zero]

namespace Settles

variable {settled : List Settled} (h : g.Settles bodies order settled)

include h

/-- Each decision is made on the node's landings, which are the exact ones up to the cap. -/
theorem decision {s : Settled} (hs : s ∈ settled) :
    s = ⟨s.node, g.mustDeclare s.node s.landings, s.landings⟩ ∧ s.landings.Proper ∧
      (∀ t, s.landings.countAt t = min (g.exactLandings bodies settled s.node t) Landings.cap) ∧
      ((s.declared || g.isParameter s.node) = true →
        ∀ t ∈ s.landings.scopes, g.isWithin t (g.scopeOf s.node) = true) := by
  induction h with
  | nil => cases hs
  | @cons s' earlier hearlier hmem hnew hparents hdec ih =>
    have hall : g.Settles bodies order (s' :: earlier) := .cons hearlier hmem hnew hparents hdec
    have hexact := fun t => (hall.exactLandings_cons (List.mem_map_of_mem hs) t).symm
    rcases List.mem_cons.1 hs with rfl | hs
    · obtain ⟨heq, hleak⟩ := decideNode_eq_ok.1 hdec
      obtain ⟨hp, hc⟩ := hearlier.landings_proper s.node
      have hland : s.landings = g.landings bodies earlier.reverse s.node := by rw [heq]
      have hdecl : s.declared = g.mustDeclare s.node s.landings := by rw [hland, heq]
      refine ⟨by rw [← hdecl], hland ▸ hp, fun t => ?_, fun hd t ht => ?_⟩
      · rw [hland, hc, hexact]
      · rw [hland] at ht hdecl
        exact hleak (hdecl ▸ hd) t ht
    · obtain ⟨heq, hp, hc, hleak⟩ := ih hs
      exact ⟨heq, hp, fun t => by rw [hc, hexact], hleak⟩

theorem exactLandings_eq (e : NodeId) (t : Scope) :
    g.exactLandings bodies settled e t = rootCount bodies e t +
      (settled.map fun s => (g.children s.node).count e *
        if s.declared then (if g.scopeOf s.node = t then 1 else 0)
        else g.exactLandings bodies settled s.node t).sum := by
  induction h with
  | nil => simp [exactLandings]
  | @cons s earlier hearlier hmem hnew hparents hdec ih =>
    have hall : g.Settles bodies order (s :: earlier) := .cons hearlier hmem hnew hparents hdec
    have hown := hall.exactLandings_cons (e := s.node) (by simp) t
    rw [List.map_cons, List.sum_cons, hown]
    have hrest : (earlier.map fun s' => (g.children s'.node).count e *
        if s'.declared then (if g.scopeOf s'.node = t then 1 else 0)
        else g.exactLandings bodies (s :: earlier) s'.node t) =
        earlier.map fun s' => (g.children s'.node).count e *
        if s'.declared then (if g.scopeOf s'.node = t then 1 else 0)
        else g.exactLandings bodies earlier s'.node t :=
      List.map_congr_left fun s' hs' => by
        rw [hall.exactLandings_cons (List.mem_cons_of_mem _ (List.mem_map_of_mem hs'))]
    rw [hrest, exactLandings, ih]
    omega

end Settles

end ScriptGraph.Graph
