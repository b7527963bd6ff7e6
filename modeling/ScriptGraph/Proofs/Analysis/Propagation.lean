import ScriptGraph.Proofs.Analysis.Settling

/-!
# Settling with counters

Whether a node is ready need not be looked up in the whole graph. It is enough to count, for each
node, the nodes that refer to it and are not settled yet, and to hand landings down when a node is
settled.

* `Counters` : how many parents are left, the landings handed down so far, and what waits;
* `Graph.propagate` : settles all nodes by counting;
* `Graph.Tracks` : counters are right about the nodes that are settled; kept by each decision
  (`Graph.Tracks.step`);
* `Graph.propagate_eq` : so counting settles the nodes as `Graph.settle` does.
-/

namespace ScriptGraph

/-- What is known of nodes that are not settled. -/
structure Counters where
  /-- How many nodes refer to a node and are not settled. -/
  left : NodeId → Nat
  /-- The landings that were handed down to a node. -/
  landed : NodeId → Landings
  /-- The nodes that wait for their decision. -/
  queue : List NodeId

namespace Graph

/-- Hands down the landings of a settled node to one of its children, and counts it as settled. -/
def handDown (g : Graph) (s : Settled) (t : Counters) (c : NodeId) : Counters where
  left := Function.update t.left c (t.left c - 1)
  landed := Function.update t.landed c
    (Landings.spread ((g.children s.node).count c) (t.landed c) (g.handedDown s))
  queue := if t.left c - 1 = 0 then t.queue ++ [c] else t.queue

/-- Settles the nodes that wait and those whose counter comes to zero, for a number of rounds. -/
def propagateRounds (g : Graph) : Nat → Counters → List Settled → Except Fault (List Settled)
  | 0, _, settled => .ok settled
  | rounds + 1, t, settled =>
    match t.queue with
    | [] => .ok settled
    | e :: queue => do
      let s ← g.decideNode e (t.landed e)
      propagateRounds g rounds ((g.children e).eraseDups.foldl (g.handDown s) { t with queue })
        (settled ++ [s])

/-- How many nodes of a list refer to a node. One that does so several times counts once. -/
def countParents (g : Graph) (order : List NodeId) : NodeId → Nat :=
  order.foldl (fun parents p =>
    (g.children p).eraseDups.foldl (fun parents c => Function.update parents c (parents c + 1))
      parents) fun _ => 0

/-- Decides the reachable nodes, each when all that refer to it have been counted as settled. -/
def propagate (g : Graph) (roots order : List NodeId) : Except Fault (List Settled) := do
  let parents := g.countParents order
  let settled ← g.propagateRounds order.length
    ⟨parents, rootLandings (g.bodies roots order), order.filter (parents · = 0)⟩ []
  if settled.length < order.length then .error .cyclicGraph else .ok settled

variable {g : Graph} {bodies : List (Scope × List NodeId)} {roots order cs : List NodeId}
  {settled : List Settled} {s : Settled} {t : Counters} {e : NodeId}

/-! ## Counters -/

theorem left_foldl_handDown (hcs : cs.Nodup) (x : NodeId) :
    (cs.foldl (g.handDown s) t).left x = if x ∈ cs then t.left x - 1 else t.left x := by
  induction cs generalizing t with
  | nil => rfl
  | cons c cs ih =>
    obtain ⟨hc, hcs⟩ := List.nodup_cons.1 hcs
    rw [List.foldl_cons, ih hcs, handDown]
    by_cases hx : x = c
    · subst hx
      simp [hc]
    · simp [hx]

theorem landed_foldl_handDown (hcs : cs.Nodup) (x : NodeId) :
    (cs.foldl (g.handDown s) t).landed x = if x ∈ cs then
      Landings.spread ((g.children s.node).count x) (t.landed x) (g.handedDown s)
    else t.landed x := by
  induction cs generalizing t with
  | nil => rfl
  | cons c cs ih =>
    obtain ⟨hc, hcs⟩ := List.nodup_cons.1 hcs
    rw [List.foldl_cons, ih hcs, handDown]
    by_cases hx : x = c
    · subst hx
      simp [hc]
    · simp [hx]

theorem queue_foldl_handDown (hcs : cs.Nodup) : (cs.foldl (g.handDown s) t).queue =
    t.queue ++ cs.filter fun c => t.left c - 1 = 0 := by
  induction cs generalizing t with
  | nil => exact (List.append_nil _).symm
  | cons c cs ih =>
    obtain ⟨hc, hcs⟩ := List.nodup_cons.1 hcs
    have hrest : cs.filter (fun x => decide ((g.handDown s t c).left x - 1 = 0)) =
        cs.filter fun x => t.left x - 1 = 0 := List.filter_congr fun x hx => by
      have hne : x ≠ c := fun h => hc (h ▸ hx)
      simp [handDown, hne]
    rw [List.foldl_cons, ih hcs, hrest, List.filter_cons, handDown]
    by_cases hzero : t.left c - 1 = 0
    · simp [hzero]
    · simp [hzero]

theorem foldl_update_succ (hcs : cs.Nodup) (parents : NodeId → Nat) (x : NodeId) :
    cs.foldl (fun parents c => Function.update parents c (parents c + 1)) parents x =
      parents x + if x ∈ cs then 1 else 0 := by
  induction cs generalizing parents with
  | nil => rfl
  | cons c cs ih =>
    obtain ⟨hc, hcs⟩ := List.nodup_cons.1 hcs
    rw [List.foldl_cons, ih hcs]
    by_cases hx : x = c
    · subst hx
      simp [hc]
    · simp [hx]

theorem countParents_eq (order : List NodeId) (x : NodeId) :
    g.countParents order x = order.countP fun p => (g.children p).contains x := by
  have hcount : ∀ parents : NodeId → Nat, order.foldl (fun parents p =>
      (g.children p).eraseDups.foldl (fun parents c => Function.update parents c (parents c + 1))
        parents) parents x =
      parents x + order.countP fun p => (g.children p).contains x := by
    induction order with
    | nil => exact fun _ => rfl
    | cons p order ih =>
      intro parents
      rw [List.foldl_cons, ih, foldl_update_succ (nodup_eraseDups _), List.countP_cons,
        Nat.add_assoc, Nat.add_comm (order.countP _)]
      simp only [List.mem_eraseDups, List.contains_iff_mem]
  exact (hcount _).trans (Nat.zero_add _)

/-! ## What the counters say -/

/-- The nodes of a list that refer to `x` and are not settled. -/
def undecided (g : Graph) (order settled : List NodeId) (x : NodeId) : Nat :=
  order.countP fun p => (g.children p).contains x && !settled.contains p

theorem undecided_eq_zero {nodes : List NodeId} {x : NodeId} :
    g.undecided order nodes x = 0 ↔ g.isReady order nodes x = true := by
  rw [undecided, List.countP_eq_zero, isReady_iff]
  simp only [Bool.and_eq_true, Bool.not_eq_true', List.contains_eq_mem, decide_eq_true_eq,
    decide_eq_false_iff_not, not_and, Decidable.not_not]

/-- A decision counts down the children of the node, once each. -/
theorem undecided_concat {nodes : List NodeId} (hnodup : order.Nodup) (he : e ∈ order)
    (hnew : e ∉ nodes) (x : NodeId) : g.undecided order (nodes ++ [e]) x =
      if x ∈ g.children e then g.undecided order nodes x - 1 else g.undecided order nodes x := by
  have hperm := List.perm_cons_erase he
  have hrest : (order.erase e).countP (fun p => (g.children p).contains x &&
        !(nodes ++ [e]).contains p) =
      (order.erase e).countP fun p => (g.children p).contains x && !nodes.contains p :=
    List.countP_congr fun p hp => by
      have hne : p ≠ e := fun h => hnodup.not_mem_erase (h ▸ hp)
      simp [hne]
  rw [undecided, undecided, hperm.countP_eq, hperm.countP_eq, List.countP_cons, List.countP_cons,
    hrest]
  by_cases hx : x ∈ g.children e
  · simp [hx, hnew]
  · simp [hx]

/-- The counters are right about what is settled. -/
structure Tracks (g : Graph) (bodies : List (Scope × List NodeId)) (order : List NodeId)
    (settled : List Settled) (t : Counters) : Prop where
  left : ∀ x, t.left x = g.undecided order (settled.map (·.node)) x
  landed : ∀ x, t.landed x = g.landings bodies settled x

/-- A decision hands down to the children, and leaves the others alone. -/
theorem landings_concat (x : NodeId) : g.landings bodies (settled ++ [s]) x =
    if x ∈ g.children s.node then
      Landings.spread ((g.children s.node).count x) (g.landings bodies settled x) (g.handedDown s)
    else g.landings bodies settled x := by
  rw [landings, List.foldl_append]
  by_cases hx : x ∈ g.children s.node
  · rw [if_pos hx]
    exact if_neg (List.count_pos_iff.2 hx).ne'
  · rw [if_neg hx]
    exact if_pos (List.count_eq_zero.2 hx)

theorem Tracks.start (g : Graph) (roots order : List NodeId) (queue : List NodeId) :
    g.Tracks (g.bodies roots order) order []
      ⟨g.countParents order, rootLandings (g.bodies roots order), queue⟩ where
  left x := by simp [countParents_eq, undecided]
  landed _ := rfl

theorem Tracks.step {queue : List NodeId} (h : g.Tracks bodies order settled t)
    (hnodup : order.Nodup) (hs : s.node ∈ order) (hnew : s.node ∉ settled.map (·.node)) :
    g.Tracks bodies order (settled ++ [s])
      ((g.children s.node).eraseDups.foldl (g.handDown s) { t with queue }) where
  left x := by
    rw [left_foldl_handDown (nodup_eraseDups _), List.map_append, List.map_singleton,
      undecided_concat hnodup hs hnew, h.left]
    simp only [List.mem_eraseDups]
  landed x := by
    rw [landed_foldl_handDown (nodup_eraseDups _), landings_concat, h.landed]
    simp only [List.mem_eraseDups]

/-! ## Settling by counting -/

theorem propagateRounds_eq (rounds : Nat) (hnodup : order.Nodup)
    (hclosed : ∀ p ∈ order, ∀ c ∈ g.children p, c ∈ order)
    (h : g.Settling bodies order t.queue settled) (htracks : g.Tracks bodies order settled t) :
    g.propagateRounds rounds t settled = g.settleRounds bodies order rounds t.queue settled := by
  induction rounds generalizing t settled with
  | zero => rfl
  | succ rounds ih =>
    rw [propagateRounds]
    cases hqueue : t.queue with
    | nil => rfl
    | cons e queue =>
      rw [hqueue] at h
      dsimp only
      rw [settleRounds, ← htracks.landed]
      cases hdec : g.decideNode e (t.landed e) with
      | error fault => rfl
      | ok s =>
        have hs : s.node = e := by rw [(decideNode_eq_ok.1 hdec).1]
        obtain ⟨hmem, hnew, _⟩ := h.queued e List.mem_cons_self
        subst hs
        have hnext := h.step hclosed (htracks.landed s.node ▸ hdec)
        have hready : ((g.children s.node).eraseDups.foldl (g.handDown s)
            { t with queue := queue }).queue =
            queue ++ (g.children s.node).eraseDups.filter
              (g.isReady order ((settled ++ [s]).map (·.node))) := by
          rw [queue_foldl_handDown (nodup_eraseDups _)]
          refine congrArg (queue ++ ·) (List.filter_congr fun c hc => ?_)
          rw [Bool.eq_iff_iff, decide_eq_true_iff, ← undecided_eq_zero, List.map_append,
            List.map_singleton, undecided_concat hnodup hmem hnew, if_pos (List.mem_eraseDups.1 hc),
            htracks.left]
        rw [← hready] at hnext
        have := ih hnext (htracks.step hnodup hmem hnew)
        rwa [hready] at this

/-- Counting settles the nodes as looking at the whole graph does. -/
theorem propagate_eq (hnodup : order.Nodup)
    (hclosed : ∀ p ∈ order, ∀ c ∈ g.children p, c ∈ order) :
    g.propagate roots order = g.settle roots order := by
  have hstart := Tracks.start g roots order (order.filter (g.countParents order · = 0))
  have hqueue : order.filter (g.countParents order · = 0) = order.filter (g.isReady order []) :=
    List.filter_congr fun x _ => by
      rw [Bool.eq_iff_iff, decide_eq_true_iff, ← undecided_eq_zero]
      exact Eq.congr_left (hstart.left x)
  have hrounds := propagateRounds_eq order.length hnodup hclosed
    (hqueue ▸ Settling.start hnodup) hstart
  unfold propagate settle
  dsimp only
  rw [hrounds, hqueue]

end Graph

end ScriptGraph
