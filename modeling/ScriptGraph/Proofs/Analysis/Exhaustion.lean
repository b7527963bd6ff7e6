import ScriptGraph.Proofs.Analysis.DeclarationOrder
import ScriptGraph.Proofs.Analysis.Settling

/-!
# The limits of an analysis do not matter

Settling goes on for a number of rounds, looking for references and placing declarations to a
depth. The numbers are large enough: with larger ones the outcome is the same.

* `Graph.Settling.settleRounds_congr` : so many rounds as there are nodes left to decide;
* `Declared.search_congr` : so deep as there are nodes left to visit;
* `Declared.place_congr` : so deep as there are declarations left to begin.
-/

namespace ScriptGraph

namespace Graph

variable {g : Graph} {bodies : List (Scope × List NodeId)} {order queue : List NodeId}
  {settled : List Settled}

theorem Settling.length_le (h : g.Settling bodies order queue settled) :
    queue.length + settled.length ≤ order.length := by
  have hsettled := h.settles.nodup
  rw [List.map_reverse, List.nodup_reverse] at hsettled
  have hall : (queue ++ settled.map (·.node)).Nodup := by
    rw [List.nodup_append]
    refine ⟨h.nodup, hsettled, ?_⟩
    rintro e he x hx rfl
    exact (h.queued e he).2.1 hx
  have hsub : queue ++ settled.map (·.node) ⊆ order := by
    refine List.append_subset.2 ⟨fun e he => (h.queued e he).1, fun e he => ?_⟩
    have hmem := h.settles.subset
    rw [List.map_reverse] at hmem
    exact hmem (List.mem_reverse.2 he)
  have hle := (List.Nodup.subperm hall hsub).length_le
  rwa [List.length_append, List.length_map] at hle

/-- One round for each node that is not decided is enough. -/
theorem Settling.settleRounds_congr (hclosed : ∀ p ∈ order, ∀ c ∈ g.children p, c ∈ order)
    (h : g.Settling bodies order queue settled) {rounds rounds' : Nat}
    (hrounds : order.length ≤ rounds + settled.length)
    (hrounds' : order.length ≤ rounds' + settled.length) :
    g.settleRounds bodies order rounds queue settled =
      g.settleRounds bodies order rounds' queue settled := by
  induction rounds generalizing rounds' queue settled with
  | zero =>
    have hqueue : queue = [] := by
      have := h.length_le
      exact List.length_eq_zero_iff.1 (by omega)
    subst hqueue
    cases rounds' <;> rfl
  | succ rounds ih =>
    cases queue with
    | nil => cases rounds' <;> rfl
    | cons e queue =>
      have hpos : 0 < rounds' := by
        have := h.length_le
        rw [List.length_cons] at this
        omega
      obtain ⟨rounds', rfl⟩ := Nat.exists_eq_add_one.2 hpos
      rw [settleRounds, settleRounds]
      cases hdec : g.decideNode e (g.landings bodies settled e) with
      | error fault => rfl
      | ok s =>
        refine ih (h.step hclosed hdec) ?_ ?_ <;>
          rw [List.length_append, List.length_singleton] <;> omega

end Graph

namespace Declared

variable {d : Declared} {scope : Scope}

theorem search_congr (hd : d.Closed) {depth depth' : Nat} {todo : List NodeId} {s : Search}
    (htodo : todo ⊆ d.order) (hdepth : unbegun d.order s.visited ≤ depth)
    (hdepth' : unbegun d.order s.visited ≤ depth') :
    todo.foldl (d.searchStep scope depth) s = todo.foldl (d.searchStep scope depth') s := by
  -- A search goes on below a node with one depth less, and beside it with more nodes visited.
  induction depth using Nat.strongRecOn generalizing depth' todo s with
  | _ depth ihd =>
    induction todo generalizing s with
    | nil => rfl
    | cons c todo iht =>
      have hc : c ∈ d.order := htodo List.mem_cons_self
      have hrest : todo ⊆ d.order := fun x hx => htodo (List.mem_cons_of_mem c hx)
      have hstep : d.searchStep scope depth s c = d.searchStep scope depth' s c := by
        unfold searchStep
        split_ifs with _ _ _ hseen
        · rfl
        · rfl
        · rfl
        · rfl
        · have hlt := unbegun_cons_lt hc (by simpa using hseen)
          obtain ⟨k, rfl⟩ : ∃ k, depth = k + 1 := Nat.exists_eq_add_one.2 (by omega)
          obtain ⟨k', rfl⟩ : ∃ k', depth' = k' + 1 := Nat.exists_eq_add_one.2 (by omega)
          rw [search_succ, search_succ]
          exact ihd k (Nat.lt_add_one k) (hd.neighbours c hc) (by dsimp only; omega)
            (by dsimp only; omega)
      obtain ⟨_, hwalk, _⟩ := d.search_depthFirst hd scope depth [c] s
        (List.cons_subset.2 ⟨hc, List.nil_subset _⟩) hdepth
      have hvisited : s.visited ⊆ (d.searchStep scope depth s c).visited := hwalk.suffix.subset
      rw [List.foldl_cons, List.foldl_cons, ← hstep]
      exact iht hrest ((unbegun_anti hvisited).trans hdepth) ((unbegun_anti hvisited).trans hdepth')

theorem place_congr (hd : d.Closed) {depth depth' : Nat} {todo : List NodeId} {p : Placing}
    (htodo : todo ⊆ d.group scope) (hdepth : unbegun (d.group scope) p.begun ≤ depth)
    (hdepth' : unbegun (d.group scope) p.begun ≤ depth') :
    todo.foldl (d.placeAfterReferences scope depth) p =
      todo.foldl (d.placeAfterReferences scope depth') p := by
  induction depth using Nat.strongRecOn generalizing depth' todo p with
  | _ depth ihd =>
    induction todo generalizing p with
    | nil => rfl
    | cons e todo iht =>
      have he : e ∈ d.group scope := htodo List.mem_cons_self
      have hrest : todo ⊆ d.group scope := fun x hx => htodo (List.mem_cons_of_mem e hx)
      have hstep : d.placeAfterReferences scope depth p e =
          d.placeAfterReferences scope depth' p e := by
        by_cases hb : e ∈ p.begun
        · have hsame : ∀ n, d.placeAfterReferences scope n p e = p := fun n => by
            cases n with
            | zero => rfl
            | succ n => rw [placeAfterReferences, if_pos (by simpa using hb)]
          rw [hsame, hsame]
        · have hlt := unbegun_cons_lt he hb
          obtain ⟨k, rfl⟩ : ∃ k, depth = k + 1 := Nat.exists_eq_add_one.2 (by omega)
          obtain ⟨k', rfl⟩ : ∃ k', depth' = k' + 1 := Nat.exists_eq_add_one.2 (by omega)
          rw [placeAfterReferences, placeAfterReferences, if_neg (by simpa using hb),
            if_neg (by simpa using hb)]
          have hinner : (d.references scope e).foldl (d.placeAfterReferences scope k)
                { p with begun := e :: p.begun } =
              (d.references scope e).foldl (d.placeAfterReferences scope k')
                { p with begun := e :: p.begun } :=
            ihd k (Nat.lt_add_one k) (references_subset hd he) (by dsimp only; omega)
              (by dsimp only; omega)
          rw [hinner]
      obtain ⟨_, hwalk, _⟩ := d.place_depthFirst hd scope depth [e] p
        (List.cons_subset.2 ⟨he, List.nil_subset _⟩) hdepth
      have hbegun : p.begun ⊆ (d.placeAfterReferences scope depth p e).begun := hwalk.suffix.subset
      rw [List.foldl_cons, List.foldl_cons, ← hstep]
      exact iht hrest ((unbegun_anti hbegun).trans hdepth) ((unbegun_anti hbegun).trans hdepth')

end Declared

end ScriptGraph
