import Mathlib
import ScriptGraph.Analysis.Landing

/-!
# Counting landings

* `Landings.countAt` : the count of a scope, zero if the scope did not come up;
* `Landings.Proper` : each scope comes up once, with a count between one and the cap;
* `Landings.countAt_place`, `Landings.countAt_spread` : counts add up to the cap;
* `Landings.total_eq_sum` : the total is the sum of the counts.
-/

namespace ScriptGraph.Landings

/-- The count of a scope. -/
def countAt (l : Landings) (t : Scope) : Nat := (l.lookup t).getD 0

structure Proper (l : Landings) : Prop where
  nodup : l.scopes.Nodup
  bounded : ∀ p ∈ l, 0 < p.2 ∧ p.2 ≤ cap

theorem proper_nil : Proper [] := ⟨.nil, fun _ h => nomatch h⟩

@[simp] theorem countAt_nil (t : Scope) : countAt [] t = 0 := rfl

theorem countAt_cons (s : Scope) (n : Nat) (l : Landings) (t : Scope) :
    countAt ((s, n) :: l) t = if t = s then n else countAt l t := by
  unfold countAt
  rw [List.lookup_cons]
  by_cases h : t = s
  · simp [h]
  · simp [h, beq_eq_false_iff_ne.2 h]

theorem countAt_place (l : Landings) (s t : Scope) (n : Nat) :
    (l.place s n).countAt t = if t = s then min (l.countAt s + n) cap else l.countAt t := by
  induction l with
  | nil =>
    rw [place, countAt_cons]
    simp
  | cons p l ih =>
    obtain ⟨s', m⟩ := p
    rw [place]
    by_cases hs : s' = s
    · subst hs
      rw [if_pos rfl, countAt_cons, countAt_cons, countAt_cons, if_pos rfl]
      by_cases ht : t = s' <;> simp [ht]
    · rw [if_neg hs, countAt_cons, ih, countAt_cons, countAt_cons]
      by_cases ht : t = s
      · subst ht
        simp [Ne.symm hs]
      · simp [ht]

theorem scopes_place (l : Landings) (s : Scope) (n : Nat) :
    (l.place s n).scopes = if s ∈ l.scopes then l.scopes else l.scopes ++ [s] := by
  induction l with
  | nil => simp [place, scopes]
  | cons p l ih =>
    obtain ⟨s', m⟩ := p
    simp only [scopes] at ih
    by_cases hs : s' = s
    · simp [place, scopes, hs]
    · by_cases hm : s ∈ l.map (·.1)
      · simp only [place, hs, if_false, scopes, List.map_cons, ih, hm, if_true, List.mem_cons,
          or_true]
      · simp only [place, hs, if_false, scopes, List.map_cons, ih, hm, List.mem_cons, Ne.symm hs,
          or_self, List.cons_append]

theorem Proper.place {l : Landings} (h : l.Proper) {n : Nat} (hn : 0 < n) (s : Scope) :
    (l.place s n).Proper := by
  refine ⟨?_, ?_⟩
  · rw [scopes_place]
    split
    · exact h.nodup
    · rename_i hs
      rw [List.nodup_append]
      refine ⟨h.nodup, by simp, ?_⟩
      rintro x hx y hy rfl
      exact hs (List.mem_singleton.1 hy ▸ hx)
  · have hb := h.bounded
    clear h
    induction l with
    | nil =>
      intro p hp
      rw [List.mem_singleton.1 hp]
      exact ⟨Nat.lt_min.2 ⟨hn, by decide⟩, Nat.min_le_right ..⟩
    | cons q l ih =>
      obtain ⟨s', m⟩ := q
      have hq := hb (s', m) List.mem_cons_self
      have hl := fun p hp => hb p (List.mem_cons_of_mem _ hp)
      intro p hp
      rw [Landings.place] at hp
      split at hp
      · rcases List.mem_cons.1 hp with rfl | hp
        · exact ⟨Nat.lt_min.2 ⟨Nat.add_pos_left hq.1 n, by decide⟩, Nat.min_le_right ..⟩
        · exact hl p hp
      · rcases List.mem_cons.1 hp with rfl | hp
        · exact hq
        · exact ih hl p hp

theorem Proper.tail {p : Scope × Nat} {l : Landings} (h : Proper (p :: l)) : Proper l :=
  ⟨(List.nodup_cons.1 h.nodup).2, fun q hq => h.bounded q (List.mem_cons_of_mem _ hq)⟩

theorem countAt_eq_zero {l : Landings} {t : Scope} (h : t ∉ l.scopes) : l.countAt t = 0 := by
  unfold countAt
  rw [List.lookup_eq_none_iff.2]
  · rfl
  · intro p hp
    rw [bne_iff_ne]
    rintro rfl
    exact h (List.mem_map_of_mem hp)

theorem Proper.countAt_le {l : Landings} (h : l.Proper) (t : Scope) : l.countAt t ≤ cap := by
  induction l with
  | nil => exact Nat.zero_le _
  | cons p l ih =>
    obtain ⟨s, n⟩ := p
    rw [countAt_cons]
    split
    · exact (h.bounded (s, n) List.mem_cons_self).2
    · exact ih h.tail

theorem Proper.mem_scopes_iff {l : Landings} (h : l.Proper) {t : Scope} :
    t ∈ l.scopes ↔ 0 < l.countAt t := by
  induction l with
  | nil => simp [scopes]
  | cons p l ih =>
    obtain ⟨s, n⟩ := p
    have hn := (h.bounded (s, n) List.mem_cons_self).1
    have := ih h.tail
    rw [countAt_cons]
    by_cases ht : t = s
    · simp [scopes, ht, hn]
    · simpa [scopes, ht] using this

theorem total_eq_sum {l : Landings} (h : l.scopes.Nodup) :
    l.total = (l.scopes.map l.countAt).sum := by
  induction l with
  | nil => rfl
  | cons p l ih =>
    obtain ⟨s, n⟩ := p
    obtain ⟨hs, hl⟩ := List.nodup_cons.1 h
    have hrest : (scopes l).map (countAt ((s, n) :: l)) = (scopes l).map (countAt l) :=
      List.map_congr_left fun t ht => by
        rw [countAt_cons, if_neg]
        rintro rfl
        exact hs ht
    show n + total l = countAt ((s, n) :: l) s + ((scopes l).map (countAt ((s, n) :: l))).sum
    rw [hrest, ← ih hl, countAt_cons, if_pos rfl]

theorem countAt_le_total {l : Landings} (h : l.scopes.Nodup) (t : Scope) :
    l.countAt t ≤ l.total := by
  by_cases ht : t ∈ l.scopes
  · rw [total_eq_sum h]
    exact List.le_sum_of_mem (List.mem_map_of_mem ht)
  · rw [countAt_eq_zero ht]
    exact Nat.zero_le _

/-! ## Handing landings down -/

/-- Each count of `l'` is added to `l` a number of times. -/
def spread (times : Nat) (l l' : Landings) : Landings :=
  l'.foldl (fun l p => l.place p.1 (p.2 * times)) l

theorem Proper.spread {times : Nat} (ht : 0 < times) {l l' : Landings} (h : l.Proper)
    (h' : l'.Proper) : (spread times l l').Proper := by
  induction l' generalizing l with
  | nil => exact h
  | cons p l' ih =>
    exact ih (h.place (Nat.mul_pos (h'.bounded p List.mem_cons_self).1 ht) p.1) h'.tail

theorem countAt_spread {times : Nat} {l l' : Landings} (h : ∀ t, l.countAt t ≤ cap)
    (h' : l'.scopes.Nodup) (t : Scope) :
    (spread times l l').countAt t = min (l.countAt t + l'.countAt t * times) cap := by
  induction l' generalizing l with
  | nil => simpa [spread] using (Nat.min_eq_left (h t)).symm
  | cons p l' ih =>
    obtain ⟨s, n⟩ := p
    obtain ⟨hs, hl'⟩ := List.nodup_cons.1 h'
    show (spread times (l.place s (n * times)) l').countAt t = _
    have hbound : ∀ t, (l.place s (n * times)).countAt t ≤ cap := fun t => by
      rw [countAt_place]
      split
      · exact Nat.min_le_right ..
      · exact h t
    rw [ih hbound hl', countAt_place, countAt_cons]
    by_cases hts : t = s
    · subst hts
      rw [if_pos rfl, if_pos rfl, countAt_eq_zero hs, Nat.zero_mul, Nat.add_zero, Nat.min_assoc,
        Nat.min_self]
    · rw [if_neg hts, if_neg hts]

end ScriptGraph.Landings
