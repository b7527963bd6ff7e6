import Mathlib

/-!
# First occurrences in a list

* `eraseDups_concat`, `nodup_eraseDups`, `eraseDups_map` : the items of a list, each where it occurs
  first;
* `eraseDups_map_idxOf` : indices by first occurrence come up in increasing order.
-/

namespace ScriptGraph

variable {α β : Type} [BEq α] [LawfulBEq α] [BEq β] [LawfulBEq β]

theorem eraseDups_concat (xs : List α) (x : α) :
    (xs ++ [x]).eraseDups = if xs.contains x then xs.eraseDups else xs.eraseDups ++ [x] := by
  rw [List.eraseDups_append, List.removeAll, List.filter_singleton]
  change xs.eraseDups ++ (bif !xs.contains x then [x] else []).eraseDups = _
  cases xs.contains x
  · rfl
  · exact List.append_nil _

theorem nodup_eraseDups : ∀ xs : List α, xs.eraseDups.Nodup
  | [] => .nil
  | x :: xs => by
    rw [List.eraseDups_cons, List.nodup_cons, List.mem_eraseDups, List.mem_filter]
    exact ⟨fun h => by simp at h, nodup_eraseDups _⟩
termination_by xs => xs.length
decreasing_by exact Nat.lt_succ_of_le (List.length_filter_le ..)

theorem eraseDups_map {f : α → β} {xs : List α} (hf : ∀ x ∈ xs, ∀ y ∈ xs, f x = f y → x = y) :
    (xs.map f).eraseDups = xs.eraseDups.map f := by
  induction xs using List.reverseRecOn with
  | nil => rfl
  | append_singleton xs x ih =>
    have hsub : ∀ y ∈ xs, y ∈ xs ++ [x] := fun y hy => List.mem_append_left _ hy
    have hcontains : (xs.map f).contains (f x) = xs.contains x := by
      rw [Bool.eq_iff_iff, List.contains_iff_mem, List.contains_iff_mem, List.mem_map]
      constructor
      · rintro ⟨y, hy, heq⟩
        rwa [hf y (hsub y hy) x (by simp) heq] at hy
      · exact fun hx => ⟨x, hx, rfl⟩
    rw [List.map_append, List.map_singleton, eraseDups_concat, eraseDups_concat, hcontains,
      ih fun y hy z hz => hf y (hsub y hy) z (hsub z hz)]
    split <;> simp

theorem map_idxOf_self {xs : List α} (h : xs.Nodup) : xs.map xs.idxOf = List.range xs.length := by
  refine List.ext_getElem (by simp) fun i hi _ => ?_
  rw [List.length_map] at hi
  rw [List.getElem_map, h.idxOf_getElem i hi, List.getElem_range]

theorem eraseDups_map_idxOf (xs : List α) :
    (xs.map xs.eraseDups.idxOf).eraseDups = List.range xs.eraseDups.length := by
  rw [eraseDups_map, map_idxOf_self (nodup_eraseDups xs)]
  exact fun x hx y _ h => (List.idxOf_inj (List.mem_eraseDups.2 hx)).1 h

end ScriptGraph
