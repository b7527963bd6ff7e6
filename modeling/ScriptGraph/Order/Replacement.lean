/-!
# Replacing members of a list by smaller ones

* `Replaces r k l` : `k` is `l` with one member replaced by finitely many `r`-smaller ones, where
  the order of members does not matter;
* `Replaces.wf` : if `r` is well founded, so is `Replaces r`.

This is the order under which constructing function bodies comes to an end: a recipe in a list of
pending recipes gives way to the finitely many recipes it continues as.
-/

namespace ScriptGraph

variable {α : Type}

/-- `l'` is `l` with one member replaced by finitely many smaller ones, in any order. -/
def Replaces (r : α → α → Prop) (l' l : List α) : Prop :=
  ∃ a rest below, l.Perm (a :: rest) ∧ l'.Perm (below ++ rest) ∧ ∀ x ∈ below, r x a

namespace Replaces
variable {r : α → α → Prop}

theorem perm {k l k' l' : List α} (h : Replaces r k l) (hk : k.Perm k') (hl : l.Perm l') :
    Replaces r k' l' := by
  obtain ⟨a, rest, below, h₁, h₂, hb⟩ := h
  exact ⟨a, rest, below, hl.symm.trans h₁, hk.symm.trans h₂, hb⟩

theorem cons {k l : List α} (h : Replaces r k l) (a : α) : Replaces r (a :: k) (a :: l) := by
  obtain ⟨b, rest, below, hl, hk, hb⟩ := h
  exact ⟨b, a :: rest, below, (hl.cons a).trans (.swap ..),
    (hk.cons a).trans List.perm_middle.symm, hb⟩

theorem acc_perm {k l : List α} (h : Acc (Replaces r) k) (p : k.Perm l) : Acc (Replaces r) l :=
  ⟨l, fun _ hm => h.inv (hm.perm (.refl _) p.symm)⟩

/-- A replacement in `a :: l` happens at `a` or inside `l`. -/
theorem of_cons {a : α} {k l : List α} (h : Replaces r k (a :: l)) :
    (∃ below, k.Perm (below ++ l) ∧ ∀ x ∈ below, r x a) ∨
      ∃ l', Replaces r l' l ∧ k.Perm (a :: l') := by
  obtain ⟨b, rest, below, hl, hk, hb⟩ := h
  rcases List.mem_cons.1 (hl.mem_iff.2 List.mem_cons_self) with rfl | hmem
  · exact .inl ⟨below, hk.trans ((List.Perm.cons_inv hl).symm.append_left below), hb⟩
  · obtain ⟨s, t, rfl⟩ := List.append_of_mem hmem
    have hrest : rest.Perm (a :: (s ++ t)) :=
      (List.Perm.cons_inv (hl.symm.trans ((List.perm_middle.cons a).trans (.swap ..))))
    refine .inr ⟨below ++ (s ++ t), ⟨b, s ++ t, below, List.perm_middle, .refl _, hb⟩, ?_⟩
    exact hk.trans ((hrest.append_left below).trans List.perm_middle)

theorem acc_append {below l : List α} (h : ∀ x ∈ below, ∀ l, Acc (Replaces r) l → Acc (Replaces r) (x :: l))
    (hl : Acc (Replaces r) l) : Acc (Replaces r) (below ++ l) := by
  induction below with
  | nil => exact hl
  | cons x below ih =>
    exact h x List.mem_cons_self _ (ih fun y hy => h y (List.mem_cons_of_mem _ hy))

theorem acc_cons {a : α} (h : Acc r a) : ∀ {l}, Acc (Replaces r) l → Acc (Replaces r) (a :: l) := by
  induction h with
  | intro a _ ih =>
    intro l hl
    induction hl with
    | intro l hl ihl =>
      refine ⟨_, fun k hk => ?_⟩
      rcases hk.of_cons with ⟨below, hk, hb⟩ | ⟨l', hl', hk⟩
      · exact acc_perm (acc_append (fun x hx l hl => ih x (hb x hx) hl) ⟨l, hl⟩) hk.symm
      · exact acc_perm (ihl l' hl') hk.symm

/-- Replacing by smaller members cannot go on for ever. -/
theorem wf (h : WellFounded r) : WellFounded (Replaces r) := by
  refine ⟨fun l => ?_⟩
  induction l with
  | nil =>
    refine ⟨_, fun k hk => ?_⟩
    obtain ⟨a, rest, below, hl, _⟩ := hk
    exact absurd (hl.mem_iff.2 List.mem_cons_self) List.not_mem_nil
  | cons a l ih => exact acc_cons (h.apply a) ih

end Replaces
end ScriptGraph
