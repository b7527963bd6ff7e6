import Mathlib

/-!
# Walks in depth

A walk begins each node that it meets for the first time, walks through the nodes that this one
refers to, and then places it. A node met again is skipped, placed or not.

* `DepthFirst` : such a walk, from the nodes begun before it to those begun after it;
* `DepthFirst.mem_placed_iff` : the walk places what it can reach without the nodes begun before;
* `DepthFirst.idxOf_lt_iff` : a node comes after one that it refers to, unless that one leads back to
  it through nodes that were not begun earlier.
-/

namespace ScriptGraph

variable {α : Type} {refs : α → List α}

/-- `DepthFirst refs begun todo placed begun'` : from the nodes in `todo`, those in `placed` are
placed in this order. The nodes begun are listed latest first. -/
inductive DepthFirst (refs : α → List α) : List α → List α → List α → List α → Prop
  | done (begun : List α) : DepthFirst refs begun [] [] begun
  | skip {begun begun' todo placed : List α} {e : α} (he : e ∈ begun)
    (rest : DepthFirst refs begun todo placed begun') :
    DepthFirst refs begun (e :: todo) placed begun'
  | place {begun between begun' todo below after : List α} {e : α} (he : e ∉ begun)
    (inner : DepthFirst refs (e :: begun) (refs e) below between)
    (rest : DepthFirst refs between todo after begun') :
    DepthFirst refs begun (e :: todo) (below ++ e :: after) begun'

/-- `v` is referred to and not yet begun. -/
def Fresh (refs : α → List α) (begun : List α) (u v : α) : Prop := v ∈ refs u ∧ v ∉ begun

theorem Fresh.mono_path {begun before : List α} (h : begun ⊆ before) {u v : α}
    (huv : Relation.ReflTransGen (Fresh refs before) u v) :
    Relation.ReflTransGen (Fresh refs begun) u v :=
  Relation.ReflTransGen.mono (fun _ _ hs => ⟨hs.1, fun hb => hs.2 (h hb)⟩) _ _ huv

/-- The rest of a list after a member is the same in each suffix with the member. -/
theorem split_of_suffix {l l' later before : List α} {y : α} (hl : l' <:+ l) (hn : l.Nodup)
    (hy : y ∈ l') (hsplit : l = later ++ y :: before) : ∃ later', l' = later' ++ y :: before := by
  obtain ⟨new, rfl⟩ := hl
  rcases List.append_eq_append_iff.1 hsplit with ⟨k, -, hk⟩ | ⟨k, hk, hk'⟩
  · exact ⟨k, hk⟩
  · cases k with
    | nil => exact ⟨[], hk'.symm⟩
    | cons z k =>
      rw [List.cons_append, List.cons.injEq] at hk'
      have hnew : y ∈ new := by simp [hk, hk'.1]
      exact absurd rfl ((List.nodup_append.1 hn).2.2 y hnew y hy)

namespace DepthFirst

variable {begun begun' todo placed : List α} {x y : α}

/-- The nodes placed are those begun by the walk. -/
theorem exists_new (h : DepthFirst refs begun todo placed begun') :
    ∃ new, begun' = new ++ begun ∧ new.Perm placed := by
  induction h with
  | done => exact ⟨[], rfl, .refl _⟩
  | skip _ _ ih => exact ih
  | @place begun between begun' todo below after e _ _ _ ihi ihr =>
    obtain ⟨new, rfl, hp⟩ := ihi
    obtain ⟨new', rfl, hp'⟩ := ihr
    refine ⟨new' ++ (new ++ [e]), by simp, ?_⟩
    have hinner : (new ++ [e]).Perm (e :: below) :=
      (List.perm_append_singleton e new).trans (hp.cons e)
    calc new' ++ (new ++ [e])
      _ |>.Perm (after ++ e :: below) := hp'.append hinner
      _ |>.Perm (e :: below ++ after) := List.perm_append_comm
      _ |>.Perm (below ++ e :: after) := List.perm_middle.symm

variable (h : DepthFirst refs begun todo placed begun')

include h

theorem suffix : begun <:+ begun' := by
  obtain ⟨new, rfl, _⟩ := h.exists_new
  exact List.suffix_append ..

theorem mem_begun_iff : x ∈ begun' ↔ x ∈ placed ∨ x ∈ begun := by
  obtain ⟨new, rfl, hp⟩ := h.exists_new
  rw [List.mem_append, hp.mem_iff]

theorem not_mem_begun (hx : x ∈ placed) : x ∉ begun := by
  induction h with
  | done => cases hx
  | skip _ _ ih => exact ih hx
  | @place begun between begun' todo below after e he inner rest ihi ihr =>
    rcases List.mem_append.1 hx with hx | hx
    · exact fun hb => ihi hx (List.mem_cons_of_mem e hb)
    · rcases List.mem_cons.1 hx with rfl | hx
      · exact he
      · exact fun hb => ihr hx (inner.suffix.subset (List.mem_cons_of_mem e hb))

theorem nodup_placed : placed.Nodup := by
  induction h with
  | done => exact .nil
  | skip _ _ ih => exact ih
  | @place begun between begun' todo below after e he inner rest ihi ihr =>
    have hafter : ∀ x ∈ after, x ∉ between := fun x hx => rest.not_mem_begun hx
    rw [List.nodup_append, List.nodup_cons]
    refine ⟨ihi, ⟨fun hx => ?_, ihr⟩, ?_⟩
    · exact hafter e hx (inner.suffix.subset List.mem_cons_self)
    · rintro x hx z hz rfl
      rcases List.mem_cons.1 hz with rfl | hz
      · exact inner.not_mem_begun hx List.mem_cons_self
      · exact hafter x hz (inner.mem_begun_iff.2 (.inl hx))

theorem nodup_begun (hn : begun.Nodup) : begun'.Nodup := by
  obtain ⟨new, rfl, hp⟩ := h.exists_new
  rw [List.nodup_append]
  refine ⟨hp.nodup_iff.2 h.nodup_placed, hn, ?_⟩
  rintro x hx y hy rfl
  exact h.not_mem_begun (hp.mem_iff.1 hx) hy

theorem todo_subset : todo ⊆ begun' := by
  induction h with
  | done => exact List.nil_subset _
  | skip he rest ih => exact List.cons_subset.2 ⟨rest.suffix.subset he, ih⟩
  | place he inner rest _ ihr =>
    exact List.cons_subset.2 ⟨rest.suffix.subset (inner.suffix.subset List.mem_cons_self), ihr⟩

theorem refs_subset (hx : x ∈ placed) : refs x ⊆ begun' := by
  induction h with
  | done => cases hx
  | skip _ _ ih => exact ih hx
  | place he inner rest ihi ihr =>
    rcases List.mem_append.1 hx with hx | hx
    · exact List.Subset.trans (ihi hx) rest.suffix.subset
    · rcases List.mem_cons.1 hx with rfl | hx
      · exact List.Subset.trans inner.todo_subset rest.suffix.subset
      · exact ihr hx

/-- What a placed node leads to, through nodes not begun before the walk, is placed too. -/
theorem placed_of_fresh {before : List α} (hb : begun ⊆ before) (hx : x ∈ placed)
    (hxy : Relation.ReflTransGen (Fresh refs before) x y) : y ∈ placed := by
  induction hxy with
  | refl => exact hx
  | tail _ huv ih =>
    exact (h.mem_begun_iff.1 (h.refs_subset ih huv.1)).resolve_right fun hv => huv.2 (hb hv)

theorem mem_placed_iff :
    y ∈ placed ↔ ∃ x ∈ todo, x ∉ begun ∧ Relation.ReflTransGen (Fresh refs begun) x y := by
  constructor
  · intro hy
    induction h with
    | done => cases hy
    | skip he _ ih =>
      obtain ⟨x, hx, hnew, hxy⟩ := ih hy
      exact ⟨x, List.mem_cons_of_mem _ hx, hnew, hxy⟩
    | @place begun between begun' todo below after e he inner rest ihi ihr =>
      rcases List.mem_append.1 hy with hy | hy
      · obtain ⟨x, hx, hnew, hxy⟩ := ihi hy
        rw [List.mem_cons, not_or] at hnew
        exact ⟨e, List.mem_cons_self, he, .head ⟨hx, hnew.2⟩
          (Fresh.mono_path (List.subset_cons_self e begun) hxy)⟩
      · rcases List.mem_cons.1 hy with rfl | hy
        · exact ⟨y, List.mem_cons_self, he, .refl⟩
        · have hsub : begun ⊆ between := fun z hz =>
            inner.suffix.subset (List.mem_cons_of_mem e hz)
          obtain ⟨x, hx, hnew, hxy⟩ := ihr hy
          exact ⟨x, List.mem_cons_of_mem _ hx, fun hz => hnew (hsub hz), Fresh.mono_path hsub hxy⟩
  · rintro ⟨x, hx, hnew, hxy⟩
    exact h.placed_of_fresh (List.Subset.refl _)
      ((h.mem_begun_iff.1 (h.todo_subset hx)).resolve_right hnew) hxy

/-- The nodes begun before a placed one include those begun before the walk. -/
theorem begun_subset_before {later before : List α} (hy : y ∈ placed)
    (hsplit : begun' = later ++ y :: before) : begun ⊆ before := by
  have hnew := h.not_mem_begun hy
  obtain ⟨new, rfl, _⟩ := h.exists_new
  rcases List.append_eq_append_iff.1 hsplit with ⟨l, hl, hb⟩ | ⟨l, hl, hb⟩
  · exact absurd (hb ▸ List.mem_append_right l List.mem_cons_self) hnew
  · cases l with
    | nil =>
      rw [List.nil_append] at hb
      exact absurd (hb ▸ List.mem_cons_self) hnew
    | cons z l =>
      rw [List.cons_append, List.cons.injEq] at hb
      rw [hb.2]
      exact List.subset_append_right ..

/-- **Which of two nodes comes first** when one refers to the other: the one referred to, unless it
leads back through nodes that were not begun before it. -/
theorem idxOf_lt_iff [DecidableEq α] (hn : begun.Nodup) (hx : x ∈ placed) (hy : y ∈ placed)
    (hxy : y ∈ refs x) (hne : x ≠ y) {later before : List α}
    (hsplit : begun' = later ++ y :: before) :
    placed.idxOf y < placed.idxOf x ↔ ¬Relation.ReflTransGen (Fresh refs before) y x := by
  induction h generalizing later with
  | done => cases hx
  | skip _ _ ih => exact ih hn hx hy hsplit
  | @place begun between begun' todo below after e he inner rest ihi ihr =>
    have hwalk : DepthFirst refs begun (e :: todo) (below ++ e :: after) begun' :=
      .place he inner rest
    have hfirst : DepthFirst refs begun [e] (below ++ [e]) between := .place he inner (.done _)
    have hne' : (e :: begun).Nodup := List.nodup_cons.2 ⟨he, hn⟩
    have hbetween : between.Nodup := inner.nodup_begun hne'
    have hbelow : e ∉ below := fun hb => inner.not_mem_begun hb List.mem_cons_self
    have hafter : ∀ z ∈ after, z ∉ below ∧ z ≠ e := fun z hz =>
      ⟨fun hb => rest.not_mem_begun hz (inner.mem_begun_iff.2 (.inl hb)),
        fun heq => rest.not_mem_begun hz (inner.suffix.subset (heq ▸ List.mem_cons_self))⟩
    have hidx₁ : ∀ z ∈ below, (below ++ e :: after).idxOf z = below.idxOf z := fun z hz =>
      List.idxOf_append_of_mem hz
    have hidx₂ : (below ++ e :: after).idxOf e = below.length := by
      rw [List.idxOf_append_of_notMem hbelow, List.idxOf_cons_self, Nat.add_zero]
    have hidx₃ : ∀ z ∈ after, (below ++ e :: after).idxOf z = below.length + (after.idxOf z + 1) :=
      fun z hz => by
        rw [List.idxOf_append_of_notMem (hafter z hz).1,
          List.idxOf_cons_ne _ (Ne.symm (hafter z hz).2)]
    have hlt : ∀ z ∈ below, below.idxOf z < below.length := fun z hz => List.idxOf_lt_length_iff.2 hz
    have hfull : begun'.Nodup := hwalk.nodup_begun hn
    rcases List.mem_append.1 hy with hyb | hye
    · -- `y` was begun after `e`, and what it led to was placed with it, before `e`.
      have hyin : y ∈ between := inner.mem_begun_iff.2 (.inl hyb)
      obtain ⟨later', hsplit'⟩ := split_of_suffix rest.suffix hfull hyin hsplit
      rw [hidx₁ y hyb]
      have hbefore := inner.begun_subset_before hyb hsplit'
      rcases List.mem_append.1 hx with hxb | hxe
      · rw [hidx₁ x hxb]
        exact ihi hne' hxb hyb hsplit'
      · have hout : x ∉ below := by
          rcases List.mem_cons.1 hxe with rfl | hxa
          · exact hbelow
          · exact (hafter x hxa).1
        rw [List.idxOf_append_of_notMem hout]
        exact iff_of_true (Nat.lt_of_lt_of_le (hlt y hyb) (Nat.le_add_right ..))
          fun hback => hout (inner.placed_of_fresh hbefore hyb hback)
    · rcases List.mem_cons.1 hye with rfl | hya
      · -- What is placed before `e` is what `e` led to.
        have hyin : y ∈ between := inner.suffix.subset List.mem_cons_self
        obtain ⟨later', hsplit'⟩ := split_of_suffix rest.suffix hfull hyin hsplit
        obtain ⟨k, heq⟩ := split_of_suffix inner.suffix hbetween List.mem_cons_self hsplit'
        have hbefore : before = begun := by
          cases k with
          | nil => exact (List.cons.inj heq).2.symm
          | cons z k => exact absurd ((List.cons.inj heq).2 ▸ by simp) he
        rw [hbefore, hidx₂]
        rcases List.mem_append.1 hx with hxb | hxe
        · obtain ⟨r, hr, hnew, hpath⟩ := inner.mem_placed_iff.1 hxb
          rw [hidx₁ x hxb]
          refine iff_of_false (Nat.lt_asymm (hlt x hxb)) (not_not_intro ?_)
          exact .head ⟨hr, fun hb => hnew (List.mem_cons_of_mem _ hb)⟩
            (Fresh.mono_path (List.subset_cons_self _ begun) hpath)
        · have hxa : x ∈ after := (List.mem_cons.1 hxe).resolve_left hne
          rw [hidx₃ x hxa]
          apply iff_of_true (by omega)
          intro hback
          have := hfirst.placed_of_fresh (List.Subset.refl _) (by simp) hback
          simp [hafter x hxa] at this
      · have hxa : x ∈ after := by
          by_contra hxa
          have hxf : x ∈ below ++ [e] := by
            simp only [List.mem_append, List.mem_cons, hxa, or_false] at hx ⊢
            exact hx.imp_right .inl
          exact rest.not_mem_begun hya (hfirst.refs_subset hxf hxy)
        rw [hidx₃ y hya, hidx₃ x hxa, Nat.add_lt_add_iff_left, Nat.add_lt_add_iff_right]
        exact ihr hbetween hxa hya hsplit

end DepthFirst

end ScriptGraph
