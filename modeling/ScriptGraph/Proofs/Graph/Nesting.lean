import ScriptGraph.Proofs.Builder.Soundness

/-!
# How scopes are nested

* `Graph.Sound.scopeChain_some` : a function's chain is the function and the chain of its scope;
* `Graph.Sound.isWithin_iff_suffix` : inside a scope, its chain is the rest of one's own;
* `Graph.Found` : the functions around a scope are all in a list.
-/

namespace ScriptGraph.Graph

variable {g : Graph} {s t : Scope} {f : NodeId}

@[simp] theorem scopeChain_none (g : Graph) : g.scopeChain none = [none] := by
  rw [scopeChain]

theorem Sound.scopeChain_some (hg : g.Sound) (f : NodeId) :
    g.scopeChain (some f) = some f :: g.scopeChain (g.scopeOf f) := by
  rw [scopeChain]
  cases ho : g.scopeOf f with
  | none => simp
  | some outer => exact if_pos (hg.scope_lt ho)

/-- Scopes are shown to have a property from the outside in. -/
theorem Sound.scope_induction (hg : g.Sound) {P : Scope → Prop} (top : P none)
    (inner : ∀ f, P (g.scopeOf f) → P (some f)) (s : Scope) : P s := by
  cases s with
  | none => exact top
  | some f =>
    induction f using Nat.strongRecOn with
    | _ f ih =>
      apply inner f
      cases ho : g.scopeOf f with
      | none => exact top
      | some outer => exact ih outer (hg.scope_lt ho)

theorem Sound.self_mem_scopeChain (hg : g.Sound) (s : Scope) : s ∈ g.scopeChain s := by
  cases s with
  | none => simp
  | some f =>
    rw [hg.scopeChain_some]
    exact List.mem_cons_self

theorem isWithin_iff : g.isWithin s t = true ↔ t ∈ g.scopeChain s := by
  simp [isWithin]

theorem Sound.isWithin_refl (hg : g.Sound) (s : Scope) : g.isWithin s s = true :=
  isWithin_iff.2 (hg.self_mem_scopeChain s)

theorem Sound.isWithin_iff_suffix (hg : g.Sound) :
    g.isWithin s t = true ↔ g.scopeChain t <:+ g.scopeChain s := by
  rw [isWithin_iff]
  refine ⟨fun h => ?_, fun h => h.subset (hg.self_mem_scopeChain t)⟩
  induction s using hg.scope_induction with
  | top =>
    rw [scopeChain_none, List.mem_singleton] at h
    subst h
    exact List.suffix_refl _
  | inner f ih =>
    rw [hg.scopeChain_some] at h
    rcases List.mem_cons.1 h with rfl | h
    · exact List.suffix_refl _
    · rw [hg.scopeChain_some]
      exact (ih h).trans (List.suffix_cons _ _)

theorem Sound.isWithin_trans (hg : g.Sound) {r : Scope} (h : g.isWithin r s = true)
    (h' : g.isWithin s t = true) : g.isWithin r t = true :=
  hg.isWithin_iff_suffix.2 ((hg.isWithin_iff_suffix.1 h').trans (hg.isWithin_iff_suffix.1 h))

theorem Sound.isWithin_antisymm (hg : g.Sound) (h : g.isWithin s t = true)
    (h' : g.isWithin t s = true) : s = t := by
  have hchain : g.scopeChain s = g.scopeChain t :=
    (hg.isWithin_iff_suffix.1 h').eq_of_length_le (hg.isWithin_iff_suffix.1 h).length_le
  cases s with
  | none =>
    rw [isWithin_iff, scopeChain_none, List.mem_singleton] at h
    exact h.symm
  | some f =>
    cases t with
    | none =>
      rw [isWithin_iff, scopeChain_none, List.mem_singleton] at h'
      exact h'
    | some f' =>
      rw [hg.scopeChain_some, hg.scopeChain_some] at hchain
      exact List.head_eq_of_cons_eq hchain

theorem Sound.isWithin_function (hg : g.Sound) (f : NodeId) :
    g.isWithin (some f) (g.scopeOf f) = true := by
  rw [isWithin_iff, hg.scopeChain_some]
  exact List.mem_cons_of_mem _ (hg.self_mem_scopeChain _)

/-- The functions in a scope's chain are not younger than the scope. -/
theorem Sound.le_of_isWithin (hg : g.Sound) {e : NodeId} (h : g.isWithin (some e) (some f) = true) :
    f ≤ e := by
  induction e using Nat.strongRecOn with
  | _ e ih =>
    rw [isWithin_iff, hg.scopeChain_some] at h
    rcases List.mem_cons.1 h with h | h
    · cases h
      exact Nat.le_refl _
    · cases ho : g.scopeOf e with
      | none => simp [ho] at h
      | some outer =>
        have hlt := hg.scope_lt ho
        exact Nat.le_trans (ih outer hlt (isWithin_iff.2 (ho ▸ h))) (Nat.le_of_lt hlt)

/-! ## Scopes whose functions are in a list -/

/-- The functions around a scope, its own included, are all in `order`. -/
def Found (g : Graph) (order : List NodeId) (s : Scope) : Prop :=
  ∀ f, g.isWithin s (some f) = true → f ∈ order

variable {order : List NodeId}

theorem found_none (g : Graph) (order : List NodeId) : g.Found order none := by
  intro f hf
  simp [isWithin_iff] at hf

theorem Found.outer (hg : g.Sound) (h : g.Found order s) (hst : g.isWithin s t = true) :
    g.Found order t := fun f hf => h f (hg.isWithin_trans hst hf)

theorem Found.function (hg : g.Sound) (hf : f ∈ order) (h : g.Found order (g.scopeOf f)) :
    g.Found order (some f) := by
  intro x hx
  rw [isWithin_iff, hg.scopeChain_some] at hx
  rcases List.mem_cons.1 hx with hx | hx
  · cases hx
    exact hf
  · exact h x (isWithin_iff.2 hx)

theorem Found.mem (hg : g.Sound) (h : g.Found order (some f)) : f ∈ order :=
  h f (hg.isWithin_refl _)

end ScriptGraph.Graph
