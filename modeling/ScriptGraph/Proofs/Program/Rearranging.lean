import ScriptGraph.Proofs.Program.Varied

/-!
# Programs with other definitions

* `Rearranged` : a definition is added to a body, or its definitions are permuted;
* `Rearranged.lastOf_eq` : names that are not added are found where the definitions have gone;
* `Variation.rearranging` : programs that differ in this, where no added definition is used;
* `Routine.varied_add`, `Routine.varied_permute` : how bodies differ so;
* `Expression.lower_ok_iff` : what can be lowered;
* `Program.compile_rearranged` : such programs compile to the same script.
-/

namespace ScriptGraph

variable {α β : Type}

/-! ## The last of equal names -/

section LastOf

variable {names : List String} {f : Nat → α} {name : String}

theorem lastOf_append_singleton (l : List (String × α)) (p : String × α) (name : String) :
    lastOf (l ++ [p]) name = if name == p.1 then some p.2 else lastOf l name := by
  rw [lastOf, List.reverse_concat, List.lookup_cons]
  split <;> rename_i h <;> rw [h] <;> rfl

/-- What a name stands for stays if all that is in the list does. -/
theorem map_lastOf_of_forall {l : List (String × α)} {g : α → α} (h : ∀ p ∈ l, g p.2 = p.2) :
    (lastOf l name).map g = lastOf l name := by
  cases hfound : lastOf l name with
  | none => rfl
  | some a =>
    obtain ⟨before, after, hl, _⟩ := List.lookup_eq_some_iff.1 hfound
    exact congrArg some (h (name, a) (List.mem_reverse.1 (hl ▸ by simp)))

theorem zip_range_concat (names : List String) (x : String) (f : Nat → α) :
    (names ++ [x]).zip ((List.range (names ++ [x]).length).map f) =
      names.zip ((List.range names.length).map f) ++ [(x, f names.length)] := by
  rw [List.length_append, List.length_singleton, List.range_succ, List.map_append,
    List.zip_append (by simp)]
  rfl

theorem lastOf_eq_some {a : α} :
    lastOf (names.zip ((List.range names.length).map f)) name = some a ↔
      ∃ i, names[i]? = some name ∧ (∀ j, names[j]? = some name → j ≤ i) ∧ a = f i := by
  induction names using List.reverseRecOn with
  | nil => simp [lastOf]
  | append_singleton names x ih =>
    rw [zip_range_concat, lastOf_append_singleton]
    by_cases hx : name = x
    · subst hx
      have hend : (names ++ [name])[names.length]? = some name := by simp
      have hle : ∀ j, (names ++ [name])[j]? = some name → j ≤ names.length := fun j hj => by
        have hlt := (List.getElem?_eq_some_iff.1 hj).1
        rw [List.length_append] at hlt
        exact Nat.le_of_lt_succ hlt
      rw [beq_self_eq_true, if_pos rfl]
      constructor
      · rintro heq
        cases heq
        exact ⟨names.length, hend, hle, rfl⟩
      · rintro ⟨i, hi, hlast, rfl⟩
        rw [Nat.le_antisymm (hle i hi) (hlast _ hend)]
    · have hold : ∀ i, (names ++ [x])[i]? = some name ↔ names[i]? = some name := fun i => by
        rw [List.getElem?_append]
        split
        · rfl
        · rename_i hi
          rw [List.getElem?_singleton, List.getElem?_eq_none (Nat.not_lt.1 hi)]
          split <;> simp [Ne.symm hx]
      rw [if_neg (by simpa using hx), ih]
      simp only [hold]

theorem lastOf_eq_none :
    lastOf (names.zip ((List.range names.length).map f)) name = none ↔ name ∉ names := by
  induction names using List.reverseRecOn with
  | nil => simp [lastOf]
  | append_singleton names x ih =>
    rw [zip_range_concat, lastOf_append_singleton]
    by_cases hx : name = x
    · simp [hx]
    · rw [if_neg (by simpa using hx), ih]
      simp [hx]

end LastOf

/-! ## Rearranged definitions -/

/-- Where something of a list is when something is put in at `k`. -/
def skip (k i : Nat) : Nat := if i < k then i else i + 1

theorem skip_le_skip (k : Nat) {i j : Nat} (h : i ≤ j) : skip k i ≤ skip k j := by
  unfold skip
  split <;> split <;> omega

theorem skip_injective (k : Nat) : Function.Injective (skip k) := by
  intro i j heq
  unfold skip at heq
  split at heq <;> split at heq <;> omega

theorem exists_skip {k j : Nat} (h : j ≠ k) : ∃ i, skip k i = j := by
  rcases Nat.lt_or_gt_of_ne h with hlt | hgt
  · exact ⟨j, if_pos hlt⟩
  · obtain ⟨i, rfl⟩ := Nat.exists_eq_add_of_lt hgt
    exact ⟨k + i, if_neg (Nat.not_lt.2 (Nat.le_add_right k i))⟩

theorem getElem?_skip (before after : List α) (a : α) (i : Nat) :
    (before ++ a :: after)[skip before.length i]? = (before ++ after)[i]? := by
  unfold skip
  split
  · rename_i hlt
    rw [List.getElem?_append_left hlt, List.getElem?_append_left hlt]
  · rename_i hge
    have hge := Nat.not_lt.1 hge
    rw [List.getElem?_append_right (Nat.le_succ_of_le hge), List.getElem?_append_right hge,
      Nat.succ_sub hge]
    rfl

/-- The names of the definitions of a body when a definition is added, or when they are permuted and
no two have the same name. Definition `i` becomes definition `m i`. -/
inductive Rearranged : List String → List String → (m : Nat → Nat) → (added : List String) → Prop
  | same (names : List String) : Rearranged names names id []
  | add (before after : List String) (name : String) :
    Rearranged (before ++ after) (before ++ name :: after) (skip before.length) [name]
  | permute {names names' : List String} {m : Nat → Nat} (hnodup : names.Nodup)
    (hperm : names'.Perm names)
    (hm : ∀ i name, names[i]? = some name → names'[m i]? = some name) :
    Rearranged names names' m []

theorem eq_of_getElem? {l : List α} (h : l.Nodup) {i j : Nat} {a : α} (hi : l[i]? = some a)
    (hj : l[j]? = some a) : i = j := by
  obtain ⟨hi, heq⟩ := List.getElem?_eq_some_iff.1 hi
  obtain ⟨hj, heq'⟩ := List.getElem?_eq_some_iff.1 hj
  exact h.getElem_inj_iff.1 (heq.trans heq'.symm)

namespace Rearranged

variable {names names' added : List String} {m : Nat → Nat} {name : String}

theorem injective (h : Rearranged names names' m added) :
    ∀ i < names.length, ∀ j < names.length, m i = m j → i = j := by
  cases h with
  | same => exact fun i _ j _ heq => heq
  | add before after name => exact fun i _ j _ heq => skip_injective _ heq
  | permute hnodup hperm hm =>
    intro i hi j hj heq
    have hi' := hm i _ (List.getElem?_eq_getElem hi)
    have hj' := hm j _ (List.getElem?_eq_getElem hj)
    rw [heq, hj'] at hi'
    exact hnodup.getElem_inj_iff.1 (Option.some.inj hi').symm

/-- A name that is not added stands where its definitions have gone, in the same order. -/
theorem occurrences (h : Rearranged names names' m added) (hname : name ∉ added) :
    (∀ i, names[i]? = some name → names'[m i]? = some name) ∧
    (∀ j, names'[j]? = some name → ∃ i, names[i]? = some name ∧ m i = j) ∧
    ∀ i j, names[i]? = some name → names[j]? = some name → i ≤ j → m i ≤ m j := by
  cases h with
  | same => exact ⟨fun _ h => h, fun j h => ⟨j, h, rfl⟩, fun _ _ _ _ h => h⟩
  | add before after added =>
    refine ⟨fun i hi => (getElem?_skip ..).trans hi, fun j hj => ?_,
      fun i j _ _ hij => skip_le_skip _ hij⟩
    have hne : j ≠ before.length := by
      rintro rfl
      rw [List.getElem?_append_right (Nat.le_refl _), Nat.sub_self] at hj
      exact hname (List.mem_singleton.2 (Option.some.inj hj).symm)
    obtain ⟨i, rfl⟩ := exists_skip hne
    exact ⟨i, (getElem?_skip ..).symm.trans hj, rfl⟩
  | permute hnodup hperm hm =>
    refine ⟨fun i => hm i name, fun j hj => ?_, fun i j hi hj _ => ?_⟩
    · obtain ⟨i, hi⟩ := List.mem_iff_getElem?.1 (hperm.subset (List.mem_of_getElem? hj))
      exact ⟨i, hi, eq_of_getElem? (hperm.nodup_iff.2 hnodup) (hm i name hi) hj⟩
    · rw [eq_of_getElem? hnodup hi hj]

/-- Names that are not added are found where the definitions have gone. -/
theorem lastOf_eq (h : Rearranged names names' m added) (hname : name ∉ added) {f f' : Nat → α}
    {g : α → α} (hg : ∀ i, g (f i) = f' (m i)) :
    lastOf (names'.zip ((List.range names'.length).map f')) name =
      (lastOf (names.zip ((List.range names.length).map f)) name).map g := by
  obtain ⟨hold, hnew, hmono⟩ := h.occurrences hname
  cases hfound : lastOf (names.zip ((List.range names.length).map f)) name with
  | none =>
    rw [Option.map_none, lastOf_eq_none]
    intro hmem
    obtain ⟨j, hj⟩ := List.mem_iff_getElem?.1 hmem
    obtain ⟨i, hi, _⟩ := hnew j hj
    exact lastOf_eq_none.1 hfound (List.mem_of_getElem? hi)
  | some a =>
    obtain ⟨i, hi, hlast, rfl⟩ := lastOf_eq_some.1 hfound
    refine lastOf_eq_some.2 ⟨m i, hold i hi, fun j hj => ?_, hg i⟩
    obtain ⟨k, hk, rfl⟩ := hnew j hj
    exact hmono k i hk hi (hlast k hk)

end Rearranged

/-! ## Rearranged bodies -/

namespace Heading

/-- The names that a body binds. -/
def names (h : Heading) : List String := h.name.toList ++ h.params ++ h.definitions

theorem find_places_eq_none {h : Heading} {name : String} :
    h.places.find name = none ↔ name ∉ h.names := by
  have hself : lastOf (h.name.toList.zip [Place.self]) name = none ↔ name ∉ h.name.toList := by
    cases h.name with
    | none => simp [lastOf]
    | some x =>
      rw [Option.toList_some, List.zip_cons_cons, List.zip_nil_left, ← List.nil_append [_],
        lastOf_append_singleton]
      by_cases hx : name = x <;> simp [hx, lastOf]
  rw [Binders.find, Option.or_eq_none_iff, Option.or_eq_none_iff, places, binders, lastOf_eq_none,
    lastOf_eq_none, hself, names, List.mem_append, List.mem_append]
  tauto

/-- Names that are not added stand for what their definitions have become, or for what they stood
for. -/
theorem find_rearranged {h h' : Heading} {m : Nat → Nat} {added : List String}
    (hdefinitions : Rearranged h.definitions h'.definitions m added) (hname : h'.name = h.name)
    (hparams : h'.params = h.params) {name : String} (hadded : name ∉ added) :
    h'.places.find name = (h.places.find name).map (Place.move m) := by
  have hparam : ∀ p ∈ h.params.zip ((List.range h.params.length).map Place.param),
      p.2.move m = p.2 := by
    intro p hp
    obtain ⟨i, _, hi⟩ := List.mem_map.1 (List.of_mem_zip hp).2
    rw [← hi]
    rfl
  have hself : ∀ p ∈ h.name.toList.zip [Place.self], p.2.move m = p.2 := by
    intro p hp
    rw [List.mem_singleton.1 (List.of_mem_zip hp).2]
    rfl
  have hlast : lastOf (h'.definitions.zip ((List.range h'.definitions.length).map .definition)) name =
      (lastOf (h.definitions.zip ((List.range h.definitions.length).map .definition)) name).map
        (Place.move m) := hdefinitions.lastOf_eq hadded fun _ => rfl
  rw [Binders.find, Binders.find, Option.map_or, Option.map_or]
  simp only [places, binders, hname, hparams]
  rw [hlast, map_lastOf_of_forall hparam, map_lastOf_of_forall hself]

end Heading

/-- What is known of the names around: those that are bound, and those of added definitions. -/
structure NamesAround where
  bound : List String
  added : List String

/-- The names in a body, of which some are those of added definitions. -/
def NamesAround.enter (s : NamesAround) (h : Heading) (added : List String) : NamesAround where
  bound := h.names ++ s.bound
  added := added ++ s.added.filter fun name => name ∉ h.names

/-- In any body a definition may be added, or the definitions may be permuted if no two have the same
name. No name stands for an added definition, except in the values of such definitions. -/
def Variation.rearranging : Variation where
  Scope := NamesAround
  top := ⟨[], []⟩
  use s name name' := name' = name ∧ name ∉ s.added
  bound s name := name ∈ s.bound
  enter s h h' m t := ∃ added, Rearranged h.definitions h'.definitions m added ∧
    h'.name = h.name ∧ h'.params = h.params ∧ t = s.enter h' added
  not_bound_top _ := List.not_mem_nil
  params_length := by
    rintro s h h' m t ⟨_, _, _, hparams, _⟩
    rw [hparams]
  injective := by
    rintro s h h' m t ⟨_, hdefinitions, _⟩
    exact hdefinitions.injective
  use_enter := by
    rintro s h h' m _ _ name ⟨added, hdefinitions, hname, hparams, rfl⟩ ⟨rfl, hadded⟩
    rw [NamesAround.enter, List.mem_append, not_or] at hadded
    have hfind := Heading.find_rearranged hdefinitions hname hparams hadded.1
    cases hp : h.places.find name with
    | some place =>
      rw [hp] at hfind
      exact .inl ⟨place, rfl, hfind⟩
    | none =>
      rw [hp] at hfind
      refine .inr ⟨rfl, hfind, rfl, fun hmem => hadded.2 (List.mem_filter.2 ⟨hmem, ?_⟩)⟩
      simpa using Heading.find_places_eq_none.1 hfind
  bound_enter := by
    rintro s h h' m _ name ⟨added, _, _, _, rfl⟩ hbound
    rcases List.mem_append.1 hbound with hmem | hbound
    · exact .inl fun hnone => Heading.find_places_eq_none.1 hnone hmem
    · exact .inr hbound

theorem Variation.keeps_rearranging :
    Variation.rearranging.Keeps fun s name => name ∉ s.added where
  use _ _ h := ⟨rfl, h⟩
  enter s h := by
    refine ⟨s.enter h [], ⟨[], .same _, rfl, rfl, rfl⟩, fun name hname hmem => hname ?_⟩
    exact (List.mem_filter.1 hmem).1

/-! ## Edits of bodies -/

section Edits

variable {s : NamesAround} {r : Routine}

/-- A definition is added to a body where its name is not used. Its value can be lowered. -/
theorem Routine.varied_add {before after : List Definition} {d : Definition}
    (hr : r.definitions = before ++ after)
    (hunused : ∀ name ∈ r.usedNames, name ≠ d.name ∧ name ∉ s.added)
    (hvalue : ∀ name ∈ d.value.core.uses,
      name = d.name ∨ name ∈ r.heading.names ∨ name ∈ s.bound) :
    r.Varied .rearranging s { r with definitions := before ++ d :: after } := by
  obtain ⟨self, params, _, body⟩ := r
  obtain rfl : _ = before ++ after := hr
  have hadd := Rearranged.add (before.map Definition.name) (after.map Definition.name) d.name
  rw [List.length_map, ← List.map_append, ← List.map_cons, ← List.map_append] at hadd
  let r' : Routine := ⟨self, params, before ++ d :: after, body⟩
  have hkeep : ∀ name ∈ Routine.usedNames ⟨self, params, before ++ after, body⟩,
      name ∉ (s.enter r'.heading [d.name]).added := by
    intro name hname hmem
    obtain ⟨hne, hold⟩ := hunused name hname
    rcases List.mem_append.1 hmem with hmem | hmem
    · exact hne (List.mem_singleton.1 hmem)
    · exact hold (List.mem_filter.1 hmem).1
  obtain ⟨hdefinitions, hbody⟩ := List.forall_mem_append.1 hkeep
  refine .mk ⟨[d.name], hadd, rfl, rfl, rfl⟩ (.of_forall fun k d' hd' => ⟨d', ?_, ?_⟩)
    (fun j d' hd' hne => ?_) (variedForm_self Variation.keeps_rearranging body _ hbody)
  · rw [Nat.zero_add]
    exact (getElem?_skip ..).trans hd'
  · exact variedDefinitions_self Variation.keeps_rearranging _ _ hdefinitions k d' hd'
  · -- The only definition without a counterpart is the one that is added.
    have hj : j = before.length := by
      by_contra hj
      obtain ⟨i, rfl⟩ := exists_skip hj
      have hi := (getElem?_skip before after d i).symm.trans hd'
      exact hne i (List.getElem?_eq_some_iff.1 hi).1 rfl
    subst hj
    obtain rfl : d = d' := by simpa using hd'
    intro name hname
    show name ∈ _ ++ s.bound
    have hname := hvalue name hname
    simp only [Routine.heading, Heading.names, List.mem_append, List.map_append, List.map_cons,
      List.mem_cons] at hname ⊢
    tauto

theorem Routine.varied_permute {ds : List Definition} (hperm : ds.Perm r.definitions)
    (hnodup : (r.definitions.map Definition.name).Nodup)
    (hunused : ∀ name ∈ r.usedNames, name ∉ s.added) :
    r.Varied .rearranging s { r with definitions := ds } := by
  let names := r.definitions.map Definition.name
  let names' := ds.map Definition.name
  have hnames : names'.Perm names := hperm.map _
  let m : Nat → Nat := fun i => names'.idxOf (names[i]?.getD "")
  have hm : ∀ i name, names[i]? = some name → names'[m i]? = some name := by
    intro i name hi
    have hmem : name ∈ names' := hnames.mem_iff.2 (List.mem_of_getElem? hi)
    show names'[names'.idxOf (names[i]?.getD "")]? = some name
    rw [hi, Option.getD_some, List.getElem?_eq_getElem (List.idxOf_lt_length_iff.2 hmem),
      List.getElem_idxOf]
  have hplace : ∀ i d, r.definitions[i]? = some d → ds[m i]? = some d := by
    intro i d hi
    obtain ⟨j, hj⟩ := List.mem_iff_getElem?.1 (hperm.mem_iff.2 (List.mem_of_getElem? hi))
    have hi' : names[i]? = some d.name := by rw [List.getElem?_map, hi]; rfl
    have hj' : names'[j]? = some d.name := by rw [List.getElem?_map, hj]; rfl
    rw [eq_of_getElem? (hnames.nodup_iff.2 hnodup) (hm i d.name hi') hj', hj]
  have hkeep : ∀ name ∈ r.usedNames,
      name ∉ (s.enter (Routine.heading { r with definitions := ds }) []).added :=
    fun name hname hmem => hunused name hname (List.mem_filter.1 hmem).1
  obtain ⟨hdefinitions, hbody⟩ := List.forall_mem_append.1 hkeep
  refine .mk (m := m) ⟨[], .permute hnodup hnames hm, rfl, rfl, rfl⟩
    (.of_forall fun k d hd => ⟨d, ?_, ?_⟩) (fun j d hd hne => ?_)
    (variedForm_self Variation.keeps_rearranging r.body _ hbody)
  · rw [Nat.zero_add]
    exact hplace k d hd
  · exact variedDefinitions_self Variation.keeps_rearranging _ _ hdefinitions k d hd
  · obtain ⟨i, hi⟩ := List.mem_iff_getElem?.1 (hperm.mem_iff.1 (List.mem_of_getElem? hd))
    have hnodup' : ds.Nodup := List.Nodup.of_map _ (hnames.nodup_iff.2 hnodup)
    exact absurd (eq_of_getElem? hnodup' (hplace i d hi) hd)
      (hne i (List.getElem?_eq_some_iff.1 hi).1)

end Edits

/-! ## What can be lowered -/

/-- An expression can be lowered if the names that it uses outside its functions are bound. -/
theorem Expression.lower_ok_iff {σ : Type} (x : Expression) (bodies : List (Binders NodeId))
    (b : Builder σ) : (∃ e c, (x.lower (bindingsOf bodies)).run.Yields b (.ok e) c) ↔
      ∀ name ∈ x.core.uses, innermost bodies name ≠ none := by
  rw [x.lower_core]
  rcases x.core.lower_places b with
    ⟨fault, c, ⟨name, hname, hfree⟩, herror⟩ | ⟨e, c, hok, _, hbound, _⟩
  · refine ⟨?_, fun h => absurd hfree (h name hname)⟩
    rintro ⟨e, d, hok⟩
    have hrun := (hok fun r => .done (r.map fun _ => .statements [])).symm.trans (herror _)
    rw [Builder.run_done, Builder.run_done] at hrun
    cases congrArg Prod.fst hrun
  · exact ⟨fun _ => hbound, fun _ => ⟨e, c, hok⟩⟩

/-- **Definitions are bindings, not statements.** A program that compiles still compiles when, in any
of its bodies, a definition is added whose name is not used and whose value can be lowered, or the
definitions are permuted and no two of them have the same name. The script, its stores and its digest
are the same, though all nodes have other handles and the stores may be made earlier. -/
theorem Program.compile_rearranged {p q : Program} (h : p.Varied .rearranging q) {o : Options}
    {compiled : Compiled} (hok : (p.compile o).1 = .ok compiled) :
    (q.compile o).1 = .ok compiled :=
  compile_of_varied h hok

/-- A function with two definitions, and a call of it. -/
def orderedExample : Program where
  definitions := [.mk "f" (.function none ["x"]
    [.mk "a" (.call (.use "x") [.raw "1"] false false),
      .mk "b" (.call (.use "x") [.raw "2"] false false)]
    (some (.value (.call (.use "a") [.use "b"] false false))))]
  body := some (.statements [.call (.use "f") [.ident "g"] false false])

/-- The definitions of the function are permuted, and one that loads a module is added to the program
before the others. -/
def rearrangedExample : Program where
  definitions := [.mk "m" (.call (.use "f") [.module "m" none] false false),
    .mk "f" (.function none ["x"]
      [.mk "b" (.call (.use "x") [.raw "2"] false false),
        .mk "a" (.call (.use "x") [.raw "1"] false false)]
      (some (.value (.call (.use "a") [.use "b"] false false))))]
  body := some (.statements [.call (.use "f") [.ident "g"] false false])

theorem varied_rearrangedExample : orderedExample.Varied .rearranging rearrangedExample := by
  refine .mk ⟨["m"], .add [] ["f"] "m", rfl, rfl, rfl⟩ (.cons rfl (.function ?_) (.nil ..))
    (fun j d hd hne => ?_) ?_
  · exact Routine.varied_permute (r := ⟨none, ["x"], [_, _], _⟩) (.swap ..) (by decide) (by decide)
  · cases j with
    | zero =>
      cases hd
      have hbound : ∀ name ∈ ["f"], name ∈ rearrangedExample.routine.heading.names := by decide
      exact fun name hname => List.mem_append_left _ (hbound name hname)
    | succ j =>
      cases j with
      | zero => exact absurd rfl (hne 0 Nat.one_pos)
      | succ j => cases hd
  · exact variedForm_self Variation.keeps_rearranging _ _ (by decide)

theorem compile_rearrangedExample : ∃ compiled,
    (orderedExample.compile {}).1 = .ok compiled ∧
    (rearrangedExample.compile {}).1 = .ok compiled := by
  have hrun : ((Builder.empty ()).run orderedExample.recipe).1 = .ok (.statements [4]) := by cbv
  have hsurvey : (((Builder.empty ()).run orderedExample.recipe).2.survey [] [4]).1 =
      .ok [4, 0, 3, 1, 11, 5, 6, 8, 10, 2, 7, 9] := by cbv
  obtain ⟨compiled, hok⟩ :=
    Program.exists_compiled (o := {}) hrun hsurvey (by cbv) (by cbv) rfl (by simp)
  exact ⟨compiled, hok, Program.compile_rearranged varied_rearrangedExample hok⟩

end ScriptGraph
