import ScriptGraph.Proofs.Program.Pairs

/-!
# Similar programs make the same nodes

* `Abreast` : one side is to make what the other side has made;
* `Core.Similar.catches` : it makes it, when a similar expression is lowered;
* `CoreFunction.Similar.catches` : also when the body of a similar function is lowered, in whatever
  order the other side has lowered its definitions.
-/

namespace ScriptGraph

variable {σ : Type} {V : Variation} {s : V.Scope} {φ ψ : Pairing} {a b c : Builder σ}
  {bodies bodies' : List (Binders NodeId)}

/-! ## Expressions -/

/-- One side stands at `b`. The other side, which ends at `a`, has gone from `lo` to `hi`, and what it
has made there is still to be made on the first side. -/
structure Abreast (V : Variation) (s : V.Scope) (a : Builder σ)
    (bodies bodies' : List (Binders NodeId)) (φ : Pairing) (b lo hi : Builder σ) : Prop where
  mirrors : b.Mirrors V φ a
  related : Related V s (φ.below lo.state.graph.size) bodies bodies'
  unpaired : Unpaired a.state.graph φ lo.state.graph.size hi.state.graph.size
  retains : hi.Retains a
  linked : a.state.graph.Linked

/-- What is between two builders on the other side is made on the way to `c`. -/
abbrev Makes (V : Variation) (a : Builder σ) (φ : Pairing) (c lo hi : Builder σ)
    (P : Pairing → Prop) : Prop :=
  Catches V a φ c lo.state.graph.size hi.state.graph.size P

namespace Abreast

variable {lo mid hi : Builder σ} (h : Abreast V s a bodies bodies' φ b lo hi)

include h

theorem before (hhi : mid.Appends hi) : Abreast V s a bodies bodies' φ b lo mid where
  mirrors := h.mirrors
  related := h.related
  unpaired := h.unpaired.mono (Nat.le_refl _) hhi.size_le
  retains := hhi.retains.trans h.retains
  linked := h.linked

/-- The first side makes what was made before `mid`, and then the rest. -/
theorem bind {P Q : Pairing → Prop} {d : Builder σ} (hlo : lo.Appends mid) (hhi : mid.Appends hi)
    (hfirst : Makes V a φ c lo mid P)
    (hsecond : ∀ ψ, φ ≤ ψ → P ψ → Abreast V s a bodies bodies' ψ c mid hi →
      Makes V a ψ d mid hi Q) : Makes V a φ d lo hi Q := by
  obtain ⟨ψ, hpairs, hmirrors, hP⟩ := hfirst
  obtain ⟨χ, hpairs', hmirrors', hQ⟩ := hsecond ψ hpairs.grows hP
    ⟨hmirrors, h.related.mono (Pairing.below_mono hpairs.grows hlo.size_le),
      (h.unpaired.mono hlo.size_le (Nat.le_refl _)).pairs hpairs (.inl (Nat.le_refl _)), h.retains,
      h.linked⟩
  exact ⟨χ, (hpairs.mono (Nat.le_refl _) hhi.size_le).trans
    (hpairs'.mono hlo.size_le (Nat.le_refl _)), hmirrors', hQ⟩

end Abreast

theorem Catches.imp {lo hi : Nat} {P Q : Pairing → Prop} (h : Catches V a φ c lo hi P)
    (hPQ : ∀ ψ, P ψ → Q ψ) : Catches V a φ c lo hi Q := by
  obtain ⟨ψ, hpairs, hmirrors, hP⟩ := h
  exact ⟨ψ, hpairs, hmirrors, hPQ ψ hP⟩

theorem Builder.Mirrors.catches {lo hi : Nat} {P : Pairing → Prop} (h : b.Mirrors V φ a)
    (hP : P φ) : Catches V a φ b lo hi P :=
  ⟨φ, .refl _ _ _ _, h, hP⟩

mutual

/-- A similar expression makes what the other side has made. -/
theorem Core.Similar.catches : ∀ {x x' : Core}, x.Similar V s x' →
    ∀ {φ : Pairing} {b c lo hi : Builder σ} {e e' : NodeId}, x.Places bodies b e c →
    x'.Places bodies' lo e' hi → Abreast V s a bodies bodies' φ b lo hi →
    Makes V a φ c lo hi fun ψ => ψ.below hi.state.graph.size e e'
  | _, _, .leaf _ draft hleaf, _, _, _, _, _, _, _, h, h', hab => by
    cases h
    cases h'
    exact hab.mirrors.create (.leaf hleaf) hab.retains hab.linked hab.unpaired
  | _, _, .template hps awaits optional, _, _, _, _, _, _, _, h, h', hab => by
    cases h with
    | template hqs =>
      cases h' with
      | template hqs' =>
        refine hab.bind hqs'.appends (.create _ _)
          (hps.catches hqs hqs' (hab.before (.create _ _))) fun ψ _ hparts hab => ?_
        exact hab.mirrors.create (.template hparts awaits false optional) hab.retains hab.linked
          hab.unpaired
  | _, _, .call hx hxs style, _, _, _, _, _, _, _, h, h', hab => by
    cases h with
    | call he hes =>
      cases h' with
      | call he' hes' =>
        refine hab.bind he'.appends (hes'.appends.trans (.create _ _))
          (hx.catches he he' (hab.before (hes'.appends.trans (.create _ _))))
          fun ψ _ hcallee hab => ?_
        refine hab.bind hes'.appends (.create _ _)
          (hxs.catches hes hes' (hab.before (.create _ _))) fun χ hχ hargs hab => ?_
        exact hab.mirrors.create
          (.call (Pairing.below_mono hχ hes'.appends.size_le _ _ hcallee) hargs style)
          hab.retains hab.linked hab.unpaired
  | _, _, .function hf, _, _, _, _, _, _, _, h, h', hab => by
    cases h
    cases h'
    exact hab.mirrors.function hf (hab.related.mono (Pairing.below_le _ _)) hab.retains hab.unpaired
  | _, _, .use huse, _, _, _, _, _, _, _, h, h', hab => by
    cases h with
    | use he =>
      cases h' with
      | use he' =>
        obtain ⟨e', hfound, hpair⟩ := hab.related.use _ _ huse _ he
        rw [he'] at hfound
        cases hfound
        exact hab.mirrors.catches hpair

theorem SimilarAll.catches : ∀ {xs xs' : List Core}, SimilarAll V s xs xs' →
    ∀ {φ : Pairing} {b c lo hi : Builder σ} {es es' : List NodeId}, PlacesAll bodies xs b es c →
    PlacesAll bodies' xs' lo es' hi → Abreast V s a bodies bodies' φ b lo hi →
    Makes V a φ c lo hi fun ψ => List.Forall₂ (ψ.below hi.state.graph.size) es es'
  | _, _, .nil _, _, _, _, _, _, _, _, h, h', hab => by
    cases h
    cases h'
    exact hab.mirrors.catches .nil
  | _, _, .cons hx hxs, _, _, _, _, _, _, _, h, h', hab => by
    cases h with
    | cons he hes =>
      cases h' with
      | cons he' hes' =>
        refine hab.bind he'.appends hes'.appends (hx.catches he he' (hab.before hes'.appends))
          fun ψ _ hpair hab => ?_
        obtain ⟨χ, hpairs, hmirrors, hrest⟩ := hxs.catches hes hes' hab
        exact ⟨χ, hpairs, hmirrors,
          .cons (Pairing.below_mono hpairs.grows hes'.appends.size_le _ _ hpair) hrest⟩

theorem SimilarParts.catches : ∀ {ps ps' : List CorePart}, SimilarParts V s ps ps' →
    ∀ {φ : Pairing} {b c lo hi : Builder σ} {qs qs' : List Part}, PlacesParts bodies ps b qs c →
    PlacesParts bodies' ps' lo qs' hi → Abreast V s a bodies bodies' φ b lo hi →
    Makes V a φ c lo hi fun ψ => List.Forall₂ (Part.Mirrors (ψ.below hi.state.graph.size)) qs qs'
  | _, _, .nil _, _, _, _, _, _, _, _, h, h', hab => by
    cases h
    cases h'
    exact hab.mirrors.catches .nil
  | _, _, .text t hps, _, _, _, _, _, _, _, h, h', hab => by
    cases h with
    | text t hqs =>
      cases h' with
      | text t hqs' => exact (hps.catches hqs hqs' hab).imp fun ψ hrest => .cons (.text t) hrest
  | _, _, .node hx hps, _, _, _, _, _, _, _, h, h', hab => by
    cases h with
    | node he hqs =>
      cases h' with
      | node he' hqs' =>
        refine hab.bind he'.appends hqs'.appends (hx.catches he he' (hab.before hqs'.appends))
          fun ψ _ hpair hab => ?_
        obtain ⟨χ, hpairs, hmirrors, hrest⟩ := hps.catches hqs hqs' hab
        exact ⟨χ, hpairs, hmirrors,
          .cons (.node (Pairing.below_mono hpairs.grows hqs'.appends.size_le _ _ hpair)) hrest⟩

end

/-! ## Names in bodies -/

theorem forall₂_getElem? {es es' : List NodeId} (h : List.Forall₂ φ es es') {i : Nat}
    {e e' : NodeId} (he : es[i]? = some e) (he' : es'[i]? = some e') : φ e e' := by
  obtain ⟨hi, rfl⟩ := List.getElem?_eq_some_iff.1 he
  obtain ⟨hi', rfl⟩ := List.getElem?_eq_some_iff.1 he'
  exact (List.forall₂_iff_get.1 h).2 i hi hi'

theorem mem_coresUses {xs : List Core} {name : String} :
    name ∈ coresUses xs ↔ ∃ x ∈ xs, name ∈ x.uses := by
  induction xs with
  | nil => simp [coresUses]
  | cons x xs ih => simp [coresUses, ih]

/-- Inside similar functions, names stand for partners if what is at their places are partners. -/
theorem Related.enter {t : V.Scope} {f f' : CoreFunction} {m : Nat → Nat} {me me' : NodeId}
    {args args' slots slots' : List NodeId} (h : Related V s φ bodies bodies')
    (henter : V.enter s f.heading f'.heading m t) (hme : f.name = none ∨ φ me me')
    (hargs : List.Forall₂ φ args args') (hlength : args.length = f.params.length)
    (hslots : slots.length = f.definitions.length)
    (hslots' : slots'.length = f'.definitions.length)
    (hpaired : ∀ i slot slot', slots[i]? = some slot → slots'[m i]? = some slot' → φ slot slot') :
    Related V t φ (f.binders me args slots :: bodies) (f'.binders me' args' slots' :: bodies') := by
  have hfind := f.heading.find_binders me hlength
    (hslots.trans (List.length_map CoreDefinition.name).symm)
  have hlength' : args'.length = f'.params.length :=
    (hargs.length_eq.symm.trans hlength).trans (V.params_length henter).symm
  have hfind' := f'.heading.find_binders me' hlength'
    (hslots'.trans (List.length_map CoreDefinition.name).symm)
  have hplace : ∀ place e e', f.heading.At me args slots e place →
      f'.heading.At me' args' slots' e' (place.move m) → φ e e' := by
    intro place e e' he he'
    cases place with
    | self =>
      obtain ⟨hname, rfl⟩ := he
      obtain ⟨-, rfl⟩ := he'
      exact hme.resolve_left hname
    | param i => exact forall₂_getElem? hargs he he'
    | definition i => exact hpaired i e e' he he'
  constructor
  · intro name name' huse e he
    have hrel := hfind name
    have hrel' := hfind' name'
    rw [innermost_cons, f.binders_eq] at he
    rw [innermost_cons, f'.binders_eq]
    rcases V.use_enter henter huse with ⟨place, hp, hp'⟩ | ⟨hp, hp', huse⟩
    · rw [hp] at hrel
      rw [hp'] at hrel'
      generalize (f.heading.binders me args slots).find name = found at hrel he
      generalize (f'.heading.binders me' args' slots').find name' = found' at hrel'
      cases hrel with
      | some hat =>
        cases hrel' with
        | some hat' =>
          cases he
          exact ⟨_, rfl, hplace place _ _ hat hat'⟩
    · rw [hp] at hrel
      rw [hp'] at hrel'
      generalize (f.heading.binders me args slots).find name = found at hrel he
      generalize (f'.heading.binders me' args' slots').find name' = found' at hrel'
      cases hrel
      cases hrel'
      exact h.use name name' huse e he
  · intro name hbound
    have hrel' := hfind' name
    rw [innermost_cons, f'.binders_eq]
    generalize (f'.heading.binders me' args' slots').find name = found' at hrel'
    rcases V.bound_enter henter hbound with hplaces | hbound
    · cases hfound : f'.heading.places.find name with
      | none => exact absurd hfound hplaces
      | some place =>
        rw [hfound] at hrel'
        cases hrel'
        exact nofun
    · cases found' with
      | some e => exact nofun
      | none => exact h.bound name hbound

/-- The names of a similar function's body are bound if those of the function's body are. -/
theorem CoreFunction.Similar.bound {t : V.Scope} {f f' : CoreFunction} {m : Nat → Nat}
    (hdefinitions : SimilarDefinitions V t m f'.definitions 0 f.definitions)
    (hadded : ∀ j d, f'.definitions[j]? = some d → (∀ i < f.definitions.length, m i ≠ j) →
      ∀ name ∈ d.value.uses, V.bound t name)
    (hroots : SimilarAll V t f.roots f'.roots) (hrel : Related V t φ bodies bodies')
    (hbound : ∀ name ∈ f.uses, innermost bodies name ≠ none) :
    ∀ name' ∈ f'.uses, innermost bodies' name' ≠ none := by
  have huse : ∀ name name', V.use t name name' → name ∈ f.uses →
      innermost bodies' name' ≠ none := by
    intro name name' huse hname
    obtain ⟨e, he⟩ := Option.ne_none_iff_exists'.1 (hbound name hname)
    obtain ⟨e', he', _⟩ := hrel.use name name' huse e he
    simp [he']
  intro name' hname'
  rw [CoreFunction.uses, List.mem_append, mem_coresUses] at hname'
  rcases hname' with ⟨x', hx', hname'⟩ | hname'
  · obtain ⟨d', hd', rfl⟩ := List.mem_map.1 hx'
    obtain ⟨j, hj⟩ := List.mem_iff_getElem?.1 hd'
    by_cases hm : ∃ i < f.definitions.length, m i = j
    · obtain ⟨i, hi, rfl⟩ := hm
      have hd := List.getElem?_eq_getElem hi
      obtain ⟨d, hd'', hsim⟩ := hdefinitions.exists_similar hd
      rw [Nat.zero_add, hj] at hd''
      cases hd''
      obtain ⟨name, hname, hvaries⟩ := hsim.exists_use name' hname'
      refine huse name name' hvaries (List.mem_append_left _ (mem_coresUses.2 ⟨_, ?_, hname⟩))
      exact List.mem_map_of_mem (List.getElem_mem hi)
    · exact hrel.bound name'
        (hadded j d' hj (fun i hi heq => hm ⟨i, hi, heq⟩) name' hname')
  · obtain ⟨name, hname, hvaries⟩ := hroots.exists_use name' hname'
    exact huse name name' hvaries (List.mem_append_right _ hname)

/-! ## Slots -/

theorem Builder.addSlots_succ (b : Builder σ) (n : Nat) :
    b.addSlots (n + 1) = (b.addSlots n).perform (.create .slot) := by
  induction n generalizing b with
  | zero => rfl
  | succ n ih => exact ih _

theorem Builder.addSlots_add (b : Builder σ) (k n : Nat) :
    b.addSlots (k + n) = (b.addSlots k).addSlots n := by
  induction n with
  | zero => rfl
  | succ n ih => rw [← Nat.add_assoc, addSlots_succ, addSlots_succ, ih]

/-- Slots are made whose partners have been made on the other side, in whatever order. -/
theorem addSlots_catches {lo : Builder σ} (hlinked : a.state.graph.Linked) {js : List Nat}
    (hnodup : js.Nodup) (hm : b.Mirrors V φ a)
    (hjs : ∀ j ∈ js, (lo.addSlots (j + 1)).Retains a ∧
      Unpaired a.state.graph φ (lo.state.graph.size + j) (lo.state.graph.size + (j + 1))) :
    ∃ ψ : Pairing, φ ≤ ψ ∧
      (∀ e e', ψ e e' → φ e e' ∨ a.state.graph.IsStore e' ∨ ∃ j ∈ js, e' = lo.state.graph.size + j) ∧
      (b.addSlots js.length).Mirrors V ψ a ∧
      List.Forall₂ ψ (List.range' b.state.graph.size js.length)
        (js.map (lo.state.graph.size + ·)) := by
  induction js generalizing b φ with
  | nil => exact ⟨φ, fun _ _ h => h, fun _ _ => .inl, hm, .nil⟩
  | cons j js ih =>
    rw [List.nodup_cons] at hnodup
    obtain ⟨hret, hun⟩ := hjs j List.mem_cons_self
    rw [Builder.addSlots_succ] at hret
    have hsize : ((lo.addSlots j).perform (.create .slot)).state.graph.size =
        lo.state.graph.size + (j + 1) := by rw [Builder.size_createSlot, lo.size_addSlots j]; rfl
    rw [← lo.size_addSlots j, ← hsize] at hun
    obtain ⟨ψ, hpairs, hmirrors, hpair⟩ := hm.create .slot hret hlinked hun
    rw [hsize, lo.size_addSlots] at hpairs
    obtain ⟨χ, hχ, hwithin, hmirrors', hall⟩ := ih hnodup.2 hmirrors fun i hi =>
      ⟨(hjs i (List.mem_cons_of_mem _ hi)).1,
        (hjs i (List.mem_cons_of_mem _ hi)).2.pairs hpairs <| by
          have hne : i ≠ j := fun heq => hnodup.1 (heq ▸ hi)
          omega⟩
    refine ⟨χ, fun e e' he => hχ e e' (hpairs.grows e e' he), fun e e' he => ?_, hmirrors', ?_⟩
    · rcases hwithin e e' he with he | he | ⟨i, hi, he⟩
      · rcases hpairs.within e e' he with he | he | ⟨hl, hr⟩
        · exact .inl he
        · exact .inr (.inl he)
        · exact .inr (.inr ⟨j, List.mem_cons_self, Nat.le_antisymm (Nat.le_of_lt_succ hr) hl⟩)
      · exact .inr (.inl he)
      · exact .inr (.inr ⟨i, List.mem_cons_of_mem _ hi, he⟩)
    · rw [List.length_cons, List.range'_succ, List.map_cons]
      rw [Builder.size_createSlot] at hall
      refine .cons (hχ _ _ ?_) hall
      have hpair := hpair.1
      show ψ b.state.graph.size (lo.state.graph.size + j)
      rw [← lo.size_addSlots]
      exact hpair

/-- The slots of a function are made, when those of a similar function have been made. -/
theorem addSlots_makes {lo : Builder σ} {n n' : Nat} {m : Nat → Nat}
    (hlinked : a.state.graph.Linked) (hm : b.Mirrors V φ a) (hret : (lo.addSlots n').Retains a)
    (hun : Unpaired a.state.graph φ lo.state.graph.size (lo.addSlots n').state.graph.size)
    (hlt : ∀ i < n, m i < n') (hinj : ∀ i < n, ∀ j < n, m i = m j → i = j) :
    Makes V a φ (b.addSlots n) lo (lo.addSlots n') fun ψ => ∀ i slot slot',
      (List.range' b.state.graph.size n)[i]? = some slot →
      (List.range' lo.state.graph.size n')[m i]? = some slot' → ψ slot slot' := by
  have hnodup : ((List.range n).map m).Nodup := List.nodup_range.map_on fun i hi j hj =>
    hinj i (List.mem_range.1 hi) j (List.mem_range.1 hj)
  obtain ⟨ψ, hψ, hwithin, hmirrors, hpaired⟩ := addSlots_catches hlinked hnodup hm fun j hj => by
    obtain ⟨i, hi, rfl⟩ := List.mem_map.1 hj
    have hle : m i + 1 ≤ n' := hlt i (List.mem_range.1 hi)
    obtain ⟨k, rfl⟩ := Nat.exists_eq_add_of_le hle
    rw [Builder.addSlots_add] at hret
    rw [lo.size_addSlots] at hun
    exact ⟨(Builder.addSlots_appends _ k).retains.trans hret,
      hun.mono (Nat.le_add_right _ _) (Nat.add_le_add_left hle _)⟩
  rw [List.length_map, List.length_range] at hmirrors hpaired
  refine ⟨ψ, ⟨hψ, fun e e' he => ?_⟩, hmirrors, fun i slot slot' hslot hslot' => ?_⟩
  · refine (hwithin e e' he).imp_right fun he => he.imp_right fun ⟨j, hj, he'⟩ => ?_
    obtain ⟨i, hi, rfl⟩ := List.mem_map.1 hj
    rw [he', lo.size_addSlots]
    exact ⟨Nat.le_add_right _ _, Nat.add_lt_add_left (hlt i (List.mem_range.1 hi)) _⟩
  · obtain ⟨hi, rfl⟩ := List.getElem?_eq_some_iff.1 hslot
    obtain ⟨hi', rfl⟩ := List.getElem?_eq_some_iff.1 hslot'
    rw [List.length_range'] at hi
    refine forall₂_getElem? hpaired hslot ?_
    simp [hi]

/-! ## Definitions -/

/-- What has been made for each definition: the nodes from `start j` up to `start (j + 1)`. -/
theorem PlacesDefinitions.exists_start {slots : List NodeId} {ds : List CoreDefinition}
    {b c : Builder σ} (h : PlacesDefinitions bodies slots ds b c) :
    ∃ start : Nat → Nat, Monotone start ∧ start 0 = b.state.graph.size ∧
      start ds.length = c.state.graph.size ∧
      ∀ j slot d, slots[j]? = some slot → ds[j]? = some d → ∃ lo hi e,
        d.value.Places bodies lo e hi ∧ hi.Retains c ∧
        c.state.graph.kindOf? slot = some (.slot (some e)) ∧
        lo.state.graph.size = start j ∧ hi.state.graph.size = start (j + 1) := by
  induction h with
  | nil b => exact ⟨fun _ => b.state.graph.size, monotone_const, rfl, rfl, nofun⟩
  | @cons d ds slot e slots b c a h hslot hs ih =>
    obtain ⟨start, hmono, hzero, hend, hrecord⟩ := ih
    rw [Builder.fill_graph hslot, Graph.size_setKind] at hzero
    have hfilled : a.state.graph.kindOf? slot = some (.slot (some e)) := by
      refine hs.retains.graph.kindOf?_eq ?_ nofun
      rw [Builder.fill_graph hslot, Graph.kindOf?_setKind_self hslot]
    refine ⟨fun j => j.casesOn b.state.graph.size start, monotone_nat_of_le_succ fun j => ?_, rfl,
      hend, fun j slot' d' hslot' hd' => ?_⟩
    · cases j with
      | zero => exact h.appends.size_le.trans_eq hzero.symm
      | succ j => exact hmono j.le_succ
    · cases j with
      | zero =>
        cases hslot'
        cases hd'
        exact ⟨b, c, e, h, (Builder.Retains.fill hslot).trans hs.retains, hfilled, rfl, hzero.symm⟩
      | succ j => exact hrecord j slot' d' hslot' hd'

/-- Definitions are lowered, and their slots filled, whose counterparts have been lowered on the other
side, in whatever order. -/
theorem PlacesDefinitions.catches {t : V.Scope} {m : Nat → Nat} {ds' : List CoreDefinition}
    {slots' : List NodeId} {start : Nat → Nat} (hlinked : a.state.graph.Linked)
    (hmono : Monotone start)
    (hrecord : ∀ j slot d, slots'[j]? = some slot → ds'[j]? = some d → ∃ lo hi e,
      d.value.Places bodies' lo e hi ∧ hi.Retains a ∧
      a.state.graph.kindOf? slot = some (.slot (some e)) ∧
      lo.state.graph.size = start j ∧ hi.state.graph.size = start (j + 1)) :
    ∀ {ds : List CoreDefinition} {slots : List NodeId} {b c : Builder σ} {φ : Pairing} {i : Nat},
      PlacesDefinitions bodies slots ds b c → SimilarDefinitions V t m ds' i ds →
      (∀ k slot, slots[k]? = some slot → ∃ slot', slots'[m (i + k)]? = some slot' ∧ φ slot slot') →
      (∀ k < i + ds.length, ∀ l < i + ds.length, m k = m l → k = l) →
      b.Mirrors V φ a → Related V t (φ.below (start 0)) bodies bodies' →
      (∀ j < ds'.length, (∀ k < i, m k ≠ j) →
        Unpaired a.state.graph φ (start j) (start (j + 1))) →
      Catches V a φ c (start 0) (start ds'.length) fun _ => True
  | _, _, _, _, _, _, .nil b, _, _, _, hm, _, _ => hm.catches trivial
  | _, _, b, c, φ, i, @PlacesDefinitions.cons _ _ d ds slot e slots _ b₁ _ h hslot hs, hsim, hslots,
      hinj, hm, hrel, hun => by
    cases hsim with
    | @cons _ _ _ _ name name' x x' _ hd' hx hrest =>
      obtain ⟨slot', hslot', hpair⟩ := hslots 0 slot rfl
      obtain ⟨lo, hi, e', hplaces, hret, hfilled, hlo, hhi⟩ := hrecord _ _ _ hslot' hd'
      have hlt : m i < ds'.length := (List.getElem?_eq_some_iff.1 hd').1
      have hnew : ∀ k < i, m k ≠ m i := fun k hk heq =>
        Nat.ne_of_lt hk (hinj k (by omega) i (by simp) heq)
      obtain ⟨ψ, hpairs, hmirrors, htarget⟩ := hx.catches h hplaces
        ⟨hm, hrel.mono (Pairing.below_mono (fun _ _ h => h) (hlo ▸ hmono (Nat.zero_le _))),
          hlo ▸ hhi ▸ hun (m i) hlt hnew, hret, hlinked⟩
      rw [hlo, hhi] at hpairs
      have hfill := hmirrors.fill hslot (hpairs.grows _ _ hpair) htarget.1 hfilled
      obtain ⟨χ, hpairs', hmirrors', _⟩ := PlacesDefinitions.catches (i := i + 1) hlinked hmono
        hrecord hs hrest
        (fun k slot hk => by
          obtain ⟨slot', hslot', hpair⟩ := hslots (k + 1) slot hk
          rw [Nat.add_right_comm]
          exact ⟨slot', hslot', hpairs.grows _ _ hpair⟩)
        (fun k hk l hl => hinj k (by rw [List.length_cons]; omega) l
          (by rw [List.length_cons]; omega))
        hfill (hrel.mono (Pairing.below_mono hpairs.grows (Nat.le_refl _)))
        (fun j hj hne => by
          refine (hun j hj fun k hk => hne k (Nat.lt_succ_of_lt hk)).pairs hpairs ?_
          have hne := hne i (Nat.lt_succ_self i)
          rcases Nat.lt_or_gt_of_ne hne with hlt | hgt
          · exact .inl (hmono hlt)
          · exact .inr (hmono hgt))
      exact ⟨χ, (hpairs.mono (hmono (Nat.zero_le _)) (hmono hlt)).trans hpairs', hmirrors', trivial⟩

/-! ## Bodies -/

theorem Body.mirrors_ofRoots {returns : Bool} {es es' : List NodeId} (h : List.Forall₂ φ es es') :
    (Body.ofRoots returns es).Mirrors φ (Body.ofRoots returns es') := by
  cases h with
  | nil => exact .statements .nil
  | cons he hes =>
    cases hes with
    | nil =>
      cases returns with
      | true => exact .value he
      | false => exact .statements (.cons he .nil)
    | cons he' hes => exact .statements (.cons he (.cons he' hes))

/-- **The body of a similar function makes what the other side has made**, when its definitions are
lowered in another order, and some are not there. -/
theorem CoreFunction.Similar.catches {f f' : CoreFunction} (hsim : f.Similar V s f')
    {me me' : NodeId} {args args' : List NodeId} {lo hi : Builder σ} {body body' : Body}
    (h : f.Places bodies me args b body c) (h' : f'.Places bodies' me' args' lo body' hi)
    (hret : hi.Retains a) (hlinked : a.state.graph.Linked) (hm : b.Mirrors V φ a)
    (hrel : Related V s (φ.below lo.state.graph.size) bodies bodies')
    (hun : Unpaired a.state.graph φ lo.state.graph.size hi.state.graph.size)
    (hme : f.name = none ∨ φ.below lo.state.graph.size me me')
    (hargs : List.Forall₂ (φ.below lo.state.graph.size) args args')
    (hlength : args.length = f.params.length) :
    Makes V a φ c lo hi fun ψ => body.Mirrors ψ body' := by
  obtain ⟨henter, hreturns, hdefinitions, hadded, hroots⟩ := hsim
  rename_i t m
  obtain ⟨c₁, es, hds, hes, rfl⟩ := h
  obtain ⟨hi₁, es', hds', hes', rfl⟩ := h'
  have hret₁ : hi₁.Retains a := hes'.appends.retains.trans hret
  have hlt : ∀ i < f.definitions.length, m i < f'.definitions.length := fun i hi => by
    obtain ⟨d', hd', _⟩ := hdefinitions.exists_similar (List.getElem?_eq_getElem hi)
    rw [Nat.zero_add] at hd'
    exact (List.getElem?_eq_some_iff.1 hd').1
  have hinj : ∀ i < f.definitions.length, ∀ j < f.definitions.length, m i = m j → i = j := by
    have hinj := V.injective henter
    rwa [CoreFunction.heading, List.length_map] at hinj
  have hsize := hds'.retains.graph.size_le
  have hsize₁ := hes'.appends.size_le
  obtain ⟨ψ, hpairs, hmirrors, hslots⟩ := addSlots_makes (n := f.definitions.length)
    (m := m) hlinked hm (hds'.retains.trans hret₁)
    (hun.mono (Nat.le_refl _) (Nat.le_trans hsize hsize₁)) hlt hinj
  obtain ⟨start, hmono, hzero, hend, hrecord⟩ := hds'.exists_start
  rw [← hzero] at hpairs hsize
  have hlo : lo.state.graph.size ≤ start 0 := hzero ▸ (lo.addSlots_appends _).size_le
  have hbelow : ∀ slot', slot' ∈ List.range' lo.state.graph.size f'.definitions.length →
      slot' < start 0 := fun slot' hmem => by
    rw [hzero, lo.size_addSlots]
    exact (List.mem_range'_1.1 hmem).2
  have hrelated := (hrel.mono (Pairing.below_mono hpairs.grows hlo)).enter henter
    (hme.imp_right (Pairing.below_mono hpairs.grows hlo _ _))
    (forall₂_mono (Pairing.below_mono hpairs.grows hlo) hargs) hlength
    (List.length_range' (s := b.state.graph.size)) (List.length_range' (s := lo.state.graph.size))
    fun i slot slot' hslot hslot' =>
      ⟨hslots i slot slot' hslot hslot', hbelow slot' (List.mem_of_getElem? hslot')⟩
  have hfree : ∀ {x y}, start 0 ≤ x → y ≤ hi.state.graph.size →
      Unpaired a.state.graph ψ x y := fun hx hy =>
    (hun.mono (Nat.le_trans hlo hx) hy).pairs hpairs (.inl hx)
  obtain ⟨χ, hpairs', hmirrors', _⟩ := hds.catches (i := 0) hlinked hmono
    (fun j slot d hslot hd => by
      obtain ⟨lo, hi, e, hplaces, hret', hfilled, hsizes⟩ := hrecord j slot d hslot hd
      exact ⟨lo, hi, e, hplaces, hret'.trans hret₁, hret₁.graph.kindOf?_eq hfilled nofun, hsizes⟩)
    hdefinitions
    (fun k slot hslot => by
      have hk : k < f.definitions.length := by
        simpa using (List.getElem?_eq_some_iff.1 hslot).1
      obtain ⟨slot', hslot'⟩ : ∃ slot',
          (List.range' lo.state.graph.size f'.definitions.length)[m k]? = some slot' :=
        ⟨_, List.getElem?_eq_getElem (by simpa using hlt k hk)⟩
      exact ⟨slot', by rwa [Nat.zero_add], hslots k slot slot' hslot hslot'⟩)
    (by rwa [Nat.zero_add]) hmirrors hrelated
    fun j hj _ => hfree (hmono (Nat.zero_le j))
      (Nat.le_trans (hmono hj) (Nat.le_trans (Nat.le_of_eq hend) hsize₁))
  rw [hend] at hpairs'
  obtain ⟨ω, hpairs'', hmirrors'', hroots'⟩ := hroots.catches hes hes'
    ⟨hmirrors', hrelated.mono (Pairing.below_mono hpairs'.grows hsize),
      (hfree hsize (Nat.le_refl _)).pairs hpairs' (.inl (Nat.le_refl _)), hret, hlinked⟩
  refine ⟨ω, ?_, hmirrors'', ?_⟩
  · exact ((hpairs.mono (Nat.le_refl _) (Nat.le_trans hsize hsize₁)).trans
      (hpairs'.mono hlo hsize₁)).trans (hpairs''.mono (Nat.le_trans hlo hsize) (Nat.le_refl _))
  · rw [hreturns]
    exact Body.mirrors_ofRoots (forall₂_mono (ω.below_le _) hroots')

end ScriptGraph
