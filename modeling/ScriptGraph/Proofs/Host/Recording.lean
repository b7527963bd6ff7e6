import ScriptGraph.Proofs.Host.Conversions

/-!
# What is recorded for instances

* `HostValue.Exposes` : the conversion of a value comes to a foreign object;
* `HostValue.ConvertsAll.clean`, `HostValue.ConvertsAll.tidy` : conversions record one node for each
  instance they convert, and none for one that exposes a foreign object;
* `Builder.Converted` : operations and conversions, in any order, led to a builder;
* `Builder.Converted.sharing` : an instance has one node, which no other instance has, and a value is
  converted exactly if it exposes no foreign object.
-/

namespace ScriptGraph

variable {σ : Type} {b c : Builder σ}

namespace HostValue

/-- The conversion of a value comes to a foreign object: the value is the object, or an instance
without a recorded node that holds a value whose conversion does. -/
inductive Exposes (memo : List (Nat × NodeId)) (description : String) : HostValue σ → Prop
  | foreign : Exposes memo description (.foreign description)
  | element {v w : HostValue σ} {i : Nat} (hv : v.instance? = some i) (hi : memo.lookup i = none)
    (hw : w ∈ v.elements) (h : Exposes memo description w) : Exposes memo description v

/-- `v` holds `w` at some depth. Every value holds itself. -/
def Holds : HostValue σ → HostValue σ → Prop := Relation.ReflTransGen fun v w => w ∈ v.elements

/-- An instance is one value, wherever it is held. -/
def Coherent (v : HostValue σ) : Prop :=
  ∀ u w i, v.Holds u → v.Holds w → u.instance? = some i → w.instance? = some i → u = w

/-- Values with all that they hold. An instance is one value. -/
structure Family (W : HostValue σ → Prop) : Prop where
  elements : ∀ {v w}, W v → w ∈ v.elements → W w
  unique : ∀ {v w i}, W v → W w → v.instance? = some i → w.instance? = some i → v = w

theorem Coherent.family {v : HostValue σ} (h : v.Coherent) : Family v.Holds where
  elements hu hw := hu.tail hw
  unique hu hw hi hi' := h _ _ _ hu hw hi hi'

theorem sizeOf_lt_of_mem_elements {v w : HostValue σ} (h : w ∈ v.elements) :
    sizeOf w < sizeOf v :=
  Nat.lt_of_lt_of_le (List.sizeOf_lt_of_mem h) v.sizeOf_elements_le

theorem Holds.sizeOf_le {v w : HostValue σ} (h : v.Holds w) : sizeOf w ≤ sizeOf v := by
  induction h with
  | refl => exact Nat.le_refl _
  | tail _ hw ih => exact Nat.le_trans (Nat.le_of_lt (sizeOf_lt_of_mem_elements hw)) ih

/-- What the elements of a value hold, without the value itself. -/
theorem Family.below {W : HostValue σ → Prop} (hW : Family W) {v : HostValue σ} (hv : W v) :
    Family (fun w => ∃ u ∈ v.elements, u.Holds w) ∧ ∀ w, (∃ u ∈ v.elements, u.Holds w) → W w ∧ w ≠ v := by
  have hsub : ∀ w, (∃ u ∈ v.elements, u.Holds w) → W w ∧ w ≠ v := by
    rintro w ⟨u, hu, hw⟩
    refine ⟨?_, ?_⟩
    · induction hw with
      | refl => exact hW.elements hv hu
      | tail _ hx ih => exact hW.elements ih hx
    · rintro rfl
      have := sizeOf_lt_of_mem_elements hu
      have := hw.sizeOf_le
      omega
  refine ⟨⟨?_, ?_⟩, hsub⟩
  · rintro w x ⟨u, hu, hw⟩ hx
    exact ⟨u, hu, hw.tail hx⟩
  · intro w x i hw hx
    exact hW.unique (hsub w hw).1 (hsub x hx).1

/-- Each instance that `memo'` records is recorded by `memo`, or is a value of the family that
exposes nothing. -/
def Clean (W : HostValue σ → Prop) (memo memo' : List (Nat × NodeId)) : Prop :=
  ∀ i, memo'.lookup i ≠ none → memo.lookup i ≠ none ∨
    ∃ v, W v ∧ v.instance? = some i ∧ ∀ description, ¬ v.Exposes memo description

/-! ## Foreign objects -/

variable {memo : List (Nat × NodeId)} {description : String}

/-- An instance whose node is recorded exposes nothing. -/
theorem not_exposes_of_lookup {v : HostValue σ} {i : Nat} (hv : v.instance? = some i)
    (hi : memo.lookup i ≠ none) : ¬ v.Exposes memo description := by
  intro h
  cases h with
  | foreign => cases hv
  | element hv' hi' _ _ =>
    cases hv.symm.trans hv'
    exact hi hi'

/-- A value without an instance exposes nothing, if it is converted. -/
theorem not_exposes_of_yields {v : HostValue σ} {e : NodeId} (hv : v.instance? = none)
    (hx : v.toNode.run.Yields b (.ok e) c) : ¬ v.Exposes memo description := by
  intro h
  cases h with
  | foreign =>
    have hthrow : (HostValue.foreign description : HostValue σ).toNode.run.Yields b
        (.error (.unconvertible description)) b := fun next => rfl
    cases (hx.unique hthrow).1
  | element hv' => cases hv.symm.trans hv'

theorem Exposes.mono {v : HostValue σ} {memo' : List (Nat × NodeId)}
    (h : v.Exposes memo description) (hmemo : memo' ⊆ memo) : v.Exposes memo' description := by
  induction h with
  | foreign => exact .foreign
  | element hv hi hw _ ih =>
    refine .element hv ?_ hw ih
    rw [List.lookup_eq_none_iff] at hi ⊢
    exact fun p hp => hi p (hmemo hp)

/-- A conversion fails for a foreign object that it comes to. -/
theorem ConvertsAll.exposes {vs : List (HostValue σ)} {J : List (Nat × NodeId)}
    {r : Except Fault (List NodeId)} (h : ConvertsAll vs b J r c) {fault : Fault}
    (hr : r = .error fault) :
    ∃ v ∈ vs, ∃ description, v.Exposes b.state.memo description ∧
      fault = .unconvertible description := by
  induction h with
  | nil b => cases hr
  | @plain v vs b e c J r d hv hx h ih =>
    cases r with
    | ok => cases hr
    | error =>
      cases hr
      obtain ⟨w, hw, description, hexposes, heq⟩ := ih rfl
      have hmemo := ((toNode_ends v b).of_yields hx).1.memo_subset
      exact ⟨w, List.mem_cons_of_mem v hw, description, hexposes.mono hmemo, heq⟩
  | foreign description vs b =>
    cases hr
    exact ⟨_, List.mem_cons_self, description, .foreign, rfl⟩
  | @known v _ _ _ _ _ r _ hv hi h ih =>
    cases r with
    | ok => cases hr
    | error =>
      cases hr
      obtain ⟨w, hw, hexposes⟩ := ih rfl
      exact ⟨w, List.mem_cons_of_mem v hw, hexposes⟩
  | @made v _ _ _ _ es _ _ r _ hv hi hes h ihes ih =>
    cases r with
    | ok => cases hr
    | error =>
      cases hr
      obtain ⟨w, hw, description, hexposes, heq⟩ := ih rfl
      have hmemo := (hes.leads.trans (finish_leads hv es _)).memo_subset
      exact ⟨w, List.mem_cons_of_mem v hw, description, hexposes.mono hmemo, heq⟩
  | failed hv hi hes ihes =>
    cases hr
    obtain ⟨w, hw, description, hexposes, heq⟩ := ihes rfl
    exact ⟨_, List.mem_cons_self, description, .element hv hi hw hexposes, heq⟩

theorem Clean.cons {W : HostValue σ → Prop} {memo' : List (Nat × NodeId)} (h : Clean W memo memo')
    {v : HostValue σ} {i : Nat} (hv : W v) (hi : v.instance? = some i)
    (hexposes : ∀ description, ¬ v.Exposes memo description) (e : NodeId) :
    Clean W memo ((i, e) :: memo') := by
  intro j hj
  by_cases hij : j = i
  · subst hij
    exact .inr ⟨v, hv, hi, hexposes⟩
  · rw [List.lookup_cons, beq_false_of_ne hij] at hj
    exact h j hj

/-- Conversions record nothing for values that expose a foreign object, and such values are not
converted. -/
theorem ConvertsAll.clean {W : HostValue σ → Prop} (hW : Family W) {vs : List (HostValue σ)}
    {J : List (Nat × NodeId)} {r : Except Fault (List NodeId)} (h : ConvertsAll vs b J r c)
    (hvs : ∀ v ∈ vs, W v) (hb : Clean W memo b.state.memo) :
    Clean W memo c.state.memo ∧ ((∀ fault, r ≠ .error fault) →
      ∀ v ∈ vs, ∀ description, ¬ v.Exposes memo description) := by
  have map_ne : ∀ {r : Except Fault (List NodeId)} {e : NodeId},
      (∀ fault, r.map (e :: ·) ≠ .error fault) → ∀ fault, r ≠ .error fault := by
    intro r e h fault hr
    subst hr
    exact h fault rfl
  induction h with
  | nil b => exact ⟨hb, fun _ => nofun⟩
  | plain hv hx _ ih =>
    obtain ⟨-, hrest⟩ := List.forall_mem_cons.1 hvs
    obtain ⟨hclean, hall⟩ := ih hrest ((memo_of_yields hv hx).symm ▸ hb)
    refine ⟨hclean, fun hr => List.forall_mem_cons.2 ⟨fun _ => ?_, hall (map_ne hr)⟩⟩
    exact not_exposes_of_yields hv hx
  | foreign description vs b => exact ⟨hb, fun hr => absurd rfl (hr _)⟩
  | @known v _ _ i _ _ _ _ hv hi _ ih =>
    obtain ⟨hmem, hrest⟩ := List.forall_mem_cons.1 hvs
    obtain ⟨hclean, hall⟩ := ih hrest hb
    refine ⟨hclean, fun hr => List.forall_mem_cons.2 ⟨fun _ => ?_, hall (map_ne hr)⟩⟩
    rcases hb i (by simp [hi]) with hold | ⟨w, hw, hwi, hexposes⟩
    · exact not_exposes_of_lookup hv hold
    · exact hW.unique hmem hw hv hwi ▸ hexposes _
  | @made v _ _ i _ es c _ _ _ hv hi _ _ ihes ih =>
    obtain ⟨hmem, hrest⟩ := List.forall_mem_cons.1 hvs
    obtain ⟨hclean, hall⟩ := ihes (fun w hw => hW.elements hmem hw) hb
    have hv' : ∀ description, ¬ v.Exposes memo description := by
      intro description hexposes
      cases hexposes with
      | foreign => cases hv
      | element _ _ hw h => exact hall (fun _ => nofun) _ hw _ h
    obtain ⟨hclean, hall⟩ := ih hrest (by
      rw [finish_memo hv]
      exact hclean.cons hmem hv hv' _)
    exact ⟨hclean, fun hr => List.forall_mem_cons.2 ⟨hv', hall (map_ne hr)⟩⟩
  | failed hv hi _ ihes =>
    obtain ⟨hmem, -⟩ := List.forall_mem_cons.1 hvs
    exact ⟨(ihes (fun w hw => hW.elements hmem hw) hb).1, fun hr => absurd rfl (hr _)⟩

end HostValue

/-! ## Nodes of instances -/

namespace Builder

/-- One node is recorded for an instance, and for one instance only. -/
structure Tidy (b : Builder σ) : Prop where
  instances : (b.state.memo.map (·.1)).Nodup
  nodes : (b.state.memo.map (·.2)).Nodup
  made : ∀ p ∈ b.state.memo, p.2 < b.state.graph.size

theorem tidy_empty (shared : σ) : (empty shared).Tidy where
  instances := List.nodup_nil
  nodes := List.nodup_nil
  made := nofun

theorem Tidy.grow (h : b.Tidy) (hmemo : c.state.memo = b.state.memo)
    (hsize : b.state.graph.size ≤ c.state.graph.size) : c.Tidy where
  instances := hmemo ▸ h.instances
  nodes := hmemo ▸ h.nodes
  made p hp := Nat.lt_of_lt_of_le (h.made p (hmemo ▸ hp)) hsize

theorem Tidy.lookup_eq_some_iff (h : b.Tidy) {i : Nat} {e : NodeId} :
    b.state.memo.lookup i = some e ↔ (i, e) ∈ b.state.memo := by
  constructor
  · intro hi
    obtain ⟨before, after, heq, -⟩ := List.lookup_eq_some_iff.1 hi
    simp [heq]
  · intro hmem
    cases hi : b.state.memo.lookup i with
    | none => simpa using List.lookup_eq_none_iff.1 hi _ hmem
    | some e' =>
      obtain ⟨before, after, heq, -⟩ := List.lookup_eq_some_iff.1 hi
      have hmem' : (i, e') ∈ b.state.memo := by simp [heq]
      exact congrArg some (congrArg Prod.snd
        (List.inj_on_of_nodup_map h.instances hmem' hmem rfl))

/-- The node of a new instance is made and recorded. -/
theorem Tidy.finish (h : b.Tidy) {v : HostValue σ} {i : Nat} (hv : v.instance? = some i)
    (hi : b.state.memo.lookup i = none) (es : List NodeId) : (v.finish i es b).Tidy := by
  have hmemo := HostValue.finish_memo hv es b
  have hsize := HostValue.lt_size_finish hv es b
  refine ⟨?_, ?_, ?_⟩
  · rw [hmemo, List.map_cons, List.nodup_cons]
    refine ⟨fun hmem => ?_, h.instances⟩
    obtain ⟨p, hp, rfl⟩ := List.mem_map.1 hmem
    simpa using List.lookup_eq_none_iff.1 hi p hp
  · rw [hmemo, List.map_cons, List.nodup_cons]
    refine ⟨fun hmem => ?_, h.nodes⟩
    obtain ⟨p, hp, hsize⟩ := List.mem_map.1 hmem
    exact absurd (h.made p hp) (hsize ▸ Nat.lt_irrefl _)
  · rw [hmemo]
    refine List.forall_mem_cons.2 ⟨hsize, fun p hp => ?_⟩
    exact Nat.lt_trans (h.made p hp) hsize

end Builder

namespace HostValue

theorem ConvertsAll.lookup_eq_none {W : HostValue σ → Prop} (hW : Family W) {v : HostValue σ}
    {i : Nat} {J : List (Nat × NodeId)} {r : Except Fault (List NodeId)}
    (h : ConvertsAll v.elements b J r c) (hv : W v) (hvi : v.instance? = some i)
    (hi : b.state.memo.lookup i = none) : c.state.memo.lookup i = none := by
  obtain ⟨hbelow, hsub⟩ := hW.below hv
  obtain ⟨hclean, -⟩ := h.clean hbelow (fun w hw => ⟨w, hw, .refl⟩) (fun _ => Or.inl)
  by_contra hmem
  rcases hclean i hmem with hold | ⟨w, hw, hwi, -⟩
  · exact hold hi
  · exact (hsub w hw).2 (hW.unique (hsub w hw).1 hv hwi hvi)

/-- Conversions record the instances that they name, each with its node. -/
theorem ConvertsAll.tidy {W : HostValue σ → Prop} (hW : Family W) {vs : List (HostValue σ)}
    {J : List (Nat × NodeId)} {r : Except Fault (List NodeId)} (h : ConvertsAll vs b J r c)
    (hvs : ∀ v ∈ vs, W v) (hb : b.Reached) (ht : b.Tidy) :
    c.Tidy ∧ ∀ p, p ∈ c.state.memo ↔ p ∈ b.state.memo ∨ p ∈ J := by
  induction h with
  | nil b => exact ⟨ht, by simp⟩
  | @plain v _ b _ c _ _ _ hv hx _ ih =>
    obtain ⟨-, hrest⟩ := List.forall_mem_cons.1 hvs
    have hleads := ((toNode_ends v b).of_yields hx).1
    have hmemo := memo_of_yields hv hx
    have ht' : c.Tidy := ht.grow hmemo (hleads.extends hb.sound).size_le
    exact hmemo ▸ ih hrest (hleads.reached hb) ht'
  | foreign => exact ⟨ht, by simp⟩
  | @known _ _ b i e _ _ _ _ hi _ ih =>
    obtain ⟨-, hrest⟩ := List.forall_mem_cons.1 hvs
    obtain ⟨ht', hmem⟩ := ih hrest hb ht
    have hknown : (i, e) ∈ b.state.memo := ht.lookup_eq_some_iff.1 hi
    refine ⟨ht', fun p => (hmem p).trans ?_⟩
    rw [List.mem_cons]
    exact ⟨Or.imp_right .inr, fun h => h.elim .inl (Or.elim · (· ▸ .inl hknown) .inr)⟩
  | @made v _ b i _ es c _ _ d hv hi hes _ ihes ih =>
    obtain ⟨hmem, hrest⟩ := List.forall_mem_cons.1 hvs
    obtain ⟨htc, hmemc⟩ := ihes (fun w hw => hW.elements hmem hw) hb ht
    have hnew : c.state.memo.lookup i = none := hes.lookup_eq_none hW hmem hv hi
    have hreached : (v.finish i es c).Reached :=
      (hes.leads.trans (finish_leads hv es c)).reached hb
    obtain ⟨htd, hmemd⟩ := ih hrest hreached (htc.finish hv hnew es)
    refine ⟨htd, fun p => ?_⟩
    rw [hmemd p, finish_memo hv, List.mem_cons, hmemc p, List.mem_append, List.mem_cons]
    simp only [or_assoc, or_left_comm]
  | failed hv hi _ ihes =>
    obtain ⟨hmem, -⟩ := List.forall_mem_cons.1 hvs
    exact ihes (fun w hw => hW.elements hmem hw) hb ht

/-- The instances among values that are converted are named with their nodes. -/
theorem ConvertsAll.named {vs : List (HostValue σ)} {J : List (Nat × NodeId)}
    {r : Except Fault (List NodeId)} (h : ConvertsAll vs b J r c) {es : List NodeId}
    (hr : r = .ok es) :
    List.Forall₂ (fun v e => ∀ i, v.instance? = some i → (i, e) ∈ J) vs es := by
  have map_ok : ∀ {r : Except Fault (List NodeId)} {e : NodeId} {es : List NodeId},
      r.map (e :: ·) = .ok es → ∃ rest, r = .ok rest ∧ es = e :: rest := by
    intro r e es h
    cases r with
    | error => cases h
    | ok rest => exact ⟨rest, rfl, (Except.ok.inj h).symm⟩
  induction h generalizing es with
  | nil b =>
    cases hr
    exact .nil
  | plain hv _ _ ih =>
    obtain ⟨rest, hr', rfl⟩ := map_ok hr
    exact .cons (fun i hi => nomatch hv.symm.trans hi) (ih hr')
  | foreign => cases hr
  | known hv _ _ ih =>
    obtain ⟨rest, hr', rfl⟩ := map_ok hr
    refine .cons (fun i hi => ?_) ((ih hr').imp fun _ _ h i hi => List.mem_cons_of_mem _ (h i hi))
    cases hv.symm.trans hi
    exact List.mem_cons_self
  | @made v _ _ _ J₀ _ _ J _ _ hv _ _ _ _ ih =>
    obtain ⟨rest, hr', rfl⟩ := map_ok hr
    refine .cons (fun i hi => ?_) ((ih hr').imp fun _ _ h i hi =>
      List.mem_append_right J₀ (List.mem_cons_of_mem _ (h i hi)))
    cases hv.symm.trans hi
    exact List.mem_append_right J₀ List.mem_cons_self
  | failed => cases hr

theorem Converts.named {v : HostValue σ} {J : List (Nat × NodeId)} {e : NodeId} {i : Nat}
    (h : v.Converts b J (.ok e) c) (hi : v.instance? = some i) : (i, e) ∈ J :=
  (List.forall₂_cons.1 (ConvertsAll.named h rfl)).1 i hi

/-- A value that is converted when a body has made it is what the body returns. -/
theorem run_returning {x : Build σ (HostValue σ)} {v : HostValue σ} {r : Except Fault NodeId}
    {b₀ : Builder σ} (hx : x.Yields b₀ v b) (h : v.toNode.run.Yields b r c) :
    Builder.run (returning x) b₀ = (r.map .value, c) := by
  have hrun : Builder.run (returning x) b₀ = Builder.run (.done (r.map .value)) c :=
    (hx _).trans (h _)
  rw [hrun, Builder.run_done]

end HostValue

/-! ## Histories -/

namespace Builder

/-- Operations and conversions, in any order, led to the builder. `J` names the instances that were
converted, each with its node. -/
inductive Converted : List (Nat × NodeId) → Builder σ → Prop
  | start (shared : σ) : Converted [] (empty shared)
  /-- Recording is left to conversions. Everything else may be done, so the body of a function may
  be begun or ended. -/
  | operate {J b op} (h : Converted J b) (hop : ∀ i e, op ≠ .memoize i e) :
    Converted J (b.perform op)
  | convert {J b} {v : HostValue σ} {J' r c} (h : Converted J b) (hv : v.Coherent) (hc : v.Converts b J' r c) :
    Converted (J ++ J') c

variable {J : List (Nat × NodeId)}

theorem Converted.tidy (h : Converted J b) :
    b.Reached ∧ b.Tidy ∧ ∀ p, p ∈ b.state.memo ↔ p ∈ J := by
  induction h with
  | start shared => exact ⟨reached_empty shared, tidy_empty shared, fun p => Iff.rfl⟩
  | @operate _ b op _ hop ih =>
    obtain ⟨hb, ht, hmem⟩ := ih
    have hmemo := b.perform_memo_eq hop
    have hsize := (perform_sound_extends hb.sound op).2.size_le
    exact ⟨hb.perform op, ht.grow hmemo hsize, fun p => hmemo ▸ hmem p⟩
  | @convert _ b v _ _ c _ hv hc ih =>
    obtain ⟨hb, ht, hmem⟩ := ih
    have hself : ∀ w ∈ [v], v.Holds w := List.forall_mem_singleton.2 .refl
    obtain ⟨ht', hmem'⟩ := HostValue.ConvertsAll.tidy hv.family hc hself hb ht
    refine ⟨HostValue.ConvertsAll.leads hc |>.reached hb, ht', fun p => ?_⟩
    rw [hmem' p, hmem p, List.mem_append]

/-- **Conversions preserve sharing.** Whatever was done with a builder, an instance that was
converted has one node, and no other instance has that node. The conversion of a value ends; it fails
exactly if the value exposes a foreign object, and the fault names one. Either way the recorded nodes
stay, and no instance is recorded that exposes a foreign object. -/
theorem Converted.sharing (h : Converted J b) :
    (∀ p ∈ J, ∀ q ∈ J, p.1 = q.1 ↔ p.2 = q.2) ∧
      (∀ i e, b.state.memo.lookup i = some e ↔ (i, e) ∈ J) ∧
      ∀ v : HostValue σ, v.Coherent → ∃ J' r c, v.Converts b J' r c ∧ Converted (J ++ J') c ∧
        v.toNode.run.Yields b r c ∧
        (∀ (x : Build σ (HostValue σ)) b₀, x.Yields b₀ v b →
          run (HostValue.returning x) b₀ = (r.map .value, c)) ∧
        (∀ e i, r = .ok e → v.instance? = some i → (i, e) ∈ J') ∧
        ((∃ fault, r = .error fault) ↔ ∃ description, v.Exposes b.state.memo description) ∧
        (∀ fault, r = .error fault → fault.code = "Z-ERR-CONVERT-001" ∧
          ∃ description, v.Exposes b.state.memo description ∧ fault = .unconvertible description) ∧
        (∀ i e, b.state.memo.lookup i = some e → c.state.memo.lookup i = some e) ∧
        ∀ w i description, v.Holds w → w.instance? = some i →
          w.Exposes b.state.memo description → c.state.memo.lookup i = none := by
  obtain ⟨-, ht, hmem⟩ := h.tidy
  refine ⟨fun p hp q hq => ⟨fun heq => ?_, fun heq => ?_⟩, fun i e => ?_, fun v hv => ?_⟩
  · rw [← hmem] at hp hq
    exact congrArg Prod.snd (List.inj_on_of_nodup_map ht.instances hp hq heq)
  · rw [← hmem] at hp hq
    exact congrArg Prod.fst (List.inj_on_of_nodup_map ht.nodes hp hq heq)
  · rw [ht.lookup_eq_some_iff, hmem]
  obtain ⟨J', r, c, hc⟩ := v.exists_converts b
  have hself : ∀ w ∈ [v], v.Holds w := List.forall_mem_singleton.2 .refl
  have hfinal : Converted (J ++ J') c := h.convert hv hc
  obtain ⟨hclean, hexposes⟩ := HostValue.ConvertsAll.clean hv.family hc hself fun _ => Or.inl
  have hfault : ∀ fault, r = .error fault →
      ∃ description, v.Exposes b.state.memo description ∧ fault = .unconvertible description := by
    rintro fault rfl
    obtain ⟨w, hw, description, hw', heq⟩ := HostValue.ConvertsAll.exposes hc rfl
    exact ⟨description, List.mem_singleton.1 hw ▸ hw', heq⟩
  refine ⟨J', r, c, hc, hfinal, hc.yields, fun x b₀ hx => HostValue.run_returning hx hc.yields,
    ?_, ⟨?_, ?_⟩, ?_, ?_, ?_⟩
  · rintro e i rfl hi
    exact hc.named hi
  · rintro ⟨fault, hr⟩
    obtain ⟨description, hexp, -⟩ := hfault fault hr
    exact ⟨description, hexp⟩
  · rintro ⟨description, hexp⟩
    cases r with
    | error fault => exact ⟨fault, rfl⟩
    | ok e => exact absurd hexp (hexposes (fun _ => nofun) v List.mem_cons_self description)
  · intro fault hr
    obtain ⟨description, hexp, rfl⟩ := hfault fault hr
    exact ⟨rfl, description, hexp, rfl⟩
  · intro i e hi
    rw [hfinal.tidy.2.1.lookup_eq_some_iff]
    exact (HostValue.ConvertsAll.leads hc).memo_subset (ht.lookup_eq_some_iff.1 hi)
  · intro w i description hw hi hexp
    by_contra hmem
    rcases hclean i hmem with hold | ⟨u, hu, hui, hnot⟩
    · exact HostValue.not_exposes_of_lookup hi hold hexp
    · cases hv u w i hu hw hui hi
      exact hnot description hexp

end Builder

namespace HostValue

/-- Values of a list are coherent if they hold only values of the list and each is another
instance. -/
theorem coherent_of_mem {vs : List (HostValue σ)} (helements : ∀ v ∈ vs, v.elements ⊆ vs)
    (hinstances : (vs.filterMap instance?).Nodup) {v : HostValue σ} (hv : v ∈ vs) :
    v.Coherent := by
  have hmem : ∀ w, v.Holds w → w ∈ vs := by
    intro w hw
    induction hw with
    | refl => exact hv
    | tail _ hx ih => exact helements _ ih hx
  intro u w i hu hw hui hwi
  have hu := hmem u hu
  have hw := hmem w hw
  clear hv hmem helements
  induction vs with
  | nil => cases hu
  | cons x vs ih =>
    have hother : ∀ y ∈ vs, x.instance? = some i → y.instance? = some i → False := by
      intro y hy hx hyi
      rw [List.filterMap_cons_some hx, List.nodup_cons] at hinstances
      exact hinstances.1 (List.mem_filterMap.2 ⟨y, hy, hyi⟩)
    have htail : (vs.filterMap instance?).Nodup :=
      hinstances.sublist ((List.sublist_cons_self x vs).filterMap instance?)
    rcases List.mem_cons.1 hu with hux | hu <;> rcases List.mem_cons.1 hw with hwx | hw
    · rw [hux, hwx]
    · exact (hother w hw (hux ▸ hui) hwi).elim
    · exact (hother u hu (hwx ▸ hwi) hui).elim
    · exact ih htail hu hw

/-- A record with an array at two keys. -/
def sharedExample : HostValue Unit := .record 0 [("a", .array 1 []), ("b", .array 1 [])]

/-- An array of the same array, a new set and a foreign object. -/
def foreignExample : HostValue Unit := .array 2 [.array 1 [], .set 3 [], .foreign "socket"]

theorem coherent_sharedExample : sharedExample.Coherent := by
  have hmem : sharedExample ∈ [sharedExample, .array 1 []] := List.mem_cons_self
  refine coherent_of_mem ?_ ?_ hmem
  · simp [sharedExample, elements]
  · simp [sharedExample, instance?]

theorem coherent_foreignExample : foreignExample.Coherent := by
  have hmem : foreignExample ∈ [foreignExample, .array 1 [], .set 3 [], .foreign "socket"] :=
    List.mem_cons_self
  refine coherent_of_mem ?_ ?_ hmem
  · simp [foreignExample, elements]
  · simp [foreignExample, List.filterMap_cons, instance?]

end HostValue

namespace Builder

/-- The array has one node in the record, and keeps it when another array of it is not converted. The
set is recorded, the other array is not. -/
theorem Converted.sharing_foreignExample : ∃ J b r c, Converted J b ∧
    HostValue.sharedExample.toNode.run.Yields (empty ()) (.ok 1) b ∧ (1, 0) ∈ J ∧
    HostValue.foreignExample.toNode.run.Yields b r c ∧ (∃ fault, r = .error fault) ∧
    c.state.memo.lookup 1 = some 0 ∧ c.state.memo.lookup 2 = none := by
  have helements := HostValue.ConvertsAll.made (v := .array 1 []) rfl rfl (.nil (empty ()))
    (.known (v := .array 1 []) rfl rfl (.nil _))
  have hshared := HostValue.ConvertsAll.made (v := HostValue.sharedExample) rfl rfl helements
    (.nil _)
  obtain ⟨b, hb, hmade, hmemo⟩ : ∃ b, Converted [(1, 0), (1, 0), (0, 1)] b ∧
      HostValue.sharedExample.toNode.run.Yields (empty ()) (.ok 1) b ∧
      b.state.memo = [(0, 1), (1, 0)] :=
    ⟨_, Converted.start () |>.convert (r := .ok 1) HostValue.coherent_sharedExample hshared,
      HostValue.Converts.yields (r := .ok 1) hshared, rfl⟩
  obtain ⟨-, hlookup, hnext⟩ := hb.sharing
  obtain ⟨J', r, c, -, -, hyields, -, -, hiff, -, hkept, hnone⟩ :=
    hnext HostValue.foreignExample HostValue.coherent_foreignExample
  have hexposes : HostValue.foreignExample.Exposes b.state.memo "socket" :=
    .element rfl (hmemo ▸ rfl) (by simp [HostValue.foreignExample, HostValue.elements]) .foreign
  refine ⟨_, b, r, c, hb, hmade, by simp, hyields, hiff.2 ⟨"socket", hexposes⟩, ?_, ?_⟩
  · exact hkept 1 0 ((hlookup 1 0).2 (by simp))
  · exact hnone _ 2 "socket" .refl rfl hexposes

end Builder

end ScriptGraph
