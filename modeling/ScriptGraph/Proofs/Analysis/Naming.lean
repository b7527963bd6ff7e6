import ScriptGraph.Proofs.Analysis.DeclarationOrder
import ScriptGraph.Proofs.Analysis.Resolution

/-!
# Declarations and names

* `Graph.Resolved.mem_declarationsOf_iff` : a declared node is a declaration of its own scope;
* `Graph.Resolved.count_declarationsOf` : it is declared there once;
* `Graph.Resolved.exists_name_declared`, `Graph.Resolved.exists_name_param` : declared nodes and
  parameters have names;
* `Analysis.name?_inj` : different nodes have different names;
* `Analysis.Generates` : a text is the name of a declared node or of a parameter;
* `Graph.Resolved.nodup_named`, `Graph.Resolved.generates_iff` : the generated names are the stem
  with the numbers below the number of names, each used once.
-/

namespace ScriptGraph

/-! ## Digits -/

theorem base36Digit_inj :
    ∀ d < 36, ∀ d' < 36, base36Digit d = base36Digit d' → d = d' := by
  have hvalue : ∀ d < 36,
      (base36Digit d).toNat - (if (base36Digit d).isDigit then 48 else 87) = d := by decide
  intro d hd d' hd' h
  rw [← hvalue d hd, ← hvalue d' hd', h]

theorem base36Chars_ne_nil (n : Nat) : base36Chars n ≠ [] := by
  rw [base36Chars]
  split <;> simp

theorem base36Chars_inj {m n : Nat} (h : base36Chars m = base36Chars n) : m = n := by
  induction m using Nat.strongRecOn generalizing n with
  | _ m ih =>
    rw [base36Chars, base36Chars.eq_def n] at h
    split at h <;> split at h
    · exact base36Digit_inj _ ‹_› _ ‹_› (List.singleton_inj.1 h)
    · exact absurd (List.append_eq_singleton_iff.1 h.symm) (by simp [base36Chars_ne_nil])
    · exact absurd (List.append_eq_singleton_iff.1 h) (by simp [base36Chars_ne_nil])
    · rename_i hm hn
      obtain ⟨hinit, hlast⟩ := List.append_inj' h rfl
      have hdiv := ih (m / 36) (Nat.div_lt_self (by omega) (by omega)) hinit
      have hmod := base36Digit_inj _ (Nat.mod_lt _ (by omega)) _ (Nat.mod_lt _ (by omega))
        (List.singleton_inj.1 hlast)
      omega

theorem isBase36Digit_base36Digit : ∀ d < 36, isBase36Digit (base36Digit d) = true := by decide

theorem all_base36Chars (n : Nat) : (base36Chars n).all isBase36Digit = true := by
  induction n using Nat.strongRecOn with
  | _ n ih =>
    rw [base36Chars]
    split
    · rename_i hn
      simp [isBase36Digit_base36Digit n hn]
    · rename_i hn
      rw [List.all_append, ih (n / 36) (Nat.div_lt_self (by omega) (by omega))]
      simp [isBase36Digit_base36Digit (n % 36) (Nat.mod_lt _ (by omega))]

/-- The text is the name of a declared node or of a parameter. -/
def Analysis.Generates (a : Analysis) (name : String) : Prop := ∃ e, a.name? e = some name

theorem Analysis.name?_inj {a : Analysis} {e e' : NodeId} {name : String}
    (h : a.name? e = some name) (h' : a.name? e' = some name) : e = e' := by
  obtain ⟨i, hi, hname⟩ := Option.map_eq_some_iff.1 h
  obtain ⟨i', hi', hname'⟩ := Option.map_eq_some_iff.1 h'
  have hdigits := (String.append_right_inj _).1 (hname.trans hname'.symm)
  obtain rfl := base36Chars_inj (String.ofList_injective hdigits)
  obtain ⟨_, heq, _⟩ := List.idxOf?_eq_some_iff.1 hi
  obtain ⟨_, heq', _⟩ := List.idxOf?_eq_some_iff.1 hi'
  exact heq.symm.trans heq'

/-- The declared nodes of an analysis. -/
def Analysis.declaredOf (a : Analysis) (g : Graph) : Declared := ⟨g, a.order, a.declared⟩

namespace Graph.Resolved

variable {g : Graph} {body : Body} {a : Analysis} (h : g.Resolved body a) {e f p : NodeId}
  {s : Scope}

include h

theorem closed : (a.declaredOf g).Closed := by
  refine ⟨fun e he => h.mem_order_of_isDeclared (isDeclared_iff.2 he), fun e he c hc => ?_⟩
  rcases Declared.mem_neighbours_iff.1 hc with hc | ⟨inner, hb, hc | hc⟩
  · exact h.surveyed.child_mem he hc
  · exact h.surveyed.body_mem he hb hc
  · exact h.mem_order_of_isDeclared (isDeclared_iff.2 (Declared.mem_group_iff.1 hc).1)

omit h in
theorem mem_group_iff : e ∈ (a.declaredOf g).group s ↔ a.isDeclared e = true ∧ g.scopeOf e = s := by
  rw [Declared.mem_group_iff, isDeclared_iff]
  rfl

theorem declarations_eq : a.declarations =
    (none :: (a.order.filter g.isFunction).map some).map fun s =>
      (s, (a.declaredOf g).ordered s) := by
  conv_lhs => rw [h.analysed]
  have hd : a.declared = Analysis.declaredNodes a.order a.settled := by
    conv_lhs => rw [h.analysed]
    rfl
  rw [Analysis.declaredOf, hd]
  rfl

omit h in
theorem lookup_map {β : Type} (F : Scope → β) (scopes : List Scope) (s : Scope) :
    (scopes.map fun s => (s, F s)).lookup s = if s ∈ scopes then some (F s) else none := by
  induction scopes with
  | nil => rfl
  | cons t scopes ih =>
    rw [List.map_cons, List.lookup_cons, ih]
    by_cases hst : s = t
    · simp [hst]
    · simp [hst, beq_eq_false_iff_ne.2 hst]

theorem scopeOf_mem_scopes (hd : a.isDeclared e = true) :
    g.scopeOf e ∈ (none : Scope) :: (a.order.filter g.isFunction).map some := by
  cases hf : g.scopeOf e with
  | none => exact List.mem_cons_self
  | some f =>
    have hmem := h.scope_mem (h.mem_order_of_isDeclared hd) (.inl hd) hf
    exact List.mem_cons_of_mem _ (List.mem_map_of_mem
      (List.mem_filter.2 ⟨hmem, h.sound.scope_isFunction hf⟩))

theorem declarationsOf_eq (s : Scope) : a.declarationsOf s = (a.declaredOf g).ordered s := by
  rw [Analysis.declarationsOf, h.declarations_eq, lookup_map]
  split
  · rfl
  · rename_i hs
    refine (List.eq_nil_iff_forall_not_mem.2 fun e he => hs ?_).symm
    obtain ⟨hd, rfl⟩ := mem_group_iff.1 ((Declared.mem_ordered_iff h.closed).1 he)
    exact h.scopeOf_mem_scopes hd

theorem mem_declarationsOf_iff :
    e ∈ a.declarationsOf s ↔ a.isDeclared e = true ∧ g.scopeOf e = s := by
  rw [h.declarationsOf_eq, Declared.mem_ordered_iff h.closed, mem_group_iff]

theorem nodup_declarationsOf (s : Scope) : (a.declarationsOf s).Nodup := by
  rw [h.declarationsOf_eq]
  exact (Declared.ordered_perm h.closed h.nodup_declared s).nodup_iff.2 (h.nodup_declared.filter _)

theorem count_declarationsOf (hd : a.isDeclared e = true) (s : Scope) :
    (a.declarationsOf s).count e = if g.scopeOf e = s then 1 else 0 := by
  split
  · rename_i hs
    exact List.count_eq_one_of_mem (h.nodup_declarationsOf s)
      (h.mem_declarationsOf_iff.2 ⟨hd, hs⟩)
  · rename_i hs
    exact List.count_eq_zero.2 fun he => hs (h.mem_declarationsOf_iff.1 he).2

/-! ## Names -/

theorem named_eq : a.named = a.order.flatMap g.params ++ a.declarations.flatMap (·.2) := by
  rw [h.analysed]
  rfl

theorem mem_named_iff :
    e ∈ a.named ↔ (∃ f ∈ a.order, e ∈ g.params f) ∨ a.isDeclared e = true := by
  rw [h.named_eq, List.mem_append, List.mem_flatMap, h.declarations_eq]
  refine or_congr_right ⟨fun he => ?_, fun hd => ?_⟩
  · obtain ⟨p, hp, he⟩ := List.mem_flatMap.1 he
    obtain ⟨s, _, rfl⟩ := List.mem_map.1 hp
    exact (mem_group_iff.1 ((Declared.mem_ordered_iff h.closed).1 he)).1
  · exact List.mem_flatMap.2 ⟨_, List.mem_map_of_mem (h.scopeOf_mem_scopes hd),
      (Declared.mem_ordered_iff h.closed).2 (mem_group_iff.2 ⟨hd, rfl⟩)⟩

omit h in
theorem exists_name_of_mem (he : e ∈ a.named) : ∃ name, a.name? e = some name := by
  obtain ⟨i, hi⟩ := Option.isSome_iff_exists.1 (List.isSome_idxOf?.2 he)
  exact ⟨a.stem ++ base36 i, by rw [Analysis.name?, hi]; rfl⟩

theorem exists_name_declared (hd : a.isDeclared e = true) : ∃ name, a.name? e = some name :=
  exists_name_of_mem (h.mem_named_iff.2 (.inr hd))

theorem exists_name_param (hf : f ∈ a.order) (hp : p ∈ g.params f) :
    ∃ name, a.name? p = some name :=
  exists_name_of_mem (h.mem_named_iff.2 (.inl ⟨f, hf, hp⟩))

/-- A reachable parameter belongs to a reachable function. -/
theorem exists_function (hp : p ∈ a.order) (hparam : g.isParameter p = true) :
    ∃ f ∈ a.order, p ∈ g.params f ∧ g.scopeOf p = some f := by
  obtain ⟨_, f, hf, hmem⟩ := h.sound.isParameter hparam
  exact ⟨f, h.scope_mem hp (.inr (.inl hparam)) hf, hmem, hf⟩

theorem nodup_params_order : (a.order.flatMap g.params).Nodup := by
  refine List.nodup_flatMap.2 ⟨fun f _ => g.nodup_params f, ?_⟩
  refine h.surveyed.nodup.imp fun {f f'} hne p hp hp' => hne ?_
  have hscope := (h.sound.mem_params hp).2.symm.trans (h.sound.mem_params hp').2
  exact Option.some.inj hscope

theorem nodup_declarations : (a.declarations.flatMap (·.2)).Nodup := by
  have hscopes : ((none : Scope) :: (a.order.filter g.isFunction).map some).Nodup := by
    refine List.nodup_cons.2 ⟨by simp, ?_⟩
    exact (h.surveyed.nodup.filter _).map (Option.some_injective _)
  rw [h.declarations_eq, List.flatMap_map, List.nodup_flatMap]
  refine ⟨fun s _ => h.declarationsOf_eq s ▸ h.nodup_declarationsOf s, ?_⟩
  refine hscopes.imp fun {s t} hne e hs ht => hne ?_
  change e ∈ (a.declaredOf g).ordered s at hs
  change e ∈ (a.declaredOf g).ordered t at ht
  rw [← h.declarationsOf_eq, h.mem_declarationsOf_iff] at hs ht
  exact hs.2.symm.trans ht.2

theorem nodup_named : a.named.Nodup := by
  rw [h.named_eq, List.nodup_append]
  refine ⟨h.nodup_params_order, h.nodup_declarations, ?_⟩
  rintro p hp _ hd rfl
  obtain ⟨f, hf, hp⟩ := List.mem_flatMap.1 hp
  obtain ⟨⟨s, _⟩, hs, hp'⟩ := List.mem_flatMap.1 hd
  rw [h.declarations_eq] at hs
  obtain ⟨s, _, heq⟩ := List.mem_map.1 hs
  cases heq
  rw [← h.declarationsOf_eq] at hp'
  have hparam := (h.sound.mem_params hp).1
  rw [h.not_isParameter_of_isDeclared (h.mem_declarationsOf_iff.1 hp').1] at hparam
  cases hparam

/-- The place of a node among the named ones gives its name. -/
theorem name?_eq_some_iff {name : String} :
    a.name? e = some name ↔ ∃ i, a.named[i]? = some e ∧ name = a.stem ++ base36 i := by
  constructor
  · intro he
    obtain ⟨i, hi, rfl⟩ := Option.map_eq_some_iff.1 he
    obtain ⟨hlt, heq, _⟩ := List.idxOf?_eq_some_iff.1 hi
    exact ⟨i, List.getElem?_eq_some_iff.2 ⟨hlt, heq⟩, rfl⟩
  · rintro ⟨i, hi, rfl⟩
    obtain ⟨hlt, rfl⟩ := List.getElem?_eq_some_iff.1 hi
    have hindex : a.named.idxOf? a.named[i] = some i := by
      refine List.idxOf?_eq_some_iff.2 ⟨hlt, rfl, fun j hj heq => ?_⟩
      exact absurd (h.nodup_named.getElem_inj_iff.1 heq) (Nat.ne_of_lt hj)
    rw [Analysis.name?, hindex]
    rfl

/-- The generated names are the stem with the numbers below the number of names. -/
theorem generates_iff {name : String} :
    a.Generates name ↔ ∃ i < a.named.length, name = a.stem ++ base36 i := by
  constructor
  · rintro ⟨e, he⟩
    obtain ⟨i, hi, rfl⟩ := h.name?_eq_some_iff.1 he
    exact ⟨i, (List.getElem?_eq_some_iff.1 hi).1, rfl⟩
  · rintro ⟨i, hlt, rfl⟩
    exact ⟨a.named[i], h.name?_eq_some_iff.2 ⟨i, List.getElem?_eq_getElem hlt, rfl⟩⟩

end Graph.Resolved

end ScriptGraph
