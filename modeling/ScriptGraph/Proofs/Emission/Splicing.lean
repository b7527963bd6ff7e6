import ScriptGraph.Compile.Basic
import ScriptGraph.Proofs.Emission.Pieces

/-!
# Splicing leaves references alone

* `Splits` : a text that no occurrence of another one can overlap;
* `replaceAll_append` : such a text stays in its place when the other one is replaced;
* `Options.check_eq_ok` : options that are accepted give names without the characters of marks;
* `Layout.Spells.splice` : the contents of the stores replace other text than references.
-/

namespace ScriptGraph

/-! ## Replacing -/

/-- No occurrence of `old` overlaps `m`: it would begin or end in `m`, or hold all of it. -/
structure Splits (old m : List Char) : Prop where
  begins : ∀ c ∈ m, old.head? ≠ some c
  ends : ∀ c ∈ m, old.getLast? ≠ some c
  holds : ∃ c ∈ m, c ∉ old

section Replace

variable {old new m : List Char}

theorem isPrefixOf_append (h : Splits old m) (s y : List Char) :
    old.isPrefixOf (s ++ (m ++ y)) = old.isPrefixOf s := by
  rw [Bool.eq_iff_iff, List.isPrefixOf_iff_prefix, List.isPrefixOf_iff_prefix]
  refine ⟨fun hold => ?_, fun hold => hold.trans (List.prefix_append ..)⟩
  by_cases hlen : old.length ≤ s.length
  · exact List.prefix_of_prefix_length_le hold (List.prefix_append ..) hlen
  exfalso
  obtain ⟨r, rfl⟩ := List.prefix_of_prefix_length_le (List.prefix_append s _) hold
    (Nat.le_of_not_le hlen)
  rw [List.prefix_append_right_inj] at hold
  have hr : r ≠ [] := by
    rintro rfl
    simp at hlen
  by_cases hlen' : r.length ≤ m.length
  · have hrm := List.prefix_of_prefix_length_le hold (List.prefix_append ..) hlen'
    refine h.ends (r.getLast hr) (hrm.subset (List.getLast_mem hr)) ?_
    rw [List.getLast?_append_of_ne_nil _ hr, List.getLast?_eq_some_getLast hr]
  · have hmr := List.prefix_of_prefix_length_le (List.prefix_append m y) hold
      (Nat.le_of_not_le hlen')
    obtain ⟨c, hc, hnot⟩ := h.holds
    exact hnot (List.mem_append_right _ (hmr.subset hc))

theorem replaceAll_of_begins (h : ∀ c ∈ m, old.head? ≠ some c) (hold : old ≠ []) (y : List Char) :
    replaceAll old new (m ++ y) = m ++ replaceAll old new y := by
  induction m with
  | nil => rfl
  | cons c m ih =>
    obtain ⟨hc, hm⟩ := List.forall_mem_cons.1 h
    have hno : old.isPrefixOf (c :: (m ++ y)) = false := by
      obtain ⟨d, old, rfl⟩ := List.exists_cons_of_ne_nil hold
      rw [List.isPrefixOf, Bool.and_eq_false_iff, beq_eq_false_iff_ne]
      exact .inl fun heq => hc (congrArg some heq)
    rw [List.cons_append, replaceAll, replaceFrom, hno]
    exact congrArg (c :: ·) (ih hm)

theorem replaceFrom_append (h : Splits old m) (hold : old ≠ []) (y : List Char) {skip : Nat}
    {x : List Char} (hskip : skip ≤ x.length) :
    replaceFrom old new skip (x ++ (m ++ y)) =
      replaceFrom old new skip x ++ (m ++ replaceAll old new y) := by
  induction x generalizing skip with
  | nil =>
    obtain rfl : skip = 0 := Nat.le_zero.1 hskip
    exact replaceAll_of_begins h.begins hold y
  | cons c x ih =>
    cases skip with
    | succ skip => exact ih (Nat.le_of_succ_le_succ hskip)
    | zero =>
      have hiff := isPrefixOf_append h (c :: x) y
      rw [List.cons_append] at hiff
      rw [List.cons_append, replaceFrom, replaceFrom, hiff]
      split
      · rename_i hprefix
        have hlen := (List.isPrefixOf_iff_prefix.1 hprefix).length_le
        rw [ih (by simpa using Nat.sub_le_sub_right hlen 1), List.append_assoc]
      · rw [ih (Nat.zero_le _), List.cons_append]

/-- Text that no occurrence can overlap stays in its place. -/
theorem replaceAll_append (h : Splits old m) (hold : old ≠ []) (x y : List Char) :
    replaceAll old new (x ++ (m ++ y)) = replaceAll old new x ++ (m ++ replaceAll old new y) :=
  replaceFrom_append h hold y (Nat.zero_le _)

/-- Replacing changes text and leaves references alone, if none can be overlapped. -/
theorem exists_replaced {old : List Char} (new : List Char) (hold : old ≠ []) {ps : List Piece}
    (h : ∀ p ∈ ps, p.node? = none ∨ Splits old p.render) (x : List Char) :
    ∃ ps' : List Piece, ps'.flatMap Piece.render = replaceAll old new (x ++ ps.flatMap Piece.render) ∧
      ps'.filterMap Piece.node? = ps.filterMap Piece.node? ∧ ∀ p ∈ ps', p ∈ ps ∨ p.node? = none := by
  induction ps generalizing x with
  | nil =>
    exact ⟨[.text (replaceAll old new x)], by simp [Piece.render], rfl, fun p hp => by
      rw [List.mem_singleton.1 hp]
      exact .inr rfl⟩
  | cons p ps ih =>
    obtain ⟨hp, hps⟩ := List.forall_mem_cons.1 h
    cases p with
    | text cs =>
      obtain ⟨ps', htext, hnodes, hmem⟩ := ih hps (x ++ cs)
      refine ⟨ps', by rw [htext, List.append_assoc]; rfl, hnodes, fun p hp => ?_⟩
      exact (hmem p hp).imp_left (List.mem_cons_of_mem _)
    | reference e array brackets index =>
      have hsplits := hp.resolve_left (by simp [Piece.node?])
      obtain ⟨ps', htext, hnodes, hmem⟩ := ih hps []
      refine ⟨.text (replaceAll old new x) :: .reference e array brackets index :: ps',
        ?_, ?_, fun p hp => ?_⟩
      · rw [List.flatMap_cons, List.flatMap_cons, List.flatMap_cons, htext,
          replaceAll_append hsplits hold]
        rfl
      · exact congrArg (e :: ·) hnodes
      · rcases List.mem_cons.1 hp with rfl | hp
        · exact .inr rfl
        · rcases List.mem_cons.1 hp with rfl | hp
          · exact .inl List.mem_cons_self
          · exact (hmem p hp).imp_left (List.mem_cons_of_mem _)

end Replace

/-! ## Names -/

theorem isIdentifierPart_base36Digit {d : Nat} (h : d < 36) :
    isIdentifierPart (base36Digit d) = true := by
  have hall : ∀ d : Fin 36, isIdentifierPart (base36Digit d) = true := by decide
  exact hall ⟨d, h⟩

theorem isIdentifierPart_base36 (n : Nat) : ∀ c ∈ base36Chars n, isIdentifierPart c = true := by
  induction n using base36Chars.induct with
  | case1 n h =>
    rw [base36Chars, if_pos h]
    exact fun c hc => List.mem_singleton.1 hc ▸ isIdentifierPart_base36Digit h
  | case2 n h ih =>
    rw [base36Chars, if_neg h]
    refine List.forall_mem_append.2 ⟨ih, fun c hc => ?_⟩
    exact List.mem_singleton.1 hc ▸ isIdentifierPart_base36Digit (Nat.mod_lt _ (by decide))

theorem Options.isIdentifier_of_check {o : Options} (h : o.check = .ok ()) {field name : String}
    (hname : (field, name) ∈ o.names) : isIdentifier name = true := by
  unfold Options.check at h
  split at h
  · cases h
  · rename_i hnone
    simpa using List.find?_eq_none.1 hnone _ hname

theorem Options.check_eq_ok {o : Options} (h : o.check = .ok ()) :
    (∀ c ∈ o.nameStem.toList, isIdentifierPart c = true) ∧
      ∀ c ∈ o.placeholderArray.toList, isIdentifierPart c = true := by
  have hstem : isIdentifier (o.nameStem ++ "0") = true := isIdentifier_of_check h List.mem_cons_self
  have harray : isIdentifier o.placeholderArray = true :=
    isIdentifier_of_check h (by simp [names] : ("refBinding", _) ∈ o.names)
  refine ⟨fun c hc => isIdentifierPart_of_mem hstem c ?_, isIdentifierPart_of_mem harray⟩
  rw [String.toList_append]
  exact List.mem_append_left _ hc

/-! ## References and marks -/

namespace Layout

variable {l : Layout} {links : Links} {cs : List Char} {es : List NodeId}
  {ms : List Mention}

/-- The names that the text refers to are made of the characters of identifiers. -/
structure Identifies (l : Layout) : Prop where
  named : ∀ e name, l.nameOf e = .ok name → ∀ c ∈ name.toList, isIdentifierPart c = true
  placeholders : ∀ c ∈ l.placeholderArray.toList, isIdentifierPart c = true

theorem identifies_of_check {o : Options} (h : o.check = .ok ()) (g : Graph) {a : Analysis}
    (ha : a.stem = o.nameStem) : (o.layout g a).Identifies := by
  obtain ⟨hstem, hplaceholders⟩ := Options.check_eq_ok h
  refine ⟨fun e name hname => ?_, hplaceholders⟩
  rw [nameOf_eq_ok] at hname
  obtain ⟨i, _, rfl⟩ := Option.map_eq_some_iff.1 hname
  rw [String.toList_append]
  refine List.forall_mem_append.2 ⟨ha ▸ hstem, ?_⟩
  rw [base36, String.toList_ofList]
  exact isIdentifierPart_base36 i

/-- A mark for the contents of a store begins and ends with a character that no reference has, and
it has no bracket. -/
def IsMark (mark : List Char) : Prop :=
  mark.head? = some '\x00' ∧ mark.getLast? = some '\x00' ∧ '[' ∉ mark ∧ '(' ∉ mark

theorem isMark_moduleMark : IsMark moduleMark := ⟨by decide, by decide, by decide, by decide⟩

theorem isMark_resourceMark : IsMark resourceMark :=
  ⟨by decide, by decide, by decide, by decide⟩

theorem splits_reference (hl : l.Identifies) {mark : List Char} (hmark : IsMark mark) {e : NodeId}
    {array : String} {brackets : String × String} {index : Nat}
    (h : l.Spelled links (.reference e array brackets index)) :
    Splits mark (Piece.reference e array brackets index).render := by
  obtain ⟨hhead, hlast, hsquare, hround⟩ := hmark
  obtain ⟨harray, hbrackets⟩ : (∀ c ∈ array.toList, isIdentifierPart c = true) ∧
      (brackets = ("[", "]") ∨ brackets = ("(", ")")) := by
    rw [Spelled] at h
    split at h
    · exact ⟨hl.named _ _ h.1, .inl h.2.1⟩
    · refine ⟨hl.named _ _ h.1, ?_⟩
      rw [h.2.1]
      cases l.resourceMode
      · exact .inl rfl
      · exact .inr rfl
    · exact ⟨h.1 ▸ hl.placeholders, .inl h.2.1⟩
    · exact h.elim
  have hnull : '\x00' ∉ (Piece.reference e array brackets index).render := by
    have hname : '\x00' ∉ array.toList := fun hmem => absurd (harray _ hmem) (by decide)
    have hindex : '\x00' ∉ natText index := fun hmem =>
      absurd (Nat.isDigit_of_mem_toDigits (by decide) (by decide) hmem) (by decide)
    rcases hbrackets with rfl | rfl <;> simp [Piece.render, hname, hindex]
  refine ⟨fun c hc heq => hnull ?_, fun c hc heq => hnull ?_, ?_⟩
  · rw [hhead] at heq
    exact Option.some.inj heq ▸ hc
  · rw [hlast] at heq
    exact Option.some.inj heq ▸ hc
  · rcases hbrackets with rfl | rfl
    · exact ⟨'[', by simp [Piece.render], hsquare⟩
    · exact ⟨'(', by simp [Piece.render], hround⟩

theorem Spells.replaceAll (h : l.Spells links cs es ms) (hl : l.Identifies) {mark : List Char}
    (hmark : IsMark mark) (new : List Char) : l.Spells links (replaceAll mark new cs) es ms := by
  obtain ⟨ps, rfl, hes, hms, hps⟩ := h
  have hne : mark ≠ [] := by
    rintro rfl
    cases hmark.1
  have hsplits : ∀ p ∈ ps, p.node? = none ∨ Splits mark p.render := fun p hp => by
    cases p with
    | text cs => exact .inl rfl
    | reference e array brackets index => exact .inr (splits_reference hl hmark (hps _ hp))
  obtain ⟨ps', htext, hnodes, hmem⟩ := exists_replaced new hne hsplits []
  refine ⟨ps', htext, hnodes.trans hes, hnodes ▸ hms, fun p hp => ?_⟩
  rcases hmem p hp with hp | hp
  · exact hps p hp
  · cases p with
    | text cs => trivial
    | reference e array brackets index => cases hp

theorem Spells.splice (h : l.Spells links cs es ms) (hl : l.Identifies) (links' : Links) (a : Access)
    (o : Output) : l.Spells links (links'.splice a o cs) es ms := by
  unfold Links.splice
  split
  · split
    · exact (h.replaceAll hl isMark_moduleMark _).replaceAll hl isMark_resourceMark _
    · exact h.replaceAll hl isMark_moduleMark _
  · split
    · exact h.replaceAll hl isMark_resourceMark _
    · exact h

end Layout

end ScriptGraph
