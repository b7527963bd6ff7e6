import ScriptGraph.Builder.Operators
import ScriptGraph.Proofs.Analysis.Naming

/-!
# The numbers in generated names

* `IsNumeral` : the digits of a number to base 36, without a leading zero;
* `isNumeral_iff` : every number has exactly one such numeral, and names are made with it;
* `Builder.names_of_analyze` : an analysis names the parameters and the declared nodes, with the
  numbers from zero on.
-/

namespace ScriptGraph

/-! ## Numerals -/

/-- The value of a digit or a lowercase letter. -/
def base36Value (c : Char) : Nat :=
  if c.isDigit then c.toNat - '0'.toNat else c.toNat - 'a'.toNat + 10

/-- The value of digits to base 36, the highest first. -/
def numeralValue (digits : List Char) : Nat :=
  digits.foldl (fun n c => 36 * n + base36Value c) 0

/-- The text of a number to base 36: digits and lowercase letters, with no zero in front of another
digit. -/
structure IsNumeral (digits : List Char) (n : Nat) : Prop where
  digit : ∀ c ∈ digits, isBase36Digit c = true
  nonempty : digits ≠ []
  leading : digits.head? = some '0' → digits = ['0']
  value : numeralValue digits = n

theorem numeralValue_concat (digits : List Char) (c : Char) :
    numeralValue (digits ++ [c]) = 36 * numeralValue digits + base36Value c := by
  rw [numeralValue, List.foldl_append]
  rfl

theorem base36Value_digit : ∀ d < 36, base36Value (base36Digit d) = d := by decide

theorem base36Digit_value {c : Char} (hc : isBase36Digit c = true) :
    base36Value c < 36 ∧ base36Digit (base36Value c) = c := by
  have hall : ∀ n < 128, isBase36Digit (Char.ofNat n) = true →
      base36Value (Char.ofNat n) < 36 ∧ base36Digit (base36Value (Char.ofNat n)) = Char.ofNat n := by
    decide
  have hascii : c.toNat < 128 := by
    simp only [isBase36Digit, Char.isLower, Char.isDigit, Bool.or_eq_true, Bool.and_eq_true,
      decide_eq_true_eq, ge_iff_le, UInt32.le_iff_toNat_le] at hc
    have htoNat : c.toNat = c.val.toNat := rfl
    rcases hc with ⟨_, hc⟩ | ⟨_, hc⟩ <;> simp at hc <;> omega
  rw [← Char.ofNat_toNat c] at hc ⊢
  exact hall c.toNat hascii hc

theorem numeralValue_base36Chars (n : Nat) : numeralValue (base36Chars n) = n := by
  induction n using Nat.strongRecOn with
  | _ n ih =>
    rw [base36Chars]
    split
    · rename_i hn
      show 36 * 0 + base36Value (base36Digit n) = n
      rw [base36Value_digit n hn, Nat.mul_zero, Nat.zero_add]
    · rename_i hn
      rw [numeralValue_concat, ih (n / 36) (Nat.div_lt_self (by omega) (by omega)),
        base36Value_digit (n % 36) (Nat.mod_lt _ (by omega)), Nat.div_add_mod]

theorem leading_base36Chars (n : Nat) (h : (base36Chars n).head? = some '0') :
    base36Chars n = ['0'] := by
  induction n using Nat.strongRecOn with
  | _ n ih =>
    rw [base36Chars] at h ⊢
    split at h
    · rename_i hn
      rw [if_pos hn]
      exact congrArg (fun c => [c]) (Option.some.inj h)
    · rename_i hn
      rw [List.head?_append_of_ne_nil _ (base36Chars_ne_nil _)] at h
      have hzero := ih (n / 36) (Nat.div_lt_self (by omega) (by omega)) h
      have hvalue := numeralValue_base36Chars (n / 36)
      rw [hzero] at hvalue
      change 0 = n / 36 at hvalue
      omega

theorem isNumeral_base36Chars (n : Nat) : IsNumeral (base36Chars n) n where
  digit := List.all_eq_true.1 (all_base36Chars n)
  nonempty := base36Chars_ne_nil n
  leading := leading_base36Chars n
  value := numeralValue_base36Chars n

theorem eq_zero_of_numeralValue {digits : List Char} (hdigit : ∀ c ∈ digits, isBase36Digit c = true)
    (hvalue : numeralValue digits = 0) : ∀ c ∈ digits, c = '0' := by
  induction digits using List.reverseRecOn with
  | nil => exact fun c hc => nomatch hc
  | append_singleton digits d ih =>
    rw [numeralValue_concat] at hvalue
    intro c hc
    rcases List.mem_append.1 hc with hc | hc
    · exact ih (fun c hc => hdigit c (List.mem_append_left _ hc)) (by omega) c hc
    · rw [← (base36Digit_value (hdigit c (List.mem_append_right _ hc))).2, List.mem_singleton.1 hc,
        show base36Value d = 0 by omega]
      rfl

/-- Without its last digit, a numeral of several digits is a numeral that is not zero. -/
theorem IsNumeral.of_concat {digits : List Char} {d : Char} {n : Nat}
    (h : IsNumeral (digits ++ [d]) n) (hne : digits ≠ []) :
    IsNumeral digits (numeralValue digits) ∧ 0 < numeralValue digits := by
  have hdigit : ∀ c ∈ digits, isBase36Digit c = true :=
    fun c hc => h.digit c (List.mem_append_left _ hc)
  have hhead : digits.head? ≠ some '0' := fun hhead => by
    have hone := h.leading (by rw [List.head?_append_of_ne_nil _ hne, hhead])
    exact hne (List.append_eq_singleton_iff.1 hone |>.resolve_right (by simp)).1
  refine ⟨⟨hdigit, hne, fun hzero => absurd hzero hhead, rfl⟩, Nat.pos_of_ne_zero fun hzero => ?_⟩
  obtain ⟨c, cs, rfl⟩ := List.exists_cons_of_ne_nil hne
  exact hhead (congrArg some (eq_zero_of_numeralValue hdigit hzero c List.mem_cons_self))

/-- Every number has exactly one numeral. -/
theorem isNumeral_iff {digits : List Char} {n : Nat} :
    IsNumeral digits n ↔ digits = base36Chars n := by
  refine ⟨fun h => ?_, fun h => h ▸ isNumeral_base36Chars n⟩
  induction n using Nat.strongRecOn generalizing digits with
  | _ n ih =>
    obtain ⟨init, d, rfl⟩ := (List.eq_nil_or_concat' digits).resolve_left h.nonempty
    obtain ⟨hlt, hd⟩ := base36Digit_value (h.digit d (List.mem_append_right _ List.mem_cons_self))
    have hn : 36 * numeralValue init + base36Value d = n := numeralValue_concat init d ▸ h.value
    by_cases hinit : init = []
    · subst hinit
      change 36 * 0 + base36Value d = n at hn
      rw [base36Chars, if_pos (by omega), ← hn, Nat.mul_zero, Nat.zero_add, hd]
      rfl
    · obtain ⟨hnumeral, hpos⟩ := h.of_concat hinit
      have hdiv : n / 36 = numeralValue init := by omega
      have hmod : n % 36 = base36Value d := by omega
      rw [base36Chars, if_neg (by omega), hdiv, hmod, hd,
        ← ih (numeralValue init) (by omega) hnumeral]

/-! ## Names -/

namespace Builder

variable {σ : Type}

/-- **The generated names**: an analysis names exactly the parameters of the reachable functions and
the declared nodes, each with a name of its own. A name is the stem with a number below the number
of names, written to base 36 in digits and lowercase letters, and each such number is used. -/
theorem names_of_analyze {b c : Builder σ} {body : Body} {stem : String} {a : Analysis}
    (hb : b.Reached) (h : b.analyze body stem = (.ok a, c)) :
    ∃ nodes : Finset NodeId,
      (∀ e, e ∈ nodes ↔ (∃ f, c.state.graph.Reaches body.roots f ∧ e ∈ c.state.graph.params f) ∨
        a.isDeclared e = true) ∧
      (∀ e, (∃ name, a.name? e = some name) ↔ e ∈ nodes) ∧
      (∀ e e' name, a.name? e = some name → a.name? e' = some name → e = e') ∧
      (∀ e name, a.name? e = some name → ∃ i < nodes.card, ∃ digits, IsNumeral digits i ∧
        name = stem ++ String.ofList digits) ∧
      (∀ i < nodes.card, ∃ e ∈ nodes, ∃ digits, IsNumeral digits i ∧
        a.name? e = some (stem ++ String.ofList digits)) := by
  have hresolved := analyze_resolved hb h
  obtain rfl := stem_of_analyze h
  have hcard : a.named.toFinset.card = a.named.length :=
    List.toFinset_card_of_nodup hresolved.nodup_named
  refine ⟨a.named.toFinset, fun e => ?_, fun e => ?_, fun _ _ _ => Analysis.name?_inj,
    fun e name hname => ?_, fun i hi => ?_⟩
  · rw [List.mem_toFinset, hresolved.mem_named_iff]
    simp only [hresolved.surveyed.mem_iff]
  · rw [List.mem_toFinset]
    refine ⟨fun ⟨name, hname⟩ => ?_, Graph.Resolved.exists_name_of_mem⟩
    obtain ⟨i, hi, _⟩ := hresolved.name?_eq_some_iff.1 hname
    exact List.mem_of_getElem? hi
  · obtain ⟨i, hi, rfl⟩ := hresolved.name?_eq_some_iff.1 hname
    exact ⟨i, hcard ▸ (List.getElem?_eq_some_iff.1 hi).1, _, isNumeral_base36Chars i, rfl⟩
  · rw [hcard] at hi
    exact ⟨a.named[i], List.mem_toFinset.2 (List.getElem_mem hi), _, isNumeral_base36Chars i,
      hresolved.name?_eq_some_iff.2 ⟨i, List.getElem?_eq_getElem hi, rfl⟩⟩

/-- A function of one parameter that uses a member of it twice. -/
def namedExample : Builder Unit :=
  (Builder.run (Build.toRecipe do
    let f ← Build.function 1 fun f _ => Build.toRecipe do
      let access ← Build.get (f + 1) "p"
      let list ← Build.template [.text "[", .node access, .text ",", .node access, .text "]"]
      return .ok (.value list)
    return .ok (.value f)) (.empty ())).2

/-- The parameter is named first, then the declaration of the function's body. -/
theorem names_namedExample : ∃ a c, ∃ nodes : Finset NodeId,
    namedExample.analyze (.value 0) "_" = (.ok a, c) ∧ a.name? 1 = some "_0" ∧
    a.name? 2 = some "_1" ∧ (∀ e, (∃ name, a.name? e = some name) ↔ e ∈ nodes) ∧
    2 ≤ nodes.card := by
  have hsurvey : (namedExample.survey [] [0]).1 = .ok [0, 3, 2, 1] := by cbv
  obtain ⟨a, c, ha, _⟩ := exists_analysis (.value 0) "_" hsurvey (by cbv)
  have hnames : (namedExample.analyze (.value 0) "_").1.map (fun a => (a.name? 1, a.name? 2)) =
      .ok (some "_0", some "_1") := by cbv
  rw [ha] at hnames
  obtain ⟨hone, htwo⟩ := Prod.mk.inj (Except.ok.inj hnames)
  obtain ⟨nodes, _, hnamed, _⟩ :=
    names_of_analyze ((run_leads _ _).reached (reached_empty ())) ha
  exact ⟨a, c, nodes, ha, hone, htwo, hnamed, Finset.one_lt_card.2
    ⟨1, (hnamed 1).1 ⟨_, hone⟩, 2, (hnamed 2).1 ⟨_, htwo⟩, by decide⟩⟩

end Builder

end ScriptGraph
