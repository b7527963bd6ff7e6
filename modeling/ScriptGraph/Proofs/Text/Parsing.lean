import ScriptGraph.Ecma.Module
import ScriptGraph.Proofs.Emission.Margins
import ScriptGraph.Proofs.Text.Tokens

/-!
# A script that parses

* `Ecma.Parse.bind_run`, `Ecma.Parse.accept_run`, `Ecma.Parse.accept_run_of_ne` : steps of the parser;
* `Ecma.bindingTarget_run`, `Ecma.declarations_run`, `Ecma.moduleItem_run` : a declaration of a name with
  the value `[0]`, from the inside out;
* `Ecma.isSome_ofModule?` : such a declaration is a script, whatever the name is and whatever a comment
  behind it says.
-/

namespace ScriptGraph.Ecma

/-! ## Steps -/

namespace Parse

theorem bind_run {α β : Type} {p : Parse α} {c c' : Cursor} {a : α} (h : p c = some (a, c'))
    (f : α → Parse β) : (p >>= f) c = f a c' := by
  change (p c).bind _ = _
  rw [h]
  rfl

variable {p : String} {c : Cursor}

theorem accept_run (h : c.token = .punctuator p) : accept p c = some (true, c.next) := by
  have hfound : at? p c = some (true, c) := by
    change some (decide (c.token = .punctuator p), c) = _
    rw [decide_eq_true h]
  rw [accept, bind_run hfound]
  rfl

theorem accept_run_of_ne (h : c.token ≠ .punctuator p) : accept p c = some (false, c) := by
  have hfound : at? p c = some (false, c) := by
    change some (decide (c.token = .punctuator p), c) = _
    rw [decide_eq_false h]
  rw [accept, bind_run hfound]
  rfl

/-- One answer, after which there is none. -/
theorem many_run {α : Type} {p : Parse (Option α)} {c c' : Cursor} {a : α} {k : Nat}
    (h : p c = some (some a, c')) (h' : p c' = some (none, c')) (hb : c.bound = k + 2) :
    many p c = some ([a], c') := by
  have hrepeated : repeated (fun l : List α => return (← p).map (· :: l)) [] c = some ([a], c') := by
    have hfirst : (do return (← p).map (· :: ([] : List α)) : Parse (Option (List α))) c =
        some (some [a], c') := bind_run h _
    have hlast : (do return (← p).map (· :: [a]) : Parse (Option (List α))) c' = some (none, c') :=
      bind_run h' _
    change iterate _ c.bound [] c = _
    rw [hb, iterate, bind_run hfirst]
    dsimp only
    rw [iterate, bind_run hlast]
    rfl
  rw [many, bind_run hrepeated]
  rfl

end Parse

open Parse

/-! ## Places -/

variable {n d : Nat} {x : String} {text rest tail : List Char}

theorem skipTrivia_of_isIdentifierPart {c : Char} (h : isIdentifierPart c = true) (cs : List Char) :
    skipTrivia .between false (c :: cs) = some (false, c :: cs) := by
  have hne : c ≠ '/' := by
    rintro rfl
    cases h
  have hspace := isSpace_of_isIdentifierPart h
  rw [skipTrivia.eq_def]
  simp [hne, hspace]

theorem skipTrivia_lineComment (h : ∀ c ∈ tail, isLineEnd c = false) :
    skipTrivia .lineComment false tail = some (false, []) := by
  induction tail with
  | nil => rfl
  | cons c cs ih =>
    obtain ⟨hc, hcs⟩ := List.forall_mem_cons.1 h
    change (if isLineEnd c then _ else skipTrivia .lineComment false cs) = _
    rw [hc, if_neg Bool.false_ne_true, ih hcs]

theorem ofText_eq {token : Token} (h : skipTrivia .between false text = some (false, rest))
    (ht : readToken rest = some (token, tail)) :
    Cursor.ofText n text = ⟨token, false, rest, tail, n⟩ := by
  rw [Cursor.ofText, h]
  dsimp only
  rw [ht]

/-! ## Declarations -/

/-- Variables at the top level of a module. -/
abbrev Context.top : Context := { awaits := true }

theorem bindingTarget_run {r : Rules} (h : Context.top.admits x = true) :
    bindingTarget r .top ⟨.name x false, false, text, rest, n⟩ =
      some ((.binding x, false), .ofText n rest) := by
  have hname : identifier? .top ⟨.name x false, false, text, rest, n⟩ =
      some (some x, .ofText n rest) := by
    change (if Context.top.admits x then _ else _ : Parse (Option String)) _ = _
    rw [if_pos h]
    rfl
  have hidentifier : identifier .top ⟨.name x false, false, text, rest, n⟩ =
      some (x, .ofText n rest) := bind_run hname _
  have hdeclared : declared .top ⟨.name x false, false, text, rest, n⟩ =
      some (.binding x, .ofText n rest) := bind_run hidentifier _
  rw [bindingTarget, bind_run (accept_run_of_ne (by simp)), if_neg Bool.false_ne_true,
    bind_run (accept_run_of_ne (by simp)), if_neg Bool.false_ne_true, bind_run hdeclared]
  rfl

/-- The list `[0]`. -/
theorem assignment_run :
    assignment (rules (d + 1)) .top
        ⟨.punctuator "[", false, text, '0' :: ']' :: ';' :: tail, n + 3⟩ =
      some (.array [.phrase []], ⟨.punctuator ";", false, ';' :: tail, tail, n + 3⟩) := rfl

theorem declarations_run (target : Term) :
    declarations (rules (d + 2)) .top false (target, false)
        ⟨.punctuator "=", false, text, '[' :: '0' :: ']' :: ';' :: tail, n + 3⟩ =
      some (.phrase [.assign target (.array [.phrase []])],
        ⟨.punctuator ";", false, ';' :: tail, tail, n + 3⟩) := by
  have hfirst : initialized (rules (d + 2)) .top false (target, false)
        ⟨.punctuator "=", false, text, '[' :: '0' :: ']' :: ';' :: tail, n + 3⟩ =
      some (.assign target (.array [.phrase []]),
        ⟨.punctuator ";", false, ';' :: tail, tail, n + 3⟩) := by
    rw [initialized, bind_run (accept_run rfl)]
    exact bind_run assignment_run _
  rw [declarations, bind_run hfirst]
  rfl

/-- What follows the name is `=[0];`. -/
theorem moduleItem_run (h : Context.top.admits x = true)
    (hname : Cursor.ofText (n + 3) rest =
      ⟨.name x false, false, text, '=' :: '[' :: '0' :: ']' :: ';' :: tail, n + 3⟩)
    (start : List Char) :
    moduleItem (rules (d + 2)) .top ⟨.name "let" false, false, start, rest, n + 3⟩ =
      some (.phrase [.assign (.binding x) (.array [.phrase []])], .ofText (n + 3) tail) := by
  have hvariable : variableDeclaration (rules (d + 2)) .top false
      ⟨.name x false, false, text, '=' :: '[' :: '0' :: ']' :: ';' :: tail, n + 3⟩ =
      some (.phrase [.assign (.binding x) (.array [.phrase []])], .ofText (n + 3) tail) := by
    rw [variableDeclaration, bind_run (bindingTarget_run h)]
    exact bind_run (declarations_run _) _
  have hdeclaration : declaration? (rules (d + 2)) .top
      ⟨.name "let" false, false, start, rest, n + 3⟩ =
      some (some (.phrase [.assign (.binding x) (.array [.phrase []])]), .ofText (n + 3) tail) := by
    change (variableDeclaration (rules (d + 2)) .top false (.ofText (n + 3) rest)).bind _ = _
    rw [hname, hvariable]
    rfl
  change item (rules (d + 2)) .top ⟨.name "let" false, false, start, rest, n + 3⟩ = _
  rw [item, bind_run hdeclaration]
  rfl

/-! ## Names -/

theorem isNameStart_of_isIdentifierStart {c : Char} (h : isIdentifierStart c = true) :
    isNameStart c = true := by
  have hpart : isIdentifierPart c = true := by rw [isIdentifierPart, h, Bool.true_or]
  rw [isNameStart, if_pos (toNat_of_isIdentifierPart hpart).2]
  exact h

theorem isNamePart_of_isIdentifierPart {c : Char} (h : isIdentifierPart c = true) :
    (isNamePart c && c != '\\') = true := by
  have hne : c ≠ '\\' := by
    rintro rfl
    cases h
  rw [Bool.and_eq_true, bne_iff_ne]
  refine ⟨?_, hne⟩
  rw [isIdentifierPart, Bool.or_eq_true] at h
  rcases h with h | h
  · simp [isNamePart, isNameStart_of_isIdentifierStart h]
  · simp [isNamePart, h]

theorem isLineEnd_of_isIdentifierPart {c : Char} (h : isIdentifierPart c = true) :
    isLineEnd c = false := by
  obtain ⟨hlow, hhigh⟩ := toNat_of_isIdentifierPart h
  have hne : c ≠ '\n' ∧ c ≠ '\r' := by
    constructor <;> rintro rfl <;> exact absurd hlow (by decide)
  simp only [isLineEnd, Bool.or_eq_false_iff, beq_eq_false_iff_ne]
  exact ⟨⟨hne, by omega⟩, by omega⟩

/-- An identifier is read as one token. -/
theorem readToken_identifier (hx : isIdentifier x = true) (hrest : EndsWord rest) :
    readToken (x.toList ++ rest) = some (.name x false, rest) := by
  obtain ⟨c, cs, hcs, hc, _⟩ := isIdentifier_iff.1 hx
  have hall : (x.toList.all fun c => isNamePart c && c != '\\') = true :=
    List.all_eq_true.2 fun d hd => isNamePart_of_isIdentifierPart (isIdentifierPart_of_mem hx d hd)
  have hstart : x.toList.head?.any isNameStart = true := by
    rw [hcs]
    exact isNameStart_of_isIdentifierStart hc
  rw [readToken_name hall hstart hrest, String.ofList_toList]

/-- The declaration of a list, with a comment behind it. -/
def declaration (name comment : List Char) : List Char :=
  'l' :: 'e' :: 't' :: ' ' :: (name ++ '=' :: '[' :: '0' :: ']' :: ';' :: '/' :: '/' :: comment)

/-- **A declaration of a name is a script**, with any comment behind it. -/
theorem isSome_ofModule? (hx : isIdentifier x = true) (hadmits : Context.top.admits x = true)
    (htail : ∀ c ∈ tail, isLineEnd c = false) :
    (Term.ofModule? (declaration x.toList tail)).isSome = true := by
  obtain ⟨c, cs, hcs, hc, _⟩ := isIdentifier_iff.1 hx
  have hpart : isIdentifierPart c = true := by rw [isIdentifierPart, hc, Bool.true_or]
  obtain ⟨n, hlen⟩ : ∃ n, (declaration x.toList tail).length = n + 1 := ⟨_, List.length_cons ..⟩
  have hname : Cursor.ofText (n + 3) ((declaration x.toList tail).drop 3) =
      ⟨.name x false, false, (declaration x.toList tail).drop 4,
        '=' :: '[' :: '0' :: ']' :: ';' :: '/' :: '/' :: tail, n + 3⟩ := by
    refine ofText_eq ?_ (readToken_identifier hx fun c hc => ?_)
    · change skipTrivia .between false (x.toList ++ _) = some (false, x.toList ++ _)
      rw [hcs]
      exact skipTrivia_of_isIdentifierPart hpart _
    · cases hc
      decide
  have hend : Cursor.ofText (n + 3) ('/' :: '/' :: tail) = ⟨.finish, false, [], [], n + 3⟩ :=
    ofText_eq (skipTrivia_lineComment htail) rfl
  have hstart : Cursor.start (declaration x.toList tail) =
      ⟨.name "let" false, false, declaration x.toList tail, (declaration x.toList tail).drop 3,
        n + 3⟩ := by
    rw [Cursor.start, hlen]
    have hlet : (['l', 'e', 't'].all fun c => isNamePart c && c != '\\') = true := by decide
    refine ofText_eq rfl (readToken_name hlet rfl fun c hc => ?_)
    cases hc
    decide
  have hitem : (do
        if (← get).token == .finish then return none
        else return some (← moduleItem (rules (2 * (n + 1) + 2)) .top) : Parse (Option Term))
      ⟨.name "let" false, false, declaration x.toList tail, (declaration x.toList tail).drop 3,
        n + 3⟩ =
      some (some (.phrase [.assign (.binding x) (.array [.phrase []])]),
        ⟨.finish, false, [], [], n + 3⟩) := by
    change (moduleItem (rules (2 * n + 2 + 2)) .top >>= fun t => pure (some t)) _ = _
    rw [bind_run (moduleItem_run hadmits hname _), hend]
    rfl
  have hmodule : module (rules (2 * (n + 1) + 2)) (Cursor.start (declaration x.toList tail)) =
      some (.phrase [.phrase [.assign (.binding x) (.array [.phrase []])]],
        ⟨.finish, false, [], [], n + 3⟩) := by
    rw [hstart]
    exact bind_run (many_run hitem rfl rfl) _
  rw [Term.ofModule?, hlen]
  change Option.isSome (Option.bind (module (rules (2 * (n + 1) + 2))
    (Cursor.start (declaration x.toList tail))) _) = true
  rw [hmodule]
  rfl

end ScriptGraph.Ecma
