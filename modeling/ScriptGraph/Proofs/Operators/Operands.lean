import ScriptGraph.Builder.Operators
import ScriptGraph.Proofs.Builder.Creation
import ScriptGraph.Proofs.Text.Tokens

/-!
# Operators with an open operand

* `Operand` : an operator with its operands, of which one is open; `Operand.apply` fills it in;
* `Operand.readsApart` : the literal of a number is read apart from the text of the operator, but for
  a point behind digits;
* `Operand.exists_draft` : the operator is applied by making one node, whose parts are those of the
  operator around the operand.
-/

namespace ScriptGraph

open Ecma

/-- An operator with its operands, of which one is open. -/
inductive Operand
  /-- The object of a member access. -/
  | member (property : String) (optional : Bool)
  /-- What has an element with the given key. -/
  | indexed (key : NodeId)
  /-- The key of an element of the given object. -/
  | element (object : NodeId)
  | callee (args : List NodeId) (style : CallStyle)
  | argument (callee : NodeId) (before after : List NodeId) (style : CallStyle)
  | awaited
  | target (value : NodeId)
  | assigned (target : NodeId)

namespace Operand

variable {σ : Type} {x : Operand} {e : NodeId} {cs rest : List Char}

/-! ## The text of an operator -/

def callOpening (style : CallStyle) : String :=
  if (BuilderState.callFlags style).optional then "?.(" else "("

/-- The text of the operator in front of the open operand. -/
def left : Operand → String
  | .element _ => "["
  | .argument _ before _ style => if before = [] then callOpening style else ","
  | .awaited => "await "
  | .assigned _ => "="
  | _ => ""

/-- The text of the operator behind the open operand. -/
def right : Operand → String
  | .member property optional => Build.memberAccess property optional
  | .indexed _ => "["
  | .element _ => "]"
  | .callee _ style => callOpening style
  | .argument _ _ after _ => if after = [] then ")" else ","
  | .target _ => "="
  | _ => ""

/-- The punctuator with which the text behind the open operand begins. -/
def mark : Operand → String
  | .member property optional =>
    if optional then "?." else if isIdentifier property then "." else "["
  | .callee _ style => if (BuilderState.callFlags style).optional then "?." else "("
  | x => x.right

/-- A member access that is written with a point. -/
def Dotted : Operand → Prop
  | .member property optional => optional = false ∧ isIdentifier property = true
  | _ => False

theorem apart_single {c : Char} (h : c ∈ ['(', ')', '[', ']', ',']) (rest : List Char) :
    Apart [c] rest :=
  ⟨_, .token (readToken_single h []) .done, .token (readToken_single h rest) .done⟩

theorem apart_callOpening (style : CallStyle) (rest : List Char) :
    Apart (callOpening style).toList rest := by
  have hopening (rest : List Char) : Tokens ('?' :: '.' :: '(' :: rest)
      [.punctuator "?.", .punctuator "("] rest :=
    .token (readToken_optional (by decide) rest) (.token (readToken_single (by decide) rest) .done)
  cases style with
  | optional => exact ⟨_, hopening [], hopening rest⟩
  | plain => exact apart_single (by decide) rest
  | pure => exact apart_single (by decide) rest

/-- The text in front of a number is read apart from the number. -/
theorem apart_left (x : Operand) (h : NumberForm cs) (rest : List Char) :
    Apart x.left.toList (cs ++ rest) := by
  have hname (rest : List Char) : Tokens ("await ".toList ++ rest) [.name "await" false] rest := by
    have hawait : readToken ("await".toList ++ ' ' :: rest) = some (.name "await" false, ' ' :: rest) :=
      readToken_name (by decide) (by decide) fun c hc => Option.some.inj hc ▸ by decide
    exact .token hawait (.space (by decide) .done)
  cases x with
  | element =>
    show Apart "[".toList (cs ++ rest)
    exact apart_single (c := '[') (by decide) _
  | argument callee before after style =>
    show Apart (if before = [] then callOpening style else ",").toList (cs ++ rest)
    split
    · exact apart_callOpening style _
    · exact apart_single (c := ',') (by decide) _
  | awaited => exact ⟨_, hname [], hname _⟩
  | assigned =>
    obtain ⟨c, tail, rfl, hc⟩ := h.exists_cons
    obtain ⟨-, hequals, hgreater⟩ := of_mem_numberHeads hc
    show Apart "=".toList (c :: tail ++ rest)
    have halone : readToken ['='] = some (.punctuator "=", []) := rfl
    exact ⟨_, .token halone .done, .token (readToken_equals hequals hgreater _) .done⟩
  | _ => exact apart_nil _

theorem endsWord_cons {c : Char} (h : isNamePart c = false ∧ c ≠ '\\') (cs : List Char) :
    EndsWord (c :: cs) := fun _ hc => Option.some.inj hc ▸ h

/-- The characters with which the text behind an operand begins. -/
def heads : List Char := ['.', '?', '[', ']', '(', ')', ',', '=']

theorem not_isNamePart_of_mem {c : Char} (h : c ∈ heads) : isNamePart c = false ∧ c ≠ '\\' := by
  fin_cases h <;> decide

/-- The text begins with such a character, which is a point or not, and is read as a punctuator. What
is assigned goes on with no punctuator of assignments. -/
def Begins (text : String) (rest : List Char) (mark : String) (dotted : Prop) : Prop :=
  ∃ c cs, text.toList = c :: cs ∧ c ∈ heads ∧ (c = '.' ↔ dotted) ∧
    ((mark = "=" → ∀ c ∈ rest.head?, c ≠ '=' ∧ c ≠ '>') →
      ∃ after, readToken (text.toList ++ rest) = some (.punctuator mark, after))

theorem begins_callOpening (style : CallStyle) (rest : List Char) :
    Begins (callOpening style) rest
      (if (BuilderState.callFlags style).optional then "?." else "(") False := by
  cases style with
  | optional =>
    exact ⟨'?', _, rfl, by decide, by decide, fun _ => ⟨_, readToken_optional (by decide) rest⟩⟩
  | plain => exact ⟨'(', _, rfl, by decide, by decide, fun _ => ⟨_, readToken_single (by decide) rest⟩⟩
  | pure => exact ⟨'(', _, rfl, by decide, by decide, fun _ => ⟨_, readToken_single (by decide) rest⟩⟩

/-- An identifier begins with a letter, `_` or `$`. -/
theorem exists_cons_of_isIdentifier {s : String} (h : isIdentifier s = true) :
    ∃ c cs, s.toList = c :: cs ∧ c ≠ '.' ∧ c.isDigit = false := by
  unfold isIdentifier at h
  split at h
  · cases h
  · rename_i c cs heq
    have hstart := (Bool.and_eq_true_iff.1 h).1
    refine ⟨c, cs, heq, ?_, ?_⟩
    · rintro rfl
      exact absurd hstart (by decide)
    · rw [← Bool.not_eq_true]
      intro hdigit
      have hnot := (of_isDigit hdigit).1
      have hascii : c.toNat < 0x80 := Nat.lt_of_le_of_lt (Char.isDigit_iff_toNat.1 hdigit).2 (by decide)
      rw [isNameStart, if_pos hascii, ← isIdentifierStart, hstart] at hnot
      cases hnot

theorem begins_memberAccess (property : String) (optional : Bool) (rest : List Char) :
    Begins (Build.memberAccess property optional) rest
      (if optional then "?." else if isIdentifier property then "." else "[")
      (optional = false ∧ isIdentifier property = true) := by
  unfold Begins Build.memberAccess
  cases hproperty : isIdentifier property with
  | false =>
    cases optional with
    | false =>
      simp only [String.toList_append]
      exact ⟨'[', _, rfl, by decide, by decide, fun _ => ⟨_, readToken_single (by decide) _⟩⟩
    | true =>
      simp only [String.toList_append]
      exact ⟨'?', _, rfl, by decide, by decide, fun _ => ⟨_, readToken_optional (by decide) _⟩⟩
  | true =>
    obtain ⟨c, cs, heq, hpoint, hdigit⟩ := exists_cons_of_isIdentifier hproperty
    cases optional with
    | false =>
      simp only [String.toList_append, heq]
      exact ⟨'.', _, rfl, by decide, by decide, fun _ => ⟨_, readToken_point hpoint hdigit _⟩⟩
    | true =>
      simp only [String.toList_append, heq]
      exact ⟨'?', _, rfl, by decide, by decide, fun _ => ⟨_, readToken_optional hdigit _⟩⟩

theorem begins_single {c : Char} (h : c ∈ ['(', ')', '[', ']', ',']) (rest : List Char) :
    Begins (String.singleton c) rest (String.singleton c) False := by
  refine ⟨c, [], String.toList_singleton c, ?_, ?_, fun _ => ⟨rest, ?_⟩⟩
  · fin_cases h <;> decide
  · fin_cases h <;> decide
  · rw [String.toList_singleton]
    exact readToken_single h rest

theorem begins_equals (rest : List Char) : Begins "=" rest "=" False := by
  refine ⟨'=', [], rfl, by decide, by decide, fun hrest => ?_⟩
  cases rest with
  | nil => exact ⟨_, rfl⟩
  | cons c rest =>
    obtain ⟨hequals, hgreater⟩ := hrest rfl c rfl
    exact ⟨_, readToken_equals hequals hgreater rest⟩

/-- The text behind an operand, and the punctuator with which it begins. -/
theorem begins_right (x : Operand) (hne : x.right ≠ "") (rest : List Char) :
    Begins x.right rest x.mark x.Dotted := by
  cases x with
  | member property optional => exact begins_memberAccess property optional rest
  | indexed => exact begins_single (c := '[') (by decide) rest
  | element => exact begins_single (c := ']') (by decide) rest
  | callee args style => exact begins_callOpening style rest
  | argument callee before after style =>
    show Begins (if after = [] then ")" else ",") rest (if after = [] then ")" else ",") False
    split
    · exact begins_single (c := ')') (by decide) rest
    · exact begins_single (c := ',') (by decide) rest
  | target => exact begins_equals rest
  | awaited => exact absurd rfl hne
  | assigned => exact absurd rfl hne

/-- In front of `rest`, the literal of a number is read apart from the text of an operator on both
sides. -/
structure ReadsApart (x : Operand) (literal rest : List Char) : Prop where
  before : Apart x.left.toList (literal ++ (x.right.toList ++ rest))
  between : x.right ≠ "" → (Apart literal (x.right.toList ++ rest) ↔
    ¬((∀ c ∈ literal, c.isDigit = true) ∧ x.Dotted))
  behind : x.right ≠ "" → (x.mark = "=" → ∀ c ∈ rest.head?, c ≠ '=' ∧ c ≠ '>') →
    ∃ after, readToken (x.right.toList ++ rest) = some (.punctuator x.mark, after)
  last : x.right = "" → EndsWord rest →
    (Apart literal rest ↔ ¬((∀ c ∈ literal, c.isDigit = true) ∧ rest.head? = some '.'))

/-- **The literal of a number is read apart from the text of an operator**, but for a point behind
digits. -/
theorem readsApart (x : Operand) (h : NumberForm cs) (rest : List Char) : x.ReadsApart cs rest where
  before := x.apart_left h _
  between hne := by
    obtain ⟨c, tail, htext, hmem, hpoint, -⟩ := x.begins_right hne rest
    have hword : EndsWord (x.right.toList ++ rest) := by
      rw [htext]
      exact endsWord_cons (not_isNamePart_of_mem hmem) _
    rw [h.apart_iff hword, htext, ← hpoint]
    simp
  behind hne hrest := by
    obtain ⟨-, -, -, -, -, hread⟩ := x.begins_right hne rest
    exact hread hrest
  last _ hword := h.apart_iff hword

theorem printed_callOpening (style : CallStyle) :
    ∀ c ∈ (callOpening style).toList, IsPrinted c := by
  cases style <;> exact printed_of_all (by decide)

theorem printed_left (x : Operand) : ∀ c ∈ x.left.toList, IsPrinted c := by
  unfold left
  split
  · exact printed_of_all (by decide)
  · split
    · exact printed_callOpening _
    · exact printed_of_all (by decide)
  · exact printed_of_all (by decide)
  · exact printed_of_all (by decide)
  · exact printed_of_all (by decide)

theorem printed_memberAccess (property : String) (optional : Bool) :
    ∀ c ∈ (Build.memberAccess property optional).toList, IsPrinted c := by
  unfold Build.memberAccess
  split
  · exact printed_append (printed_of_all (by decide)) (printed_of_isIdentifier ‹_›)
  · exact printed_append (printed_of_all (by decide)) (printed_of_isIdentifier ‹_›)
  · exact printed_append (printed_append (printed_of_all (by decide)) (printed_quoted property))
      (printed_of_all (by decide))
  · exact printed_append (printed_append (printed_of_all (by decide)) (printed_quoted property))
      (printed_of_all (by decide))

theorem printed_right (x : Operand) : ∀ c ∈ x.right.toList, IsPrinted c := by
  unfold right
  split
  · exact printed_memberAccess _ _
  · exact printed_of_all (by decide)
  · exact printed_of_all (by decide)
  · exact printed_callOpening _
  · split <;> exact printed_of_all (by decide)
  · exact printed_of_all (by decide)
  · exact printed_of_all (by decide)

/-! ## Applying an operator -/

/-- A call in one of the styles. -/
def call (callee : NodeId) (args : List NodeId) : CallStyle → Build σ NodeId
  | .plain => Build.call callee args
  | .optional => Build.callOptional callee args
  | .pure => Build.callPure callee args

/-- Makes the node in which the operator is applied to `e`. -/
def apply (e : NodeId) : Operand → Build σ NodeId
  | .member property false => Build.get e property
  | .member property true => Build.getOptional e property
  | .indexed key => Build.index e key
  | .element o => Build.index o e
  | .callee args style => call e args style
  | .argument f before after style => call f (before ++ e :: after) style
  | .awaited => Build.await e
  | .target value => Build.assign e value
  | .assigned o => Build.assign o e

/-- The parts in front of the text of the operator. -/
def front : Operand → List Part
  | .element o => [.node o]
  | .argument f before _ style => .node f ::
    if before = [] then [] else .text (callOpening style) :: commaSeparated (before.map .node)
  | .assigned o => [.node o]
  | _ => []

/-- The parts behind the text of the operator. -/
def rear : Operand → List Part
  | .indexed key => [.node key, .text "]"]
  | .callee args _ => commaSeparated (args.map .node) ++ [.text ")"]
  | .argument _ _ after _ =>
    if after = [] then [] else commaSeparated (after.map .node) ++ [.text ")"]
  | .target value => [.node value]
  | _ => []

/-- A text as parts. -/
def words (text : String) : List Part := if text = "" then [] else [.text text]

def parts (e : NodeId) (x : Operand) : List Part :=
  x.front ++ (words x.left ++ .node e :: words x.right) ++ x.rear

theorem words_of_ne {text : String} (h : text ≠ "") : words text = [.text text] := if_neg h

theorem commaSeparated_cons {p : Part} {ps : List Part} (h : ps ≠ []) :
    commaSeparated (p :: ps) = p :: .text "," :: commaSeparated ps := by
  rw [commaSeparated]
  exact h

theorem commaSeparated_append {ps qs : List Part} (hp : ps ≠ []) (hq : qs ≠ []) :
    commaSeparated (ps ++ qs) = commaSeparated ps ++ .text "," :: commaSeparated qs := by
  induction ps with
  | nil => exact absurd rfl hp
  | cons p ps ih =>
    by_cases hps : ps = []
    · subst hps
      exact commaSeparated_cons hq
    · rw [List.cons_append, commaSeparated_cons (List.append_ne_nil_of_left_ne_nil hps _), ih hps,
        commaSeparated_cons hps]
      rfl

theorem parts_argument (e f : NodeId) (before after : List NodeId) (style : CallStyle) :
    (argument f before after style).parts e = .node f :: .text (callOpening style) ::
      commaSeparated ((before ++ e :: after).map .node) ++ [Part.text ")"] := by
  have hopening : callOpening style ≠ "" := by
    cases style <;> decide
  have htail : commaSeparated ((e :: after).map .node) ++ [Part.text ")"] =
      .node e :: words (if after = [] then ")" else ",") ++
        if after = [] then [] else commaSeparated (after.map .node) ++ [Part.text ")"] := by
    by_cases hafter : after = []
    · subst hafter
      rfl
    · rw [if_neg hafter, if_neg hafter, List.map_cons,
        commaSeparated_cons (by simpa using hafter)]
      rfl
  by_cases hbefore : before = []
  · subst hbefore
    rw [List.nil_append, List.cons_append, List.cons_append, htail]
    simp [parts, front, left, right, rear, words_of_ne hopening]
  · rw [List.map_append, commaSeparated_append (by simpa using hbefore) (by simp), List.cons_append,
      List.cons_append, List.append_assoc, List.cons_append, htail]
    simp [parts, front, left, right, rear, hbefore, words_of_ne (show "," ≠ "" by decide)]

theorem memberAccess_ne (property : String) (optional : Bool) :
    Build.memberAccess property optional ≠ "" := by
  intro h
  obtain ⟨c, cs, htext, -⟩ := begins_memberAccess property optional []
  rw [h] at htext
  cases htext

theorem node?_make (s : BuilderState σ) (flags : Flags) (kind : Kind) :
    (s.make flags kind).2.graph.node? (s.make flags kind).1 = some ⟨s.scope, flags, kind⟩ :=
  (s.graph.node?_push _ _).trans (if_pos rfl)

/-- The node applies the operator to `e`: it is a template or a call of these parts. -/
def IsApplied (x : Operand) (e : NodeId) (n : Node) : Prop :=
  n.template = x.parts e ∧ ((∃ parts, n.kind = .template parts) ∨ ∃ f es, n.kind = .call f es)

theorem exists_draft (x : Operand) (e : NodeId) : ∃ draft,
    (x.apply e : Build σ NodeId) = Build.create draft ∧ ∀ s : BuilderState σ, ∃ n,
      (s.create draft).2.graph.node? (s.create draft).1 = some n ∧ x.IsApplied e n := by
  cases x with
  | member property optional =>
    refine ⟨.template [.node e, .text (Build.memberAccess property optional)] false false optional,
      ?_, fun s => ⟨_, node?_make s _ _, ?_, .inl ⟨_, rfl⟩⟩⟩
    · cases optional <;> rfl
    · simp [parts, front, left, right, rear, words, memberAccess_ne, Node.template]
  | indexed key => exact ⟨_, rfl, fun s => ⟨_, node?_make s _ _, rfl, .inl ⟨_, rfl⟩⟩⟩
  | element o => exact ⟨_, rfl, fun s => ⟨_, node?_make s _ _, rfl, .inl ⟨_, rfl⟩⟩⟩
  | callee args style =>
    refine ⟨.call e args style, ?_, fun s => ⟨_, node?_make s _ _, ?_, .inr ⟨_, _, rfl⟩⟩⟩
    · cases style <;> rfl
    · cases style <;> rfl
  | argument f before after style =>
    refine ⟨.call f (before ++ e :: after) style, ?_, fun s => ⟨_, node?_make s _ _, ?_,
      .inr ⟨_, _, rfl⟩⟩⟩
    · cases style <;> rfl
    · rw [parts_argument]
      cases style <;> rfl
  | awaited => exact ⟨_, rfl, fun s => ⟨_, node?_make s _ _, rfl, .inl ⟨_, rfl⟩⟩⟩
  | target value => exact ⟨_, rfl, fun s => ⟨_, node?_make s _ _, rfl, .inl ⟨_, rfl⟩⟩⟩
  | assigned target => exact ⟨_, rfl, fun s => ⟨_, node?_make s _ _, rfl, .inl ⟨_, rfl⟩⟩⟩

end Operand

end ScriptGraph
