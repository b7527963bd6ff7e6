import ScriptGraph.Ecma.Character
import ScriptGraph.Proofs.Emission.Placements
import ScriptGraph.Proofs.Text.Printed

/-!
# The space that a text begins with

* `Ecma.margin` : the space at the start of a text;
* `Fragment.margin` : the space that the texts of nodes bring to the start of a fragment;
* `Layout.closed_margin` : what is written begins with this space, and with no other;
* `Layout.closed_given` : each character of it is in the space that the text of some node begins with.
-/

namespace ScriptGraph

open Ecma

/-- The space that a text begins with. -/
def Ecma.margin (cs : List Char) : List Char := cs.takeWhile isSpace

/-- The text begins with something else than space. -/
def Ecma.Starts (cs : List Char) : Prop := ∃ c rest, cs = c :: rest ∧ isSpace c = false

instance (cs : List Char) : Decidable (Starts cs) :=
  decidable_of_iff ((cs.head?.any fun c => !isSpace c) = true) (by cases cs <;> simp [Starts])

theorem Ecma.margin_append (cs ds : List Char) :
    margin (cs ++ ds) = margin cs ++ if cs.all isSpace then margin ds else [] := by
  induction cs with
  | nil => rfl
  | cons c cs ih =>
    unfold margin at ih ⊢
    cases hc : isSpace c with
    | true => simp [hc, ih]
    | false => simp [hc]

/-- A visible character of ASCII is no space. -/
theorem Ecma.isSpace_of_ascii {c : Char} (h : 0x20 < c.toNat ∧ c.toNat < 0x80) :
    isSpace c = false := by
  simp only [isSpace, isBlank, Bool.or_eq_false_iff, Bool.and_eq_false_iff, decide_eq_false_iff_not,
    beq_eq_false_iff_ne, bne_eq_false_iff_eq]
  omega

/-- The characters that names have are visible characters of ASCII. -/
theorem toNat_of_isIdentifierPart {c : Char} (h : isIdentifierPart c = true) :
    0x20 < c.toNat ∧ c.toNat < 0x80 := by
  simp only [isIdentifierPart, isIdentifierStart, Char.isAlpha, Char.isUpper, Char.isLower,
    Bool.or_eq_true, Bool.and_eq_true, decide_eq_true_eq, beq_iff_eq, Char.isDigit_iff_toNat] at h
  rcases h with (((⟨hlow, hhigh⟩ | ⟨hlow, hhigh⟩) | rfl) | rfl) | ⟨hlow, hhigh⟩
  · exact ⟨Nat.lt_of_lt_of_le (by decide) hlow, Nat.lt_of_le_of_lt hhigh (by decide)⟩
  · exact ⟨Nat.lt_of_lt_of_le (by decide) hlow, Nat.lt_of_le_of_lt hhigh (by decide)⟩
  · decide
  · decide
  · exact ⟨Nat.lt_of_lt_of_le (by decide) hlow, Nat.lt_of_le_of_lt hhigh (by decide)⟩

theorem isSpace_of_isIdentifierPart {c : Char} (h : isIdentifierPart c = true) :
    isSpace c = false := isSpace_of_ascii (toNat_of_isIdentifierPart h)

theorem Ecma.starts_of_isIdentifier {s : String} (h : isIdentifier s = true) : Starts s.toList := by
  have hne : s.toList ≠ [] := by
    intro hnil
    simp [isIdentifier, hnil] at h
  obtain ⟨c, rest, heq⟩ := List.exists_cons_of_ne_nil hne
  exact ⟨c, rest, heq,
    isSpace_of_isIdentifierPart (isIdentifierPart_of_mem h c (heq ▸ List.mem_cons_self))⟩

namespace Ecma.Starts

variable {cs : List Char}

theorem append (h : Starts cs) (ds : List Char) : Starts (cs ++ ds) := by
  obtain ⟨c, rest, rfl, hc⟩ := h
  exact ⟨c, rest ++ ds, rfl, hc⟩

theorem margin_eq (h : Starts cs) : margin cs = [] := by
  obtain ⟨c, rest, rfl, hc⟩ := h
  exact List.takeWhile_cons_of_neg (by simp [hc])

theorem all_eq (h : Starts cs) : cs.all isSpace = false := by
  obtain ⟨c, rest, rfl, hc⟩ := h
  simp [hc]

theorem append_string {s : String} (h : Starts s.toList) (t : String) : Starts (s ++ t).toList := by
  rw [String.toList_append]
  exact h.append _

end Ecma.Starts

mutual

/-- Whether a fragment is nothing but space from the texts of nodes. -/
def Fragment.blank : Fragment → Bool
  | .text code => code.toList.all isSpace
  | .expansion _ enclosed pieces => !enclosed && blankAll pieces
  | _ => false

def blankAll : List Fragment → Bool
  | [] => true
  | f :: rest => f.blank && blankAll rest

end

mutual

/-- The space that the texts of nodes bring to the start of a fragment. -/
def Fragment.margin : Fragment → List Char
  | .text code => Ecma.margin code.toList
  | .expansion _ enclosed pieces => if enclosed then [] else marginOfAll pieces
  | _ => []

def marginOfAll : List Fragment → List Char
  | [] => []
  | f :: rest => f.margin ++ if f.blank then marginOfAll rest else []

end

/-- What is written for a fragment begins with its margin, and with no other space. -/
structure Fragment.BeginsSo (f : Fragment) (links : Links) : Prop where
  margin : Ecma.margin (f.render links) = f.margin
  blank : (f.render links).all isSpace = f.blank

variable {links : Links}

theorem Fragment.BeginsSo.of_starts {f : Fragment} (h : Starts (f.render links))
    (hmargin : f.margin = []) (hblank : f.blank = false) : f.BeginsSo links :=
  ⟨h.margin_eq.trans hmargin.symm, h.all_eq.trans hblank.symm⟩

theorem beginsSo_text (code : String) : (Fragment.text code).BeginsSo links := ⟨rfl, rfl⟩

theorem beginsSo_all {fs : List Fragment} (h : ∀ f ∈ fs, f.BeginsSo links) :
    Ecma.margin (renderAll links fs) = marginOfAll fs ∧
      (renderAll links fs).all isSpace = blankAll fs := by
  induction fs with
  | nil => exact ⟨rfl, rfl⟩
  | cons f fs ih =>
    obtain ⟨hf, hfs⟩ := List.forall_mem_cons.1 h
    obtain ⟨hmargin, hblank⟩ := ih hfs
    rw [renderAll, margin_append, hf.margin, hf.blank, hmargin, List.all_append, hf.blank, hblank]
    exact ⟨rfl, rfl⟩

theorem beginsSo_expansion {pieces : List Fragment} (h : ∀ f ∈ pieces, f.BeginsSo links)
    (e : NodeId) (enclosed : Bool) : (Fragment.expansion e enclosed pieces).BeginsSo links := by
  cases enclosed with
  | true => exact .of_starts ⟨'(', _, rfl, by decide⟩ rfl rfl
  | false => exact ⟨(beginsSo_all h).1, (beginsSo_all h).2⟩

theorem mem_marginOfAll {fs : List Fragment} {c : Char} (h : c ∈ marginOfAll fs) :
    ∃ f ∈ fs, c ∈ f.margin := by
  induction fs with
  | nil => cases h
  | cons f fs ih =>
    rw [marginOfAll, List.mem_append] at h
    rcases h with h | h
    · exact ⟨f, List.mem_cons_self, h⟩
    · split at h
      · obtain ⟨f', hf', hc⟩ := ih h
        exact ⟨f', List.mem_cons_of_mem _ hf', hc⟩
      · cases h

/-- The text of some node has this part. -/
def Graph.HasText (g : Graph) (t : String) : Prop :=
  ∃ e n, g.node? e = some n ∧ .text t ∈ n.template

namespace Layout

variable {l : Layout}

/-- No name begins with space. -/
structure Firm (l : Layout) : Prop where
  names : ∀ e name, l.nameOf e = .ok name → Starts name.toList
  placeholderArray : Starts l.placeholderArray.toList

theorem of_use {P : NodeId → Position → Fragment → Prop} {Q : Fragment → Prop} {e : NodeId}
    {pos : Position} {f : Fragment} (h : l.UseAs P e pos f)
    (hname : ∀ name, l.nameOf e = .ok name → Q (.name e name (l.analysis.isAccessor e)))
    (hP : P e pos f → Q f) : Q f := by
  unfold UseAs at h
  split at h
  · obtain ⟨name, hn, rfl⟩ := h
    exact hname name hn
  · exact hP h

/-- What is written for a part of a node is a text, or a name, or has the property. -/
theorem forall_pieces {P : NodeId → Position → Fragment → Prop} {Q : Fragment → Prop}
    {ps : List Part} {pos : Position} {pieces : List Fragment}
    (h : List.Forall₂ (l.PartAs P) (positioned pos ps) pieces)
    (htext : ∀ t, .text t ∈ ps → Q (.text t))
    (hname : ∀ e name, l.nameOf e = .ok name → Q (.name e name (l.analysis.isAccessor e)))
    (hP : ∀ e pos f, P e pos f → Q f) : ∀ f ∈ pieces, Q f := by
  have hparts : ∀ p ∈ positioned pos ps, p.1 ∈ ps := fun p hp =>
    map_fst_positioned pos ps ▸ List.mem_map_of_mem hp
  generalize positioned pos ps = qs at h hparts
  induction h with
  | nil => exact nofun
  | @cons p f qs fs hp _ ih =>
    obtain ⟨hmem, hrest⟩ := List.forall_mem_cons.1 hparts
    refine List.forall_mem_cons.2 ⟨?_, ih hrest⟩
    obtain ⟨part, pos⟩ := p
    cases part with
    | text t =>
      cases hp
      exact htext t hmem
    | node e => exact of_use hp (hname e) (hP e pos f)

theorem beginsSo_name (hl : l.Firm) {e : NodeId} {name : String} (hn : l.nameOf e = .ok name)
    (accessor : Bool) (links : Links) : (Fragment.name e name accessor).BeginsSo links :=
  .of_starts ((hl.names e name hn).append _) rfl rfl

theorem starts_natText (i : Nat) : Starts (natText i) := by
  obtain ⟨c, rest, heq⟩ := List.exists_cons_of_ne_nil (natText_ne_nil i)
  have hmem : c ∈ natText i := heq ▸ List.mem_cons_self
  have hdigit : c.isDigit = true := Nat.isDigit_of_mem_toDigits (by decide) (by decide) hmem
  exact ⟨c, rest, heq, isSpace_of_isIdentifierPart (by rw [isIdentifierPart, hdigit, Bool.or_true])⟩

/-- What is written after the parts of a node brings no space. -/
theorem starts_shape (hl : l.Firm) (e : NodeId) (n : Node) {f : Fragment}
    (hf : f ∈ (l.shape e n).2) : f.margin = [] ∧ ∀ links, f.BeginsSo links := by
  have htext : ∀ code : String, Starts code.toList →
      (Fragment.text code).margin = [] ∧ ∀ links, (Fragment.text code).BeginsSo links :=
    fun code h => ⟨h.margin_eq, fun _ => beginsSo_text code⟩
  have hopen : Starts "[".toList := by decide
  have hclose : Starts "]".toList := by decide
  obtain ⟨scope, flags, kind⟩ := n
  cases kind with
  | moduleRef store address =>
    simp only [shape, List.mem_cons, List.not_mem_nil, or_false] at hf
    rcases hf with rfl | rfl
    · exact ⟨rfl, fun links => .of_starts (starts_natText _) rfl rfl⟩
    · exact htext _ hclose
  | resourceRef store key value =>
    simp only [shape, List.mem_cons, List.not_mem_nil, or_false] at hf
    rcases hf with rfl | rfl
    · exact ⟨rfl, fun links => .of_starts (starts_natText _) rfl rfl⟩
    · cases hmode : l.resourceMode
      · exact htext _ hclose
      · exact htext _ (show Starts ")".toList by decide)
  | placeholder =>
    simp only [shape, List.mem_cons, List.not_mem_nil, or_false] at hf
    rcases hf with rfl | rfl | rfl | rfl
    · exact htext _ hl.placeholderArray
    · exact htext _ hopen
    · exact ⟨rfl, fun links => .of_starts (starts_natText _) rfl rfl⟩
    · exact htext _ hclose
  | moduleStore | resourceStore =>
    simp only [shape, List.mem_cons, List.not_mem_nil, or_false] at hf
    rw [hf]
    exact ⟨rfl, fun links => .of_starts ⟨'\x00', _, rfl, by decide⟩ rfl rfl⟩
  | _ => cases hf

/-- The texts that are written with the parts of a node are parts of it, or bring no space. -/
theorem hasText_of_shape {e : NodeId} {n : Node} {t : String} (ht : .text t ∈ (l.shape e n).1) :
    .text t ∈ n.template ∨ Ecma.margin t.toList = [] := by
  obtain ⟨scope, flags, kind⟩ := n
  cases kind with
  | moduleRef store address =>
    simp only [shape, List.mem_cons, List.not_mem_nil, or_false, reduceCtorEq, false_or,
      Part.text.injEq] at ht
    exact .inr (ht ▸ by decide)
  | resourceRef store key value =>
    simp only [shape, List.mem_cons, List.not_mem_nil, or_false, reduceCtorEq, false_or,
      Part.text.injEq] at ht
    cases hmode : l.resourceMode <;> rw [hmode] at ht <;> exact .inr (ht ▸ by decide)
  | placeholder | moduleStore | resourceStore => cases ht
  | _ => exact .inl ht

/-- **What is written for a node begins with the space that texts of nodes bring**, and with no other
space. -/
theorem closed_margin (hl : l.Firm) : l.Closed fun _ _ f => ∀ links, f.BeginsSo links where
  parameter _ _ _ _ hn := beginsSo_name hl hn false
  function f pos params body b _ _ _ _ links := by
    refine .of_starts ?_ rfl rfl
    rw [Fragment.render_lambda]
    refine .append (.append ?_ _) _
    cases decide (pos = .operand) <;> cases l.analysis.suspends (some f) <;>
      exact ⟨_, _, rfl, by decide⟩
  inline e n pos pieces hn _ _ _ hpieces links := by
    refine beginsSo_expansion (List.forall_mem_append.2 ⟨?_, fun f hf => ?_⟩) e _
    · exact forall_pieces hpieces (fun t _ => beginsSo_text t)
        (fun e name hn => beginsSo_name hl hn _ links) fun _ _ _ h => h links
    · exact (starts_shape hl e n hf).2 links

/-- Each character of the margin is in the space that the text of some node begins with. -/
def Given (l : Layout) (f : Fragment) : Prop :=
  ∀ c ∈ f.margin, ∃ t, l.graph.HasText t ∧ c ∈ Ecma.margin t.toList

/-- **The space that a text begins with is given.** -/
theorem closed_given (hl : l.Firm) : l.Closed fun _ _ f => l.Given f where
  parameter _ _ _ _ _ := nofun
  function _ _ _ _ _ _ _ _ _ := nofun
  inline e n pos pieces hn _ _ _ hpieces := by
    have hgiven : ∀ f ∈ pieces ++ (l.shape e n).2, l.Given f := by
      refine List.forall_mem_append.2 ⟨?_, fun f hf => ?_⟩
      · refine forall_pieces hpieces (fun t ht c hc => ?_) (fun _ _ _ => nofun) fun _ _ _ h => h
        rcases hasText_of_shape ht with hmem | hnil
        · exact ⟨t, ⟨e, n, hn, hmem⟩, hc⟩
        · exact absurd (hnil ▸ hc : c ∈ []) List.not_mem_nil
      · rw [Given, (starts_shape hl e n hf).1]
        exact nofun
    intro c hc
    unfold Fragment.margin at hc
    split at hc
    · cases hc
    · obtain ⟨f, hf, hc⟩ := mem_marginOfAll hc
      exact hgiven f hf c hc

end Layout

end ScriptGraph
