import ScriptGraph.Proofs.Emission.Writing

/-!
# Induction over what is written

What is written for a node is made of what is written for the nodes within its text. A property of
nodes and what is written for them passes from these to the node.

* `Layout.UseAs`, `Layout.PartAs`, `Layout.DeclarationAs`, `Layout.BlockAs` : uses, parts,
  declarations and bodies, where what is written out has a property;
* `Layout.Closed` : the property passes to the node;
* `Layout.Closed.of_expansion`, `Layout.Closed.of_block`, `Layout.Closed.of_output` : so it holds of
  everything that is written.
-/

namespace ScriptGraph.Layout

variable (l : Layout) (P : NodeId → Position → Fragment → Prop)

/-- A declared node is used by its name; any other one is written out. -/
def UseAs (e : NodeId) (pos : Position) (f : Fragment) : Prop :=
  if l.analysis.isDeclared e then
    ∃ name, l.nameOf e = .ok name ∧ f = .name e name (l.analysis.isAccessor e)
  else P e pos f

def PartAs (p : Part × Position) (f : Fragment) : Prop :=
  match p.1 with
  | .text t => f = .text t
  | .node e => l.UseAs P e p.2 f

def DeclarationAs (e : NodeId) (d : Declaration) : Prop :=
  ∃ name init, l.nameOf e = .ok name ∧ P e .standalone init ∧
    d = .mk e name (l.analysis.isAccessor e) init

/-- The result or the statements of a body. -/
def BodyAs (ds : List Declaration) (b : Block) : Body → Prop
  | .value root => ∃ result, l.UseAs P root .standalone result ∧ b = .value ds result
  | .statements roots =>
    ∃ list, List.Forall₂ (l.PartAs P) (statementParts roots) list ∧ b = .statements ds list

def BlockAs (scope : Scope) (body : Body) (b : Block) : Prop :=
  ∃ ds, List.Forall₂ (l.DeclarationAs P) (l.analysis.declarationsOf scope) ds ∧
    l.BodyAs P ds b body

/-- A whole script. -/
def OutputAs (mode : CompileMode) (body : Body) (o : Output) : Prop :=
  match mode with
  | .statements => ∃ ds list, l.BlockAs P none (.statements body.roots) (.statements ds list) ∧
    o = .script ds list
  | .evaluation => ∃ root b, body = .value root ∧ l.BlockAs P none body b ∧ o = .evaluation b

/-- A property of nodes and what is written for them, which passes from the nodes within a text to
the node whose text it is. -/
structure Closed : Prop where
  parameter : ∀ e pos name, l.graph.isParameter e = true → l.nameOf e = .ok name →
    P e pos (.name e name false)
  function : ∀ f pos params body b, l.graph.isFunction f = true → l.paramNames f = .ok params →
    l.graph.body? f = some body → l.BlockAs P (some f) body b →
    P f pos (.lambda f (pos = .operand) (l.analysis.suspends (some f)) params b)
  inline : ∀ e n pos pieces, l.graph.node? e = some n → l.graph.isFunction e = false →
    l.graph.isParameter e = false → l.graph.isUnfilledSlot e = false →
    List.Forall₂ (l.PartAs P) (positioned pos (l.shape e n).1) pieces →
    P e pos (.expansion e (encloses n pos) (pieces ++ (l.shape e n).2))

variable {l P} {within : List NodeId} {e : NodeId} {pos : Position}

section Imp

variable {Q : NodeId → Position → Fragment → Prop} (hPQ : ∀ e pos f, P e pos f → Q e pos f)

include hPQ

theorem UseAs.imp {f : Fragment} (h : l.UseAs P e pos f) : l.UseAs Q e pos f := by
  unfold UseAs at h ⊢
  cases hd : l.analysis.isDeclared e with
  | true => rwa [hd] at h
  | false =>
    rw [hd] at h
    exact hPQ e pos f h

theorem PartAs.imp {p : Part × Position} {f : Fragment} (h : l.PartAs P p f) : l.PartAs Q p f := by
  obtain ⟨part, pos⟩ := p
  cases part with
  | text t => exact h
  | node e => exact UseAs.imp hPQ h

theorem DeclarationAs.imp {d : Declaration} (h : l.DeclarationAs P e d) :
    l.DeclarationAs Q e d := by
  obtain ⟨name, init, hn, hi, hd⟩ := h
  exact ⟨name, init, hn, hPQ e .standalone init hi, hd⟩

theorem BlockAs.imp {scope : Scope} {body : Body} {b : Block} (h : l.BlockAs P scope body b) :
    l.BlockAs Q scope body b := by
  obtain ⟨ds, hds, hbody⟩ := h
  refine ⟨ds, hds.imp fun _ _ hd => hd.imp hPQ, ?_⟩
  cases body with
  | value root =>
    obtain ⟨result, hr, hb⟩ := hbody
    exact ⟨result, hr.imp hPQ, hb⟩
  | statements roots =>
    obtain ⟨list, hl, hb⟩ := hbody
    exact ⟨list, hl.imp fun _ _ hp => hp.imp hPQ, hb⟩

theorem OutputAs.imp {mode : CompileMode} {body : Body} {o : Output}
    (h : l.OutputAs P mode body o) : l.OutputAs Q mode body o := by
  cases mode with
  | statements =>
    obtain ⟨ds, list, hb, ho⟩ := h
    exact ⟨ds, list, hb.imp hPQ, ho⟩
  | evaluation =>
    obtain ⟨root, b, hbody, hb, ho⟩ := h
    exact ⟨root, b, hbody, hb.imp hPQ, ho⟩

end Imp

section Lists

variable (hexp : ∀ e pos frag, l.expansion within e pos = .ok frag → P e pos frag)

include hexp

theorem useAs_of {frag : Fragment} (h : l.use within e pos = .ok frag) : l.UseAs P e pos frag := by
  unfold UseAs
  cases hd : l.analysis.isDeclared e with
  | true =>
    rw [use_declared hd, map_eq_ok] at h
    obtain ⟨name, hn, rfl⟩ := h
    exact ⟨name, hn, rfl⟩
  | false =>
    rw [use_undeclared hd] at h
    exact hexp e pos frag h

theorem partAs_of {p : Part × Position} {frag : Fragment} (h : l.WritesPart within p frag) :
    l.PartAs P p frag := by
  obtain ⟨part, pos⟩ := p
  cases part with
  | text t => exact h
  | node e => exact useAs_of hexp h

theorem partsAs_of {ps : List (Part × Position)} {fs : List Fragment}
    (h : l.parts within ps = .ok fs) : List.Forall₂ (l.PartAs P) ps fs :=
  (parts_eq_ok.1 h).imp fun _ _ hp => partAs_of hexp hp

theorem declarationsAs_of {es : List NodeId} {ds : List Declaration}
    (h : l.declarations within es = .ok ds) : List.Forall₂ (l.DeclarationAs P) es ds :=
  (declarations_eq_ok.1 h).imp fun _ _ ⟨name, init, hn, hi, hd⟩ =>
    ⟨name, init, hn, hexp _ _ _ hi, hd⟩

theorem blockAs_of {scope : Scope} {body : Body} {b : Block}
    (h : l.block within scope body = .ok b) : l.BlockAs P scope body b := by
  obtain ⟨ds, hds, hbody⟩ := block_eq_ok.1 h
  refine ⟨ds, declarationsAs_of hexp hds, ?_⟩
  cases body with
  | value root =>
    obtain ⟨result, hr, rfl⟩ := hbody
    exact ⟨result, useAs_of hexp hr, rfl⟩
  | statements roots =>
    obtain ⟨list, hl, rfl⟩ := hbody
    exact ⟨list, partsAs_of hexp hl, rfl⟩

end Lists

namespace Closed

variable (hP : l.Closed P)

include hP

theorem of_expansion {frag : Fragment} (h : l.expansion within e pos = .ok frag) :
    P e pos frag := by
  induction hlen : within.length using Nat.strongRecOn generalizing within e pos frag with
  | _ n ih =>
    obtain ⟨he, hin, hs⟩ := expansion_ok_built h
    have hexp : ∀ x p f, l.expansion (within.erase e) x p = .ok f → P x p f := fun x p f hx =>
      ih _ (hlen ▸ length_erase_lt he) hx rfl
    cases hf : l.graph.isFunction e with
    | true =>
      rw [expansion_function he hf] at h
      simp only [bind_eq_ok, pure, Except.pure, Except.ok.injEq] at h
      obtain ⟨params, hparams, body, hbody, b, hb, rfl⟩ := h
      exact hP.function e pos params body b hf hparams (bodyOf_eq_ok.1 hbody) (blockAs_of hexp hb)
    | false =>
      cases hp : l.graph.isParameter e with
      | true =>
        rw [expansion_parameter he hp, map_eq_ok] at h
        obtain ⟨name, hn, rfl⟩ := h
        exact hP.parameter e pos name hp hn
      | false =>
        obtain ⟨m, hm⟩ := Graph.exists_node hin
        rw [expansion_inline he hm hf hp hs, map_eq_ok] at h
        obtain ⟨pieces, hpieces, rfl⟩ := h
        exact hP.inline e m pos pieces hm hf hp hs (partsAs_of hexp hpieces)

theorem of_block {scope : Scope} {body : Body} {b : Block}
    (h : l.block within scope body = .ok b) : l.BlockAs P scope body b :=
  blockAs_of (fun _ _ _ => hP.of_expansion) h

theorem of_output {mode : CompileMode} {body : Body} {o : Output} (h : l.output mode body = .ok o) :
    l.OutputAs P mode body o := by
  cases mode with
  | statements =>
    have h' : l.script body.roots = .ok o := h
    rw [script_eq_ok] at h'
    obtain ⟨ds, hds, list, hl, rfl⟩ := h'
    exact ⟨ds, list, ⟨ds, declarationsAs_of (fun _ _ _ => hP.of_expansion) hds, list,
      partsAs_of (fun _ _ _ => hP.of_expansion) hl, rfl⟩, rfl⟩
  | evaluation =>
    cases body with
    | value root =>
      have h' : l.evaluation root = .ok o := h
      rw [evaluation_eq_ok] at h'
      obtain ⟨b, hb, rfl⟩ := h'
      exact ⟨root, b, rfl, hP.of_block hb, rfl⟩
    | statements roots => cases h

end Closed

end ScriptGraph.Layout
