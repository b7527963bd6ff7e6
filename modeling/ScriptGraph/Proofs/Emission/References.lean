import ScriptGraph.Proofs.Analysis.Decisions
import ScriptGraph.Proofs.Builder.Slots
import ScriptGraph.Proofs.Emission.WrittenOut

/-!
# Member accesses where a place is meant

The target of an assignment and the callee of a call are more than values: the one is a place to
write to, the other comes with a receiver. A member access is both only where it is written out.

* `Graph.Selects` : a node is a member access, as the operators make it;
* `Graph.reference?` : the node that an assignment writes to, or that a call calls;
* `Graph.LandsOnce` : a node's text lands once, in its own scope;
* `Fragment.ReadsMember` : a fragment reads as the member access of an object;
* `Layout.keepsPlace_output` : the text of an assignment or a call begins with the member access, or
  with its name if it is declared.
-/

namespace ScriptGraph

/-! ## Accesses and places -/

/-- What a member access says after its object. -/
inductive Member
  | property (name : String) (optional : Bool)
  | computed (key : NodeId)

def Member.parts : Member → List Part
  | .property name optional => [.text (Build.memberAccess name optional)]
  | .computed key => [.text "[", .node key, .text "]"]

def Member.isOptional : Member → Bool
  | .property _ optional => optional
  | .computed _ => false

/-- What an assignment writes to, or a call calls. -/
def Kind.reference? : Kind → Option NodeId
  | .call callee _ => some callee
  | .template [.node target, .text "=", .node _] => some target
  | _ => none

theorem Kind.reference?_eq_some {k : Kind} {x : NodeId} : k.reference? = some x ↔
    (∃ args, k = .call x args) ∨ ∃ value, k = .template [.node x, .text "=", .node value] := by
  unfold Kind.reference?
  split <;> simp_all

namespace Graph

/-- What the assignment `p` writes to, or the call `p` calls. -/
def reference? (g : Graph) (p : NodeId) : Option NodeId := (g.kindOf? p).bind Kind.reference?

/-- `m` is the access to a member of `object`, with the flags that the operators give it. -/
def Selects (g : Graph) (m object : NodeId) (member : Member) : Prop :=
  ∃ n, g.node? m = some n ∧ n.kind = .template (.node object :: member.parts) ∧
    ∃ readsResource, n.flags = { optional := member.isOptional, readsResource }

/-- A node that lands so often does so once, in its own scope. -/
def LandsOnce (g : Graph) (e : NodeId) (landings : Scope → Nat) : Prop :=
  ∑ t ∈ g.scopes, landings t ≤ 1 ∧ ∀ t, 0 < landings t → t = g.scopeOf e

variable {g g' : Graph} {m object x p : NodeId} {member : Member}

theorem Selects.declares_iff (h : g.Selects m object member) {landings : Scope → Nat} :
    g.Declares m landings ↔ ¬g.LandsOnce m landings := by
  obtain ⟨n, hn, -, r, hflags⟩ := h
  rw [Declares, flagsOf_of_node hn, hflags, LandsOnce]
  grind

theorem Selects.kindOf? (h : g.Selects m object member) :
    g.kindOf? m = some (.template (.node object :: member.parts)) := by
  obtain ⟨n, hn, hk, -⟩ := h
  rw [kindOf?_of_node hn, hk]

theorem Selects.not_isSlot (h : g.Selects m object member) : ¬g.IsSlot m := by
  rintro ⟨target, hk⟩
  rw [h.kindOf?] at hk
  cases hk

end Graph

/-! ## What is written there -/

namespace Fragment

/-- `f` shows `f'`: it is `f'`, or what is written for a slot that shows `f'`. -/
inductive Shows (g : Graph) : Fragment → Fragment → Prop
  | refl (f : Fragment) : Shows g f f
  | slot {e : NodeId} {f f' : Fragment} (he : g.IsSlot e) (h : Shows g f f') :
    Shows g (.expansion e false [f]) f'

/-- A part of a node's text, by the node it is written for. -/
def Spells (f : Fragment) : Part → Prop
  | .text t => f = .text t
  | .node e => f.node? = some e

/-- The fragment reads as the object of `m` followed by the member. -/
def ReadsMember (g : Graph) (m object : NodeId) (member : Member) (f : Fragment) : Prop :=
  ∃ pieces, f.Shows g (.expansion m false pieces) ∧
    List.Forall₂ (fun q f => f.Spells q) (.node object :: member.parts) pieces

variable {g : Graph} {f f' : Fragment} {m object : NodeId} {member : Member}

/-- A fragment has the text of what it shows. -/
theorem Shows.render (h : f.Shows g f') (links : Links) : f.render links = f'.render links := by
  induction h with
  | refl => rfl
  | slot _ _ ih =>
    rw [← ih]
    exact List.append_nil _

/-- The text of a member access is that of its object and what it says after it. -/
theorem ReadsMember.render (h : f.ReadsMember g m object member) :
    ∃ (start : Fragment) (after : List Fragment), start.node? = some object ∧
      List.Forall₂ (fun q f => f.Spells q) member.parts after ∧
      ∀ links, f.render links = start.render links ++ renderAll links after := by
  obtain ⟨pieces, hshows, hpieces⟩ := h
  obtain ⟨start, after, hstart, hafter, rfl⟩ := List.forall₂_cons_left_iff.1 hpieces
  exact ⟨start, after, hstart, hafter, fun links => hshows.render links⟩

/-- No member access reads as a name. -/
theorem Shows.not_readsMember {name : String} {accessor : Bool}
    (h : f.Shows g (.name m name accessor)) (hm : ¬g.IsSlot m) :
    ¬f.ReadsMember g m object member := by
  rintro ⟨pieces, hmember, -⟩
  generalize hf' : Fragment.name m name accessor = f' at h
  induction h with
  | refl =>
    subst hf'
    cases hmember
  | slot he _ ih =>
    cases hmember with
    | refl => exact hm he
    | slot _ hmember => exact ih hmember hf'

end Fragment

namespace Layout

variable {l : Layout} {e m object x : NodeId} {member : Member} {pos : Position}

/-- A use of what stands for a member access: its name if it is declared, and itself if not. -/
structure ReadsAs (l : Layout) (m object : NodeId) (member : Member) (f : Fragment) : Prop where
  named : l.analysis.isDeclared m = true →
    ∃ name, l.nameOf m = .ok name ∧ f.Shows l.graph (.name m name (l.analysis.isAccessor m))
  inlined : l.analysis.isDeclared m = false → f.ReadsMember l.graph m object member

/-- What is written for `e` reads as the member accesses that `e` stands for. -/
def ShowsMembers (l : Layout) (e : NodeId) (f : Fragment) : Prop :=
  ∀ m object member, l.graph.StandsFor e m → l.graph.Selects m object member →
    (e = m → f.ReadsMember l.graph m object member) ∧ (e ≠ m → l.ReadsAs m object member f)

/-- What is written for an assignment or a call begins with what it writes to or calls. -/
def KeepsPlace (l : Layout) : Fragment → Prop
  | .expansion p _ pieces => ∀ x, l.graph.reference? p = some x →
    ∃ first rest, pieces = first :: rest ∧ ∀ m object member, l.graph.StandsFor x m →
      l.graph.Selects m object member → l.ReadsAs m object member first
  | .lambda f _ _ _ _ => l.graph.isFunction f = true
  | _ => False

def KeepsPlaces (l : Layout) (e : NodeId) (_ : Position) (f : Fragment) : Prop :=
  f.node? = some e ∧ l.ShowsMembers e f ∧ ∀ w ∈ f.written, l.KeepsPlace w

theorem ReadsAs.slot {f : Fragment} (h : l.ReadsAs m object member f) (he : l.graph.IsSlot e) :
    l.ReadsAs m object member (.expansion e false [f]) where
  named hd := by
    obtain ⟨name, hname, hshows⟩ := h.named hd
    exact ⟨name, hname, .slot he hshows⟩
  inlined hd := by
    obtain ⟨pieces, hshows, hpieces⟩ := h.inlined hd
    exact ⟨pieces, .slot he hshows, hpieces⟩

/-! ## The parts of accesses, slots and places -/

theorem written_of_shape (l : Layout) (e : NodeId) (n : Node) :
    writtenInAll (l.shape e n).2 = [] := by
  unfold shape
  split <;> rfl

theorem selects_shape {n : Node} (h : l.graph.Selects m object member)
    (hn : l.graph.node? m = some n) (pos : Position) :
    l.shape m n = (.node object :: member.parts, []) ∧ encloses n pos = false := by
  obtain ⟨n', hn', hk, r, hflags⟩ := h
  obtain rfl : n' = n := Option.some.inj (hn'.symm.trans hn)
  obtain ⟨scope, flags, kind⟩ := n'
  cases hk
  cases hflags
  exact ⟨rfl, rfl⟩

theorem slot_shape {n : Node} (hn : l.graph.node? e = some n)
    (hx : l.graph.kindOf? e = some (.slot (some x))) (pos : Position) :
    l.shape e n = ([.node x], []) ∧ encloses n pos = false := by
  rw [Graph.kindOf?_of_node hn] at hx
  obtain ⟨scope, flags, kind⟩ := n
  cases hx
  exact ⟨rfl, rfl⟩

theorem reference_shape {n : Node} {p : NodeId} (hn : l.graph.node? p = some n)
    (hx : l.graph.reference? p = some x) : ∃ rest, l.shape p n = (.node x :: rest, []) := by
  rw [Graph.reference?, Graph.kindOf?_of_node hn, Option.bind_some, Kind.reference?_eq_some] at hx
  obtain ⟨scope, flags, kind⟩ := n
  rcases hx with ⟨args, rfl⟩ | ⟨value, rfl⟩
  · exact ⟨_, rfl⟩
  · exact ⟨_, rfl⟩

theorem spells_of_parts {P : NodeId → Position → Fragment → Prop}
    (hP : ∀ e pos f, P e pos f → f.node? = some e) {ps : List Part} {fs : List Fragment}
    (h : List.Forall₂ (l.PartAs P) (positioned pos ps) fs) :
    List.Forall₂ (fun q f => Fragment.Spells f q) ps fs := by
  rw [← map_fst_positioned pos ps, List.forall₂_map_left_iff]
  refine h.imp fun q f hq => ?_
  obtain ⟨part, pos⟩ := q
  cases part with
  | text t => exact hq
  | node e =>
    have huse : l.UseAs P e pos f := hq
    unfold UseAs at huse
    split at huse
    · obtain ⟨name, _, rfl⟩ := huse
      rfl
    · exact hP e pos f huse

section Slots

variable (hslots : ∀ e, l.graph.IsSlot e → l.analysis.isDeclared e = false)

include hslots

/-- Slots are never named, so a use of a slot comes to a use of what it is directed to. -/
theorem readsAs_use {f : Fragment} (hf : l.UseAs l.KeepsPlaces x pos f)
    (hx : l.graph.StandsFor x m) (hm : l.graph.Selects m object member) :
    l.ReadsAs m object member f := by
  unfold UseAs at hf
  split at hf
  · rename_i hd
    obtain ⟨name, hname, rfl⟩ := hf
    rcases hx.cases_head with rfl | ⟨y, hy, _⟩
    · refine ⟨fun _ => ⟨name, hname, .refl _⟩, fun hnot => ?_⟩
      rw [hd] at hnot
      cases hnot
    · rw [hslots x ⟨_, hy⟩] at hd
      cases hd
  · rename_i hd
    obtain ⟨_, hshows, _⟩ := hf
    obtain ⟨hself, hother⟩ := hshows m object member hx hm
    by_cases heq : x = m
    · exact ⟨fun hnot => absurd (heq ▸ hnot) hd, fun _ => hself heq⟩
    · exact hother heq

omit hslots in
/-- Only a template and a slot stand for a member access. -/
theorem showsMembers_of_kind {k : Kind} (hk : l.graph.kindOf? e = some k)
    (htemplate : ∀ parts, k ≠ .template parts) (hslot : ∀ y, k ≠ .slot (some y)) (f : Fragment) :
    l.ShowsMembers e f := by
  intro m object member hx hm
  rcases hx.cases_head with rfl | ⟨y, hy, _⟩
  · exact absurd (Option.some.inj (hk.symm.trans hm.kindOf?)) (htemplate _)
  · exact absurd (Option.some.inj (hk.symm.trans hy)) (hslot y)

/-- A member access is written as one, and a slot as a use of what it is directed to. -/
theorem showsMembers_inline {n : Node} {pieces : List Fragment} (hn : l.graph.node? e = some n)
    (hpieces : List.Forall₂ (l.PartAs l.KeepsPlaces) (positioned pos (l.shape e n).1) pieces) :
    l.ShowsMembers e (.expansion e (encloses n pos) (pieces ++ (l.shape e n).2)) := by
  intro m object member hx hm
  rcases hx.cases_head with rfl | ⟨y, hy, hym⟩
  · obtain ⟨hshape, hopen⟩ := selects_shape hm hn pos
    rw [hshape] at hpieces ⊢
    rw [hopen, List.append_nil]
    exact ⟨fun _ => ⟨pieces, .refl _, spells_of_parts (fun _ _ _ h => h.1) hpieces⟩,
      fun hne => absurd rfl hne⟩
  · obtain ⟨hshape, hopen⟩ := slot_shape hn hy pos
    rw [hshape] at hpieces ⊢
    rw [hopen, List.append_nil]
    obtain ⟨f, _, hf, hnil, rfl⟩ := List.forall₂_cons_left_iff.1 hpieces
    cases hnil
    refine ⟨?_, fun _ => (readsAs_use hslots hf hym hm).slot ⟨_, hy⟩⟩
    rintro rfl
    exact absurd ⟨_, hy⟩ hm.not_isSlot

theorem closed_keepsPlaces : l.Closed l.KeepsPlaces := by
  refine ⟨?_, ?_, ?_⟩
  · intro e pos name hp _
    obtain ⟨i, hk⟩ := Graph.isParameter_iff.1 hp
    exact ⟨rfl, showsMembers_of_kind hk nofun nofun _, nofun⟩
  · intro f pos params body b hf _ _ hb
    obtain ⟨arity, state, hk⟩ := Graph.isFunction_iff.1 hf
    exact ⟨rfl, showsMembers_of_kind hk nofun nofun _, List.forall_mem_cons.2
      ⟨hf, throughout_block (hb.imp fun _ _ _ h => h.2.2)⟩⟩
  · intro e n pos pieces hn _ _ _ hpieces
    refine ⟨rfl, showsMembers_inline hslots hn hpieces, List.forall_mem_cons.2
      ⟨fun x hx => ?_, ?_⟩⟩
    · obtain ⟨parts, hshape⟩ := reference_shape hn hx
      rw [hshape] at hpieces ⊢
      obtain ⟨first, rest, hfirst, _, rfl⟩ := List.forall₂_cons_left_iff.1 hpieces
      exact ⟨first, rest ++ [], rfl, fun m object member => readsAs_use hslots hfirst⟩
    · rw [writtenInAll_append, List.forall_mem_append]
      refine ⟨throughout_parts (hpieces.imp fun _ _ h => h.imp fun _ _ _ h => h.2.2), ?_⟩
      rw [l.written_of_shape]
      exact nofun

theorem keepsPlace_output {mode : CompileMode} {body : Body} {o : Output}
    (ho : l.output mode body = .ok o) : ∀ w ∈ o.written, l.KeepsPlace w :=
  throughout_output (((closed_keepsPlaces hslots).of_output ho).imp fun _ _ _ h => h.2.2)

end Slots

end Layout

end ScriptGraph
