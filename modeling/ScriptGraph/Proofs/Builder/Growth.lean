import Mathlib
import ScriptGraph.Builder.Create

/-!
# Growth of graphs

Nodes are added, empty slots are filled and bodies get built; nothing else happens to a graph.

* `Kind.Grows` : what may become of a node's kind;
* `Graph.Extends` : a later graph; it has the old nodes with their scopes and flags;
* `Graph.Built` : a node whose references are final: no empty slot, and no function without a body;
* `Graph.successors` : the nodes that a node leads to, by its parts or its body.
-/

namespace ScriptGraph

/-- How far a body has come, as a number. -/
def BodyState.stage : BodyState → Nat
  | .pending => 0
  | .building => 1
  | .ready _ => 2
  | .failed _ => 2

/-- What may become of a node's kind. -/
inductive Kind.Grows : Kind → Kind → Prop
  | refl (k : Kind) : Grows k k
  | fill (target : NodeId) : Grows (.slot none) (.slot (some target))
  | advance {arity : Nat} {state state' : BodyState} (h : state.stage < state'.stage) :
    Grows (.function arity state) (.function arity state')

theorem Kind.Grows.trans {k k' k'' : Kind} (h : k.Grows k') (h' : k'.Grows k'') : k.Grows k'' := by
  cases h with
  | refl => exact h'
  | fill => cases h'; exact .fill _
  | advance h =>
    cases h' with
    | refl => exact .advance h
    | advance h' => exact .advance (Nat.lt_trans h h')

/-- What becomes of a node. -/
structure Node.Grows (n n' : Node) : Prop where
  scope : n'.scope = n.scope
  flags : n'.flags = n.flags
  kind : n.kind.Grows n'.kind

theorem Node.Grows.refl (n : Node) : n.Grows n := ⟨rfl, rfl, .refl _⟩

theorem Node.Grows.trans {n n' n'' : Node} (h : n.Grows n') (h' : n'.Grows n'') : n.Grows n'' :=
  ⟨h'.scope.trans h.scope, h'.flags.trans h.flags, h.kind.trans h'.kind⟩

/-- Empty slots are filled and functions get bodies. All other nodes stay as they are. -/
def Kind.isFinal : Kind → Bool
  | .function .. => false
  | .slot none => false
  | _ => true

theorem Node.Grows.eq {n n' : Node} (h : n.Grows n') (hn : n.kind.isFinal = true) : n' = n := by
  obtain ⟨scope, flags, kind⟩ := n
  obtain ⟨scope', flags', kind'⟩ := n'
  obtain ⟨hscope, hflags, hkind⟩ := h
  dsimp only at hscope hflags hkind hn
  subst hscope hflags
  cases hkind with
  | refl => rfl
  | fill => cases hn
  | advance => cases hn

/-- Filling a slot adds to its parts; nothing else changes the parts of a node. -/
theorem Node.Grows.template_subset {n n' : Node} (h : n.Grows n') : n.template ⊆ n'.template := by
  obtain ⟨scope, flags, kind⟩ := n
  obtain ⟨scope', flags', kind'⟩ := n'
  obtain ⟨hscope, hflags, hkind⟩ := h
  dsimp only at hscope hflags hkind
  subst hscope hflags
  cases hkind with
  | refl => exact List.Subset.refl _
  | fill => exact List.nil_subset _
  | advance => exact List.nil_subset _

namespace Graph

/-! ## Looking up nodes -/

theorem node?_isSome_iff {g : Graph} {e : NodeId} : (g.node? e).isSome ↔ e < g.size := by
  simp [node?, size]

theorem lt_size {g : Graph} {e : NodeId} {n : Node} (h : g.node? e = some n) : e < g.size :=
  node?_isSome_iff.1 (by simp [h])

theorem exists_node {g : Graph} {e : NodeId} (h : e < g.size) : ∃ n, g.node? e = some n :=
  Option.isSome_iff_exists.1 (node?_isSome_iff.2 h)

theorem scopeOf_of_node {g : Graph} {e : NodeId} {n : Node} (h : g.node? e = some n) :
    g.scopeOf e = n.scope := by
  simp [scopeOf, h]

theorem flagsOf_of_node {g : Graph} {e : NodeId} {n : Node} (h : g.node? e = some n) :
    g.flagsOf e = n.flags := by
  simp [flagsOf, h]

theorem kindOf?_of_node {g : Graph} {e : NodeId} {n : Node} (h : g.node? e = some n) :
    g.kindOf? e = some n.kind := by
  simp [kindOf?, h]

theorem kindOf?_eq_some {g : Graph} {e : NodeId} {k : Kind} :
    g.kindOf? e = some k ↔ ∃ n, g.node? e = some n ∧ n.kind = k := by
  simp [kindOf?, Option.map_eq_some_iff]

theorem scopeOf_eq_some {g : Graph} {e f : NodeId} :
    g.scopeOf e = some f ↔ ∃ n, g.node? e = some n ∧ n.scope = some f := by
  simp [scopeOf, Option.bind_eq_some_iff]

theorem children_of_node {g : Graph} {e : NodeId} {n : Node} (h : g.node? e = some n) :
    g.children e = n.template.filterMap Part.node? := by
  simp [children, h]

theorem isFunction_iff {g : Graph} {e : NodeId} :
    g.isFunction e = true ↔ ∃ arity state, g.kindOf? e = some (.function arity state) := by
  unfold isFunction
  split
  · rename_i h
    simp [h]
  · rename_i h
    simpa using h

theorem isParameter_iff {g : Graph} {e : NodeId} :
    g.isParameter e = true ↔ ∃ i, g.kindOf? e = some (.parameter i) := by
  unfold isParameter
  split
  · rename_i h
    simp [h]
  · rename_i h
    simpa using h

theorem not_isFunction_of_isParameter {g : Graph} {e : NodeId} (h : g.isParameter e = true) :
    g.isFunction e = false := by
  obtain ⟨i, hk⟩ := isParameter_iff.1 h
  rw [← Bool.not_eq_true, isFunction_iff]
  simp [hk]

theorem isUnfilledSlot_iff {g : Graph} {e : NodeId} :
    g.isUnfilledSlot e = true ↔ g.kindOf? e = some (.slot none) := by
  unfold isUnfilledSlot
  split
  · rename_i h
    simp [h]
  · rename_i h
    simpa using h

theorem body?_eq_some {g : Graph} {f : NodeId} {body : Body} :
    g.body? f = some body ↔ ∃ arity, g.kindOf? f = some (.function arity (.ready body)) := by
  unfold body?
  split
  · rename_i arity body' h
    simp [h]
  · rename_i h
    simp only [reduceCtorEq, false_iff, not_exists]
    exact fun arity => h arity body

theorem isFunction_of_body? {g : Graph} {f : NodeId} {body : Body} (h : g.body? f = some body) :
    g.isFunction f = true := by
  obtain ⟨arity, hk⟩ := body?_eq_some.1 h
  exact isFunction_iff.2 ⟨arity, _, hk⟩

theorem params_of_kind {g : Graph} {f : NodeId} {arity : Nat} {state : BodyState}
    (h : g.kindOf? f = some (.function arity state)) : g.params f = List.range' (f + 1) arity := by
  simp [params, h]

theorem isFunction_of_mem_params {g : Graph} {f p : NodeId} (h : p ∈ g.params f) :
    g.isFunction f = true := by
  unfold params at h
  split at h
  · rename_i hk
    exact isFunction_iff.2 ⟨_, _, hk⟩
  · cases h

theorem nodup_params (g : Graph) (f : NodeId) : (g.params f).Nodup := by
  unfold params
  split
  · exact List.nodup_range'
  · exact .nil

/-! ## Operations on the array of nodes -/

theorem node?_push (g : Graph) (n : Node) (e : NodeId) :
    (g.push n).node? e = if e = g.size then some n else g.node? e := by
  exact Array.getElem?_push

theorem node?_pushFunction (g : Graph) (scope : Scope) (arity : Nat) (e : NodeId) :
    (g.pushFunction scope arity).node? e =
      if e < g.size then g.node? e
      else if e = g.size then some ⟨scope, {}, .function arity .pending⟩
      else if e - (g.size + 1) < arity then
        some ⟨some g.size, .literal, .parameter (e - (g.size + 1))⟩
      else none := by
  show (g.nodes.push _ ++ List.toArray _)[e]? = _
  rw [Array.getElem?_append, Array.size_push, Array.getElem?_push,
    show g.nodes.size = g.size from rfl]
  rcases Nat.lt_trichotomy e g.size with h | h | h
  · rw [if_pos h, if_pos (Nat.lt_add_one_of_lt h), if_neg (Nat.ne_of_lt h)]
    rfl
  · subst h
    rw [if_pos (Nat.lt_add_one _), if_pos rfl, if_neg (Nat.lt_irrefl _), if_pos rfl]
  · rw [if_neg (show ¬e < g.size + 1 from Nat.not_lt.2 h), if_neg (Nat.lt_asymm h),
      if_neg (Nat.ne_of_gt h)]
    show (((List.range arity).map _).toArray)[e - (g.size + 1)]? = _
    rw [List.getElem?_toArray, List.getElem?_map]
    by_cases hlt : e - (g.size + 1) < arity
    · rw [if_pos hlt, List.getElem?_range hlt]
      rfl
    · rw [if_neg hlt, List.getElem?_eq_none (by simpa using hlt)]
      rfl

theorem node?_setKind (g : Graph) (e : NodeId) (k : Kind) (x : NodeId) :
    (g.setKind e k).node? x =
      if x = e then (g.node? x).map (fun n => { n with kind := k }) else g.node? x := by
  simp only [node?, setKind, Array.getElem?_modify]
  by_cases h : x = e
  · rw [if_pos h, if_pos h.symm]
  · rw [if_neg h, if_neg (Ne.symm h)]

theorem size_setKind (g : Graph) (e : NodeId) (k : Kind) : (g.setKind e k).size = g.size :=
  Array.size_modify

theorem kindOf?_setKind_self {g : Graph} {e : NodeId} {k k' : Kind} (h : g.kindOf? e = some k) :
    (g.setKind e k').kindOf? e = some k' := by
  obtain ⟨n, hn, _⟩ := kindOf?_eq_some.1 h
  simp [kindOf?, node?_setKind, hn]

theorem kindOf?_setKind_of_ne {g : Graph} {e x : NodeId} {k : Kind} (h : x ≠ e) :
    (g.setKind e k).kindOf? x = g.kindOf? x := by
  simp [kindOf?, node?_setKind, h]

theorem setBodyState_eq {g : Graph} {f : NodeId} {arity : Nat} {state : BodyState}
    (h : g.kindOf? f = some (.function arity state)) (state' : BodyState) :
    g.setBodyState f state' = g.setKind f (.function arity state') := by
  simp [setBodyState, h]

/-! ## Later graphs -/

/-- Every node of `g` is found in `g'`, possibly grown. -/
def Extends (g g' : Graph) : Prop :=
  ∀ e n, g.node? e = some n → ∃ n', g'.node? e = some n' ∧ n.Grows n'

theorem Extends.refl (g : Graph) : g.Extends g := fun _ n h => ⟨n, h, .refl n⟩

theorem Extends.trans {g g' g'' : Graph} (h : g.Extends g') (h' : g'.Extends g'') :
    g.Extends g'' := by
  intro e n hn
  obtain ⟨n', hn', hg⟩ := h e n hn
  obtain ⟨n'', hn'', hg'⟩ := h' e n' hn'
  exact ⟨n'', hn'', hg.trans hg'⟩

theorem Extends.size_le {g g' : Graph} (h : g.Extends g') : g.size ≤ g'.size := by
  apply Nat.le_of_not_lt
  intro hlt
  obtain ⟨n, hn⟩ := exists_node hlt
  obtain ⟨n', hn', _⟩ := h _ n hn
  exact Nat.lt_irrefl _ (lt_size hn')

theorem extends_push (g : Graph) (n : Node) : g.Extends (g.push n) := by
  intro e m hm
  refine ⟨m, ?_, .refl m⟩
  rw [node?_push, if_neg (Nat.ne_of_lt (lt_size hm)), hm]

theorem extends_pushFunction (g : Graph) (scope : Scope) (arity : Nat) :
    g.Extends (g.pushFunction scope arity) := by
  intro e m hm
  refine ⟨m, ?_, .refl m⟩
  rw [node?_pushFunction, if_pos (lt_size hm), hm]

theorem extends_setKind {g : Graph} {e : NodeId} {k k' : Kind} (h : g.kindOf? e = some k)
    (hk : k.Grows k') : g.Extends (g.setKind e k') := by
  intro x n hn
  rw [node?_setKind]
  by_cases hx : x = e
  · subst hx
    rw [if_pos rfl, hn]
    have hkind : n.kind = k := by simpa [kindOf?, hn] using h
    exact ⟨_, rfl, rfl, rfl, hkind ▸ hk⟩
  · rw [if_neg hx]
    exact ⟨n, hn, .refl n⟩

/-! ## Nodes whose references are final -/

/-- The node exists, is no empty slot, and its body is there if it is a function. -/
def Built (g : Graph) (e : NodeId) : Prop :=
  e < g.size ∧ g.isUnfilledSlot e = false ∧ (g.isFunction e = true → ∃ body, g.body? e = some body)

/-- The nodes that `e` leads to: those of its parts, and the roots of its body. -/
def successors (g : Graph) (e : NodeId) : List NodeId :=
  g.children e ++ ((g.body? e).map Body.roots).getD []

theorem mem_successors {g : Graph} {e x : NodeId} : x ∈ g.successors e ↔
    x ∈ g.children e ∨ ∃ inner, g.body? e = some inner ∧ x ∈ inner.roots := by
  rw [successors, List.mem_append]
  cases g.body? e with
  | none => simp
  | some inner => simp

theorem children_of_isFunction {g : Graph} {f : NodeId} (h : g.isFunction f = true) :
    g.children f = [] := by
  obtain ⟨arity, state, hk⟩ := isFunction_iff.1 h
  obtain ⟨n, hn, hkind⟩ := kindOf?_eq_some.1 hk
  rw [children_of_node hn]
  simp [Node.template, hkind]

theorem children_of_isParameter {g : Graph} {p : NodeId} (h : g.isParameter p = true) :
    g.children p = [] := by
  obtain ⟨i, hk⟩ := isParameter_iff.1 h
  obtain ⟨n, hn, hkind⟩ := kindOf?_eq_some.1 hk
  rw [children_of_node hn]
  simp [Node.template, hkind]

theorem body?_eq_none {g : Graph} {e : NodeId} (h : g.isFunction e = false) :
    g.body? e = none := by
  cases hb : g.body? e with
  | none => rfl
  | some body => simp [isFunction_of_body? hb] at h

theorem successors_of_not_isFunction {g : Graph} {e : NodeId} (h : g.isFunction e = false) :
    g.successors e = g.children e := by
  simp [successors, body?_eq_none h]

theorem successors_of_isParameter {g : Graph} {p : NodeId} (h : g.isParameter p = true) :
    g.successors p = [] := by
  rw [successors_of_not_isFunction (not_isFunction_of_isParameter h), children_of_isParameter h]

theorem successors_of_body? {g : Graph} {f : NodeId} {body : Body} (h : g.body? f = some body) :
    g.successors f = body.roots := by
  simp [successors, h, children_of_isFunction (isFunction_of_body? h)]

namespace Extends

variable {g g' : Graph} {e f : NodeId}

theorem node?_eq (h : g.Extends g') {n : Node} (hn : g.node? e = some n)
    (hfinal : n.kind.isFinal = true) : g'.node? e = some n := by
  obtain ⟨n', hn', hgrow⟩ := h e n hn
  rw [hn', hgrow.eq hfinal]

theorem kind (h : g.Extends g') {k : Kind} (hk : g.kindOf? e = some k) :
    ∃ k', g'.kindOf? e = some k' ∧ k.Grows k' := by
  obtain ⟨n, hn, rfl⟩ := kindOf?_eq_some.1 hk
  obtain ⟨n', hn', hgrow⟩ := h e n hn
  exact ⟨_, kindOf?_of_node hn', hgrow.kind⟩

theorem isFunction (h : g.Extends g') (hf : g.isFunction f = true) : g'.isFunction f = true := by
  obtain ⟨arity, state, hk⟩ := isFunction_iff.1 hf
  obtain ⟨k', hk', hgrow⟩ := h.kind hk
  cases hgrow <;> exact isFunction_iff.2 ⟨_, _, hk'⟩

theorem body?_eq (h : g.Extends g') {body : Body} (hb : g.body? f = some body) :
    g'.body? f = some body := by
  obtain ⟨arity, hk⟩ := body?_eq_some.1 hb
  obtain ⟨k', hk', hgrow⟩ := h.kind hk
  cases hgrow with
  | refl => exact body?_eq_some.2 ⟨arity, hk'⟩
  | @advance _ _ state' hlt =>
    cases state' <;> simp [BodyState.stage] at hlt

theorem successors_subset (h : g.Extends g') : g.successors e ⊆ g'.successors e := by
  intro x hx
  rcases List.mem_append.1 hx with hx | hx
  · cases hn : g.node? e with
    | none => simp [children, hn] at hx
    | some n =>
      obtain ⟨n', hn', hgrow⟩ := h e n hn
      rw [children_of_node hn] at hx
      apply List.mem_append_left _
      rw [children_of_node hn']
      exact List.filterMap_subset _ hgrow.template_subset hx
  · cases hb : g.body? e with
    | none => simp [hb] at hx
    | some body =>
      apply List.mem_append_right _
      rw [h.body?_eq hb]
      simpa [hb] using hx

theorem successors_eq (h : g.Extends g') (he : g.Built e) : g'.successors e = g.successors e := by
  obtain ⟨hlt, hslot, hbody⟩ := he
  obtain ⟨n, hn⟩ := exists_node hlt
  obtain ⟨n', hn', hscope, hflags, hkind⟩ := h e n hn
  by_cases hf : g.isFunction e = true
  · obtain ⟨body, hb⟩ := hbody hf
    rw [successors_of_body? hb, successors_of_body? (h.body?_eq hb)]
  · have hk : g.kindOf? e = some n.kind := kindOf?_of_node hn
    have hsame : n'.kind = n.kind := by
      generalize hkn : n.kind = k at hk hkind
      generalize n'.kind = k' at hkind
      cases hkind with
      | refl => rfl
      | fill => exact absurd (isUnfilledSlot_iff.2 hk) (by simp [hslot])
      | advance => exact absurd (isFunction_iff.2 ⟨_, _, hk⟩) hf
    have hf' : ¬g'.isFunction e = true := by
      rw [isFunction_iff, kindOf?_of_node hn', hsame, ← hk, ← isFunction_iff]
      exact hf
    rw [Bool.not_eq_true] at hf hf'
    rw [successors_of_not_isFunction hf, successors_of_not_isFunction hf', children_of_node hn,
      children_of_node hn']
    simp [Node.template, hsame, hflags]

theorem built (h : g.Extends g') (he : g.Built e) : g'.Built e := by
  obtain ⟨hlt, hslot, hbody⟩ := he
  obtain ⟨n, hn⟩ := exists_node hlt
  obtain ⟨k', hk', hgrow⟩ := h.kind (kindOf?_of_node hn)
  have hk : g.kindOf? e = some n.kind := kindOf?_of_node hn
  refine ⟨Nat.lt_of_lt_of_le hlt h.size_le, ?_, ?_⟩
  · rw [← Bool.not_eq_true, isUnfilledSlot_iff, hk']
    rw [← Bool.not_eq_true, isUnfilledSlot_iff, hk] at hslot
    rintro ⟨⟩
    generalize n.kind = k at hgrow hslot
    cases hgrow
    exact hslot rfl
  · intro hf'
    have hf : g.isFunction e = true := by
      obtain ⟨arity, state, hk''⟩ := isFunction_iff.1 hf'
      rw [hk', Option.some.injEq] at hk''
      subst hk''
      generalize n.kind = k at hgrow hk
      cases hgrow <;> exact isFunction_iff.2 ⟨_, _, hk⟩
    obtain ⟨body, hb⟩ := hbody hf
    exact ⟨body, h.body?_eq hb⟩

end Extends

end Graph

end ScriptGraph
