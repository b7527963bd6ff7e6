import ScriptGraph.Proofs.Builder.Creation
import ScriptGraph.Proofs.Graph.Copies

/-!
# Graphs whose nodes are paired

The nodes of a graph are paired with nodes of another one, while the first is under construction.

* `Pairing.join` : some more nodes are paired;
* `Kind.Mirrors`, `Node.Mirrors` : a node is the same as its partner up to paired handles, or is an
  empty slot where the partner is a slot;
* `Graph.Mirrors` : every node has a partner, and no two have the same;
* `Graph.Mirrors.append`, `Graph.Mirrors.setKind`, `Graph.Mirrors.retain` : it stays so when the
  first graph grows and when the second one does;
* `Graph.Mirrors.copies` : a graph without empty slots has a copy in the other graph.
-/

namespace ScriptGraph

/-- Which node of a graph is paired with which node of another one. -/
abbrev Pairing := NodeId → NodeId → Prop

namespace Pairing

/-- The nodes `e, e + 1, …` are paired with `e', e' + 1, …` too, `n` of them. -/
def join (φ : Pairing) (e e' n : Nat) : Pairing := fun x x' =>
  φ x x' ∨ ∃ i < n, x = e + i ∧ x' = e' + i

theorem le_join (φ : Pairing) (e e' n : Nat) : φ ≤ φ.join e e' n := fun _ _ => Or.inl

theorem join_of_lt (φ : Pairing) (e e' : Nat) {n i : Nat} (h : i < n) :
    φ.join e e' n (e + i) (e' + i) := .inr ⟨i, h, rfl, rfl⟩

theorem join_self (φ : Pairing) (e e' n : Nat) : φ.join e e' (n + 1) e e' :=
  φ.join_of_lt e e' n.succ_pos

theorem join_biUnique {φ : Pairing} {e e' n : Nat} (h : Relator.BiUnique φ)
    (hleft : ∀ x x', φ x x' → x < e) (hright : ∀ i < n, ∀ x, ¬φ x (e' + i)) :
    Relator.BiUnique (φ.join e e' n) := by
  constructor
  · rintro x y x' (hx | ⟨i, hi, rfl, rfl⟩) (hy | ⟨j, hj, rfl, hx'⟩)
    · exact h.left hx hy
    · exact absurd (hx' ▸ hx) (hright j hj x)
    · exact absurd hy (hright i hi y)
    · rw [Nat.add_left_cancel hx']
  · rintro x x' y' (hx | ⟨i, hi, rfl, rfl⟩) (hy | ⟨j, hj, hx', rfl⟩)
    · exact h.right hx hy
    · exact absurd (hleft _ _ hx) (Nat.not_lt.2 (hx' ▸ Nat.le_add_right e j))
    · exact absurd (hleft _ _ hy) (Nat.not_lt.2 (Nat.le_add_right e i))
    · rw [Nat.add_left_cancel hx']

/-- Each handle goes to its partner. Those without one go beyond the nodes of the other graph. -/
noncomputable def partner (φ : Pairing) (size : Nat) (e : NodeId) : NodeId :=
  open Classical in if h : ∃ e', φ e e' then h.choose else e + size

theorem partner_eq {φ : Pairing} (h : Relator.BiUnique φ) (size : Nat) {e e' : NodeId}
    (he : φ e e') : φ.partner size e = e' := by
  have hex : ∃ e', φ e e' := ⟨e', he⟩
  rw [partner, dif_pos hex]
  exact h.right hex.choose_spec he

theorem partner_injective {φ : Pairing} (h : Relator.BiUnique φ) {size : Nat}
    (hright : ∀ e e', φ e e' → e' < size) : Function.Injective (φ.partner size) := by
  have houtside : ∀ e, (¬∃ e', φ e e') → φ.partner size e = e + size := fun e he => dif_neg he
  intro x y hxy
  by_cases hx : ∃ x', φ x x' <;> by_cases hy : ∃ y', φ y y'
  · obtain ⟨x', hx⟩ := hx
    obtain ⟨y', hy⟩ := hy
    rw [partner_eq h size hx, partner_eq h size hy] at hxy
    exact h.left hx (hxy ▸ hy)
  · obtain ⟨x', hx⟩ := hx
    rw [partner_eq h size hx, houtside y hy] at hxy
    exact absurd (hxy ▸ hright x x' hx) (Nat.not_lt.2 (Nat.le_add_left size y))
  · obtain ⟨y', hy⟩ := hy
    rw [houtside x hx, partner_eq h size hy] at hxy
    exact absurd (hxy ▸ hright y y' hy) (Nat.not_lt.2 (Nat.le_add_left size x))
  · rw [houtside x hx, houtside y hy] at hxy
    exact Nat.add_right_cancel hxy

end Pairing

variable {φ ψ : Pairing} {ι : NodeId → NodeId}

theorem eq_map_of_forall₂ (hι : ∀ e e', φ e e' → ι e = e') {es es' : List NodeId}
    (h : List.Forall₂ φ es es') : es' = es.map ι := by
  rw [← List.forall₂_eq_eq_eq, List.forall₂_map_right_iff]
  exact h.flip.imp fun e' e he => (hι e e' he).symm

/-! ## Nodes and their partners -/

inductive Part.Mirrors (φ : Pairing) : Part → Part → Prop
  | text (t : String) : Mirrors φ (.text t) (.text t)
  | node {e e' : NodeId} (h : φ e e') : Mirrors φ (.node e) (.node e')

inductive Body.Mirrors (φ : Pairing) : Body → Body → Prop
  | value {e e' : NodeId} (h : φ e e') : Mirrors φ (.value e) (.value e')
  | statements {es es' : List NodeId} (h : List.Forall₂ φ es es') :
    Mirrors φ (.statements es) (.statements es')

inductive BodyState.Mirrors (φ : Pairing) : BodyState → BodyState → Prop
  | pending : Mirrors φ .pending .pending
  | building : Mirrors φ .building .building
  | ready {body body' : Body} (h : body.Mirrors φ body') : Mirrors φ (.ready body) (.ready body')

/-- The kind of a node and that of its partner. An empty slot mirrors every slot. -/
inductive Kind.Mirrors (φ : Pairing) : Kind → Kind → Prop
  | template {ps ps' : List Part} (h : List.Forall₂ (Part.Mirrors φ) ps ps') :
    Mirrors φ (.template ps) (.template ps')
  | function (arity : Nat) {state state' : BodyState} (h : state.Mirrors φ state') :
    Mirrors φ (.function arity state) (.function arity state')
  | call {e e' : NodeId} {es es' : List NodeId} (h : φ e e') (hs : List.Forall₂ φ es es') :
    Mirrors φ (.call e es) (.call e' es')
  | parameter (i : Nat) : Mirrors φ (.parameter i) (.parameter i)
  | text (code : String) : Mirrors φ (.text code) (.text code)
  | moduleRef {store store' : NodeId} (h : φ store store') (address : String) :
    Mirrors φ (.moduleRef store address) (.moduleRef store' address)
  | resourceRef {store store' : NodeId} (h : φ store store') (key : String)
    (value : ResourceValue) : Mirrors φ (.resourceRef store key value) (.resourceRef store' key value)
  | placeholder : Mirrors φ .placeholder .placeholder
  | moduleStore : Mirrors φ .moduleStore .moduleStore
  | resourceStore : Mirrors φ .resourceStore .resourceStore
  | empty (target : Option NodeId) : Mirrors φ (.slot none) (.slot target)
  | slot {e e' : NodeId} (h : φ e e') : Mirrors φ (.slot (some e)) (.slot (some e'))

structure Node.Mirrors (φ : Pairing) (n n' : Node) : Prop where
  scope : Option.Rel φ n.scope n'.scope
  flags : n'.flags = n.flags
  kind : n.kind.Mirrors φ n'.kind

theorem Body.Mirrors.roots {body body' : Body} (h : body.Mirrors φ body') :
    List.Forall₂ φ body.roots body'.roots := by
  cases h with
  | value h => exact .cons h .nil
  | statements h => exact h

section Monotone

variable (hφ : φ ≤ ψ)

include hφ

theorem forall₂_mono {es es' : List NodeId} (h : List.Forall₂ φ es es') :
    List.Forall₂ ψ es es' := h.imp fun e e' => hφ e e'

theorem Part.Mirrors.mono {p p' : Part} (h : p.Mirrors φ p') : p.Mirrors ψ p' := by
  cases h with
  | text t => exact .text t
  | node h => exact .node (hφ _ _ h)

theorem Body.Mirrors.mono {body body' : Body} (h : body.Mirrors φ body') :
    body.Mirrors ψ body' := by
  cases h with
  | value h => exact .value (hφ _ _ h)
  | statements h => exact .statements (forall₂_mono hφ h)

theorem Kind.Mirrors.mono {k k' : Kind} (h : k.Mirrors φ k') : k.Mirrors ψ k' := by
  cases h with
  | template h => exact .template (h.imp fun _ _ => Part.Mirrors.mono hφ)
  | function arity h =>
    cases h with
    | pending => exact .function arity .pending
    | building => exact .function arity .building
    | ready h => exact .function arity (.ready (h.mono hφ))
  | call h hs => exact .call (hφ _ _ h) (forall₂_mono hφ hs)
  | parameter i => exact .parameter i
  | text code => exact .text code
  | moduleRef h address => exact .moduleRef (hφ _ _ h) address
  | resourceRef h key value => exact .resourceRef (hφ _ _ h) key value
  | placeholder => exact .placeholder
  | moduleStore => exact .moduleStore
  | resourceStore => exact .resourceStore
  | empty target => exact .empty target
  | slot h => exact .slot (hφ _ _ h)

theorem scope_mono {s s' : Scope} (h : Option.Rel φ s s') : Option.Rel ψ s s' := by
  cases h with
  | none => exact .none
  | some h => exact .some (hφ _ _ h)

theorem Node.Mirrors.mono {n n' : Node} (h : n.Mirrors φ n') : n.Mirrors ψ n' :=
  ⟨scope_mono hφ h.scope, h.flags, h.kind.mono hφ⟩

end Monotone

section Functions

variable (hι : ∀ e e', φ e e' → ι e = e')

include hι

theorem Body.Mirrors.eq_map {body body' : Body} (h : body.Mirrors φ body') :
    body' = body.map ι := by
  cases h with
  | value h => rw [Body.map, hι _ _ h]
  | statements h => rw [Body.map, eq_map_of_forall₂ hι h]

theorem Kind.Mirrors.eq_map {k k' : Kind} (h : k.Mirrors φ k') (hslot : k ≠ .slot none) :
    k' = k.map ι := by
  cases h with
  | @template ps ps' h =>
    have hps : ps' = ps.map (Part.map ι) := by
      rw [← List.forall₂_eq_eq_eq, List.forall₂_map_right_iff]
      refine h.flip.imp fun p' p hp => ?_
      cases hp with
      | text t => rfl
      | node he => rw [Part.map, hι _ _ he]
    rw [hps, Kind.map]
  | function arity h =>
    cases h with
    | ready h => rw [h.eq_map hι, Kind.map, BodyState.map]
    | _ => rfl
  | call h hs => rw [Kind.map, hι _ _ h, eq_map_of_forall₂ hι hs]
  | moduleRef h address => rw [Kind.map, hι _ _ h]
  | resourceRef h key value => rw [Kind.map, hι _ _ h]
  | empty target => exact absurd rfl hslot
  | slot h => rw [Kind.map, Option.map_some, hι _ _ h]
  | _ => rfl

theorem Node.Mirrors.eq_map {n n' : Node} (h : n.Mirrors φ n') (hslot : n.kind ≠ .slot none) :
    n' = n.map ι := by
  obtain ⟨hscope, hflags, hkind⟩ := h
  obtain ⟨scope', flags', kind'⟩ := n'
  dsimp only at hscope hflags hkind
  have hscope' : scope' = n.scope.map ι := by
    generalize n.scope = scope at hscope
    cases hscope with
    | none => rfl
    | some hf => rw [Option.map_some, hι _ _ hf]
  rw [hkind.eq_map hι hslot, hflags, hscope', Node.map]

end Functions

theorem filterMap_node?_mirrors {ps ps' : List Part} (h : List.Forall₂ (Part.Mirrors φ) ps ps') :
    List.Forall₂ φ (ps.filterMap Part.node?) (ps'.filterMap Part.node?) := by
  induction h with
  | nil => exact .nil
  | cons hp _ ih =>
    cases hp with
    | text t => exact ih
    | node he => exact .cons he ih

theorem Node.Mirrors.children {n n' : Node} (h : n.Mirrors φ n') (hslot : n.kind ≠ .slot none) :
    List.Forall₂ φ (n.template.filterMap Part.node?) (n'.template.filterMap Part.node?) := by
  obtain ⟨scope, flags, kind⟩ := n
  obtain ⟨scope', flags', kind'⟩ := n'
  obtain ⟨-, -, hkind⟩ := h
  dsimp only at hkind hslot
  cases hkind with
  | template h => exact filterMap_node?_mirrors h
  | @call e e' es es' h hs =>
    show List.Forall₂ φ
      (e :: (commaSeparated (es.map Part.node) ++ [Part.text ")"]).filterMap Part.node?)
      (e' :: (commaSeparated (es'.map Part.node) ++ [Part.text ")"]).filterMap Part.node?)
    simp only [List.filterMap_append, filterMap_node?_commaSeparated, filterMap_node?_map]
    exact .cons h (List.rel_append hs .nil)
  | moduleRef h address => exact .cons h .nil
  | resourceRef h key value => exact .cons h .nil
  | empty target => exact absurd rfl hslot
  | slot h => exact .cons h .nil
  | _ => exact .nil

/-! ## Graphs and their mirrors -/

namespace Graph

/-- What there is in a graph stays, but empty slots may be filled. -/
structure Retains (g g' : Graph) : Prop where
  nodes : ∀ e n, g.node? e = some n → ∃ n', g'.node? e = some n' ∧ n'.scope = n.scope ∧
    n'.flags = n.flags ∧ (n'.kind = n.kind ∨ n.kind = .slot none ∧ ∃ x, n'.kind = .slot (some x))
  modules : ∀ e, g.moduleStore = some e → g'.moduleStore = some e
  resources : ∀ e, g.resourceStore = some e → g'.resourceStore = some e

theorem Retains.refl (g : Graph) : g.Retains g :=
  ⟨fun _ n hn => ⟨n, hn, rfl, rfl, .inl rfl⟩, fun _ h => h, fun _ h => h⟩

theorem Retains.trans {g g' g'' : Graph} (h : g.Retains g') (h' : g'.Retains g'') :
    g.Retains g'' where
  nodes e n hn := by
    obtain ⟨n', hn', hscope, hflags, hkind⟩ := h.nodes e n hn
    obtain ⟨n'', hn'', hscope', hflags', hkind'⟩ := h'.nodes e n' hn'
    refine ⟨n'', hn'', hscope'.trans hscope, hflags'.trans hflags, ?_⟩
    rcases hkind with hkind | ⟨hslot, x, hx⟩
    · rwa [← hkind]
    · rcases hkind' with hkind' | ⟨hslot', _⟩
      · exact .inr ⟨hslot, x, hkind'.trans hx⟩
      · rw [hx] at hslot'
        cases hslot'
  modules e he := h'.modules e (h.modules e he)
  resources e he := h'.resources e (h.resources e he)

theorem Retains.size_le {g g' : Graph} (h : g.Retains g') : g.size ≤ g'.size := by
  refine Nat.le_of_not_lt fun hlt => ?_
  obtain ⟨n, hn⟩ := exists_node hlt
  obtain ⟨n', hn', _⟩ := h.nodes _ n hn
  exact Nat.lt_irrefl _ (lt_size hn')

theorem Retains.node {g g' : Graph} (h : g.Retains g') {e : NodeId} {n : Node}
    (hn : g.node? e = some n) (hslot : n.kind ≠ .slot none) : g'.node? e = some n := by
  obtain ⟨n', hn', hscope, hflags, hkind⟩ := h.nodes e n hn
  obtain ⟨scope', flags', kind'⟩ := n'
  obtain ⟨scope, flags, kind⟩ := n
  dsimp only at hscope hflags hkind hslot
  rw [hn', hscope, hflags, hkind.resolve_right fun hk => hslot hk.1]

theorem Retains.kindOf?_eq {g g' : Graph} (h : g.Retains g') {e : NodeId} {k : Kind}
    (hk : g.kindOf? e = some k) (hslot : k ≠ .slot none) : g'.kindOf? e = some k := by
  obtain ⟨n, hn, rfl⟩ := kindOf?_eq_some.1 hk
  exact kindOf?_of_node (h.node hn hslot)

/-- A graph has one store of a kind at most, and knows it. Its partner is known to the other graph. -/
structure StoreMirrors (φ : Pairing) (g : Graph) (kind : Kind) (store store' : Option NodeId) :
    Prop where
  known : ∀ e, g.kindOf? e = some kind → store = some e
  paired : ∀ e, store = some e → ∃ e', φ e e' ∧ store' = some e'

namespace StoreMirrors

variable {g d : Graph} {kind : Kind} {store store' : Option NodeId}
  (h : StoreMirrors φ g kind store store')

include h

theorem retain {store'' : Option NodeId} (hret : ∀ e, store' = some e → store'' = some e) :
    StoreMirrors φ g kind store store'' where
  known := h.known
  paired e he := by
    obtain ⟨e', he', hstore⟩ := h.paired e he
    exact ⟨e', he', hret e' hstore⟩

theorem append (hφ : φ ≤ ψ) (hnew : ∀ e, d.kindOf? e = some kind → g.kindOf? e = some kind) :
    StoreMirrors ψ d kind store store' where
  known e he := h.known e (hnew e he)
  paired e he := by
    obtain ⟨e', he', hstore⟩ := h.paired e he
    exact ⟨e', hφ _ _ he', hstore⟩

end StoreMirrors

theorem kindOf?_of_setKind {g : Graph} {e x : NodeId} {k l : Kind}
    (h : (g.setKind e k).kindOf? x = some l) (hne : k ≠ l) : g.kindOf? x = some l := by
  by_cases hx : x = e
  · subst hx
    obtain ⟨n, hn, rfl⟩ := kindOf?_eq_some.1 h
    rw [node?_setKind, if_pos rfl] at hn
    obtain ⟨m, _, rfl⟩ := Option.map_eq_some_iff.1 hn
    exact absurd rfl hne
  · rwa [kindOf?_setKind_of_ne hx] at h

/-- Every node of `g` has a partner in `g'`, and no two have the same. -/
structure Mirrors (φ : Pairing) (g g' : Graph) : Prop where
  unique : Relator.BiUnique φ
  left : ∀ e e', φ e e' → e < g.size
  node : ∀ e n, g.node? e = some n → ∃ e' n', φ e e' ∧ g'.node? e' = some n' ∧ n.Mirrors φ n'
  modules : StoreMirrors φ g .moduleStore g.moduleStore g'.moduleStore
  resources : StoreMirrors φ g .resourceStore g.resourceStore g'.resourceStore

theorem mirrors_empty (g' : Graph) : ({} : Graph).Mirrors (fun _ _ => False) g' where
  unique := ⟨fun _ _ _ h => h.elim, fun _ _ _ h => h.elim⟩
  left _ _ h := h.elim
  node e n h := by simp [node?] at h
  modules := ⟨fun e h => by simp [kindOf?, node?] at h, nofun⟩
  resources := ⟨fun e h => by simp [kindOf?, node?] at h, nofun⟩

namespace Mirrors

variable {g g' : Graph} (h : g.Mirrors φ g')

include h

theorem node_of {e e' : NodeId} {n : Node} (he : φ e e') (hn : g.node? e = some n) :
    ∃ n', g'.node? e' = some n' ∧ n.Mirrors φ n' := by
  obtain ⟨x', n', hx, hn', hmirrors⟩ := h.node e n hn
  exact ⟨n', h.unique.right hx he ▸ hn', hmirrors⟩

theorem exists_node {e e' : NodeId} (he : φ e e') :
    ∃ n n', g.node? e = some n ∧ g'.node? e' = some n' ∧ n.Mirrors φ n' := by
  obtain ⟨n, hn⟩ := Graph.exists_node (h.left e e' he)
  obtain ⟨n', hn', hmirrors⟩ := h.node_of he hn
  exact ⟨n, n', hn, hn', hmirrors⟩

theorem right {e e' : NodeId} (he : φ e e') : e' < g'.size := by
  obtain ⟨_, n', _, hn', _⟩ := h.exists_node he
  exact lt_size hn'

theorem flagsOf_eq {e e' : NodeId} (he : φ e e') : g'.flagsOf e' = g.flagsOf e := by
  obtain ⟨n, n', hn, hn', hmirrors⟩ := h.exists_node he
  rw [flagsOf_of_node hn, flagsOf_of_node hn', hmirrors.flags]

theorem retain {g'' : Graph} (hret : g'.Retains g'') : g.Mirrors φ g'' where
  unique := h.unique
  left := h.left
  node e n hn := by
    obtain ⟨e', n', he, hn', hscope, hflags, hkind⟩ := h.node e n hn
    obtain ⟨n'', hn'', hscope', hflags', hkind'⟩ := hret.nodes e' n' hn'
    refine ⟨e', n'', he, hn'', hscope' ▸ hscope, hflags'.trans hflags, ?_⟩
    rcases hkind' with hkind' | ⟨hslot, x, hx⟩
    · exact hkind' ▸ hkind
    · rw [hslot] at hkind
      generalize n.kind = k at hkind
      cases hkind
      exact hx ▸ .empty _
  modules := h.modules.retain hret.modules
  resources := h.resources.retain hret.resources

theorem append {d : Graph} {e' k : Nat} (hsize : d.size = g.size + k)
    (hold : ∀ e < g.size, d.node? e = g.node? e) (hfree : ∀ i < k, ∀ x, ¬φ x (e' + i))
    (hnew : ∀ i < k, ∃ n n', d.node? (g.size + i) = some n ∧ g'.node? (e' + i) = some n' ∧
      n.Mirrors (φ.join g.size e' k) n')
    (hmodules : StoreMirrors (φ.join g.size e' k) d .moduleStore d.moduleStore g'.moduleStore)
    (hresources : StoreMirrors (φ.join g.size e' k) d .resourceStore d.resourceStore
      g'.resourceStore) : d.Mirrors (φ.join g.size e' k) g' where
  unique := Pairing.join_biUnique h.unique h.left hfree
  left e x' he := by
    rcases he with he | ⟨i, hi, rfl, _⟩
    · exact hsize ▸ Nat.lt_add_right k (h.left e x' he)
    · exact hsize ▸ Nat.add_lt_add_left hi _
  node e n hn := by
    have hlt := lt_size hn
    by_cases he : e < g.size
    · rw [hold e he] at hn
      obtain ⟨x', n', hx, hn', hmirrors⟩ := h.node e n hn
      exact ⟨x', n', .inl hx, hn', hmirrors.mono (φ.le_join _ _ _)⟩
    · obtain ⟨i, rfl⟩ := Nat.exists_eq_add_of_le (Nat.not_lt.1 he)
      have hi : i < k := Nat.lt_of_add_lt_add_left (hsize ▸ hlt)
      obtain ⟨m, n', hm, hn', hmirrors⟩ := hnew i hi
      rw [hn] at hm
      cases hm
      exact ⟨e' + i, n', φ.join_of_lt _ _ hi, hn', hmirrors⟩
  modules := hmodules
  resources := hresources

theorem change {d' : Graph} {e e' : NodeId} {k : Kind} (he : φ e e') (hstore : k.isStore = false)
    (hothers : ∀ x, x ≠ e' → d'.node? x = g'.node? x)
    (hself : ∀ n', g'.node? e' = some n' → ∃ n'', d'.node? e' = some n'' ∧ n''.scope = n'.scope ∧
      n''.flags = n'.flags ∧ k.Mirrors φ n''.kind)
    (hmodules : d'.moduleStore = g'.moduleStore)
    (hresources : d'.resourceStore = g'.resourceStore) : (g.setKind e k).Mirrors φ d' where
  unique := h.unique
  left x x' hx := (size_setKind ..).symm ▸ h.left x x' hx
  node x n hn := by
    rw [node?_setKind] at hn
    by_cases hxe : x = e
    · subst hxe
      rw [if_pos rfl] at hn
      obtain ⟨m, hm, rfl⟩ := Option.map_eq_some_iff.1 hn
      obtain ⟨n', hn', hmirrors⟩ := h.node_of he hm
      obtain ⟨n'', hn'', hscope, hflags, hkind⟩ := hself n' hn'
      exact ⟨e', n'', he, hn'', hscope ▸ hmirrors.scope, hflags.trans hmirrors.flags, hkind⟩
    · rw [if_neg hxe] at hn
      obtain ⟨x', n', hx, hn', hmirrors⟩ := h.node x n hn
      have hne : x' ≠ e' := by
        rintro rfl
        exact hxe (h.unique.left hx he)
      exact ⟨x', n', hx, (hothers x' hne).trans hn', hmirrors⟩
  modules := by
    rw [hmodules]
    exact h.modules.append (fun _ _ h => h) fun x hx => kindOf?_of_setKind hx fun hk => by
      rw [hk] at hstore
      cases hstore
  resources := by
    rw [hresources]
    exact h.resources.append (fun _ _ h => h) fun x hx => kindOf?_of_setKind hx fun hk => by
      rw [hk] at hstore
      cases hstore

theorem fill {slot slot' target target' : NodeId} (hslot : φ slot slot') (ht : φ target target')
    (hk : g'.kindOf? slot' = some (.slot (some target'))) :
    (g.setKind slot (.slot (some target))).Mirrors φ g' := by
  refine h.change hslot rfl (fun _ _ => rfl) (fun n' hn' => ⟨n', hn', rfl, rfl, ?_⟩) rfl rfl
  rw [kindOf?_of_node hn'] at hk
  rw [Option.some.inj hk]
  exact .slot ht

/-- The partner of a function is a function, whose body has come as far. -/
theorem function_of {f f' : NodeId} {arity : Nat} {state : BodyState} (hf : φ f f')
    (hk : g.kindOf? f = some (.function arity state)) :
    ∃ state', g'.kindOf? f' = some (.function arity state') ∧ state.Mirrors φ state' := by
  obtain ⟨n, hn, hkind⟩ := kindOf?_eq_some.1 hk
  obtain ⟨n', hn', hmirrors⟩ := h.node_of hf hn
  have hkind' := hmirrors.kind
  rw [hkind] at hkind'
  rw [kindOf?_of_node hn']
  generalize n'.kind = k' at hkind'
  cases hkind' with
  | function arity hstate => exact ⟨_, rfl, hstate⟩

theorem isFunction_eq {e e' : NodeId} (he : φ e e') : g'.isFunction e' = g.isFunction e := by
  obtain ⟨n, n', hn, hn', hmirrors⟩ := h.exists_node he
  rw [isFunction, isFunction, kindOf?_of_node hn, kindOf?_of_node hn']
  have hkind := hmirrors.kind
  generalize n.kind = k, n'.kind = k' at hkind
  cases hkind <;> rfl

theorem filled {e e' : NodeId} (he : φ e e') (hslot : g.isUnfilledSlot e ≠ true) :
    g'.isUnfilledSlot e' ≠ true := by
  obtain ⟨n, n', hn, hn', hmirrors⟩ := h.exists_node he
  rw [Ne, isUnfilledSlot_iff, kindOf?_of_node hn] at hslot
  rw [Ne, isUnfilledSlot_iff, kindOf?_of_node hn']
  have hkind := hmirrors.kind
  generalize n.kind = k, n'.kind = k' at hkind hslot
  rintro heq
  cases heq
  cases hkind
  exact hslot rfl

theorem children {e e' : NodeId} (he : φ e e') (hslot : g.isUnfilledSlot e ≠ true) :
    List.Forall₂ φ (g.children e) (g'.children e') := by
  obtain ⟨n, n', hn, hn', hmirrors⟩ := h.exists_node he
  rw [Ne, isUnfilledSlot_iff, kindOf?_of_node hn, Option.some_inj] at hslot
  rw [children_of_node hn, children_of_node hn']
  exact hmirrors.children hslot

theorem setBodyState {f f' : NodeId} {arity : Nat} {state old : BodyState} {state' : BodyState}
    (hf : φ f f') (hk : g.kindOf? f = some (.function arity old))
    (hstate : state.Mirrors φ state') :
    (g.setBodyState f state).Mirrors φ (g'.setBodyState f' state') := by
  obtain ⟨old', hk', _⟩ := h.function_of hf hk
  rw [setBodyState_eq hk, setBodyState_eq hk']
  refine h.change hf rfl (fun x hx => ?_) (fun m hm => ?_) rfl rfl
  · rw [node?_setKind, if_neg hx]
  · exact ⟨{ m with kind := .function arity state' }, by rw [node?_setKind, if_pos rfl, hm]; rfl,
      rfl, rfl, .function arity hstate⟩

/-- **A graph without empty slots has a copy in the other graph**, where each node is its partner.
-/
theorem copies (hg : g.Sound) (hg' : g'.Sound) (hslots : ∀ e, g.kindOf? e ≠ some (.slot none)) :
    g.Copies (φ.partner g'.size) g' where
  injective := Pairing.partner_injective h.unique fun _ _ => h.right
  node e := by
    cases hn : g.node? e with
    | some n =>
      obtain ⟨e', n', he, hn', hmirrors⟩ := h.node e n hn
      have hslot : n.kind ≠ .slot none := fun hk => hslots e (hk ▸ kindOf?_of_node hn)
      have hmap : n' = n.map (φ.partner g'.size) :=
        hmirrors.eq_map (fun _ _ he => Pairing.partner_eq h.unique _ he) hslot
      rw [Pairing.partner_eq h.unique _ he, hn', Option.map_some, hmap]
    | none =>
      have hnone : ¬∃ e', φ e e' := by
        rintro ⟨e', he⟩
        obtain ⟨n, _, hn', _⟩ := h.exists_node he
        rw [hn] at hn'
        cases hn'
      rw [Pairing.partner, dif_neg hnone, Option.map_none, ← Option.not_isSome_iff_eq_none,
        node?_isSome_iff]
      exact Nat.not_lt.2 (Nat.le_add_left _ _)
  source := hg
  target := hg'

end Mirrors

end Graph

end ScriptGraph
