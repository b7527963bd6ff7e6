import ScriptGraph.Proofs.Program.Labelling
import ScriptGraph.Proofs.Program.Placing
import ScriptGraph.Proofs.Program.Similarity

/-!
# Builders that lowering keeps in step

Two similar programs are lowered, the second one first. Whatever the first one makes then has its
partner among what the second one has made.

* `Related` : names that may be used for each other stand for partners;
* `Builder.Mirrors` : the nodes of a builder have partners in another one, and the bodies that are
  still to be built are those of similar functions;
* `Pairs`, `Unpaired` : the new partners are some of the new nodes, which had no partners before;
* `Builder.Mirrors.create`, `Builder.Mirrors.function` : it stays so when nodes are made that were
  made on the other side too.
-/

namespace ScriptGraph

variable {σ : Type} {V : Variation} {s : V.Scope} {φ ψ χ : Pairing}

/-- The pairs whose partner is older than a size. -/
def Pairing.below (φ : Pairing) (size : Nat) : Pairing := fun e e' => φ e e' ∧ e' < size

theorem Pairing.below_mono (hφ : φ ≤ ψ) {n n' : Nat} (hn : n ≤ n') : φ.below n ≤ ψ.below n' :=
  fun e e' h => ⟨hφ e e' h.1, Nat.lt_of_lt_of_le h.2 hn⟩

theorem Pairing.below_le (φ : Pairing) (n : Nat) : φ.below n ≤ φ := fun _ _ h => h.1

theorem Pairing.of_join_one (φ : Pairing) {e e' x x' : NodeId} (h : φ.join e e' 1 x x') :
    φ x x' ∨ x' = e' :=
  h.imp_right fun ⟨i, hi, _, hx'⟩ => by rw [hx', Nat.lt_one_iff.1 hi, Nat.add_zero]

/-- Names that may be used for each other stand for partners. -/
structure Related (V : Variation) (s : V.Scope) (φ : Pairing)
    (bodies bodies' : List (Binders NodeId)) : Prop where
  use : ∀ name name', V.use s name name' → ∀ e, innermost bodies name = some e →
    ∃ e', innermost bodies' name' = some e' ∧ φ e e'
  bound : ∀ name, V.bound s name → innermost bodies' name ≠ none

theorem Related.mono {bodies bodies' : List (Binders NodeId)} (h : Related V s φ bodies bodies')
    (hφ : φ ≤ ψ) : Related V s ψ bodies bodies' where
  use name name' huse e he := by
    obtain ⟨e', he', hpair⟩ := h.use name name' huse e he
    exact ⟨e', he', hφ e e' hpair⟩
  bound := h.bound

/-- Drafts of partners. -/
inductive Draft.Mirrors (φ : Pairing) : Draft → Draft → Prop
  | leaf {draft : Draft} (h : draft.IsLeaf) : Mirrors φ draft draft
  | template {ps ps' : List Part} (h : List.Forall₂ (Part.Mirrors φ) ps ps')
    (awaits inert optional : Bool) :
    Mirrors φ (.template ps awaits inert optional) (.template ps' awaits inert optional)
  | call {e e' : NodeId} {es es' : List NodeId} (h : φ e e') (hs : List.Forall₂ φ es es')
    (style : CallStyle) : Mirrors φ (.call e es style) (.call e' es' style)
  | slot : Mirrors φ .slot .slot

/-- Functions that are still to be built, from similar functions with related names around them. -/
def Twin (V : Variation) (φ : Pairing) (p q : NodeId × Recipe σ) : Prop :=
  ∃ (s : V.Scope) (f f' : CoreFunction) (bodies bodies' : List (Binders NodeId)),
    f.Similar V s f' ∧ Related V s φ bodies bodies' ∧
    (∀ i < f.params.length + 1, φ (p.1 + i) (q.1 + i)) ∧
    p.2 = TryBuild.recipe (f.lower bodies p.1 (List.range' (p.1 + 1) f.params.length)) ∧
    q.2 = TryBuild.recipe (f'.lower bodies' q.1 (List.range' (q.1 + 1) f'.params.length))

theorem Twin.mono {p q : NodeId × Recipe σ} (h : Twin V φ p q) (hφ : φ ≤ ψ) : Twin V ψ p q := by
  obtain ⟨s, f, f', bodies, bodies', hsim, hrel, hparams, hp, hq⟩ := h
  exact ⟨s, f, f', bodies, bodies', hsim, hrel.mono hφ, fun i hi => hφ _ _ (hparams i hi), hp, hq⟩

/-- What a builder has made, another one has made too. -/
structure Builder.Mirrors (V : Variation) (φ : Pairing) (b a : Builder σ) : Prop where
  graph : b.state.graph.Mirrors φ a.state.graph
  scopes : List.Forall₂ φ b.state.scopes a.state.scopes
  pending : ∀ p ∈ b.pending, ∃ q ∈ a.pending, Twin V φ p q

/-! ## New pairs -/

/-- There are more pairs. The new partners are nodes of an interval, or stores. -/
structure Pairs (g : Graph) (φ ψ : Pairing) (lo hi : Nat) : Prop where
  grows : φ ≤ ψ
  within : ∀ e e', ψ e e' → φ e e' ∨ g.IsStore e' ∨ lo ≤ e' ∧ e' < hi

/-- The nodes of an interval are no partners yet, apart from stores. -/
def Unpaired (g : Graph) (φ : Pairing) (lo hi : Nat) : Prop :=
  ∀ e e', φ e e' → lo ≤ e' → e' < hi → g.IsStore e'

theorem Pairs.refl (g : Graph) (φ : Pairing) (lo hi : Nat) : Pairs g φ φ lo hi :=
  ⟨fun _ _ h => h, fun _ _ h => .inl h⟩

theorem Pairs.trans {g : Graph} {lo hi : Nat} (h : Pairs g φ ψ lo hi) (h' : Pairs g ψ χ lo hi) :
    Pairs g φ χ lo hi where
  grows := fun e e' he => h'.grows e e' (h.grows e e' he)
  within e e' he := (h'.within e e' he).elim (h.within e e') .inr

theorem Pairs.mono {g : Graph} {lo hi lo' hi' : Nat} (h : Pairs g φ ψ lo hi) (hlo : lo' ≤ lo)
    (hhi : hi ≤ hi') : Pairs g φ ψ lo' hi' where
  grows := h.grows
  within e e' he := (h.within e e' he).imp_right fun he => he.imp_right fun ⟨hl, hr⟩ =>
    ⟨Nat.le_trans hlo hl, Nat.lt_of_lt_of_le hr hhi⟩

theorem Unpaired.mono {g : Graph} {lo hi lo' hi' : Nat} (h : Unpaired g φ lo hi) (hlo : lo ≤ lo')
    (hhi : hi' ≤ hi) : Unpaired g φ lo' hi' := fun e e' he hl hr =>
  h e e' he (Nat.le_trans hlo hl) (Nat.lt_of_lt_of_le hr hhi)

/-- Nodes of another interval become partners. -/
theorem Unpaired.pairs {g : Graph} {lo hi lo' hi' : Nat} (h : Unpaired g φ lo hi)
    (hpairs : Pairs g φ ψ lo' hi') (hapart : hi' ≤ lo ∨ hi ≤ lo') : Unpaired g ψ lo hi := by
  intro e e' he hl hr
  rcases hpairs.within e e' he with he | he | ⟨hl', hr'⟩
  · exact h e e' he hl hr
  · exact he
  · rcases hapart with hapart | hapart
    · exact absurd (Nat.lt_of_lt_of_le hr' (Nat.le_trans hapart hl)) (Nat.lt_irrefl e')
    · exact absurd (Nat.lt_of_lt_of_le hr (Nat.le_trans hapart hl')) (Nat.lt_irrefl e')

/-! ## New nodes -/

theorem Kind.Mirrors.isStore_eq {k k' : Kind} (h : k.Mirrors φ k') : k'.isStore = k.isStore := by
  cases h <;> rfl

namespace Graph

theorem kindOf?_of_push {g : Graph} {n : Node} {x : NodeId} {k : Kind}
    (h : (g.push n).kindOf? x = some k) : x = g.size ∧ n.kind = k ∨ g.kindOf? x = some k := by
  rw [kindOf?, node?_push] at h
  split at h
  · exact .inl ⟨by assumption, Option.some.inj h⟩
  · exact .inr h

namespace Mirrors

variable {g g' : Graph} (h : g.Mirrors φ g')

include h

theorem push_of {d : Graph} {n n' : Node} {e' : NodeId} (hd : d.nodes = (g.push n).nodes)
    (hn' : g'.node? e' = some n') (hnode : n.Mirrors φ n') (hfree : ∀ x, ¬φ x e')
    (hmodules : StoreMirrors (φ.join g.size e' 1) d .moduleStore d.moduleStore g'.moduleStore)
    (hresources : StoreMirrors (φ.join g.size e' 1) d .resourceStore d.resourceStore
      g'.resourceStore) : d.Mirrors (φ.join g.size e' 1) g' := by
  have hnodes : ∀ x, d.node? x = (g.push n).node? x := fun x => congrArg (·[x]?) hd
  have hsize : d.size = g.size + 1 := (congrArg Array.size hd).trans (Array.size_push _)
  refine h.append hsize (fun e he => ?_) (fun i hi => ?_) (fun i hi => ?_) hmodules hresources
  · exact (hnodes e).trans ((g.node?_push n e).trans (if_neg (Nat.ne_of_lt he)))
  · obtain rfl : i = 0 := Nat.lt_one_iff.1 hi
    exact hfree
  · obtain rfl : i = 0 := Nat.lt_one_iff.1 hi
    exact ⟨n, n', (hnodes _).trans ((g.node?_push n _).trans (if_pos rfl)), hn',
      hnode.mono (φ.le_join _ _ _)⟩

theorem push {n n' : Node} {e' : NodeId} (hn' : g'.node? e' = some n') (hnode : n.Mirrors φ n')
    (hstore : n.kind.isStore = false) (hfree : ∀ x, φ x e' → g'.IsStore e') :
    (g.push n).Mirrors (φ.join g.size e' 1) g' := by
  have hold : ∀ x k, k.isStore = true → (g.push n).kindOf? x = some k → g.kindOf? x = some k := by
    intro x k hk hx
    refine (kindOf?_of_push hx).resolve_left fun ⟨_, heq⟩ => ?_
    rw [← heq, hstore] at hk
    cases hk
  refine h.push_of rfl hn' hnode (fun x hx => ?_)
    (h.modules.append (φ.le_join _ _ _) fun x => hold x _ rfl)
    (h.resources.append (φ.le_join _ _ _) fun x => hold x _ rfl)
  obtain ⟨m, hm, hk⟩ := hfree x hx
  rw [hn'] at hm
  cases hm
  rw [hnode.kind.isStore_eq, hstore] at hk
  cases hk

/-- There is no store of the kind yet, so that of the other graph is no partner. -/
theorem not_paired_of_store {n : Node} {store : NodeId} {known : Option NodeId}
    (hknown : StoreMirrors φ g n.kind none known) (hn : g'.node? store = some n)
    (hstore : n.kind.isStore = true) (x : NodeId) : ¬φ x store := by
  intro hx
  obtain ⟨m, n', hm, hn', hmirrors⟩ := h.exists_node hx
  obtain rfl : n' = n := Option.some.inj (hn'.symm.trans hn)
  have hk : m.kind = n'.kind := by
    have hk := hmirrors.kind
    generalize m.kind = k, n'.kind = k' at hk hstore
    cases hk <;> first | rfl | cases hstore
  exact nomatch hknown.known x (hk ▸ kindOf?_of_node hm)

omit h in
/-- A store is made and becomes known. -/
theorem storeMirrors_new {d : Graph} {n : Node} {store : NodeId} {known : Option NodeId}
    (hd : d.nodes = (g.push n).nodes) (hknown : StoreMirrors φ g n.kind none known) :
    StoreMirrors (φ.join g.size store 1) d n.kind (some g.size) (some store) where
  known x hx := by
    have hx : (g.push n).kindOf? x = some n.kind := by
      rwa [kindOf?, node?, hd] at hx
    rcases kindOf?_of_push hx with ⟨rfl, _⟩ | hx
    · rfl
    · cases hknown.known x hx
  paired x hx := by
    cases hx
    exact ⟨store, φ.join_self _ _ _, rfl⟩

omit h in
theorem storeMirrors_other {d : Graph} {n : Node} {kind : Kind} {store : NodeId}
    {known known' : Option NodeId} (hd : d.nodes = (g.push n).nodes) (hne : n.kind ≠ kind)
    (hknown : StoreMirrors φ g kind known known') :
    StoreMirrors (φ.join g.size store 1) d kind known known' :=
  hknown.append (φ.le_join _ _ _) fun x hx => by
    rw [kindOf?, node?, hd] at hx
    exact (kindOf?_of_push hx).resolve_left fun heq => hne heq.2

omit h in
theorem moduleStore {s : BuilderState σ} (h : s.graph.Mirrors φ g') (hlinked : g'.Linked)
    {store : NodeId} (hstore : g'.moduleStore = some store) :
    ∃ ψ : Pairing, φ ≤ ψ ∧ (∀ e e', ψ e e' → φ e e' ∨ e' = store) ∧
      s.moduleStore.2.graph.Mirrors ψ g' ∧ ψ s.moduleStore.1 store := by
  have hnode := hlinked.modules store hstore
  unfold BuilderState.moduleStore
  split
  · rename_i e he
    obtain ⟨e', hpair, he'⟩ := h.modules.paired e he
    rw [hstore] at he'
    cases he'
    exact ⟨φ, fun _ _ h => h, fun _ _ => .inl, h, hpair⟩
  · rename_i hnone
    have hmodules := h.modules
    rw [hnone] at hmodules
    refine ⟨φ.join s.graph.size store 1, φ.le_join _ _ _, fun _ _ => φ.of_join_one, ?_,
      φ.join_self _ _ _⟩
    refine h.push_of rfl hnode ⟨.none, rfl, .moduleStore⟩
      (h.not_paired_of_store hmodules hnode rfl) ?_
      (storeMirrors_other rfl (by simp) h.resources)
    rw [hstore]
    exact storeMirrors_new (n := .modules) rfl hmodules

omit h in
theorem resourceStore {s : BuilderState σ} (h : s.graph.Mirrors φ g') (hlinked : g'.Linked)
    {store : NodeId} (hstore : g'.resourceStore = some store) :
    ∃ ψ : Pairing, φ ≤ ψ ∧ (∀ e e', ψ e e' → φ e e' ∨ e' = store) ∧
      s.resourceStore.2.graph.Mirrors ψ g' ∧ ψ s.resourceStore.1 store := by
  have hnode := hlinked.resources store hstore
  unfold BuilderState.resourceStore
  split
  · rename_i e he
    obtain ⟨e', hpair, he'⟩ := h.resources.paired e he
    rw [hstore] at he'
    cases he'
    exact ⟨φ, fun _ _ h => h, fun _ _ => .inl, h, hpair⟩
  · rename_i hnone
    have hresources := h.resources
    rw [hnone] at hresources
    refine ⟨φ.join s.graph.size store 1, φ.le_join _ _ _, fun _ _ => φ.of_join_one, ?_,
      φ.join_self _ _ _⟩
    refine h.push_of rfl hnode ⟨.none, rfl, .resourceStore⟩
      (h.not_paired_of_store hresources hnode rfl) (storeMirrors_other rfl (by simp) h.modules) ?_
    rw [hstore]
    exact storeMirrors_new (n := .resources) rfl hresources

omit h in
/-- A node is made in the current scope, as one was on the other side. -/
theorem make {s s' : BuilderState σ} (h : s.graph.Mirrors φ g')
    (hscope : Option.Rel φ s.scope s'.scope) {kind kind' : Kind} (hkind : kind.Mirrors φ kind')
    (hstore : kind.isStore = false) (flags : Flags)
    (hret : (s'.make flags kind').2.graph.Retains g')
    (hfree : ∀ x, φ x s'.graph.size → g'.IsStore s'.graph.size) :
    (s.make flags kind).2.graph.Mirrors (φ.join s.graph.size s'.graph.size 1) g' := by
  have hnode : (s'.make flags kind').2.graph.node? s'.graph.size = some ⟨s'.scope, flags, kind'⟩ :=
    (s'.graph.node?_push _ _).trans (if_pos rfl)
  obtain ⟨n', hn', hscope', hflags', hkind'⟩ := hret.nodes _ _ hnode
  refine h.push hn' ⟨hscope' ▸ hscope, hflags', ?_⟩ hstore hfree
  dsimp only at hkind' ⊢
  rcases hkind' with hkind' | ⟨rfl, x, hx⟩
  · exact hkind' ▸ hkind
  · rw [hx]
    cases hkind
    exact .empty _

end Mirrors

end Graph

/-! ## Operations on both sides -/

theorem BuilderState.moduleStore_known (s : BuilderState σ) :
    s.moduleStore.2.graph.moduleStore = some s.moduleStore.1 := by
  unfold moduleStore
  split
  · assumption
  · rfl

theorem BuilderState.resourceStore_known (s : BuilderState σ) :
    s.resourceStore.2.graph.resourceStore = some s.resourceStore.1 := by
  unfold resourceStore
  split
  · assumption
  · rfl

/-- The nodes that were made on the way to `c` have got partners in an interval, apart from stores. -/
def Catches (V : Variation) (a : Builder σ) (φ : Pairing) (c : Builder σ) (lo hi : Nat)
    (P : Pairing → Prop) : Prop :=
  ∃ ψ, Pairs a.state.graph φ ψ lo hi ∧ c.Mirrors V ψ a ∧ P ψ

namespace Builder.Mirrors

variable {a b c d : Builder σ} (h : b.Mirrors V φ a)

include h

theorem of_graph (hφ : φ ≤ ψ) (hgraph : c.state.graph.Mirrors ψ a.state.graph)
    (hscopes : c.state.scopes = b.state.scopes) (hpending : c.pending = b.pending) :
    c.Mirrors V ψ a where
  graph := hgraph
  scopes := hscopes ▸ forall₂_mono hφ h.scopes
  pending p hp := by
    obtain ⟨q, hq, htwin⟩ := h.pending p (hpending ▸ hp)
    exact ⟨q, hq, htwin.mono hφ⟩

theorem retain (hret : a.Retains c) : b.Mirrors V φ c where
  graph := h.graph.retain hret.graph
  scopes := hret.leads.2 ▸ h.scopes
  pending p hp := by
    obtain ⟨q, hq, htwin⟩ := h.pending p hp
    exact ⟨q, hret.pending hq, htwin⟩

theorem scope (hd : d.Retains a) : Option.Rel φ b.state.scope d.state.scope := by
  have hscopes := h.scopes
  rw [hd.leads.2] at hscopes
  rw [BuilderState.scope, BuilderState.scope]
  generalize b.state.scopes = l, d.state.scopes = l' at hscopes ⊢
  cases hscopes with
  | nil => exact .none
  | cons hf _ => exact .some hf

omit h in
theorem flagsOf_eq {e : NodeId} (hret : d.Retains a) (he : e < d.state.graph.size) :
    a.state.graph.flagsOf e = d.state.graph.flagsOf e := by
  obtain ⟨n, hn⟩ := Graph.exists_node he
  obtain ⟨n', hn', _, hflags, _⟩ := hret.graph.nodes e n hn
  rw [Graph.flagsOf_of_node hn, Graph.flagsOf_of_node hn', hflags]

/-- Partners depend on resources alike. -/
theorem anyReadsResource_eq (hret : d.Retains a) {es es' : List NodeId}
    (hes : List.Forall₂ (φ.below d.state.graph.size) es es') :
    d.state.anyReadsResource es' = b.state.anyReadsResource es := by
  induction hes with
  | nil => rfl
  | @cons e e' _ _ he _ ih =>
    have hflags := (flagsOf_eq hret he.2).symm.trans (h.graph.flagsOf_eq he.1)
    exact congrArg₂ or (congrArg Flags.readsResource hflags) ih

/-- A node is made in the current scope, perhaps after a store. -/
theorem catches_make {s s' : BuilderState σ} (hχ : φ ≤ χ)
    (hwithin : ∀ e e', χ e e' → φ e e' ∨ a.state.graph.IsStore e')
    (hs : s.graph.Mirrors χ a.state.graph) (hscopes : s.scopes = b.state.scopes)
    (hscopes' : s'.scopes = d.state.scopes) (hd : d.Retains a) {kind kind' : Kind}
    (hkind : kind.Mirrors χ kind') (hstore : kind.isStore = false) (flags : Flags)
    (hret : (s'.make flags kind').2.graph.Retains a.state.graph)
    (hlo : d.state.graph.size ≤ s'.graph.size)
    (hun : Unpaired a.state.graph φ d.state.graph.size (s'.make flags kind').2.graph.size) :
    Catches V a φ (b.update (s.make flags kind).2) d.state.graph.size
      (s'.make flags kind').2.graph.size
      fun ψ => ψ.below (s'.make flags kind').2.graph.size s.graph.size s'.graph.size := by
  have hsize : s'.graph.size < (s'.make flags kind').2.graph.size :=
    Nat.lt_of_lt_of_eq (Nat.lt_succ_self _) (Array.size_push _).symm
  have hscope : Option.Rel χ s.scope s'.scope := by
    rw [BuilderState.scope, BuilderState.scope, hscopes, hscopes']
    exact scope_mono hχ (h.scope hd)
  have hgraph := hs.make hscope hkind hstore flags hret fun x hx =>
    (hwithin x _ hx).elim (fun hx => hun x _ hx hlo hsize) id
  refine ⟨_, ⟨fun e e' he => .inl (hχ e e' he), fun e e' he => ?_⟩,
    h.of_graph (fun e e' he => .inl (hχ e e' he)) hgraph hscopes rfl, Pairing.join_self _ _ _ _,
    hsize⟩
  rcases Pairing.of_join_one _ he with he | rfl
  · exact (hwithin e e' he).imp_right .inl
  · exact .inr (.inr ⟨hlo, hsize⟩)

/-- A node is made in the current scope, and no store. -/
theorem catches_plain {s s' : BuilderState σ} (hs : s.graph = b.state.graph)
    (hscopes : s.scopes = b.state.scopes) (hs' : s'.graph = d.state.graph)
    (hscopes' : s'.scopes = d.state.scopes) (hd : d.Retains a) {kind kind' : Kind}
    (hkind : kind.Mirrors φ kind') (hstore : kind.isStore = false) (flags : Flags)
    (hret : (s'.make flags kind').2.graph.Retains a.state.graph)
    (hun : Unpaired a.state.graph φ d.state.graph.size (s'.make flags kind').2.graph.size) :
    Catches V a φ (b.update (s.make flags kind).2) d.state.graph.size
      (s'.make flags kind').2.graph.size
      fun ψ => ψ.below (s'.make flags kind').2.graph.size s.graph.size s'.graph.size :=
  h.catches_make (fun _ _ h => h) (fun _ _ => .inl) (hs ▸ h.graph) hscopes hscopes' hd hkind hstore
    flags hret (hs' ▸ Nat.le_refl _) hun

theorem create {draft draft' : Draft} (hdraft : draft.Mirrors (φ.below d.state.graph.size) draft')
    (hret : (d.perform (.create draft')).Retains a) (hlinked : a.state.graph.Linked)
    (hun : Unpaired a.state.graph φ d.state.graph.size
      (d.perform (.create draft')).state.graph.size) :
    Catches V a φ (b.perform (.create draft)) d.state.graph.size
      (d.perform (.create draft')).state.graph.size
      fun ψ => ψ.below (d.perform (.create draft')).state.graph.size (b.state.create draft).1
        (d.state.create draft').1 := by
  have hd : d.Retains a := (Builder.Appends.create d draft').retains.trans hret
  have hle : φ.below d.state.graph.size ≤ φ := φ.below_le _
  cases hdraft with
  | slot => exact h.catches_plain rfl rfl rfl rfl hd (.empty none) rfl _ hret.graph hun
  | @template ps ps' hps awaits inert optional =>
    have hcreate : b.state.create (.template ps awaits inert optional) =
        b.state.make { awaits, inert, optional, readsResource :=
          d.state.anyReadsResource (ps'.filterMap Part.node?) } (.template ps) := by
      rw [h.anyReadsResource_eq hd (filterMap_node?_mirrors hps)]
      rfl
    rw [Builder.perform, hcreate]
    exact h.catches_plain rfl rfl rfl rfl hd
      (.template (hps.imp fun _ _ => Part.Mirrors.mono hle)) rfl _ hret.graph hun
  | @call e e' es es' he hes style =>
    have hcreate : b.state.create (.call e es style) = b.state.make
        { BuilderState.callFlags style with
          readsResource := d.state.anyReadsResource (e' :: es') } (.call e es) := by
      rw [h.anyReadsResource_eq hd (.cons he hes)]
      rfl
    rw [Builder.perform, hcreate]
    exact h.catches_plain rfl rfl rfl rfl hd (.call he.1 (forall₂_mono hle hes)) rfl _ hret.graph
      hun
  | leaf hleaf =>
    cases draft with
    | raw code | literal code =>
      exact h.catches_plain rfl rfl rfl rfl hd (.text code) rfl _ hret.graph hun
    | placeholder => exact h.catches_plain rfl rfl rfl rfl hd .placeholder rfl _ hret.graph hun
    | ident name =>
      simp only [Builder.perform, BuilderState.create] at hret hun ⊢
      split at hret
      · rename_i hname
        simp only [hname, if_true] at hun ⊢
        exact h.catches_plain rfl rfl rfl rfl hd (.text name) rfl _ hret.graph hun
      · rename_i hname
        simp only [hname] at hun ⊢
        exact h.catches_plain (s := b.state.warn _) rfl rfl
          (rfl : (d.state.warn _).graph = d.state.graph) rfl hd (.text name) rfl _ hret.graph hun
    | module address =>
      have hknown := hret.graph.modules _ d.state.moduleStore_known
      obtain ⟨χ, hχ, hwithin, hs, hstore⟩ := h.graph.moduleStore hlinked hknown
      refine h.catches_make hχ (fun e e' he => (hwithin e e' he).imp_right fun heq => ?_) hs
        b.state.moduleStore_scopes d.state.moduleStore_scopes hd (.moduleRef hstore address) rfl _
        hret.graph d.state.moduleStore_extends.size_le hun
      exact ⟨_, heq ▸ hlinked.modules _ hknown, rfl⟩
    | resource key value =>
      have hknown := hret.graph.resources _ d.state.resourceStore_known
      obtain ⟨χ, hχ, hwithin, hs, hstore⟩ := h.graph.resourceStore hlinked hknown
      refine h.catches_make hχ (fun e e' he => (hwithin e e' he).imp_right fun heq => ?_) hs
        b.state.resourceStore_scopes d.state.resourceStore_scopes hd
        (.resourceRef hstore key value) rfl _ hret.graph d.state.resourceStore_extends.size_le hun
      exact ⟨_, heq ▸ hlinked.resources _ hknown, rfl⟩
    | _ => cases hleaf

theorem fill {slot slot' target target' : NodeId}
    (hslot : b.state.graph.kindOf? slot = some (.slot none)) (hpair : φ slot slot')
    (htarget : φ target target')
    (hk : a.state.graph.kindOf? slot' = some (.slot (some target'))) :
    (b.perform (.fill slot target)).Mirrors V φ a := by
  refine h.of_graph (fun _ _ h => h) ?_ (b.state.fill_scopes slot target) rfl
  rw [fill_graph hslot]
  exact h.graph.fill hpair htarget hk

end Builder.Mirrors

/-! ## Functions on both sides -/

namespace Graph

/-- What is made with a function: the function, and its parameters. -/
def functionNode (g : Graph) (scope : Scope) (arity : Nat) : Nat → Node
  | 0 => ⟨scope, {}, .function arity .pending⟩
  | i + 1 => ⟨some g.size, .literal, .parameter i⟩

theorem node?_pushFunction_add (g : Graph) (scope : Scope) (arity : Nat) {i : Nat}
    (hi : i < arity + 1) :
    (g.pushFunction scope arity).node? (g.size + i) = some (g.functionNode scope arity i) := by
  rw [node?_pushFunction, if_neg (Nat.not_lt.2 (Nat.le_add_right _ _))]
  cases i with
  | zero => exact if_pos rfl
  | succ i =>
    have hsub : g.size + (i + 1) - (g.size + 1) = i := by
      rw [Nat.add_comm i 1, ← Nat.add_assoc, Nat.add_sub_cancel_left]
    rw [if_neg (Nat.ne_of_gt (Nat.lt_add_of_pos_right i.succ_pos)), hsub,
      if_pos (Nat.lt_of_succ_lt_succ hi)]
    rfl

theorem size_pushFunction (g : Graph) (scope : Scope) (arity : Nat) :
    (g.pushFunction scope arity).size = g.size + (arity + 1) := by
  simp [size, pushFunction]

theorem params_pushFunction (g : Graph) (scope : Scope) (arity : Nat) :
    (g.pushFunction scope arity).params g.size = List.range' (g.size + 1) arity :=
  params_of_kind (kindOf?_of_node (g.node?_pushFunction_add scope arity arity.succ_pos))

variable {g g' : Graph}

theorem Mirrors.pushFunction (h : g.Mirrors φ g') {d : Graph} {scope scope' : Scope}
    (hscope : Option.Rel φ scope scope') (arity : Nat)
    (hret : (d.pushFunction scope' arity).Retains g')
    (hfree : ∀ i < arity + 1, ∀ x, φ x (d.size + i) → g'.IsStore (d.size + i)) :
    (g.pushFunction scope arity).Mirrors (φ.join g.size d.size (arity + 1)) g' := by
  have hnode : ∀ i < arity + 1, g'.node? (d.size + i) = some (d.functionNode scope' arity i) :=
    fun i hi => hret.node (d.node?_pushFunction_add scope' arity hi) (by cases i <;> exact nofun)
  have hold : ∀ x k, k.isStore = true → (g.pushFunction scope arity).kindOf? x = some k →
      g.kindOf? x = some k := by
    intro x k hk hx
    rcases Nat.lt_or_ge x g.size with hlt | hge
    · rwa [kindOf?, node?_pushFunction, if_pos hlt] at hx
    · obtain ⟨n, hn, rfl⟩ := kindOf?_eq_some.1 hx
      rcases BuilderState.eq_or_parameter_of_node?_pushFunction hge hn with ⟨_, rfl⟩ | ⟨i, hi⟩
      · cases hk
      · rw [hi] at hk
        cases hk
  refine h.append (g.size_pushFunction scope arity) (fun e he => ?_) (fun i hi x hx => ?_)
    (fun i hi => ⟨_, _, g.node?_pushFunction_add scope arity hi, hnode i hi, ?_⟩)
    (h.modules.append (φ.le_join _ _ _) fun x => hold x _ rfl)
    (h.resources.append (φ.le_join _ _ _) fun x => hold x _ rfl)
  · rw [node?_pushFunction, if_pos he]
  · obtain ⟨m, hm, hk⟩ := hfree i hi x hx
    rw [hnode i hi] at hm
    cases hm
    cases i <;> cases hk
  · cases i with
    | zero => exact ⟨scope_mono (φ.le_join _ _ _) hscope, rfl, .function arity .pending⟩
    | succ i => exact ⟨.some (φ.join_self _ _ _), rfl, .parameter i⟩

end Graph

/-- A function is made, and a similar one was made on the other side. -/
theorem Builder.Mirrors.function {a b d : Builder σ} (h : b.Mirrors V φ a) {f f' : CoreFunction}
    {bodies bodies' : List (Binders NodeId)} (hsim : f.Similar V s f')
    (hrel : Related V s φ bodies bodies')
    (hret : (d.perform (.function f'.params.length fun me args =>
      TryBuild.recipe (f'.lower bodies' me args))).Retains a)
    (hun : Unpaired a.state.graph φ d.state.graph.size (d.perform (.function f'.params.length
      fun me args => TryBuild.recipe (f'.lower bodies' me args))).state.graph.size) :
    Catches V a φ (b.perform (.function f.params.length fun me args =>
        TryBuild.recipe (f.lower bodies me args))) d.state.graph.size
      (d.perform (.function f'.params.length fun me args =>
        TryBuild.recipe (f'.lower bodies' me args))).state.graph.size
      fun ψ => ψ.below (d.perform (.function f'.params.length fun me args =>
        TryBuild.recipe (f'.lower bodies' me args))).state.graph.size b.state.graph.size
        d.state.graph.size := by
  have hd : d.Retains a := (Builder.Appends.function d _ _).retains.trans hret
  have hparams : f'.params.length = f.params.length := by
    cases hsim with
    | mk henter => exact V.params_length henter
  have hsize : (d.perform (.function f'.params.length fun me args =>
      TryBuild.recipe (f'.lower bodies' me args))).state.graph.size =
      d.state.graph.size + (f.params.length + 1) := by
    rw [← hparams]
    exact d.state.graph.size_pushFunction d.state.scope _
  have hφ := φ.le_join b.state.graph.size d.state.graph.size (f.params.length + 1)
  rw [hsize] at hun ⊢
  refine ⟨_, ⟨hφ, fun e e' he => ?_⟩, ⟨?_, forall₂_mono hφ h.scopes, fun p hp => ?_⟩,
    φ.join_self _ _ _, Nat.lt_add_of_pos_right (Nat.succ_pos _)⟩
  · refine he.imp_right fun ⟨i, hi, _, he'⟩ => .inr ?_
    rw [he']
    exact ⟨Nat.le_add_right _ _, Nat.add_lt_add_left hi _⟩
  · have hgraph := hret.graph
    rw [hparams] at hgraph
    exact h.graph.pushFunction (h.scope hd) f.params.length hgraph fun i hi x hx =>
      hun x _ hx (Nat.le_add_right _ _) (Nat.add_lt_add_left hi _)
  · rcases List.mem_append.1 hp with hp | hp
    · obtain ⟨q, hq, htwin⟩ := h.pending p hp
      exact ⟨q, hq, htwin.mono hφ⟩
    · rw [List.mem_singleton] at hp
      refine ⟨_, hret.pending (List.mem_append_right _ (List.mem_singleton_self _)), ?_⟩
      subst hp
      exact ⟨s, f, f', bodies, bodies', hsim, hrel.mono hφ, fun i hi => φ.join_of_lt _ _ hi,
        congrArg (fun args => TryBuild.recipe (f.lower bodies _ args))
          (b.state.graph.params_pushFunction _ _),
        congrArg (fun args => TryBuild.recipe (f'.lower bodies' _ args))
          (d.state.graph.params_pushFunction _ _)⟩

end ScriptGraph
