import ScriptGraph.Proofs.Builder.Growth
import ScriptGraph.Proofs.Builder.Operation

/-!
# What holds of every graph that operations lead to

* `Node.Sound` : a node's scope is an older function; functions have no flags and are followed by
  their parameters; a parameter belongs to its function; the stores are pinned to the top level;
* `BuilderState.Sound` : the nodes are sound, and the functions under construction are building;
* `Builder.perform_sound_extends` : one operation keeps this, and nodes only grow;
* `Builder.Reached.sound`, `Builder.Leads.extends` : many.
-/

namespace ScriptGraph

/-- What a node of each kind owes to the graph around it. -/
def Kind.Sound (g : Graph) (e : NodeId) (n : Node) : Kind → Prop
  | .function arity _ => n.flags = {} ∧
    ∀ i < arity, ∃ m, g.node? (e + 1 + i) = some m ∧ m.scope = some e ∧ m.kind = .parameter i
  | .parameter i => n.flags = .literal ∧
    ∃ f arity state, n.scope = some f ∧ g.kindOf? f = some (.function arity state) ∧ i < arity ∧
      e = f + 1 + i
  | .moduleStore => n.flags.pinned = true ∧ n.scope = none
  | .resourceStore => n.flags.pinned = true ∧ n.scope = none
  | _ => True

structure Node.Sound (g : Graph) (e : NodeId) (n : Node) : Prop where
  scope : ∀ f, n.scope = some f → f < e ∧ g.isFunction f = true
  kind : n.kind.Sound g e n

theorem Node.Sound.grow {g g' : Graph} {e : NodeId} {n n' : Node} (h : n.Sound g e)
    (hg : g.Extends g') (hn : n.Grows n') : n'.Sound g' e := by
  refine ⟨fun f hf => ?_, ?_⟩
  · rw [hn.scope] at hf
    exact ⟨(h.scope f hf).1, hg.isFunction (h.scope f hf).2⟩
  · obtain ⟨hscope, hflags, hkind⟩ := hn
    have hsound := h.kind
    have hparams : ∀ arity, (∀ i < arity, ∃ m, g.node? (e + 1 + i) = some m ∧ m.scope = some e ∧
        m.kind = .parameter i) → ∀ i < arity, ∃ m, g'.node? (e + 1 + i) = some m ∧
        m.scope = some e ∧ m.kind = .parameter i := by
      intro arity hall i hi
      obtain ⟨m, hm, hms, hmk⟩ := hall i hi
      obtain ⟨m', hm', hgrow⟩ := hg _ m hm
      refine ⟨m', hm', hgrow.scope.trans hms, ?_⟩
      have := hgrow.kind
      rw [hmk] at this
      generalize m'.kind = k at this
      cases this
      rfl
    generalize n.kind = k at hkind hsound
    generalize n'.kind = k' at hkind
    cases hkind with
    | refl =>
      cases k with
      | function arity state =>
        exact ⟨hflags.trans hsound.1, hparams arity hsound.2⟩
      | parameter i =>
        obtain ⟨hlit, f, arity, state, hf, hk, hi, he⟩ := hsound
        obtain ⟨k', hk', hgrow⟩ := hg.kind hk
        refine ⟨hflags.trans hlit, ?_⟩
        cases hgrow <;> exact ⟨f, arity, _, hscope.trans hf, hk', hi, he⟩
      | moduleStore => exact ⟨hflags ▸ hsound.1, hscope.trans hsound.2⟩
      | resourceStore => exact ⟨hflags ▸ hsound.1, hscope.trans hsound.2⟩
      | _ => trivial
    | fill => trivial
    | advance => exact ⟨hflags.trans hsound.1, hparams _ hsound.2⟩

namespace Graph

def Sound (g : Graph) : Prop := ∀ e n, g.node? e = some n → n.Sound g e

theorem sound_empty : ({} : Graph).Sound := by
  intro e n h
  simp [node?] at h

theorem Sound.of_nodes {g g' : Graph} (h : g.Sound) (hnodes : g'.nodes = g.nodes) : g'.Sound := by
  obtain ⟨nodes, m, r⟩ := g
  obtain ⟨nodes', m', r'⟩ := g'
  subst hnodes
  intro e n hn
  exact ⟨(h e n hn).scope, (h e n hn).kind⟩

theorem Sound.push {g : Graph} (h : g.Sound) {n : Node} (hn : n.Sound (g.push n) g.size) :
    (g.push n).Sound := by
  intro e m hm
  rw [node?_push] at hm
  by_cases he : e = g.size
  · rw [if_pos he, Option.some.injEq] at hm
    subst hm he
    exact hn
  · rw [if_neg he] at hm
    exact (h e m hm).grow (g.extends_push n) (.refl m)

theorem Sound.pushFunction {g : Graph} (h : g.Sound) {scope : Scope}
    (hscope : ∀ f, scope = some f → f < g.size ∧ g.isFunction f = true) (arity : Nat) :
    (g.pushFunction scope arity).Sound := by
  have hext := g.extends_pushFunction scope arity
  have hnew : (g.pushFunction scope arity).kindOf? g.size = some (.function arity .pending) := by
    simp [kindOf?, node?_pushFunction]
  intro e m hm
  rw [node?_pushFunction] at hm
  by_cases hlt : e < g.size
  · rw [if_pos hlt] at hm
    exact (h e m hm).grow hext (.refl m)
  rw [if_neg hlt] at hm
  by_cases heq : e = g.size
  · rw [if_pos heq, Option.some.injEq] at hm
    subst hm heq
    refine ⟨fun f hf => ⟨(hscope f hf).1, hext.isFunction (hscope f hf).2⟩, rfl, fun i hi => ?_⟩
    refine ⟨⟨some g.size, .literal, .parameter i⟩, ?_, rfl, rfl⟩
    have hgt : g.size < g.size + 1 + i := Nat.lt_of_lt_of_le (Nat.lt_add_one _) (Nat.le_add_right ..)
    rw [node?_pushFunction, if_neg (Nat.lt_asymm hgt), if_neg (Nat.ne_of_gt hgt),
      Nat.add_sub_cancel_left, if_pos hi]
  · rw [if_neg heq] at hm
    by_cases hi : e - (g.size + 1) < arity
    · rw [if_pos hi, Option.some.injEq] at hm
      subst hm
      have hgt : g.size < e := Nat.lt_of_le_of_ne (Nat.not_lt.1 hlt) (Ne.symm heq)
      refine ⟨?_, rfl, g.size, arity, .pending, rfl, hnew, hi, ?_⟩
      · rintro f ⟨⟩
        exact ⟨hgt, isFunction_iff.2 ⟨_, _, hnew⟩⟩
      · exact (Nat.add_sub_of_le hgt).symm
    · rw [if_neg hi] at hm
      cases hm

theorem Sound.setKind {g : Graph} (h : g.Sound) {e : NodeId} {k k' : Kind}
    (hk : g.kindOf? e = some k) (hgrow : k.Grows k') : (g.setKind e k').Sound := by
  have hext := extends_setKind hk hgrow
  intro x n hn
  have hx : x < g.size := by
    rw [node?_setKind] at hn
    split at hn
    · obtain ⟨m, hm, _⟩ := Option.map_eq_some_iff.1 hn
      exact lt_size hm
    · exact lt_size hn
  obtain ⟨m, hm⟩ := exists_node hx
  obtain ⟨m', hm', hmm⟩ := hext x m hm
  rw [hn, Option.some.injEq] at hm'
  subst hm'
  exact (h x m hm).grow hext hmm

end Graph

/-! ## States of builders -/

/-- The graph is sound, and the functions under construction are different and building. -/
structure BuilderState.Sound {σ : Type} (s : BuilderState σ) : Prop where
  graph : s.graph.Sound
  building : ∀ f ∈ s.scopes, ∃ arity, s.graph.kindOf? f = some (.function arity .building)
  nodup : s.scopes.Nodup

namespace BuilderState

variable {σ : Type}

theorem Sound.scope {s : BuilderState σ} (h : s.Sound) {f : NodeId} (hf : s.scope = some f) :
    f < s.graph.size ∧ s.graph.isFunction f = true := by
  obtain ⟨arity, hk⟩ := h.building f (List.mem_of_head? hf)
  obtain ⟨n, hn, _⟩ := Graph.kindOf?_eq_some.1 hk
  exact ⟨Graph.lt_size hn, Graph.isFunction_iff.2 ⟨arity, _, hk⟩⟩

/-- Building functions stay so in a graph where no body is advanced. -/
theorem Sound.building_of_nodes {s : BuilderState σ} (h : s.Sound) {g : Graph}
    (hg : ∀ e n, s.graph.node? e = some n → g.node? e = some n) :
    ∀ f ∈ s.scopes, ∃ arity, g.kindOf? f = some (.function arity .building) := by
  intro f hf
  obtain ⟨arity, hk⟩ := h.building f hf
  obtain ⟨n, hn, hkind⟩ := Graph.kindOf?_eq_some.1 hk
  exact ⟨arity, Graph.kindOf?_eq_some.2 ⟨n, hg f n hn, hkind⟩⟩

theorem Sound.push {s : BuilderState σ} (h : s.Sound) {scope : Scope} {flags : Flags} {kind : Kind}
    (hscope : scope = none ∨ scope = s.scope)
    (hkind : kind.Sound (s.graph.push ⟨scope, flags, kind⟩) s.graph.size ⟨scope, flags, kind⟩) :
    (s.push scope flags kind).2.Sound := by
  have hold : ∀ e n, s.graph.node? e = some n →
      (s.graph.push ⟨scope, flags, kind⟩).node? e = some n := fun e n hn => by
    rw [Graph.node?_push, if_neg (Nat.ne_of_lt (Graph.lt_size hn)), hn]
  refine ⟨h.graph.push ⟨fun f hf => ?_, hkind⟩, h.building_of_nodes hold, h.nodup⟩
  rcases hscope with rfl | rfl
  · cases hf
  · exact ⟨(h.scope hf).1, (s.graph.extends_push _).isFunction (h.scope hf).2⟩

theorem Sound.make {s : BuilderState σ} (h : s.Sound) {flags : Flags} {kind : Kind}
    (hkind : kind.Sound (s.graph.push ⟨s.scope, flags, kind⟩) s.graph.size ⟨s.scope, flags, kind⟩) :
    (s.make flags kind).2.Sound :=
  h.push (.inr rfl) hkind

theorem Sound.warn {s : BuilderState σ} (h : s.Sound) (w : Warning) : (s.warn w).Sound :=
  ⟨h.graph, h.building, h.nodup⟩

theorem Sound.moduleStore {s : BuilderState σ} (h : s.Sound) : s.moduleStore.2.Sound := by
  unfold BuilderState.moduleStore
  split
  · exact h
  · have hpush : (s.push none { pinned := true, awaits := true } .moduleStore).2.Sound :=
      h.push (.inl rfl) ⟨rfl, rfl⟩
    exact ⟨hpush.graph.of_nodes rfl, hpush.building, hpush.nodup⟩

theorem Sound.resourceStore {s : BuilderState σ} (h : s.Sound) : s.resourceStore.2.Sound := by
  unfold BuilderState.resourceStore
  split
  · exact h
  · have hpush : (s.push none { pinned := true } .resourceStore).2.Sound :=
      h.push (.inl rfl) ⟨rfl, rfl⟩
    exact ⟨hpush.graph.of_nodes rfl, hpush.building, hpush.nodup⟩

theorem moduleStore_extends (s : BuilderState σ) : s.graph.Extends s.moduleStore.2.graph := by
  unfold moduleStore
  split
  · exact .refl _
  · exact s.graph.extends_push _

theorem resourceStore_extends (s : BuilderState σ) : s.graph.Extends s.resourceStore.2.graph := by
  unfold resourceStore
  split
  · exact .refl _
  · exact s.graph.extends_push _

theorem Sound.create {s : BuilderState σ} (h : s.Sound) (draft : Draft) :
    (s.create draft).2.Sound := by
  cases draft with
  | ident name =>
    simp only [BuilderState.create]
    split
    · exact h.make trivial
    · exact (h.warn _).make trivial
  | moduleStore => exact h.moduleStore
  | resourceStore => exact h.resourceStore
  | module address => exact h.moduleStore.make trivial
  | resource key value => exact h.resourceStore.make trivial
  | _ => exact h.make trivial

theorem create_extends (s : BuilderState σ) (draft : Draft) :
    s.graph.Extends (s.create draft).2.graph := by
  cases draft with
  | ident name =>
    simp only [create]
    split <;> exact s.graph.extends_push _
  | moduleStore => exact s.moduleStore_extends
  | resourceStore => exact s.resourceStore_extends
  | module address => exact s.moduleStore_extends.trans (Graph.extends_push _ _)
  | resource key value => exact s.resourceStore_extends.trans (Graph.extends_push _ _)
  | _ => exact s.graph.extends_push _

theorem Sound.makeFunction {s : BuilderState σ} (h : s.Sound) (arity : Nat) :
    (s.makeFunction arity).2.Sound := by
  have hold : ∀ e n, s.graph.node? e = some n →
      (s.graph.pushFunction s.scope arity).node? e = some n := fun e n hn => by
    rw [Graph.node?_pushFunction, if_pos (Graph.lt_size hn), hn]
  exact ⟨h.graph.pushFunction (fun f hf => h.scope hf) arity, h.building_of_nodes hold, h.nodup⟩

theorem Sound.fill {s : BuilderState σ} (h : s.Sound) (slot target : NodeId) :
    (s.fill slot target).2.Sound ∧ s.graph.Extends (s.fill slot target).2.graph := by
  unfold BuilderState.fill
  split
  · rename_i hk
    refine ⟨⟨h.graph.setKind hk (.fill target), fun f hf => ?_, h.nodup⟩,
      Graph.extends_setKind hk (.fill target)⟩
    obtain ⟨arity, hf'⟩ := h.building f hf
    refine ⟨arity, ?_⟩
    have hne : f ≠ slot := by
      rintro rfl
      rw [hk] at hf'
      cases hf'
    exact (Graph.kindOf?_setKind_of_ne hne).trans hf'
  · exact ⟨h, .refl _⟩
  · exact ⟨h, .refl _⟩

/-- A body advances, and the functions under construction change accordingly. -/
theorem Sound.setBodyState {s : BuilderState σ} (h : s.Sound) {f : NodeId} {arity : Nat}
    {state state' : BodyState} (hk : s.graph.kindOf? f = some (.function arity state))
    (hlt : state.stage < state'.stage) {scopes : List NodeId} (hnodup : scopes.Nodup)
    (hscopes : ∀ x ∈ scopes, (x = f ∧ state' = .building) ∨ (x ∈ s.scopes ∧ x ≠ f)) :
    BuilderState.Sound { s with graph := s.graph.setBodyState f state', scopes } ∧
      s.graph.Extends (s.graph.setBodyState f state') := by
  rw [Graph.setBodyState_eq hk]
  refine ⟨⟨h.graph.setKind hk (.advance hlt), fun x hx => ?_, hnodup⟩,
    Graph.extends_setKind hk (.advance hlt)⟩
  rcases hscopes x hx with ⟨rfl, rfl⟩ | ⟨hx, hne⟩
  · exact ⟨arity, Graph.kindOf?_setKind_self hk⟩
  · obtain ⟨arity', hk'⟩ := h.building x hx
    exact ⟨arity', (Graph.kindOf?_setKind_of_ne hne).trans hk'⟩

theorem Sound.enter {s : BuilderState σ} (h : s.Sound) {f : NodeId} {arity : Nat}
    (hk : s.graph.kindOf? f = some (.function arity .pending)) :
    (s.enter f).Sound ∧ s.graph.Extends (s.enter f).graph := by
  have hnew : f ∉ s.scopes := by
    intro hf
    obtain ⟨arity', hk'⟩ := h.building f hf
    rw [hk] at hk'
    cases hk'
  refine h.setBodyState hk (by decide) (List.nodup_cons.2 ⟨hnew, h.nodup⟩) fun x hx => ?_
  rcases List.mem_cons.1 hx with rfl | hx
  · exact .inl ⟨rfl, rfl⟩
  · exact .inr ⟨hx, fun heq => hnew (heq ▸ hx)⟩

theorem Sound.leave {s : BuilderState σ} (h : s.Sound) {f : NodeId} {rest : List NodeId}
    (hs : s.scopes = f :: rest) (outcome : Except Fault Body) :
    (s.leave f outcome).Sound ∧ s.graph.Extends (s.leave f outcome).graph := by
  obtain ⟨arity, hk⟩ := h.building f (by simp [hs])
  have hnodup := h.nodup
  rw [hs, List.nodup_cons] at hnodup
  have htail : s.scopes.tail = rest := by rw [hs]; rfl
  unfold BuilderState.leave
  rw [htail]
  apply h.setBodyState hk (by cases outcome <;> simp [BodyState.stage]) hnodup.2
  intro x hx
  exact .inr ⟨by simp [hs, hx], fun heq => hnodup.1 (heq ▸ hx)⟩

end BuilderState

/-! ## Builders -/

namespace Builder

variable {σ : Type}

/-- What a request finds when a body is still to be constructed. -/
theorem request_construct {b c : Builder σ} {f : NodeId} {recipe : Recipe σ}
    (h : b.request f = .construct recipe c) :
    (∃ arity, b.state.graph.kindOf? f = some (.function arity .pending)) ∧
      c.state = b.state.enter f := by
  unfold request at h
  split at h <;> try cases h
  rename_i arity hk
  split at h <;> cases h
  exact ⟨⟨arity, hk⟩, rfl⟩

theorem perform_sound_extends {b : Builder σ} (h : b.state.Sound) (op : Operation σ) :
    (b.perform op).state.Sound ∧ b.state.graph.Extends (b.perform op).state.graph := by
  cases op with
  | create draft => exact ⟨h.create draft, b.state.create_extends draft⟩
  | function arity body => exact ⟨h.makeFunction arity, Graph.extends_pushFunction _ _ _⟩
  | fill slot target => exact h.fill slot target
  | share update => exact ⟨⟨h.graph, h.building, h.nodup⟩, .refl _⟩
  | memoize i e => exact ⟨⟨h.graph, h.building, h.nodup⟩, .refl _⟩
  | warn ws => exact ⟨⟨h.graph, h.building, h.nodup⟩, .refl _⟩
  | enter f =>
    simp only [perform]
    split
    · rename_i hreq
      obtain ⟨⟨arity, hk⟩, hc⟩ := request_construct hreq
      rw [hc]
      exact h.enter hk
    · exact ⟨h, .refl _⟩
  | leave outcome =>
    simp only [perform]
    split
    · rename_i hs
      exact h.leave hs outcome
    · exact ⟨h, .refl _⟩

theorem performAll_sound_extends {b : Builder σ} (h : b.state.Sound) (ops : List (Operation σ)) :
    (b.performAll ops).state.Sound ∧ b.state.graph.Extends (b.performAll ops).state.graph := by
  induction ops generalizing b with
  | nil => exact ⟨h, .refl _⟩
  | cons op ops ih =>
    obtain ⟨hop, hext⟩ := perform_sound_extends h op
    obtain ⟨hops, hext'⟩ := ih hop
    exact ⟨hops, hext.trans hext'⟩

theorem Reached.sound {b : Builder σ} (h : b.Reached) : b.state.Sound := by
  obtain ⟨shared, ops, rfl⟩ := h
  refine (performAll_sound_extends ⟨Graph.sound_empty, ?_, List.nodup_nil⟩ ops).1
  intro f hf
  cases hf

theorem Leads.extends {b c : Builder σ} (h : b.Leads c) (hb : b.state.Sound) :
    b.state.graph.Extends c.state.graph := by
  obtain ⟨⟨ops, rfl⟩, _⟩ := h
  exact (performAll_sound_extends hb ops).2

theorem Leads.sound {b c : Builder σ} (h : b.Leads c) (hb : b.state.Sound) : c.state.Sound := by
  obtain ⟨⟨ops, rfl⟩, _⟩ := h
  exact (performAll_sound_extends hb ops).1

theorem force_ok {b : Builder σ} (hb : b.state.Sound) {f : NodeId} {body : Body}
    (h : (b.force f).1 = .ok body) : (b.force f).2.state.graph.body? f = some body := by
  cases hreq : b.request f with
  | answer result =>
    rw [force_answer hreq] at h ⊢
    dsimp only at h ⊢
    subst h
    unfold request at hreq
    split at hreq <;> try cases hreq
    · rename_i arity hk
      exact Graph.body?_eq_some.2 ⟨arity, hk⟩
    · split at hreq <;> cases hreq
  | construct recipe c =>
    rw [force_construct hreq] at h ⊢
    dsimp only at h ⊢
    obtain ⟨⟨arity, hk⟩, hc⟩ := request_construct hreq
    have hcs : c.state.Sound := by
      rw [hc]
      exact (hb.enter hk).1
    have hsound := (run_leads recipe c).sound hcs
    obtain ⟨arity', hk'⟩ := hsound.building f (by
      rw [(run_leads recipe c).2, request_scopes hreq]
      exact List.mem_cons_self)
    refine Graph.body?_eq_some.2 ⟨arity', ?_⟩
    rw [h]
    show (Graph.setBodyState _ f (.ready body)).kindOf? f = _
    rw [Graph.setBodyState_eq hk']
    exact Graph.kindOf?_setKind_self hk'

end Builder

/-! ## Consequences -/

namespace Graph.Sound

variable {g : Graph} {e f p : NodeId}

theorem scope_lt (h : g.Sound) (he : g.scopeOf e = some f) : f < e := by
  obtain ⟨n, hn, hs⟩ := scopeOf_eq_some.1 he
  exact ((h e n hn).scope f hs).1

theorem scope_isFunction (h : g.Sound) (he : g.scopeOf e = some f) : g.isFunction f = true := by
  obtain ⟨n, hn, hs⟩ := scopeOf_eq_some.1 he
  exact ((h e n hn).scope f hs).2

theorem flagsOf_function (h : g.Sound) (hf : g.isFunction f = true) : g.flagsOf f = {} := by
  obtain ⟨arity, state, hk⟩ := isFunction_iff.1 hf
  obtain ⟨n, hn, hkind⟩ := kindOf?_eq_some.1 hk
  have hs := (h f n hn).kind
  rw [hkind] at hs
  rw [flagsOf_of_node hn, hs.1]

theorem mem_params (h : g.Sound) (hp : p ∈ g.params f) :
    g.isParameter p = true ∧ g.scopeOf p = some f := by
  obtain ⟨arity, state, hk⟩ := isFunction_iff.1 (isFunction_of_mem_params hp)
  rw [params_of_kind hk, List.mem_range'_1] at hp
  obtain ⟨n, hn, hkind⟩ := kindOf?_eq_some.1 hk
  have hs := (h f n hn).kind
  rw [hkind] at hs
  obtain ⟨m, hm, hms, hmk⟩ := hs.2 (p - (f + 1)) (Nat.sub_lt_left_of_lt_add hp.1 hp.2)
  rw [Nat.add_sub_of_le hp.1] at hm
  exact ⟨isParameter_iff.2 ⟨_, kindOf?_eq_some.2 ⟨m, hm, hmk⟩⟩, scopeOf_eq_some.2 ⟨m, hm, hms⟩⟩

theorem isParameter (h : g.Sound) (hp : g.isParameter p = true) :
    g.flagsOf p = .literal ∧ ∃ f, g.scopeOf p = some f ∧ p ∈ g.params f := by
  obtain ⟨i, hk⟩ := isParameter_iff.1 hp
  obtain ⟨n, hn, hkind⟩ := kindOf?_eq_some.1 hk
  have hs := (h p n hn).kind
  rw [hkind] at hs
  obtain ⟨hlit, f, arity, state, hf, hfk, hi, rfl⟩ := hs
  refine ⟨(flagsOf_of_node hn).trans hlit, f, scopeOf_eq_some.2 ⟨n, hn, hf⟩, ?_⟩
  rw [params_of_kind hfk, List.mem_range'_1]
  exact ⟨Nat.le_add_right .., Nat.add_lt_add_left hi _⟩

/-- The stores are declared at the top level. -/
theorem store (h : g.Sound) {k : Kind} (hk : g.kindOf? e = some k)
    (hstore : k = .moduleStore ∨ k = .resourceStore) :
    (g.flagsOf e).pinned = true ∧ g.scopeOf e = none := by
  obtain ⟨n, hn, hkind⟩ := kindOf?_eq_some.1 hk
  have hs := (h e n hn).kind
  rw [flagsOf_of_node hn, scopeOf_of_node hn]
  rcases hstore with rfl | rfl <;> rw [hkind] at hs <;> exact hs

end Graph.Sound

end ScriptGraph
