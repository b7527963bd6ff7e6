import ScriptGraph.Host.Value
import ScriptGraph.Proofs.Analysis.Leaks
import ScriptGraph.Proofs.Builder.Bodies
import ScriptGraph.Proofs.Builder.Drafts

/-!
# Builders of host values

An instance is converted in one scope and its node is handed out in others. All other nodes stay in
the scope they are made in.

* `HostValue.Plain` : host values whose functions return host values and do nothing else;
* `BuilderState.Offers` : the nodes that a conversion in a scope may answer;
* `Builder.Hosts` : a builder that has converted plain host values only;
* `Builder.Hosts.make`, `Builder.Hosts.function`, `Builder.Hosts.memoize`, `Builder.Hosts.enter`,
  `Builder.Hosts.leave` : what conversions do keeps it so;
* `Builder.Hosts.offers_of_uses` : a node that is used outside its scope is that of an instance.
-/

namespace ScriptGraph

variable {σ : Type}

/-- Host values without nodes and foreign objects. Their functions return such values too, whatever
they are called with, and do nothing else. -/
inductive HostValue.Plain : HostValue σ → Prop
  | undefined : Plain .undefined
  | null : Plain .null
  | bool (b : Bool) : Plain (.bool b)
  | number (x : Binary64) : Plain (.number x)
  | bigInteger (i : Int) : Plain (.bigInteger i)
  | string (s : String) : Plain (.string s)
  | date (milliseconds : Binary64) : Plain (.date milliseconds)
  | bytes (bytes : List UInt8) : Plain (.bytes bytes)
  | regExp (source flags : String) : Plain (.regExp source flags)
  | json (value : Json) : Plain (.json value)
  | array (i : Nat) {items : List (HostValue σ)} (h : ∀ v ∈ items, Plain v) : Plain (.array i items)
  | record (i : Nat) {entries : List (String × HostValue σ)} (h : ∀ p ∈ entries, Plain p.2) :
    Plain (.record i entries)
  | map (i : Nat) {entries : List (HostValue σ × HostValue σ)} (hkeys : ∀ p ∈ entries, Plain p.1)
    (h : ∀ p ∈ entries, Plain p.2) : Plain (.map i entries)
  | set (i : Nat) {items : List (HostValue σ)} (h : ∀ v ∈ items, Plain v) : Plain (.set i items)
  | callable (i arity : Nat) {v : HostValue σ} (h : Plain v) :
    Plain (.callable i arity fun _ => pure v)

/-- The nodes that a conversion in a scope may answer: those made in the scope, and those of
instances. -/
def BuilderState.Offers (s : BuilderState σ) (t : Scope) (e : NodeId) : Prop :=
  e < s.graph.size ∧ (s.graph.scopeOf e = t ∨ ∃ i, (i, e) ∈ s.memo)

theorem BuilderState.Offers.grow {s s' : BuilderState σ} {t : Scope} {e : NodeId}
    (h : s.Offers t e) (hext : s.graph.Extends s'.graph) (hmemo : s.memo ⊆ s'.memo) :
    s'.Offers t e := by
  refine ⟨Nat.lt_of_lt_of_le h.1 hext.size_le, ?_⟩
  rw [hext.scopeOf_eq h.1]
  exact h.2.imp_right fun ⟨i, hi⟩ => ⟨i, hmemo hi⟩

/-- A node that conversions make refers to older nodes that are offered where it is. -/
structure BuilderState.Fits (s : BuilderState σ) (e : NodeId) (n : Node) : Prop where
  filled : n.kind ≠ .slot none
  bare : n.flags.inert = true → n.template.filterMap Part.node? = []
  parts : ∀ c ∈ n.template.filterMap Part.node?, c < e ∧ s.Offers n.scope c

theorem BuilderState.Fits.grow {s s' : BuilderState σ} {e : NodeId} {n : Node} (h : s.Fits e n)
    (hext : s.graph.Extends s'.graph) (hmemo : s.memo ⊆ s'.memo) : s'.Fits e n where
  filled := h.filled
  bare := h.bare
  parts c hc := ⟨(h.parts c hc).1, (h.parts c hc).2.grow hext hmemo⟩

theorem BuilderState.Fits.of_leaf {s : BuilderState σ} {e : NodeId} {n : Node}
    (hfilled : n.kind ≠ .slot none) (h : n.template.filterMap Part.node? = []) : s.Fits e n where
  filled := hfilled
  bare _ := h
  parts _ hc := absurd (h ▸ hc) List.not_mem_nil

namespace Builder

/-- The recipe of a body that returns a plain host value. -/
def ReturnsPlain (r : Recipe σ) : Prop :=
  ∃ v : HostValue σ, v.Plain ∧ r = HostValue.returning (pure v)

/-- A builder that has converted plain host values only. -/
structure Hosts (b : Builder σ) : Prop where
  reached : b.Reached
  nodes : ∀ e n, b.state.graph.node? e = some n → b.state.Fits e n
  roots : ∀ f body, b.state.graph.body? f = some body →
    ∀ r ∈ body.roots, b.state.Offers (some f) r
  recorded : ∀ p ∈ b.state.memo,
    p.2 < b.state.graph.size ∧ (b.state.graph.flagsOf p.2).inert = false
  bodies : b.Supplied
  pending : ∀ p ∈ b.pending, ReturnsPlain p.2

theorem hosts_empty (shared : σ) : (empty shared).Hosts where
  reached := reached_empty shared
  nodes e n hn := by simp [Graph.node?, empty] at hn
  roots f body hb := by simp [Graph.body?, Graph.kindOf?, Graph.node?, empty] at hb
  recorded _ h := nomatch h
  bodies f arity state h := by simp [Graph.kindOf?, Graph.node?, empty] at h
  pending _ h := nomatch h

theorem offers_make (b : Builder σ) {draft : Draft} {flags : Flags} {kind : Kind}
    (hdraft : b.state.create draft = b.state.make flags kind) :
    (b.perform (.create draft)).state.Offers b.state.scope (b.state.create draft).1 ∧
      (b.perform (.create draft)).state.graph.flagsOf (b.state.create draft).1 = flags := by
  have hn : (b.perform (.create draft)).state.graph.node? (b.state.create draft).1 =
      some ⟨b.state.scope, flags, kind⟩ := by
    show (b.state.create draft).2.graph.node? _ = _
    rw [hdraft]
    exact (Graph.node?_push ..).trans (if_pos rfl)
  exact ⟨⟨Graph.lt_size hn, .inl (Graph.scopeOf_of_node hn)⟩, Graph.flagsOf_of_node hn⟩

namespace Hosts

variable {b c : Builder σ} {f : NodeId}

theorem sound (h : b.Hosts) : b.state.Sound := h.reached.sound

theorem grow (h : b.Hosts) (hc : c.Reached) (hext : b.state.graph.Extends c.state.graph)
    (hmemo : b.state.memo ⊆ c.state.memo)
    (hnodes : ∀ e n, c.state.graph.node? e = some n →
      b.state.graph.node? e = some n ∨ c.state.Fits e n)
    (hroots : ∀ f body, c.state.graph.body? f = some body → b.state.graph.body? f = some body ∨
      ∀ r ∈ body.roots, c.state.Offers (some f) r)
    (hrecorded : ∀ p ∈ c.state.memo, p ∈ b.state.memo ∨
      p.2 < c.state.graph.size ∧ (c.state.graph.flagsOf p.2).inert = false)
    (hbodies : c.Supplied) (hpending : ∀ p ∈ c.pending, p ∈ b.pending ∨ ReturnsPlain p.2) :
    c.Hosts where
  reached := hc
  nodes e n hn := (hnodes e n hn).elim (fun hold => (h.nodes e n hold).grow hext hmemo) id
  roots f body hb := (hroots f body hb).elim
    (fun hold r hr => (h.roots f body hold r hr).grow hext hmemo) id
  recorded p hp := by
    refine (hrecorded p hp).elim (fun hold => ?_) id
    obtain ⟨hlt, hinert⟩ := h.recorded p hold
    obtain ⟨n, hn⟩ := Graph.exists_node hlt
    obtain ⟨n', hn', hgrow⟩ := hext p.2 n hn
    rw [Graph.flagsOf_of_node hn] at hinert
    rw [Graph.flagsOf_of_node hn', hgrow.flags]
    exact ⟨Graph.lt_size hn', hinert⟩
  bodies := hbodies
  pending p hp := (hpending p hp).elim (h.pending p) id

/-! ## Making nodes -/

theorem make (h : b.Hosts) {draft : Draft} {flags : Flags} {kind : Kind}
    (hdraft : b.state.create draft = b.state.make flags kind) (hfilled : kind ≠ .slot none)
    (hbody : ∀ arity state, kind ≠ .function arity state)
    (hbare : flags.inert = true →
      (Node.mk b.state.scope flags kind).template.filterMap Part.node? = [])
    (hparts : ∀ c ∈ (Node.mk b.state.scope flags kind).template.filterMap Part.node?,
      b.state.Offers b.state.scope c) : (b.perform (.create draft)).Hosts := by
  have hleads := Leads.create b draft
  have hext := hleads.extends h.sound
  have hmemo := hleads.memo_subset
  have hgraph : (b.perform (.create draft)).state.graph =
      b.state.graph.push ⟨b.state.scope, flags, kind⟩ := by
    show (b.state.create draft).2.graph = _
    rw [hdraft]
    rfl
  have hnew : ∀ e n, (b.perform (.create draft)).state.graph.node? e = some n →
      b.state.graph.node? e = some n ∨ e = b.state.graph.size ∧ n = ⟨b.state.scope, flags, kind⟩ := by
    intro e n hn
    rw [hgraph, Graph.node?_push] at hn
    split at hn
    · exact .inr ⟨by assumption, (Option.some.inj hn).symm⟩
    · exact .inl hn
  have hfunction : ∀ f arity state,
      (b.perform (.create draft)).state.graph.kindOf? f = some (.function arity state) →
        b.state.graph.kindOf? f = some (.function arity state) := by
    intro f arity state hk
    obtain ⟨n, hn, hkind⟩ := Graph.kindOf?_eq_some.1 hk
    rcases hnew f n hn with hold | ⟨_, rfl⟩
    · exact Graph.kindOf?_eq_some.2 ⟨n, hold, hkind⟩
    · exact absurd hkind (hbody arity state)
  refine h.grow (hleads.reached h.reached) hext hmemo (fun e n hn => ?_) (fun f body hb => ?_)
    (fun p hp => ?_) (h.bodies.grow (List.Subset.refl _) hleads.2 fun f arity state hk =>
      .inl (hfunction f arity state hk)) (fun p hp => .inl hp)
  · rcases hnew e n hn with hold | ⟨rfl, rfl⟩
    · exact .inl hold
    · exact .inr ⟨hfilled, hbare, fun x hx => ⟨(hparts x hx).1, (hparts x hx).grow hext hmemo⟩⟩
  · obtain ⟨arity, hk⟩ := Graph.body?_eq_some.1 hb
    exact .inl (Graph.body?_eq_some.2 ⟨arity, hfunction f arity _ hk⟩)
  · exact .inl (b.state.create_memo draft ▸ hp)

theorem function (h : b.Hosts) (arity : Nat) {body : NodeId → List NodeId → Recipe σ}
    (hbody : ∀ f args, ReturnsPlain (body f args)) : (b.perform (.function arity body)).Hosts := by
  have hleads := Leads.function b arity body
  have hold : ∀ e n, (b.perform (.function arity body)).state.graph.node? e = some n →
      b.state.graph.node? e = some n ∨
        (e = b.state.graph.size ∧ n = ⟨b.state.scope, {}, .function arity .pending⟩) ∨
          ∃ i, n.kind = .parameter i := by
    intro e n hn
    rcases Nat.lt_or_ge e b.state.graph.size with he | he
    · left
      rw [← hn]
      show _ = (b.state.graph.pushFunction b.state.scope arity).node? e
      rw [Graph.node?_pushFunction, if_pos he]
    · exact .inr (BuilderState.eq_or_parameter_of_node?_pushFunction he hn)
  have hpending : (b.perform (.function arity body)).pending =
      b.pending ++ [(b.state.graph.size, body b.state.graph.size
        ((b.perform (.function arity body)).state.graph.params b.state.graph.size))] := rfl
  have hfunction : ∀ f arity' state,
      (b.perform (.function arity body)).state.graph.kindOf? f = some (.function arity' state) →
        b.state.graph.kindOf? f = some (.function arity' state) ∨
          f = b.state.graph.size ∧ state = .pending := by
    intro f arity' state hk
    obtain ⟨n, hn, hkind⟩ := Graph.kindOf?_eq_some.1 hk
    rcases hold f n hn with hn | ⟨rfl, rfl⟩ | ⟨i, hi⟩
    · exact .inl (Graph.kindOf?_eq_some.2 ⟨n, hn, hkind⟩)
    · cases hkind
      exact .inr ⟨rfl, rfl⟩
    · rw [hi] at hkind
      cases hkind
  refine h.grow (hleads.reached h.reached) (hleads.extends h.sound) hleads.memo_subset
    (fun e n hn => ?_) (fun f inner hb => ?_) (fun p hp => .inl hp)
    (h.bodies.grow (hpending ▸ List.subset_append_left _ _) hleads.2 fun f arity' state hk => ?_)
    (fun p hp => ?_)
  · rcases hold e n hn with hn | ⟨_, rfl⟩ | ⟨i, hi⟩
    · exact .inl hn
    · exact .inr (.of_leaf (by simp) rfl)
    · exact .inr (.of_leaf (by simp [hi]) (by simp [Node.template, hi]))
  · obtain ⟨arity', hk⟩ := Graph.body?_eq_some.1 hb
    exact .inl (Graph.body?_eq_some.2 ⟨arity', (hfunction f arity' _ hk).resolve_right (by simp)⟩)
  · refine (hfunction f arity' state hk).imp_right ?_
    rintro ⟨rfl, rfl⟩
    exact ⟨_, hpending ▸ List.mem_append_right _ (List.mem_singleton_self _)⟩
  · rw [hpending, List.mem_append, List.mem_singleton] at hp
    refine hp.imp_right ?_
    rintro rfl
    exact hbody _ _

theorem memoize (h : b.Hosts) (i : Nat) {e : NodeId} (he : e < b.state.graph.size)
    (hinert : (b.state.graph.flagsOf e).inert = false) : (b.perform (.memoize i e)).Hosts := by
  have hleads : b.Leads (b.perform (.memoize i e)) := .single _ rfl
  refine h.grow (hleads.reached h.reached) (.refl _) hleads.memo_subset (fun _ _ hn => .inl hn)
    (fun _ _ hb => .inl hb) (fun p hp => ?_) h.bodies (fun p hp => .inl hp)
  rcases List.mem_cons.1 hp with rfl | hp
  · exact .inr ⟨he, hinert⟩
  · exact .inl hp

/-! ## Constructing bodies -/

theorem advance (h : b.Hosts) (hc : c.Reached) {arity : Nat} {state state' : BodyState}
    (hk : b.state.graph.kindOf? f = some (.function arity state))
    (hgraph : c.state.graph = b.state.graph.setBodyState f state')
    (hstage : state.stage < state'.stage) (hmemo : c.state.memo = b.state.memo)
    (hroots : ∀ body, state' = .ready body → ∀ r ∈ body.roots, b.state.Offers (some f) r)
    (hbodies : c.Supplied) (hpending : c.pending ⊆ b.pending) : c.Hosts := by
  rw [Graph.setBodyState_eq hk] at hgraph
  have hext : b.state.graph.Extends c.state.graph :=
    hgraph ▸ Graph.extends_setKind hk (.advance hstage)
  have hmemo' : b.state.memo ⊆ c.state.memo := hmemo ▸ List.Subset.refl _
  refine h.grow hc hext hmemo' (fun e n hn => ?_) (fun x body hb => ?_)
    (fun p hp => .inl (hmemo ▸ hp)) hbodies (fun p hp => .inl (hpending hp))
  · rw [hgraph, Graph.node?_setKind] at hn
    split at hn
    · obtain ⟨m, _, rfl⟩ := Option.map_eq_some_iff.1 hn
      exact .inr (.of_leaf nofun rfl)
    · exact .inl hn
  · obtain ⟨arity', hx⟩ := Graph.body?_eq_some.1 hb
    rw [hgraph] at hx
    by_cases he : x = f
    · subst he
      rw [Graph.kindOf?_setKind_self hk] at hx
      cases hx
      exact .inr fun r hr => (hroots body rfl r hr).grow hext hmemo'
    · rw [Graph.kindOf?_setKind_of_ne he] at hx
      exact .inl (Graph.body?_eq_some.2 ⟨arity', hx⟩)

theorem enter (h : b.Hosts) {recipe : Recipe σ} (hreq : b.request f = .construct recipe c) :
    c.Hosts ∧ ReturnsPlain recipe := by
  have hc := h.reached.enter hreq
  obtain ⟨⟨arity, hk⟩, hstate⟩ := request_construct hreq
  obtain ⟨hmem, hsub⟩ := mem_of_request hreq
  exact ⟨h.advance hc hk (congrArg _ hstate) Nat.one_pos (by rw [hstate]; rfl) (by simp)
    (h.bodies.enter hreq) hsub, h.pending _ hmem⟩

theorem leave (h : b.Hosts) {rest : List NodeId} (hscopes : b.state.scopes = f :: rest)
    {body : Body} (hroots : ∀ r ∈ body.roots, b.state.Offers b.state.scope r) :
    (b.leave f (.ok body)).Hosts := by
  have hc := h.reached.leave hscopes (.ok body)
  obtain ⟨arity, hk⟩ := h.sound.building f (hscopes ▸ List.mem_cons_self)
  have hscope : b.state.scope = some f := congrArg List.head? hscopes
  refine h.advance hc hk rfl (Nat.lt_add_one 1) rfl (fun body' heq => ?_)
    (h.bodies.leave h.sound hscopes body) (List.Subset.refl _)
  cases heq
  exact hscope ▸ hroots

/-! ## The graph -/

theorem layered (h : b.Hosts) : b.state.graph.Layered where
  older p c hc := by
    obtain ⟨n, hn⟩ := Graph.exists_node (Graph.lt_size_of_children hc)
    rw [Graph.children_of_node hn] at hc
    exact ((h.nodes p n hn).parts c hc).1
  bare p hp := by
    cases hn : b.state.graph.node? p with
    | none => simp [Graph.children, hn]
    | some n =>
      rw [Graph.flagsOf_of_node hn] at hp
      rw [Graph.children_of_node hn]
      exact (h.nodes p n hn).bare hp

/-- A node that is used outside the scope it was made in is that of an instance. -/
theorem offers_of_uses (h : b.Hosts) {roots : List NodeId} {t : Scope} {e : NodeId}
    (hroots : ∀ r ∈ roots, b.state.Offers none r) (hu : b.state.graph.Uses roots t e) :
    b.state.Offers t e := by
  cases hu with
  | root he => exact hroots e he
  | body hf hb he => exact h.roots _ _ hb e he
  | @child p _ hp hc =>
    obtain ⟨n, hn⟩ := Graph.exists_node (Graph.lt_size_of_children hc)
    rw [Graph.children_of_node hn] at hc
    rw [Graph.scopeOf_of_node hn]
    exact ((h.nodes p n hn).parts e hc).2

end Hosts

end Builder

end ScriptGraph
