import ScriptGraph.Proofs.Program.Labels

/-!
# Graphs that are made from programs

* `Labelling` : what the nodes of a graph are made from;
* `Graph.Shows` : a node refers to what the piece of the program leads to that it is made from;
* `Graph.IsCall` : a node is a call, in one of the styles;
* `Builder.Labelled` : a builder in which all built nodes do, and in which the bodies that are still
  to be built are those of a program's functions;
* `Builder.Labelled.create`, `Builder.Labelled.function`, `Builder.Labelled.fill`,
  `Builder.Labelled.enter`, `Builder.Labelled.leave` : operations keep it so.
-/

namespace ScriptGraph

variable {σ : Type}

/-- What nodes are made from. Stores are made from nothing in particular. -/
abbrev Labelling := NodeId → Option Label

namespace Labelling

/-- The node is made from this piece of a program. -/
def Has (ρ : Labelling) (e : NodeId) (l : Label) : Prop := ρ e = some l

/-- More nodes are labelled. -/
def Grows (ρ ρ' : Labelling) : Prop := ∀ e l, ρ.Has e l → ρ'.Has e l

theorem Grows.refl (ρ : Labelling) : ρ.Grows ρ := fun _ _ h => h

theorem Grows.trans {ρ ρ' ρ'' : Labelling} (h : ρ.Grows ρ') (h' : ρ'.Grows ρ'') : ρ.Grows ρ'' :=
  fun e l he => h' e l (h e l he)

/-- A node is labelled. -/
def add (ρ : Labelling) (e : NodeId) (l : Label) : Labelling := Function.update ρ e (some l)

theorem has_add (ρ : Labelling) (e : NodeId) (l : Label) : (ρ.add e l).Has e l :=
  Function.update_self ..

theorem grows_add {ρ : Labelling} {e : NodeId} (h : ρ e = none) (l : Label) :
    ρ.Grows (ρ.add e l) := by
  intro x l' hx
  rw [Has, add, Function.update_of_ne]
  · exact hx
  · rintro rfl
    exact nomatch h.symm.trans hx

theorem of_has_add {ρ : Labelling} {e x : NodeId} {l l' : Label} (h : (ρ.add e l).Has x l') :
    x = e ∧ l' = l ∨ ρ.Has x l' := by
  by_cases hx : x = e
  · subst hx
    exact .inl ⟨rfl, Option.some.inj (h.symm.trans (has_add ρ x l))⟩
  · rw [Has, add, Function.update_of_ne hx] at h
    exact .inr h

/-- A function and its parameters are labelled. -/
def addFunction (ρ : Labelling) (f : NodeId) (outer : List CoreFunction) (F : CoreFunction) :
    Labelling := fun e =>
  if e < f then ρ e
  else if e = f then some (.code outer (.function F))
  else if e - (f + 1) < F.params.length then some (.parameter (F :: outer) (e - (f + 1)))
  else none

section Functions

variable {ρ : Labelling} {f : NodeId} {outer : List CoreFunction} {F : CoreFunction}

theorem grows_addFunction (h : ∀ e l, ρ.Has e l → e < f) : ρ.Grows (ρ.addFunction f outer F) :=
  fun e l he => (if_pos (h e l he)).trans he

theorem has_addFunction : (ρ.addFunction f outer F).Has f (.code outer (.function F)) :=
  (if_neg (Nat.lt_irrefl f)).trans (if_pos rfl)

theorem has_addFunction_param {i : Nat} (hi : i < F.params.length) :
    (ρ.addFunction f outer F).Has (f + 1 + i) (.parameter (F :: outer) i) := by
  have hlt : f < f + 1 + i := Nat.lt_add_right i (Nat.lt_succ_self f)
  rw [Has, addFunction, if_neg (Nat.lt_asymm hlt), if_neg (Nat.ne_of_gt hlt),
    Nat.add_sub_cancel_left, if_pos hi]

theorem of_has_addFunction {e : NodeId} {l : Label} (h : (ρ.addFunction f outer F).Has e l) :
    ρ.Has e l ∧ e < f ∨ e = f ∧ l = .code outer (.function F) ∨
      ∃ i < F.params.length, e = f + 1 + i ∧ l = .parameter (F :: outer) i := by
  rw [Has, addFunction] at h
  split at h
  · exact .inl ⟨h, ‹_›⟩
  · rename_i hge
    split at h
    · exact .inr (.inl ⟨‹_›, (Option.some.inj h).symm⟩)
    · rename_i hne
      split at h
      · have hlt : f + 1 ≤ e := Nat.lt_of_le_of_ne (Nat.not_lt.1 hge) (Ne.symm hne)
        exact .inr (.inr ⟨e - (f + 1), ‹_›, (Nat.add_sub_of_le hlt).symm, (Option.some.inj h).symm⟩)
      · cases h

end Functions

section Lists

variable {ρ : Labelling} {es : List NodeId} {ls : List Label} (h : List.Forall₂ ρ.Has es ls)

include h

theorem map_eq : es.map ρ = ls.map some := by
  rw [← List.forall₂_eq_eq_eq, List.forall₂_map_left_iff, List.forall₂_map_right_iff]
  exact h

theorem exists_label {e : NodeId} (he : e ∈ es) : ∃ l ∈ ls, ρ.Has e l := by
  obtain ⟨l, hl, hρ⟩ := List.mem_map.1 (map_eq h ▸ List.mem_map_of_mem he)
  exact ⟨l, hl, hρ.symm⟩

theorem exists_node {l : Label} (hl : l ∈ ls) : ∃ e ∈ es, ρ.Has e l :=
  List.mem_map.1 ((map_eq h).symm ▸ List.mem_map_of_mem hl)

end Lists

end Labelling

/-! ## What nodes refer to -/

namespace Graph

variable {g g' : Graph} {ρ ρ' : Labelling} {e x : NodeId} {l : Label}

def IsStore (g : Graph) (e : NodeId) : Prop := ∃ n, g.node? e = some n ∧ n.kind.isStore = true

theorem IsStore.grow (h : g.IsStore e) (hext : g.Extends g') : g'.IsStore e := by
  obtain ⟨n, hn, hk⟩ := h
  refine ⟨n, hext.node?_eq hn ?_, hk⟩
  revert hk
  cases n.kind <;> simp [Kind.isStore, Kind.isFinal]

theorem IsStore.not_isFunction (h : g.IsStore e) : g.isFunction e = false := by
  obtain ⟨n, hn, hk⟩ := h
  rw [isFunction, kindOf?_of_node hn]
  revert hk
  cases n.kind <;> simp [Kind.isStore]

theorem IsStore.successors_eq (h : g.IsStore e) : g.successors e = [] := by
  rw [successors_of_not_isFunction h.not_isFunction]
  obtain ⟨n, hn, hk⟩ := h
  rw [children_of_node hn, Node.template]
  revert hk
  cases n.kind <;> simp [Kind.isStore]

theorem built_of_mem_successors (h : x ∈ g.successors e) : g.Built e := by
  rcases mem_successors.1 h with h | ⟨body, hbody, _⟩
  · cases hn : g.node? e with
    | none => simp [children, hn] at h
    | some n =>
      refine ⟨lt_size hn, ?_, fun hf => ?_⟩
      · rw [← Bool.not_eq_true, isUnfilledSlot_iff, kindOf?_of_node hn]
        intro hk
        simp [children_of_node hn, Node.template, Option.some.inj hk] at h
      · simp [children_of_isFunction hf] at h
  · have hf := isFunction_of_body? hbody
    obtain ⟨arity, hk⟩ := body?_eq_some.1 hbody
    obtain ⟨n, hn, _⟩ := kindOf?_eq_some.1 hk
    refine ⟨lt_size hn, ?_, fun _ => ⟨body, hbody⟩⟩
    rw [← Bool.not_eq_true, isUnfilledSlot_iff, hk]
    simp

theorem Built.congr (h : g.Built e) (hk : g'.kindOf? e = g.kindOf? e) : g'.Built e := by
  obtain ⟨hlt, hslot, hbody⟩ := h
  obtain ⟨n, hn⟩ := exists_node hlt
  obtain ⟨n', hn', _⟩ := kindOf?_eq_some.1 (hk.trans (kindOf?_of_node hn))
  refine ⟨lt_size hn', ?_, fun hf => ?_⟩
  · rwa [isUnfilledSlot, hk, ← isUnfilledSlot]
  · rw [isFunction, hk] at hf
    obtain ⟨body, hb⟩ := hbody hf
    exact ⟨body, by rwa [body?, hk, ← body?]⟩

/-- The node is a call of `callee`, with the flags that its style gives it. -/
def IsCall (g : Graph) (e callee : NodeId) (args : List NodeId) (style : CallStyle) : Prop :=
  ∃ n, g.node? e = some n ∧ n.kind = .call callee args ∧
    ∃ readsResource, n.flags = { BuilderState.callFlags style with readsResource }

theorem Extends.isCall (h : g.Extends g') {callee : NodeId} {args : List NodeId}
    {style : CallStyle} (he : g.IsCall e callee args style) : g'.IsCall e callee args style := by
  obtain ⟨n, hn, hk, hflags⟩ := he
  exact ⟨n, h.node?_eq hn (hk ▸ rfl), hk, hflags⟩

/-- A node refers to what the piece of the program leads to that it is made from, apart from
stores. In the body of a function that is built, all names are bound. What is made from a call is
one, in the same style. -/
structure Shows (g : Graph) (ρ : Labelling) (e : NodeId) (l : Label) : Prop where
  forward : ∀ x ∈ g.successors e, g.IsStore x ∨ ∃ l' ∈ l.leadsTo, ρ.Has x l'
  backward : ∀ l' ∈ l.leadsTo, ∃ x ∈ g.successors e, ρ.Has x l'
  bound : ∀ outer f, l = .code outer (.function f) → ¬f.Unbound outer
  call : ∀ outer callee args style, l = .code outer (.call callee args style) →
    ∃ f es, g.IsCall e f es style ∧ List.Forall₂ ρ.Has (f :: es) l.leadsTo

theorem Shows.of_forall₂ (h : List.Forall₂ ρ.Has (g.successors e) l.leadsTo)
    (hbound : ∀ outer f, l = .code outer (.function f) → ¬f.Unbound outer)
    (hcall : ∀ outer callee args style, l ≠ .code outer (.call callee args style)) :
    g.Shows ρ e l where
  forward _ hx := .inr (Labelling.exists_label h hx)
  backward _ hl := Labelling.exists_node h hl
  bound := hbound
  call outer callee args style hl := absurd hl (hcall outer callee args style)

theorem Shows.grow (h : g.Shows ρ e l) (he : g.Built e) (hext : g.Extends g')
    (hρ : ρ.Grows ρ') : g'.Shows ρ' e l where
  forward x hx := by
    rw [hext.successors_eq he] at hx
    exact (h.forward x hx).imp (·.grow hext) fun ⟨l', hl, hx⟩ => ⟨l', hl, hρ x l' hx⟩
  backward l' hl := by
    obtain ⟨x, hx, hρx⟩ := h.backward l' hl
    exact ⟨x, (hext.successors_eq he).symm ▸ hx, hρ x l' hρx⟩
  bound := h.bound
  call outer callee args style hl := by
    obtain ⟨f, es, hcall, hnodes⟩ := h.call outer callee args style hl
    exact ⟨f, es, hext.isCall hcall, hnodes.imp hρ⟩

/-- The recipe of `f`'s body is that of a function in a program. The names around it stand for nodes
that are made from what they stand for in the program. -/
def Described (g : Graph) (ρ : Labelling) (f : NodeId) (r : Recipe σ) : Prop :=
  g.isFunction f = true ∧ ∃ outer F bodies, ρ.Has f (.code outer (.function F)) ∧
    List.Forall₂ ρ.Has (g.params f) (F.paramLabels outer) ∧
    List.Forall₂ (Binders.Rel ρ.Has) bodies (scopeLabels outer) ∧
    r = TryBuild.recipe (F.lower bodies f (g.params f))

theorem rel_grow (hρ : ρ.Grows ρ') {bodies : List (Binders NodeId)}
    {labels : List (Binders Label)} (h : List.Forall₂ (Binders.Rel ρ.Has) bodies labels) :
    List.Forall₂ (Binders.Rel ρ'.Has) bodies labels :=
  h.imp fun _ _ hbs => hbs.imp hρ

theorem Described.grow {f : NodeId} {r : Recipe σ} (h : g.Described ρ f r) (hext : g.Extends g')
    (hρ : ρ.Grows ρ') : g'.Described ρ' f r := by
  obtain ⟨hf, outer, F, bodies, hlabel, hparams, hbodies, rfl⟩ := h
  have heq := hext.params_eq hf
  exact ⟨hext.isFunction hf, outer, F, bodies, hρ f _ hlabel, heq ▸ hparams.imp hρ,
    rel_grow hρ hbodies, by rw [heq]⟩

end Graph

/-! ## Builders -/

namespace Builder

/-- A builder that lowering a program leads to. The empty slots are those of the definitions whose
values are still to be lowered. -/
structure Labelled (b : Builder σ) (ρ : Labelling) (holes : List NodeId) : Prop where
  reached : b.Reached
  lt_size : ∀ e l, ρ.Has e l → e < b.state.graph.size
  shows : ∀ e l, ρ.Has e l → b.state.graph.Built e → b.state.graph.Shows ρ e l
  nodup : holes.Nodup
  holes : ∀ e ∈ holes, b.state.graph.kindOf? e = some (.slot none)
  pending : ∀ q ∈ b.pending, b.state.graph.Described ρ q.1 q.2

theorem labelled_empty (shared : σ) : (empty shared).Labelled (fun _ => none) [] where
  reached := reached_empty shared
  lt_size _ _ h := nomatch h
  shows _ _ h := nomatch h
  nodup := .nil
  holes _ h := nomatch h
  pending _ h := nomatch h

namespace Labelled

variable {b c : Builder σ} {ρ ρ' : Labelling} {holes holes' : List NodeId} (h : b.Labelled ρ holes)

include h

theorem eq_none {e : NodeId} (he : b.state.graph.size ≤ e) : ρ e = none := by
  cases hl : ρ e with
  | none => rfl
  | some l => exact absurd (h.lt_size e l hl) (Nat.not_lt.2 he)

theorem lt_size_of_hole {e : NodeId} (he : e ∈ holes) : e < b.state.graph.size := by
  obtain ⟨n, hn, _⟩ := Graph.kindOf?_eq_some.1 (h.holes e he)
  exact Graph.lt_size hn

/-- Nodes are made and labelled, and nodes become built. -/
theorem grow (hleads : b.state.graph.Extends c.state.graph) (hc : c.Reached) (hρ : ρ.Grows ρ')
    (hlt : ∀ e l, ρ'.Has e l → e < c.state.graph.size)
    (hbuilt : ∀ e l, ρ'.Has e l → c.state.graph.Built e →
      ρ.Has e l ∧ b.state.graph.Built e ∨ c.state.graph.Shows ρ' e l)
    (hnodup : holes'.Nodup) (hholes : ∀ e ∈ holes', c.state.graph.kindOf? e = some (.slot none))
    (hpending : ∀ q ∈ c.pending, q ∈ b.pending ∨ c.state.graph.Described ρ' q.1 q.2) :
    c.Labelled ρ' holes' where
  reached := hc
  lt_size := hlt
  shows e l he hb := by
    rcases hbuilt e l he hb with ⟨hold, hbuilt⟩ | hnew
    · exact (h.shows e l hold hbuilt).grow hbuilt hleads hρ
    · exact hnew
  nodup := hnodup
  holes := hholes
  pending q hq := (hpending q hq).elim (fun hq => (h.pending q hq).grow hleads hρ) id

theorem change (e : NodeId) (hext : b.state.graph.Extends c.state.graph) (hc : c.Reached)
    (hkind : ∀ x, x ≠ e → c.state.graph.kindOf? x = b.state.graph.kindOf? x)
    (hshows : ∀ l, ρ.Has e l → c.state.graph.Built e → c.state.graph.Shows ρ e l)
    (hnodup : holes'.Nodup) (hholes : ∀ x ∈ holes', x ∈ holes ∧ x ≠ e)
    (hpending : c.pending ⊆ b.pending) : c.Labelled ρ holes' := by
  refine h.grow hext hc (.refl ρ) (fun x l hx => ?_) (fun x l hx hb => ?_) hnodup (fun x hx => ?_)
    fun q hq => .inl (hpending hq)
  · exact Nat.lt_of_lt_of_le (h.lt_size x l hx) hext.size_le
  · by_cases he : x = e
    · subst he
      exact .inr (hshows l hx hb)
    · exact .inl ⟨hx, hb.congr (hkind x he).symm⟩
  · obtain ⟨hx, hne⟩ := hholes x hx
    exact (hkind x hne).trans (h.holes x hx)

theorem make {draft : Draft} {l : Label} (hmodules : draft ≠ .moduleStore)
    (hresources : draft ≠ .resourceStore)
    (hshows : ∀ n, (b.perform (.create draft)).state.graph.node? (b.state.create draft).1 = some n →
      b.state.Makes draft (b.perform (.create draft)).state.graph (b.state.create draft).1 n →
      (b.perform (.create draft)).state.graph.Built (b.state.create draft).1 →
      (b.perform (.create draft)).state.graph.Shows
        (ρ.add (b.state.create draft).1 l) (b.state.create draft).1 l)
    (hnodup : holes'.Nodup) (hholes : ∀ e ∈ holes', e ∈ holes ∨
      (b.perform (.create draft)).state.graph.kindOf? e = some (.slot none)) :
    (b.perform (.create draft)).Labelled (ρ.add (b.state.create draft).1 l) holes' := by
  have hfresh : b.state.graph.size ≤ (b.state.create draft).1 :=
    BuilderState.create_fresh hmodules hresources
  have hleads := Leads.create b draft
  have hext := hleads.extends h.reached.sound
  obtain ⟨n, hn, _⟩ := BuilderState.create_answer h.reached.linked draft
  have hkind : ∀ e < b.state.graph.size,
      (b.perform (.create draft)).state.graph.kindOf? e = b.state.graph.kindOf? e := fun e he =>
    congrArg (Option.map Node.kind) (BuilderState.create_old draft he)
  refine h.grow hext (hleads.reached h.reached) (Labelling.grows_add (h.eq_none hfresh) l)
    (fun e l' he => ?_) (fun e l' he hb => ?_) hnodup (fun e he => ?_) fun q hq => .inl hq
  · rcases Labelling.of_has_add he with ⟨rfl, _⟩ | he
    · exact Graph.lt_size hn
    · exact Nat.lt_of_lt_of_le (h.lt_size e l' he) hext.size_le
  · rcases Labelling.of_has_add he with ⟨rfl, rfl⟩ | he
    · exact .inr (hshows n hn (BuilderState.create_new h.reached.linked draft hfresh hn) hb)
    · exact .inl ⟨he, hb.congr (hkind e (h.lt_size e l' he)).symm⟩
  · rcases hholes e he with he | he
    · exact (hkind e (h.lt_size_of_hole he)).trans (h.holes e he)
    · exact he

/-- A node is made that refers to what its label leads to. -/
theorem create {draft : Draft} {l : Label} (hmodules : draft ≠ .moduleStore)
    (hresources : draft ≠ .resourceStore) (hnodes : List.Forall₂ ρ.Has draft.nodes l.leadsTo)
    (hl : ∀ outer f, l ≠ .code outer (.function f))
    (hcall : ∀ outer callee args style, l = .code outer (.call callee args style) →
      ∃ f es, draft = .call f es style) :
    (b.perform (.create draft)).Labelled (ρ.add (b.state.create draft).1 l) holes := by
  refine h.make hmodules hresources (fun n hn hmakes _ => ?_) h.nodup fun e he => .inl he
  have hρ : ρ.Grows (ρ.add (b.state.create draft).1 l) :=
    Labelling.grows_add (h.eq_none (BuilderState.create_fresh hmodules hresources)) l
  have hfun : (b.perform (.create draft)).state.graph.isFunction (b.state.create draft).1 = false := by
    rw [← Bool.not_eq_true, Graph.isFunction_iff, Graph.kindOf?_of_node hn]
    rintro ⟨arity, state, hk⟩
    exact hmakes.kind arity state (Option.some.inj hk)
  have hsuccessors := Graph.successors_of_not_isFunction hfun
  rw [Graph.children_of_node hn] at hsuccessors
  refine ⟨fun x hx => ?_, fun l' hl' => ?_, fun outer f heq => absurd heq (hl outer f),
    fun outer callee args style heq => ?_⟩
  · rw [hsuccessors] at hx
    rcases (hmakes.parts x hx).2 with hx | ⟨m, hm, _, hstore⟩
    · obtain ⟨l', hl', hx⟩ := Labelling.exists_label hnodes hx
      exact .inr ⟨l', hl', hρ x l' hx⟩
    · exact .inl ⟨m, hm, hstore⟩
  · obtain ⟨x, hx, hρx⟩ := Labelling.exists_node hnodes hl'
    exact ⟨x, hsuccessors ▸ hmakes.nodes hx, hρ x l' hρx⟩
  · obtain ⟨f, es, rfl⟩ := hcall outer callee args style heq
    refine ⟨f, es, ⟨_, (b.state.graph.node?_push _ _).trans (if_pos rfl), rfl, _, rfl⟩, ?_⟩
    exact hnodes.imp hρ

theorem create_slot (l : Label) :
    (b.perform (.create .slot)).Labelled (ρ.add b.state.graph.size l)
      (holes ++ [b.state.graph.size]) := by
  have hkind : (b.perform (.create .slot)).state.graph.kindOf? b.state.graph.size =
      some (.slot none) := by
    refine Graph.kindOf?_of_node (n := ⟨b.state.scope, .literal, .slot none⟩) ?_
    exact (b.state.graph.node?_push _ _).trans (if_pos rfl)
  refine h.make nofun nofun (fun n hn hmakes hb => ?_) ?_ fun e he => ?_
  · exact nomatch (Graph.isUnfilledSlot_iff.2 hkind).symm.trans hb.2.1
  · refine List.nodup_append.2 ⟨h.nodup, List.nodup_singleton _, ?_⟩
    rintro e he x hx rfl
    exact Nat.lt_irrefl _ (List.mem_singleton.1 hx ▸ h.lt_size_of_hole he)
  · rcases List.mem_append.1 he with he | he
    · exact .inl he
    · exact .inr (List.mem_singleton.1 he ▸ hkind)

theorem fill {slot target : NodeId} {rest : List NodeId} (hs : holes = slot :: rest) {l l' : Label}
    (hslot : ρ.Has slot l) (htarget : ρ.Has target l') (hleads : l.leadsTo = [l'])
    (hl : ∀ outer x, l ≠ .code outer x) :
    (b.perform (.fill slot target)).Labelled ρ rest := by
  have hk : b.state.graph.kindOf? slot = some (.slot none) :=
    h.holes slot (hs ▸ List.mem_cons_self)
  have hnodup : slot ∉ rest ∧ rest.Nodup := List.nodup_cons.1 (hs ▸ h.nodup)
  have hfill := Leads.fill b slot target
  have hgraph : (b.perform (.fill slot target)).state.graph =
      b.state.graph.setKind slot (.slot (some target)) := by
    show (b.state.fill slot target).2.graph = _
    rw [BuilderState.fill, hk]
  have hk' : (b.perform (.fill slot target)).state.graph.kindOf? slot =
      some (.slot (some target)) := by rw [hgraph, Graph.kindOf?_setKind_self hk]
  refine h.change slot (hfill.extends h.reached.sound) (hfill.reached h.reached) (fun x hx => ?_)
    (fun l'' hl'' _ => ?_) hnodup.2 (fun x hx => ?_) (List.Subset.refl _)
  · rw [hgraph, Graph.kindOf?_setKind_of_ne hx]
  · cases hslot.symm.trans hl''
    obtain ⟨n, hn, hkind⟩ := Graph.kindOf?_eq_some.1 hk'
    have hfun : (b.perform (.fill slot target)).state.graph.isFunction slot = false := by
      rw [Graph.isFunction, hk']
    refine .of_forall₂ ?_ (fun outer f heq => absurd heq (hl outer _)) fun outer _ _ _ => hl outer _
    rw [Graph.successors_of_not_isFunction hfun, Graph.children_of_node hn, Node.template, hkind,
      hleads]
    exact .cons htarget .nil
  · exact ⟨hs ▸ List.mem_cons_of_mem _ hx, fun heq => hnodup.1 (heq ▸ hx)⟩

/-- A function is made whose body is lowered when it is asked for. -/
theorem function {outer : List CoreFunction} {bodies : List (Binders NodeId)} (F : CoreFunction)
    (hbodies : List.Forall₂ (Binders.Rel ρ.Has) bodies (scopeLabels outer)) :
    (b.perform (.function F.params.length fun me args =>
      TryBuild.recipe (F.lower bodies me args))).Labelled
        (ρ.addFunction b.state.graph.size outer F) holes := by
  generalize hop : (Operation.function F.params.length fun me args =>
    TryBuild.recipe (F.lower bodies me args) : Operation σ) = op
  have hleads : b.Leads (b.perform op) := hop ▸ .function b _ _
  have hext := hleads.extends h.reached.sound
  have hgraph : (b.perform op).state.graph =
      b.state.graph.pushFunction b.state.scope F.params.length := by subst hop; rfl
  have hf : (b.perform op).state.graph.node? b.state.graph.size =
      some ⟨b.state.scope, {}, .function F.params.length .pending⟩ := hop ▸ b.node?_function _ _
  have hparam : ∀ i < F.params.length,
      (b.perform op).state.graph.kindOf? (b.state.graph.size + 1 + i) = some (.parameter i) := by
    intro i hi
    have hlt : b.state.graph.size < b.state.graph.size + 1 + i :=
      Nat.lt_add_right i (Nat.lt_succ_self _)
    rw [Graph.kindOf?, hgraph, Graph.node?_pushFunction, if_neg (Nat.lt_asymm hlt),
      if_neg (Nat.ne_of_gt hlt), Nat.add_sub_cancel_left, if_pos hi]
    rfl
  have hold : ∀ e < b.state.graph.size,
      (b.perform op).state.graph.kindOf? e = b.state.graph.kindOf? e := fun e he => by
    rw [Graph.kindOf?, hgraph, Graph.node?_pushFunction, if_pos he, ← Graph.kindOf?]
  have hρ : ρ.Grows (ρ.addFunction b.state.graph.size outer F) :=
    Labelling.grows_addFunction h.lt_size
  refine h.grow hext (hleads.reached h.reached) hρ (fun e l he => ?_) (fun e l he hb => ?_)
    h.nodup (fun e he => ?_) fun q hq => ?_
  · rcases Labelling.of_has_addFunction he with ⟨_, hlt⟩ | ⟨rfl, _⟩ | ⟨i, hi, rfl, _⟩
    · exact Nat.lt_of_lt_of_le hlt hext.size_le
    · exact Graph.lt_size hf
    · obtain ⟨n, hn, _⟩ := Graph.kindOf?_eq_some.1 (hparam i hi)
      exact Graph.lt_size hn
  · rcases Labelling.of_has_addFunction he with ⟨hold', hlt⟩ | ⟨rfl, _⟩ | ⟨i, hi, rfl, rfl⟩
    · exact .inl ⟨hold', hb.congr (hold e hlt).symm⟩
    · have hk := Graph.kindOf?_of_node hf
      obtain ⟨body, hbody⟩ := hb.2.2 (Graph.isFunction_iff.2 ⟨_, _, hk⟩)
      obtain ⟨arity, hk'⟩ := Graph.body?_eq_some.1 hbody
      cases hk.symm.trans hk'
    · have hp := Graph.isParameter_iff.2 ⟨i, hparam i hi⟩
      refine .inr (.of_forall₂ ?_ (fun _ _ heq => by cases heq) fun _ _ _ _ heq => by cases heq)
      rw [Graph.successors_of_isParameter hp]
      exact .nil
  · exact (hold e (h.lt_size_of_hole he)).trans (h.holes e he)
  · have hpending : (b.perform op).pending = b.pending ++ [(b.state.graph.size,
        TryBuild.recipe (F.lower bodies b.state.graph.size
          ((b.perform op).state.graph.params b.state.graph.size)))] := by subst hop; rfl
    rcases List.mem_append.1 (hpending ▸ hq) with hq | hq
    · exact .inl hq
    · rw [List.mem_singleton] at hq
      subst hq
      have hk := Graph.kindOf?_of_node hf
      refine .inr ⟨Graph.isFunction_iff.2 ⟨_, _, hk⟩, outer, F, bodies,
        Labelling.has_addFunction, ?_, Graph.rel_grow hρ hbodies, rfl⟩
      rw [Graph.params_of_kind hk, List.range'_eq_map_range, CoreFunction.paramLabels,
        List.forall₂_map_left_iff, List.forall₂_map_right_iff, List.forall₂_same]
      exact fun i hi => Labelling.has_addFunction_param (List.mem_range.1 hi)

end Labelled

namespace Labelled

variable {b c : Builder σ} {ρ : Labelling} {f : NodeId}

theorem enter (h : b.Labelled ρ []) {recipe : Recipe σ}
    (hreq : b.request f = .construct recipe c) :
    c.Labelled ρ [] ∧ c.state.graph.Described ρ f recipe := by
  obtain ⟨⟨arity, hk⟩, hstate⟩ := request_construct hreq
  obtain ⟨hmem, hsub⟩ := mem_of_request hreq
  have hext : b.state.graph.Extends c.state.graph := hstate ▸ (h.reached.sound.enter hk).2
  have hgraph : c.state.graph = b.state.graph.setKind f (.function arity .building) :=
    (congrArg _ hstate).trans (Graph.setBodyState_eq hk _)
  refine ⟨?_, (h.pending _ hmem).grow hext (.refl ρ)⟩
  refine h.change f hext (h.reached.enter hreq) (fun x hx => ?_)
    (fun l hl hb => ?_) .nil (List.forall_mem_nil _) hsub
  · rw [hgraph, Graph.kindOf?_setKind_of_ne hx]
  · have hk' : c.state.graph.kindOf? f = some (.function arity .building) := by
      rw [hgraph, Graph.kindOf?_setKind_self hk]
    obtain ⟨body, hbody⟩ := hb.2.2 (Graph.isFunction_iff.2 ⟨_, _, hk'⟩)
    obtain ⟨arity', hk''⟩ := Graph.body?_eq_some.1 hbody
    cases hk'.symm.trans hk''

theorem leave (h : b.Labelled ρ []) {rest : List NodeId} (hscopes : b.state.scopes = f :: rest)
    {outer : List CoreFunction} {F : CoreFunction} (hf : ρ.Has f (.code outer (.function F)))
    {body : Body}
    (hroots : List.Forall₂ ρ.Has body.roots (F.roots.filterMap (Core.denote (F :: outer))))
    (hbound : ¬F.Unbound outer) : (b.leave f (.ok body)).Labelled ρ [] := by
  obtain ⟨arity, hk⟩ := h.reached.sound.building f (hscopes ▸ List.mem_cons_self)
  have hgraph : (b.leave f (.ok body)).state.graph =
      b.state.graph.setKind f (.function arity (.ready body)) := Graph.setBodyState_eq hk _
  have hstage : BodyState.building.stage < (BodyState.ready body).stage := Nat.lt_add_one 1
  refine h.change f (hgraph ▸ Graph.extends_setKind hk (.advance hstage))
    (h.reached.leave hscopes _) (fun x hx => ?_) (fun l hl _ => ?_) .nil
    (List.forall_mem_nil _) (List.Subset.refl _)
  · rw [hgraph, Graph.kindOf?_setKind_of_ne hx]
  · cases hf.symm.trans hl
    have hbody : (b.leave f (.ok body)).state.graph.body? f = some body :=
      Graph.body?_eq_some.2 ⟨arity, by rw [hgraph, Graph.kindOf?_setKind_self hk]⟩
    refine .of_forall₂ ?_ (fun outer' F' heq => ?_) fun _ _ _ _ heq => by cases heq
    · rw [Graph.successors_of_body? hbody]
      exact hroots
    · cases heq
      exact hbound

end Labelled

end Builder

end ScriptGraph
