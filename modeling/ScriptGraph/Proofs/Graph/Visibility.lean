import ScriptGraph.Proofs.Analysis.Settling
import ScriptGraph.Proofs.Graph.Nesting

/-!
# What the text of a scope may refer to

* `Graph.Sees` : a node may be used in a scope;
* `Graph.Nested` : a graph in which all references are of this kind;
* `Graph.Nested.grow` : how it stays so;
* `Graph.Nested.settle_eq_error` : in such a graph nothing leaks, so only a cycle ends settling.
-/

namespace ScriptGraph.Graph

variable {g g' : Graph} {e : NodeId} {s t : Scope}

/-- A node may be used in the scope it was made in, and inside it. -/
def Sees (g : Graph) (s : Scope) (e : NodeId) : Prop :=
  e < g.size ∧ g.isWithin s (g.scopeOf e) = true

/-- All references of nodes and bodies are to nodes that may be used there. -/
structure Nested (g : Graph) : Prop where
  children : ∀ e, ∀ c ∈ g.children e, g.Sees (g.scopeOf e) c
  roots : ∀ f body, g.body? f = some body → ∀ r ∈ body.roots, g.Sees (some f) r

theorem lt_size_of_children {c : NodeId} (h : c ∈ g.children e) : e < g.size := by
  cases hn : g.node? e with
  | none => simp [children, hn] at h
  | some n => exact lt_size hn

theorem lt_size_of_body? {body : Body} (h : g.body? e = some body) : e < g.size := by
  obtain ⟨arity, hk⟩ := body?_eq_some.1 h
  obtain ⟨n, hn, _⟩ := kindOf?_eq_some.1 hk
  exact lt_size hn

/-! ## Later graphs -/

theorem Extends.scopeOf_eq (h : g.Extends g') (he : e < g.size) : g'.scopeOf e = g.scopeOf e := by
  obtain ⟨n, hn⟩ := exists_node he
  obtain ⟨n', hn', hgrow⟩ := h e n hn
  rw [scopeOf_of_node hn, scopeOf_of_node hn', hgrow.scope]

theorem Extends.scopeChain_eq (h : g.Extends g') (hg : g.Sound) (hg' : g'.Sound)
    (hs : ∀ f, s = some f → f < g.size) : g'.scopeChain s = g.scopeChain s := by
  induction s using hg.scope_induction with
  | top => rw [scopeChain_none, scopeChain_none]
  | inner f ih =>
    have hf := hs f rfl
    rw [hg'.scopeChain_some, hg.scopeChain_some, h.scopeOf_eq hf,
      ih fun outer ho => Nat.lt_trans (hg.scope_lt ho) hf]

theorem Sees.grow (h : g.Sees s e) (hext : g.Extends g') (hg : g.Sound) (hg' : g'.Sound)
    (hs : ∀ f, s = some f → f < g.size) : g'.Sees s e := by
  refine ⟨Nat.lt_of_lt_of_le h.1 hext.size_le, ?_⟩
  rw [hext.scopeOf_eq h.1, isWithin, hext.scopeChain_eq hg hg' hs]
  exact h.2

theorem Sound.isWithin_none (hg : g.Sound) (s : Scope) : g.isWithin s none = true := by
  induction s using hg.scope_induction with
  | top => exact hg.isWithin_refl none
  | inner f ih => exact hg.isWithin_trans (hg.isWithin_function f) ih

theorem Nested.grow (h : g.Nested) (hext : g.Extends g') (hg : g.Sound) (hg' : g'.Sound)
    (hchildren : ∀ e, ∀ c ∈ g'.children e, c ∈ g.children e ∨ g'.Sees (g'.scopeOf e) c)
    (hroots : ∀ f body, g'.body? f = some body → g.body? f = some body ∨
      ∀ r ∈ body.roots, g'.Sees (some f) r) : g'.Nested where
  children e c hc := by
    rcases hchildren e c hc with hold | hnew
    · have he := lt_size_of_children hold
      rw [hext.scopeOf_eq he]
      exact (h.children e c hold).grow hext hg hg' fun f hf => Nat.lt_trans (hg.scope_lt hf) he
    · exact hnew
  roots f body hb r hr := by
    rcases hroots f body hb with hold | hnew
    · refine (h.roots f body hold r hr).grow hext hg hg' ?_
      rintro _ ⟨⟩
      exact lt_size_of_body? hold
    · exact hnew r hr

theorem Nested.append (h : g.Nested) (hext : g.Extends g') (hg : g.Sound) (hg' : g'.Sound)
    (hold : ∀ e < g.size, g'.node? e = g.node? e)
    (hparts : ∀ e n, g.size ≤ e → g'.node? e = some n →
      ∀ x ∈ n.template.filterMap Part.node?, g'.Sees n.scope x)
    (hbodies : ∀ f body, g.size ≤ f → g'.body? f ≠ some body) : g'.Nested := by
  refine h.grow hext hg hg' (fun e x hx => ?_) (fun f body hb => ?_)
  · rcases Nat.lt_or_ge e g.size with he | he
    · rw [Graph.children, hold e he] at hx
      exact .inl hx
    · obtain ⟨n, hn⟩ := exists_node (lt_size_of_children hx)
      rw [children_of_node hn] at hx
      rw [scopeOf_of_node hn]
      exact .inr (hparts e n he hn x hx)
  · rcases Nat.lt_or_ge f g.size with hf | hf
    · rw [body?, kindOf?, hold f hf] at hb
      exact .inl hb
    · exact absurd hb (hbodies f body hf)

theorem Nested.setKind (h : g.Nested) (hg : g.Sound) {k k' : Kind} (hk : g.kindOf? e = some k)
    (hgrow : k.Grows k') (hparts : ∀ n : Node, n.kind = k' →
      ∀ x ∈ n.template.filterMap Part.node?, g.Sees (g.scopeOf e) x)
    (hroots : ∀ arity body, k' = .function arity (.ready body) → ∀ r ∈ body.roots,
      g.Sees (some e) r) : (g.setKind e k').Nested := by
  have hext := extends_setKind hk hgrow
  have hg' := hg.setKind hk hgrow
  have he : e < g.size := by
    obtain ⟨n, hn, _⟩ := kindOf?_eq_some.1 hk
    exact lt_size hn
  refine h.grow hext hg hg' (fun x c hc => ?_) (fun f body hb => ?_)
  · obtain ⟨n, hn⟩ := exists_node (lt_size_of_children hc)
    rw [children_of_node hn] at hc
    rw [node?_setKind] at hn
    split at hn
    · rename_i hx
      subst hx
      obtain ⟨m, _, rfl⟩ := Option.map_eq_some_iff.1 hn
      right
      rw [hext.scopeOf_eq he]
      exact (hparts _ rfl c hc).grow hext hg hg' fun f hf => Nat.lt_trans (hg.scope_lt hf) he
    · left
      rwa [children_of_node hn]
  · obtain ⟨arity, hb⟩ := body?_eq_some.1 hb
    by_cases hf : f = e
    · subst hf
      rw [kindOf?_setKind_self hk, Option.some.injEq] at hb
      right
      intro r hr
      refine (hroots arity body hb r hr).grow hext hg hg' ?_
      rintro _ ⟨⟩
      exact he
    · rw [kindOf?_setKind_of_ne hf] at hb
      exact .inl (body?_eq_some.2 ⟨arity, hb⟩)

/-! ## Settling -/

section Settling

variable {roots order : List NodeId} {settled : List Settled}

theorem rootCount_pos {bodies : List (Scope × List NodeId)} (h : 0 < rootCount bodies e t) :
    ∃ rs, (t, rs) ∈ bodies ∧ e ∈ rs := by
  obtain ⟨n, hn, hpos⟩ := List.exists_mem_ne_zero_of_sum_ne_zero (Nat.ne_of_gt h)
  obtain ⟨⟨t', rs⟩, hrs, rfl⟩ := List.mem_map.1 hn
  dsimp only at hpos
  split at hpos
  · rename_i heq
    exact ⟨rs, heq ▸ hrs, List.count_pos_iff.1 (Nat.pos_of_ne_zero hpos)⟩
  · exact absurd rfl hpos

/-- Nodes land only where they may be used. -/
theorem Nested.isWithin_of_exactLandings (h : g.Nested) (hg : g.Sound)
    (hroots : ∀ r ∈ roots, g.Sees none r)
    (hland : 0 < g.exactLandings (g.bodies roots order) settled e t) :
    g.isWithin t (g.scopeOf e) = true := by
  induction settled generalizing e t with
  | nil =>
    obtain ⟨rs, hrs, he⟩ := rootCount_pos hland
    rcases List.mem_cons.1 hrs with heq | hrs
    · cases heq
      exact (hroots e he).2
    · obtain ⟨f, _, hf⟩ := List.mem_filterMap.1 hrs
      obtain ⟨body, hbody, heq⟩ := Option.map_eq_some_iff.1 hf
      cases heq
      exact (h.roots f body hbody e he).2
  | cons s earlier ih =>
    rw [exactLandings] at hland
    rcases Nat.add_pos_iff_pos_or_pos.1 hland with hearlier | hnew
    · exact ih hearlier
    · have hc : e ∈ g.children s.node := List.count_pos_iff.1 (Nat.pos_of_mul_pos_right hnew)
      have hchild := (h.children s.node e hc).2
      have hlast := Nat.pos_of_mul_pos_left hnew
      split at hlast
      · split at hlast
        · rename_i hst
          exact hst ▸ hchild
        · exact absurd hlast (Nat.lt_irrefl 0)
      · exact hg.isWithin_trans (ih hlast) hchild

/-- Nothing leaks. -/
theorem Nested.decideNode_eq_ok (h : g.Nested) (hg : g.Sound)
    (hroots : ∀ r ∈ roots, g.Sees none r)
    (hsettles : g.Settles (g.bodies roots order) order settled.reverse) (e : NodeId) :
    ∃ s, g.decideNode e (g.landings (g.bodies roots order) settled e) = .ok s := by
  refine ⟨_, Graph.decideNode_eq_ok.2 ⟨rfl, fun _ t ht => ?_⟩⟩
  obtain ⟨hproper, hcount⟩ := hsettles.landings_proper e
  rw [List.reverse_reverse] at hproper hcount
  rw [hproper.mem_scopes_iff, hcount] at ht
  exact h.isWithin_of_exactLandings hg hroots (Nat.lt_of_lt_of_le ht (Nat.min_le_left ..))

/-- Only a cycle ends settling. -/
theorem Nested.settle_eq_error (h : g.Nested) (hg : g.Sound)
    (hroots : ∀ r ∈ roots, g.Sees none r) (hclosed : ∀ p ∈ order, ∀ c ∈ g.children p, c ∈ order)
    (hnodup : order.Nodup) {fault : Fault} (hfault : g.settle roots order = .error fault) :
    fault = .cyclicGraph := by
  rcases Graph.settle_eq_error hnodup hclosed hfault with ⟨e, _, earlier, hsettles, _, hdec⟩ | ⟨heq, _⟩
  · obtain ⟨s, hs⟩ := h.decideNode_eq_ok hg hroots hsettles e
    exact nomatch hdec.symm.trans hs
  · exact heq

end Settling

end ScriptGraph.Graph
