import ScriptGraph.Proofs.Emission.Occurrences

/-!
# Declarations before their uses

* `Graph.Resolved.passages_of_contains`, `Graph.Resolved.contains_of_passages` : the search for
  references goes through what is written in an initializer;
* `Graph.Resolved.mem_references_iff_names` : it finds the declarations that are named there;
* `Graph.Resolved.idxOf_declarationsOf_lt_iff` : which of two declarations comes first when one names
  the other;
* `Builder.order_of_analyze` : so it is when the name is read as soon as the initializer is evaluated;
* `Builder.declarations_of_analyze` : the declarations of a scope are complete, and only circles of
  names keep one of them from coming after another that it names.
-/

namespace ScriptGraph

namespace Graph.Resolved

variable {g : Graph} {body : Body} {a : Analysis} (h : g.Resolved body a) {s t : Scope}
  {x y c : NodeId}

include h

/-! ## What is written in an initializer is searched -/

theorem scope_ne_of_isWithin {f : NodeId} (hs : g.isWithin (g.scopeOf f) s = true) :
    (some f : Scope) ≠ s := by
  rintro rfl
  cases hf : g.scopeOf f with
  | none =>
    rw [hf, isWithin_iff, scopeChain_none] at hs
    simp at hs
  | some outer =>
    rw [hf] at hs
    exact Nat.not_lt_of_le (h.sound.le_of_isWithin hs) (h.sound.scope_lt hf)

omit h in
theorem passes_iff : (a.declaredOf g).passes s c = true ↔
    (a.isDeclared c = true → g.scopeOf c ≠ s ∧ g.isWithin (g.scopeOf c) s = true) := by
  have heq : (a.declaredOf g).passes s c =
      (!a.isDeclared c || (g.scopeOf c != s && g.isWithin (g.scopeOf c) s)) := rfl
  rw [heq]
  cases a.isDeclared c <;> simp

theorem mem_neighbours_iff (hc : c ∈ a.order) : y ∈ (a.declaredOf g).neighbours c ↔
    y ∈ g.successors c ∨ y ∈ a.declarationsOf (some c) := by
  rw [h.mem_declarationsOf_iff, ← mem_group_iff, Declared.mem_neighbours_iff, mem_successors]
  refine ⟨fun hy => ?_, fun hy => ?_⟩
  · rcases hy with hy | ⟨inner, hb, hy | hy⟩
    · exact .inl (.inl hy)
    · exact .inl (.inr ⟨inner, hb, hy⟩)
    · exact .inr hy
  · rcases hy with (hy | ⟨inner, hb, hy⟩) | hy
    · exact .inl hy
    · exact .inr ⟨inner, hb, .inl hy⟩
    · obtain ⟨inner, hb⟩ := h.surveyed.exists_body hc (h.sound.scope_isFunction (mem_group_iff.1 hy).2)
      exact .inr ⟨inner, hb, .inr hy⟩

/-- What is written in the initializer of a declaration is searched, and stands inside its scope. -/
theorem passages_of_contains (hx : x ∈ (a.declaredOf g).group s)
    (hpath : Relation.ReflTransGen (a.Contains g) x c) :
    Relation.ReflTransGen (fun u v => v ∈ (a.declaredOf g).passages s u) x c ∧ c ∈ a.order ∧
      ∃ t, a.StandsIn g body c t ∧ g.isWithin t s = true := by
  obtain ⟨hdx, hsx⟩ := mem_group_iff.1 hx
  induction hpath with
  | refl =>
    exact ⟨.refl, h.mem_order_of_isDeclared hdx, s, (standsIn_of_declared hdx).2 hsx,
      h.sound.isWithin_refl s⟩
  | @tail c c' _ hc ih =>
    obtain ⟨hpath, hco, t, hstands, hwithin⟩ := ih
    have hneighbour : c' ∈ (a.declaredOf g).neighbours c :=
      (h.mem_neighbours_iff hco).2 (hc.imp_left And.left)
    have hpasses : (a.declaredOf g).passes s c' = true := by
      rw [passes_iff]
      intro hd
      rcases hc with ⟨_, hd'⟩ | hmem
      · rw [hd] at hd'
        cases hd'
      · have hown := (h.mem_declarationsOf_iff.1 hmem).2
        have hfun := h.sound.scope_isFunction hown
        rw [← h.scopeOf_function hco hfun hstands] at hwithin
        rw [hown]
        exact ⟨h.scope_ne_of_isWithin hwithin,
          h.sound.isWithin_trans (h.sound.isWithin_function c) hwithin⟩
    refine ⟨hpath.tail (List.mem_filter.2 ⟨hneighbour, hpasses⟩), h.mem_of_contains hco hc, ?_⟩
    cases hfun : g.isFunction c with
    | true =>
      rw [← h.scopeOf_function hco hfun hstands] at hwithin
      exact ⟨some c, h.standsIn_of_function hco hfun hc,
        h.sound.isWithin_trans (h.sound.isWithin_function c) hwithin⟩
    | false => exact ⟨t, (h.standsIn_of_contains hco hfun hstands hc).2, hwithin⟩

/-! ## What is searched is written in the initializer -/

/-- The functions inside `s` around the scope `t` are written in the text of `x`. -/
def Covers (g : Graph) (a : Analysis) (s : Scope) (x : NodeId) (t : Scope) : Prop :=
  ∀ f, g.isWithin t (some f) = true → g.isWithin (some f) s = true → (some f : Scope) ≠ s →
    Relation.ReflTransGen (a.Contains g) x f

theorem covers_function {f : NodeId} (hcovers : Covers g a s x (g.scopeOf f))
    (hpath : Relation.ReflTransGen (a.Contains g) x f) : Covers g a s x (some f) := by
  intro f' hf' hwithin hne
  rw [isWithin_iff, h.sound.scopeChain_some] at hf'
  rcases List.mem_cons.1 hf' with hf' | hf'
  · cases hf'
    exact hpath
  · exact hcovers f' (isWithin_iff.2 hf') hwithin hne

theorem covers_self : Covers g a s x s := by
  intro f hf hwithin hne
  exact absurd (h.sound.isWithin_antisymm hwithin hf) hne

/-- A node that is used where the functions around are written in the text of `x` is written there
itself, unless the search stops at it. -/
theorem contained_of_uses (hpath : Relation.ReflTransGen (a.Contains g) x c) (hco : c ∈ a.order)
    (hy : y ∈ g.successors c) (hu : 0 < a.usesIn g body y t) (hcovers : Covers g a s x t)
    (hpasses : (a.declaredOf g).passes s y = true) :
    Relation.ReflTransGen (a.Contains g) x y ∧
      ∃ t', a.StandsIn g body y t' ∧ Covers g a s x t' := by
  cases hd : a.isDeclared y with
  | false =>
    exact ⟨hpath.tail (.inl ⟨hy, hd⟩), t, (standsIn_of_undeclared hd).2 hu, hcovers⟩
  | true =>
    obtain ⟨hne, hwithin⟩ := passes_iff.1 hpasses hd
    have hyo := h.surveyed.successor_mem hco hy
    have hinside := h.within_of_uses hyo (.inl hd) hu
    cases hf : g.scopeOf y with
    | none =>
      rw [hf, isWithin_iff, scopeChain_none, List.mem_singleton] at hwithin
      exact absurd (hf.trans hwithin.symm) hne
    | some f =>
      rw [hf] at hne hwithin hinside
      refine ⟨(hcovers f hinside hwithin hne).tail (.inr (h.mem_declarationsOf_iff.2 ⟨hd, hf⟩)),
        some f, (standsIn_of_declared hd).2 hf, fun f' hf' => ?_⟩
      exact hcovers f' (h.sound.isWithin_trans hinside hf')

theorem contains_of_passages (hx : x ∈ (a.declaredOf g).group s)
    (hpath : Relation.ReflTransGen (fun u v => v ∈ (a.declaredOf g).passages s u) x c) :
    Relation.ReflTransGen (a.Contains g) x c ∧ c ∈ a.order ∧
      ∃ t, a.StandsIn g body c t ∧ Covers g a s x t := by
  obtain ⟨hdx, hsx⟩ := mem_group_iff.1 hx
  induction hpath with
  | refl =>
    exact ⟨.refl, h.mem_order_of_isDeclared hdx, s, (standsIn_of_declared hdx).2 hsx,
      h.covers_self⟩
  | @tail c c' _ hc ih =>
    obtain ⟨hpath, hco, t, hstands, hcovers⟩ := ih
    obtain ⟨hneighbour, hpasses⟩ := List.mem_filter.1 hc
    have hinner : g.isFunction c = true → Covers g a s x (some c) := fun hfun => by
      rw [← h.scopeOf_function hco hfun hstands] at hcovers
      exact h.covers_function hcovers hpath
    rcases (h.mem_neighbours_iff hco).1 hneighbour with hsucc | hmem
    · obtain ⟨hpath', t', hstands', hcovers'⟩ : Relation.ReflTransGen (a.Contains g) x c' ∧
          ∃ t', a.StandsIn g body c' t' ∧ Covers g a s x t' := by
        cases hfun : g.isFunction c with
        | true =>
          obtain ⟨inner, hb⟩ := h.surveyed.exists_body hco hfun
          have hroot : c' ∈ inner.roots := by rwa [successors_of_body? hb] at hsucc
          exact h.contained_of_uses hpath hco hsucc (h.uses_body_root hco hb hroot) (hinner hfun)
            hpasses
        | false =>
          have hchild : c' ∈ g.children c := by rwa [successors_of_not_isFunction hfun] at hsucc
          exact h.contained_of_uses hpath hco hsucc (h.uses_child hco hchild hstands) hcovers hpasses
      exact ⟨hpath', h.surveyed.successor_mem hco hsucc, t', hstands', hcovers'⟩
    · obtain ⟨hd, hown⟩ := h.mem_declarationsOf_iff.1 hmem
      exact ⟨hpath.tail (.inr hmem), h.mem_order_of_isDeclared hd, some c,
        (standsIn_of_declared hd).2 hown, hinner (h.sound.scope_isFunction hown)⟩

/-! ## References and names -/

/-- The references of a declaration are the declarations of its scope that its initializer names. -/
theorem mem_references_iff_names {o : Output}
    (hy : a.Yields g (a.bodyTasks none body.roots []) o.sites) (hx : x ∈ a.declarationsOf s) :
    y ∈ (a.declaredOf g).references s x ↔ y ∈ a.declarationsOf s ∧ o.Names x y := by
  obtain ⟨hdx, _⟩ := h.mem_declarationsOf_iff.1 hx
  have hgroup : ∀ {e}, e ∈ (a.declaredOf g).group s ↔ e ∈ a.declarationsOf s := by
    intro e
    rw [mem_group_iff, h.mem_declarationsOf_iff]
  rw [Declared.mem_references_iff h.closed (h.mem_order_of_isDeclared hdx), hgroup]
  apply and_congr_right
  intro hmem
  obtain ⟨hdy, hsy⟩ := h.mem_declarationsOf_iff.1 hmem
  rw [h.names_iff hy hdx hdy]
  constructor
  · rintro ⟨c, hpath, hneighbour⟩
    obtain ⟨hcontains, hco, _⟩ := h.contains_of_passages (hgroup.2 hx) hpath
    refine ⟨c, hcontains, ((h.mem_neighbours_iff hco).1 hneighbour).resolve_right fun hinner => ?_⟩
    obtain ⟨_, _, t, hstands, hwithin⟩ := h.passages_of_contains (hgroup.2 hx) hcontains
    have hown := (h.mem_declarationsOf_iff.1 hinner).2
    rw [← h.scopeOf_function hco (h.sound.scope_isFunction hown) hstands] at hwithin
    exact h.scope_ne_of_isWithin hwithin (hown.symm.trans hsy)
  · rintro ⟨c, hpath, hsucc⟩
    obtain ⟨hpassages, hco, _⟩ := h.passages_of_contains (hgroup.2 hx) hpath
    exact ⟨c, hpassages, (h.mem_neighbours_iff hco).2 (.inl hsucc)⟩

end Graph.Resolved

/-! ## Which of two declarations comes first -/

/-- The declarations of a scope whose placing begins before that of `y`. -/
def Declared.begunBefore (d : Declared) (scope : Scope) (y : NodeId) : List NodeId :=
  (d.preorder scope).takeWhile (· != y)

/-- One declaration of a scope names another one, whose placing does not begin before that of `y`. -/
def Analysis.LeadsOn (a : Analysis) (g : Graph) (o : Output) (s : Scope) (y u v : NodeId) : Prop :=
  o.Names u v ∧ v ∈ a.declarationsOf s ∧ v ∉ (a.declaredOf g).begunBefore s y

namespace Graph.Resolved

variable {g : Graph} {body : Body} {a : Analysis} (h : g.Resolved body a) {s : Scope}
  {x y z : NodeId} {o : Output} (hy : a.Yields g (a.bodyTasks none body.roots []) o.sites)

include h hy

theorem leadsOn_iff_fresh (hmem : y ∈ a.declarationsOf s) :
    Relation.ReflTransGen (a.LeadsOn g o s y) y z ↔ Relation.ReflTransGen
      (Fresh ((a.declaredOf g).references s) ((a.declaredOf g).begunBefore s y)) y z := by
  constructor
  · intro hpath
    have : z ∈ a.declarationsOf s ∧ Relation.ReflTransGen
        (Fresh ((a.declaredOf g).references s) ((a.declaredOf g).begunBefore s y)) y z := by
      induction hpath with
      | refl => exact ⟨hmem, .refl⟩
      | tail _ hstep ih =>
        obtain ⟨hnames, hv, hnew⟩ := hstep
        exact ⟨hv, ih.2.tail ⟨(h.mem_references_iff_names hy ih.1).2 ⟨hv, hnames⟩, hnew⟩⟩
    exact this.2
  · intro hpath
    have : z ∈ a.declarationsOf s ∧ Relation.ReflTransGen (a.LeadsOn g o s y) y z := by
      induction hpath with
      | refl => exact ⟨hmem, .refl⟩
      | tail _ hstep ih =>
        obtain ⟨hv, hnames⟩ := (h.mem_references_iff_names hy ih.1).1 hstep.1
        exact ⟨hv, ih.2.tail ⟨hnames, hv, hstep.2⟩⟩
    exact this.2

/-- A declaration comes after another one that it names, unless that one leads back to it through
declarations that were not begun before. -/
theorem idxOf_declarationsOf_lt_iff (hx : x ∈ a.declarationsOf s) (hmem : y ∈ a.declarationsOf s)
    (hne : x ≠ y) (hnames : o.Names x y) :
    (a.declarationsOf s).idxOf y < (a.declarationsOf s).idxOf x ↔
      ¬Relation.ReflTransGen (a.LeadsOn g o s y) y x := by
  have hgroup : ∀ {e}, e ∈ a.declarationsOf s → e ∈ (a.declaredOf g).group s := fun he =>
    mem_group_iff.2 (h.mem_declarationsOf_iff.1 he)
  have hbegun : y ∈ (a.declaredOf g).preorder s :=
    List.mem_reverse.1 (((a.declaredOf g).ordered_depthFirst h.closed s).todo_subset (hgroup hmem))
  obtain ⟨before, later, hsplit, hbefore⟩ := List.eq_append_cons_of_mem hbegun
  have htake : (a.declaredOf g).begunBefore s y = before := by
    have hall : ∀ e ∈ before, (e != y) = true := fun e he =>
      bne_iff_ne.2 fun heq => hbefore (heq ▸ he)
    rw [Declared.begunBefore, hsplit, List.takeWhile_append_of_pos hall,
      List.takeWhile_cons_of_neg (by simp), List.append_nil]
  rw [h.leadsOn_iff_fresh hy hmem, h.declarationsOf_eq, htake]
  exact Declared.idxOf_ordered_lt_iff h.closed (hgroup hx)
    ((h.mem_references_iff_names hy hx).2 ⟨hmem, hnames⟩) hne hsplit

end Graph.Resolved

namespace Builder

variable {σ : Type}

/-- **When declarations are initialized before they are read**: after every successful analysis, a
declaration comes after another one of its scope that its initializer reads at once, exactly if that
one does not lead back to it, names within functions included, through declarations whose placing
did not begin before. -/
theorem order_of_analyze {b c : Builder σ} {body : Body} {stem : String} {a : Analysis}
    (hb : b.Reached) (ha : b.analyze body stem = (.ok a, c)) (mode : CompileMode)
    (hmode : mode = .evaluation → ∃ root, body = .value root) (l : Layout)
    (hg : l.graph = c.state.graph) (hl : l.analysis = a) :
    ∃ o, l.output mode body = .ok o ∧
      ∀ s, ∀ x ∈ a.declarationsOf s, ∀ y ∈ a.declarationsOf s, x ≠ y → o.NamesEagerly x y →
        ((a.declarationsOf s).idxOf y < (a.declarationsOf s).idxOf x ↔
          ¬Relation.ReflTransGen (a.LeadsOn c.state.graph o s y) y x) := by
  have h := analyze_resolved hb ha
  rw [← hg, ← hl] at h
  rw [← hg, ← hl]
  obtain ⟨o, ho⟩ := l.exists_output h hmode
  refine ⟨o, ho, fun s x hx y hmem hne hread => ?_⟩
  exact h.idxOf_declarationsOf_lt_iff (l.output_yields ho) hx hmem hne hread.names

/-- A function that returns a list, and the list, which holds the function. -/
def knotExample : Builder Unit :=
  (Builder.run (Build.toRecipe do
    let slot ← Build.create .slot
    let f ← Build.function 0 fun _ _ => Build.toRecipe do
      return .ok (.value slot)
    let list ← Build.template [.text "[", .node f, .text "]"]
    let _ ← Build.fill slot list
    return .ok (.statements [f, list])) (.empty ())).2

theorem reached_knotExample : knotExample.Reached := (run_leads _ _).reached (reached_empty ())

/-- The declarations of the top level and the places of a script. -/
def scriptOf (b : Builder σ) (roots : List NodeId) : Except Fault (List NodeId × List Site) :=
  match b.analyze (.statements roots) "_" with
  | (.error fault, _) => .error fault
  | (.ok a, c) =>
    ((({} : Options).layout c.state.graph a).output .statements (.statements roots)).map fun o =>
      (a.declarationsOf none, o.sites)

theorem exists_of_scriptOf {b : Builder σ} {roots ds : List NodeId} {sites : List Site}
    (h : b.scriptOf roots = .ok (ds, sites)) :
    ∃ a c o, b.analyze (.statements roots) "_" = (.ok a, c) ∧
      (({} : Options).layout c.state.graph a).output .statements (.statements roots) = .ok o ∧
      a.declarationsOf none = ds ∧ o.sites = sites := by
  unfold scriptOf at h
  split at h
  · cases h
  · rename_i a c ha
    obtain ⟨o, ho, heq⟩ := map_eq_ok.1 h
    cases heq
    exact ⟨a, c, o, ha, ho, rfl, rfl⟩

/-- With the list first, the function is declared first, and the list does not lead on to it. -/
theorem order_knotExample : ∃ a c o, knotExample.analyze (.statements [2, 1]) "_" = (.ok a, c) ∧
    (({} : Options).layout c.state.graph a).output .statements (.statements [2, 1]) = .ok o ∧
    a.declarationsOf none = [1, 2] ∧ o.NamesEagerly 2 1 ∧
    ¬Relation.ReflTransGen (a.LeadsOn c.state.graph o none 1) 1 2 := by
  have hscript : knotExample.scriptOf [2, 1] = .ok ([1, 2],
      [⟨.binding 1, []⟩, ⟨.written 1, [.initializer 1]⟩,
        ⟨.written 0, [.function 1, .initializer 1]⟩, ⟨.name 2, [.function 1, .initializer 1]⟩,
        ⟨.binding 2, []⟩, ⟨.written 2, [.initializer 2]⟩, ⟨.name 1, [.initializer 2]⟩,
        ⟨.name 2, []⟩, ⟨.name 1, []⟩]) := by cbv
  obtain ⟨a, c, o, ha, ho, hds, hsites⟩ := exists_of_scriptOf hscript
  have hread : o.NamesEagerly 2 1 :=
    ⟨⟨.name 1, [.initializer 2]⟩, by simp [hsites], rfl, by simp [Frame.function?]⟩
  refine ⟨a, c, o, ha, ho, hds, hread, ?_⟩
  obtain ⟨o', ho', horder⟩ := order_of_analyze reached_knotExample ha .statements (by simp)
    (({} : Options).layout c.state.graph a) rfl rfl
  obtain rfl : o' = o := Except.ok.inj (ho'.symm.trans ho)
  apply (horder none 2 (by simp [hds]) 1 (by simp [hds]) (by decide) hread).1
  rw [hds]
  decide

/-- With the function first, the list comes before the function that it holds, although nothing else
is read at once. -/
theorem early_read_knotExample : ∃ a c o,
    knotExample.analyze (.statements [1, 2]) "_" = (.ok a, c) ∧
    (({} : Options).layout c.state.graph a).output .statements (.statements [1, 2]) = .ok o ∧
    (∀ x, ¬Relation.TransGen o.NamesEagerly x x) ∧ o.NamesEagerly 2 1 ∧
    2 ∈ a.declarationsOf none ∧ 1 ∈ a.declarationsOf none ∧
    (a.declarationsOf none).idxOf 2 < (a.declarationsOf none).idxOf 1 := by
  have hscript : knotExample.scriptOf [1, 2] = .ok ([2, 1],
      [⟨.binding 2, []⟩, ⟨.written 2, [.initializer 2]⟩, ⟨.name 1, [.initializer 2]⟩,
        ⟨.binding 1, []⟩, ⟨.written 1, [.initializer 1]⟩,
        ⟨.written 0, [.function 1, .initializer 1]⟩, ⟨.name 2, [.function 1, .initializer 1]⟩,
        ⟨.name 1, []⟩, ⟨.name 2, []⟩]) := by cbv
  obtain ⟨a, c, o, ha, ho, hds, hsites⟩ := exists_of_scriptOf hscript
  have hread : ∀ x y, o.NamesEagerly x y ↔ x = 2 ∧ y = 1 := fun x y => by
    simp [Output.NamesEagerly, hsites, Frame.function?, and_comm, eq_comm]
  refine ⟨a, c, o, ha, ho, fun x hcycle => ?_, (hread 2 1).2 ⟨rfl, rfl⟩, by simp [hds],
    by simp [hds], by rw [hds]; decide⟩
  have hends : ∀ z, Relation.TransGen o.NamesEagerly x z → x = 2 ∧ z = 1 := fun z hpath => by
    induction hpath with
    | single hstep => exact (hread _ _).1 hstep
    | tail _ hstep ih => exact ⟨ih.1, ((hread _ _).1 hstep).2⟩
  obtain ⟨hx, hx'⟩ := hends x hcycle
  exact absurd (hx.symm.trans hx') (by decide)

/-- **The declarations of a scope are complete and in order**: after every successful analysis they
are the declared reachable nodes that were made in the scope, each once; and a declaration comes after
another one that its initializer names, within functions and their declarations included, unless that
one leads back to it by names in initializers. -/
theorem declarations_of_analyze {b c : Builder σ} {body : Body} {stem : String} {a : Analysis}
    (hb : b.Reached) (ha : b.analyze body stem = (.ok a, c)) (mode : CompileMode)
    (hmode : mode = .evaluation → ∃ root, body = .value root) (l : Layout)
    (hg : l.graph = c.state.graph) (hl : l.analysis = a) :
    ∃ o, l.output mode body = .ok o ∧ ∀ s,
      (a.declarationsOf s).Nodup ∧
      (∀ e, e ∈ a.declarationsOf s ↔ a.isDeclared e = true ∧
        c.state.graph.Reaches body.roots e ∧ c.state.graph.scopeOf e = s) ∧
      ∀ x ∈ a.declarationsOf s, ∀ y ∈ a.declarationsOf s, x ≠ y → o.Names x y →
        (a.declarationsOf s).idxOf y < (a.declarationsOf s).idxOf x ∨
          Relation.ReflTransGen (fun u v => o.Names u v ∧ v ∈ a.declarationsOf s) y x := by
  have h := analyze_resolved hb ha
  rw [← hg, ← hl] at h
  rw [← hg, ← hl]
  obtain ⟨o, ho⟩ := l.exists_output h hmode
  refine ⟨o, ho, fun s => ⟨h.nodup_declarationsOf s, fun e => ?_, fun x hx y hmem hne hnames => ?_⟩⟩
  · rw [h.mem_declarationsOf_iff]
    refine and_congr_right fun hd => ?_
    have hreach := (h.surveyed.mem_iff e).1 (h.mem_order_of_isDeclared hd)
    exact (and_iff_right hreach).symm
  · by_cases hback : Relation.ReflTransGen (l.analysis.LeadsOn l.graph o s y) y x
    · exact .inr (Relation.ReflTransGen.mono (fun _ _ hstep => ⟨hstep.1, hstep.2.1⟩) _ _ hback)
    · exact .inl ((h.idxOf_declarationsOf_lt_iff (l.output_yields ho) hx hmem hne hnames).2 hback)

/-- A function that reads a value from outside, used twice. -/
def readerExample : Builder Unit :=
  (Builder.run (Build.toRecipe do
    let base ← Build.raw "base()"
    let reader ← Build.function 0 fun _ _ => Build.toRecipe do
      let value ← Build.get base "p"
      return .ok (.value value)
    let pair ← Build.template [.text "[", .node reader, .text ",", .node reader, .text "]"]
    return .ok (.value pair)) (.empty ())).2

/-- The function is met first, but it names the value, which does not lead back to it. -/
theorem declarations_readerExample : ∃ a c o,
    readerExample.analyze (.statements [2]) "_" = (.ok a, c) ∧
    (({} : Options).layout c.state.graph a).output .statements (.statements [2]) = .ok o ∧
    (∀ e, e ∈ a.declarationsOf none ↔ a.isDeclared e = true ∧
      c.state.graph.Reaches [2] e ∧ c.state.graph.scopeOf e = none) ∧
    o.Names 1 0 ∧ (a.declarationsOf none).idxOf 0 < (a.declarationsOf none).idxOf 1 := by
  have hscript : readerExample.scriptOf [2] = .ok ([0, 1],
      [⟨.binding 0, []⟩, ⟨.written 0, [.initializer 0]⟩,
        ⟨.binding 1, []⟩, ⟨.written 1, [.initializer 1]⟩,
        ⟨.written 3, [.function 1, .initializer 1]⟩, ⟨.name 0, [.function 1, .initializer 1]⟩,
        ⟨.written 2, []⟩, ⟨.name 1, []⟩, ⟨.name 1, []⟩]) := by cbv
  obtain ⟨a, c, o, ha, ho, hds, hsites⟩ := exists_of_scriptOf hscript
  obtain ⟨o', ho', hall⟩ := declarations_of_analyze ((run_leads _ _).reached (reached_empty ())) ha
    .statements (by simp) (({} : Options).layout c.state.graph a) rfl rfl
  obtain rfl : o' = o := Except.ok.inj (ho'.symm.trans ho)
  obtain ⟨_, hmem, horder⟩ := hall none
  have hnames : ∀ x y, o'.Names x y → x = 1 := fun x y => by
    simp only [Output.Names, hsites]
    simp
  have hname : o'.Names 1 0 := ⟨⟨.name 0, [.function 1, .initializer 1]⟩, by simp [hsites], rfl, by simp⟩
  refine ⟨a, c, o', ha, ho, hmem, hname, ?_⟩
  refine (horder 1 (by simp [hds]) 0 (by simp [hds]) (by decide) hname).resolve_right fun hback => ?_
  rcases hback.cases_head with heq | ⟨z, ⟨hstep, _⟩, _⟩
  · exact absurd heq (by decide)
  · exact absurd (hnames 0 z hstep) (by decide)

end Builder

end ScriptGraph
