import ScriptGraph.Builder.Operators
import ScriptGraph.Proofs.Analysis.Decisions
import ScriptGraph.Proofs.Builder.Creation
import ScriptGraph.Proofs.Operators.Phrase

/-!
# Operator trees in a graph

* `Tree.HasNode` : a node that applies the operator of a tree;
* `Graph.Spells` : nodes that spell trees, with the nodes the trees are made of;
* `Graph.Spells.analyze` : where each of these is used once, nothing is declared;
* `Tree.build` : a tree as a computation of the builder;
* `Builder.Plants`, `Builder.plantable` : it makes such nodes, each of them used once.
-/

namespace ScriptGraph

open Classical

/-! ## Nodes -/

namespace Tree

/-- The trees that the operator of a tree is applied to. -/
def children : Tree → List Tree
  | .ident _ => []
  | .member object _ _ => [object]
  | .index object key => [object, key]
  | .call callee args _ => callee :: args
  | .construct constructor args => constructor :: args
  | .assign target value => [target, value]
  | .await value => [value]

/-- A node that applies the operator of a tree to some nodes. -/
def HasNode : Tree → List NodeId → Node → Prop
  | .ident name, [], n => n.kind = .text name.val
  | .member _ property optional, [object], n =>
    n.kind = .template [.node object, .text (Build.memberAccess property.val optional)] ∧
      n.flags.awaits = false
  | .index _ _, [object, key], n =>
    n.kind = .template [.node object, .text "[", .node key, .text "]"] ∧ n.flags.awaits = false
  | .call _ _ optional, callee :: args, n =>
    n.kind = .call callee args ∧ n.flags.optional = optional
  | .construct _ _, constructor :: args, n =>
    n.kind = .template ([.text "new ", .node constructor, .text "("] ++
      commaSeparated (args.map .node) ++ [.text ")"]) ∧ n.flags.awaits = false
  | .assign _ _, [target, value], n =>
    n.kind = .template [.node target, .text "=", .node value] ∧ n.flags.awaits = false
  | .await _, [value], n =>
    n.kind = .template [.text "await ", .node value] ∧ n.flags.awaits = true
  | _, _, _ => False

namespace HasNode

variable {t : Tree} {kids : List NodeId} {n n' : Node}

theorem kind_cases (h : t.HasNode kids n) : (∃ code, n.kind = .text code) ∨
    (∃ parts, n.kind = .template parts) ∨ ∃ callee args, n.kind = .call callee args := by
  unfold HasNode at h
  split at h
  · exact .inl ⟨_, h⟩
  · exact .inr (.inl ⟨_, h.1⟩)
  · exact .inr (.inl ⟨_, h.1⟩)
  · exact .inr (.inr ⟨_, _, h.1⟩)
  · exact .inr (.inl ⟨_, h.1⟩)
  · exact .inr (.inl ⟨_, h.1⟩)
  · exact .inr (.inl ⟨_, h.1⟩)
  · exact h.elim

theorem template (h : t.HasNode kids n) : n.template.filterMap Part.node? = kids := by
  unfold HasNode at h
  split at h
  · simp [Node.template, h, Part.node?]
  all_goals first
    | exact h.elim
    | simp [Node.template, h.1, Part.node?, List.filterMap_cons, filterMap_node?_commaSeparated,
        Function.comp_def]

theorem grow (h : t.HasNode kids n) (hg : n.Grows n') : t.HasNode kids n' := by
  have hfinal : n.kind.isFinal = true := by
    rcases h.kind_cases with ⟨_, hk⟩ | ⟨_, hk⟩ | ⟨_, _, hk⟩ <;> rw [hk] <;> rfl
  rwa [hg.eq hfinal]

end HasNode

end Tree

theorem Graph.Reaches.of_roots {g : Graph} {roots roots' : List NodeId} {x : NodeId}
    (hx : g.Reaches roots x) (h : ∀ r ∈ roots, g.Reaches roots' r) : g.Reaches roots' x := by
  induction hx with
  | root hx => exact h _ hx
  | step _ hx ih => exact .step ih hx

/-- Nodes of the top level that spell trees, and all nodes that the trees are made of. -/
inductive Graph.Spells (g : Graph) : List NodeId → List Tree → List NodeId → Prop
  | nil : Spells g [] [] []
  | cons {e n t kids es ts inner ns} (hn : g.node? e = some n) (hscope : n.scope = none)
    (hpinned : n.flags.pinned = false) (ht : t.HasNode kids n)
    (hkids : Spells g kids t.children inner) (hrest : Spells g es ts ns) :
    Spells g (e :: es) (t :: ts) (e :: (inner ++ ns))

namespace Graph.Spells

variable {g g' : Graph} {es es' ns ns' order : List NodeId} {ts ts' : List Tree} {e x : NodeId}

theorem grow (h : g.Spells es ts ns) (hg : g.Extends g') : g'.Spells es ts ns := by
  induction h with
  | nil => exact .nil
  | @cons e n t _ _ _ _ _ hn hscope hpinned ht _ _ ihk ihr =>
    obtain ⟨n', hn', hgrow⟩ := hg e n hn
    exact .cons hn' (hgrow.scope.trans hscope) (hgrow.flags ▸ hpinned) (ht.grow hgrow) ihk ihr

theorem append (h : g.Spells es ts ns) (h' : g.Spells es' ts' ns') :
    g.Spells (es ++ es') (ts ++ ts') (ns ++ ns') := by
  induction h with
  | nil => exact h'
  | cons hn hscope hpinned ht hkids _ _ ih =>
    rw [List.cons_append, List.cons_append, List.cons_append, List.append_assoc]
    exact .cons hn hscope hpinned ht hkids ih

theorem perm (h : g.Spells es ts ns) : ns.Perm (es ++ ns.flatMap g.children) := by
  induction h with
  | nil => exact .refl _
  | @cons e n t kids es ts inner ns hn _ _ ht _ _ ihk ihr =>
    have hchildren : g.children e = kids := by rw [children_of_node hn, ht.template]
    rw [List.flatMap_cons, List.flatMap_append, hchildren, List.cons_append]
    refine .cons e ?_
    refine (ihk.append ihr).trans ?_
    rw [← Multiset.coe_eq_coe]
    simp only [← Multiset.coe_add]
    abel

theorem root_mem (h : g.Spells es ts ns) (he : e ∈ es) : e ∈ ns :=
  h.perm.mem_iff.2 (List.mem_append_left _ he)

theorem child_mem (h : g.Spells es ts ns) (he : e ∈ ns) (hx : x ∈ g.children e) : x ∈ ns :=
  h.perm.mem_iff.2 (List.mem_append_right _ (List.mem_flatMap.2 ⟨e, he, hx⟩))

theorem node (h : g.Spells es ts ns) : ∀ e ∈ ns, ∃ n t kids, g.node? e = some n ∧ n.scope = none ∧
    n.flags.pinned = false ∧ Tree.HasNode t kids n := by
  induction h with
  | nil => exact nofun
  | cons hn hscope hpinned ht _ _ ihk ihr =>
    exact List.forall_mem_cons.2 ⟨⟨_, _, _, hn, hscope, hpinned, ht⟩,
      List.forall_mem_append.2 ⟨ihk, ihr⟩⟩

/-- Once at the top level, and nowhere else. -/
def onceAtTop (t : Scope) : Nat := if none = t then 1 else 0

section Nodes

variable (h : g.Spells es ts ns)

include h

theorem kindOf? (he : e ∈ ns) : (∃ code, g.kindOf? e = some (.text code)) ∨
    (∃ parts, g.kindOf? e = some (.template parts)) ∨
      ∃ callee args, g.kindOf? e = some (.call callee args) := by
  obtain ⟨n, t, kids, hn, _, _, ht⟩ := h.node e he
  rw [kindOf?_of_node hn]
  simpa only [Option.some.injEq] using ht.kind_cases

theorem scopeOf (he : e ∈ ns) : g.scopeOf e = none := by
  obtain ⟨n, t, kids, hn, hscope, _⟩ := h.node e he
  rw [scopeOf_of_node hn, hscope]

theorem pinned (he : e ∈ ns) : (g.flagsOf e).pinned = false := by
  obtain ⟨n, t, kids, hn, _, hpinned, _⟩ := h.node e he
  rw [flagsOf_of_node hn, hpinned]

theorem isFunction (he : e ∈ ns) : g.isFunction e = false := by
  rcases h.kindOf? he with ⟨_, hk⟩ | ⟨_, hk⟩ | ⟨_, _, hk⟩ <;> simp [Graph.isFunction, hk]

theorem isParameter (he : e ∈ ns) : g.isParameter e = false := by
  rcases h.kindOf? he with ⟨_, hk⟩ | ⟨_, hk⟩ | ⟨_, _, hk⟩ <;> simp [Graph.isParameter, hk]

theorem built (he : e ∈ ns) : g.Built e := by
  obtain ⟨n, t, kids, hn, _⟩ := h.node e he
  refine ⟨lt_size hn, ?_, fun hf => absurd hf (by simp [h.isFunction he])⟩
  rcases h.kindOf? he with ⟨_, hk⟩ | ⟨_, hk⟩ | ⟨_, _, hk⟩ <;> simp [isUnfilledSlot, hk]

theorem mem_of_reaches (hx : g.Reaches es x) : x ∈ ns := by
  induction hx with
  | root hx => exact h.root_mem hx
  | step _ hx ih =>
    rw [successors_of_not_isFunction (h.isFunction ih)] at hx
    exact h.child_mem ih hx

omit h in
theorem reaches (h : g.Spells es ts ns) (hx : x ∈ ns) : g.Reaches es x := by
  induction h with
  | nil => cases hx
  | @cons e n t kids es ts inner ns hn _ _ ht _ _ ihk ihr =>
    rcases List.mem_cons.1 hx with rfl | hx
    · exact .root List.mem_cons_self
    · rcases List.mem_append.1 hx with hx | hx
      · refine (ihk hx).of_roots fun r hr => ?_
        refine .step (.root List.mem_cons_self) (List.mem_append_left _ ?_)
        rwa [children_of_node hn, ht.template]
      · exact (ihr hx).of_roots fun r hr => .root (List.mem_cons_of_mem e hr)

omit h in
/-- From every node, references come to an end. -/
theorem acc (h : g.Spells es ts ns) : ∀ x ∈ ns, Acc (fun c p => g.Refers p c) x := by
  induction h with
  | nil => exact nofun
  | cons hn _ _ ht hkids _ ihk ihr =>
    refine List.forall_mem_cons.2 ⟨⟨_, fun c hc => ihk c (hkids.root_mem ?_)⟩,
      List.forall_mem_append.2 ⟨ihk, ihr⟩⟩
    rwa [Graph.Refers, children_of_node hn, ht.template] at hc

theorem acyclicOn (horder : ∀ x ∈ order, x ∈ ns) : g.AcyclicOn order := by
  intro e he hcycle
  have hacc := (h.acc e (horder e he)).transGen
  clear he
  induction hacc with
  | intro e _ ih => exact ih e (Relation.transGen_swap.2 hcycle) hcycle

/-! ## Analysis -/

variable (hnodup : ns.Nodup)

include hnodup

omit hnodup in
theorem reachable_eq : g.reachable es = ns.toFinset := by
  ext e
  rw [reachable, Finset.mem_filter, Finset.mem_range, List.mem_toFinset]
  exact ⟨fun he => h.mem_of_reaches he.2, fun he => ⟨(h.built he).1, h.reaches he⟩⟩

/-- Each node lands once, at the top level. -/
theorem countsLandings : g.CountsLandings es fun _ => onceAtTop := by
  intro e he t
  have hpassed : ∀ p ∈ ns, g.passedOn p onceAtTop t = onceAtTop t := fun p hp => by
    rw [passedOn, h.scopeOf hp, onceAtTop, ite_self]
  have hsum : ∑ p ∈ g.reachable es, (g.children p).count e * g.passedOn p onceAtTop t =
      (ns.flatMap g.children).count e * onceAtTop t := by
    rw [h.reachable_eq, List.sum_toFinset _ hnodup, List.count_flatMap, ← List.sum_map_mul_right]
    exact congrArg List.sum (List.map_congr_left fun p hp => by rw [hpassed p hp]; rfl)
  have hone : ns.count e = 1 := List.count_eq_one_of_mem hnodup (h.mem_of_reaches he)
  rw [h.perm.count_eq, List.count_append] at hone
  rw [hsum]
  cases t with
  | none => exact hone.symm.trans (by rw [rootsIn, onceAtTop, if_pos rfl, Nat.mul_one])
  | some f =>
    have hroots : g.rootsIn es (some f) = [] := by
      rw [rootsIn]
      split_ifs with hf
      · rw [body?_eq_none (h.isFunction (h.mem_of_reaches hf))]
        rfl
      · rfl
    rw [hroots, onceAtTop, if_neg (by simp), Nat.mul_zero]
    rfl

omit hnodup in
theorem not_declares (he : e ∈ ns) : ¬g.Declares e onceAtTop := by
  have hsum : ∑ t ∈ g.scopes, onceAtTop t ≤ 1 := by
    simp only [onceAtTop, Finset.sum_ite_eq]
    split_ifs <;> decide
  rintro (hpinned | ⟨_, htwice | ⟨t, ht, hpos⟩⟩)
  · rw [h.pinned he] at hpinned
    cases hpinned
  · omega
  · rw [h.scopeOf he] at ht
    rw [onceAtTop, if_neg ht.symm] at hpos
    exact absurd hpos (Nat.lt_irrefl 0)

end Nodes

/-- The analysis of a tree whose nodes are used once declares nothing. -/
theorem analyze {σ : Type} {b : Builder σ} (hb : b.Reached) (h : b.state.graph.Spells es ts ns)
    (hnodup : ns.Nodup) (body : Body) (hbody : body.roots = es) (stem : String) :
    ∃ a c, b.analyze body stem = (.ok a, c) ∧ c.state.graph.Spells es ts ns ∧
      ∀ e, a.isDeclared e = false := by
  subst hbody
  obtain ⟨out, c, hanalyze⟩ : ∃ out c, b.analyze body stem = (out, c) := ⟨_, _, rfl⟩
  have hc : c.state.graph.Spells body.roots ts ns :=
    h.grow (by have := (b.analyze_leads body stem).extends hb.sound; rwa [hanalyze] at this)
  obtain ⟨order, hfound, hout⟩ := Builder.exists_surveyed hb hanalyze fun e he =>
    hc.built (hc.mem_of_reaches he)
  have hacyclic := hc.acyclicOn fun e he => hc.mem_of_reaches ((hfound.mem_iff e).1 he)
  have hleak : ¬c.state.graph.Leaks body.roots fun _ => onceAtTop := by
    rintro ⟨e, he, hexposed, _⟩
    have hmem := hc.mem_of_reaches he
    exact hexposed.elim (hc.not_declares hmem) (by simp [hc.isParameter hmem])
  obtain ⟨a, rfl, hdeclared⟩ := ((hc.countsLandings hnodup).of_analysis hfound hacyclic hout).2 hleak
  refine ⟨a, c, hanalyze, hc, fun e => ?_⟩
  rw [← Bool.not_eq_true, hdeclared]
  exact fun ⟨he, hdec⟩ => hc.not_declares (hc.mem_of_reaches he) hdec

end Graph.Spells

/-! ## Construction -/

section Build

variable {σ : Type}

mutual

/-- Makes the nodes of a tree, operands first. -/
def Tree.build : Tree → Build σ NodeId
  | .ident name => Build.ident name
  | .member object property optional => do
    let object ← object.build
    if optional then Build.getOptional object property else Build.get object property
  | .index object key => do
    let object ← object.build
    let key ← key.build
    Build.index object key
  | .call callee args optional => do
    let callee ← callee.build
    let args ← buildAll args
    if optional then Build.callOptional callee args else Build.call callee args
  | .construct constructor args => do
    let constructor ← constructor.build
    let args ← buildAll args
    Build.construct constructor args
  | .assign target value => do
    let target ← target.build
    let value ← value.build
    Build.assign target value
  | .await value => do
    let value ← value.build
    Build.await value

def Tree.buildAll : List Tree → Build σ (List NodeId)
  | [] => return []
  | t :: rest => do
    let e ← t.build
    let es ← Tree.buildAll rest
    return e :: es

end

namespace Builder

variable {b c d : Builder σ} {es es' kids : List NodeId} {ts ts' : List Tree} {t : Tree}

/-- New nodes were made that spell trees, each of them used once. -/
structure Plants (b c : Builder σ) (es : List NodeId) (ts : List Tree) : Prop where
  leads : b.Leads c
  spells : ∃ ns, c.state.graph.Spells es ts ns ∧ ns.Nodup ∧ ∀ e ∈ ns, b.state.graph.size ≤ e

theorem Plants.refl (b : Builder σ) : b.Plants b [] [] := ⟨.refl b, [], .nil, .nil, nofun⟩

theorem Plants.append (hb : b.Reached) (h : b.Plants c es ts) (h' : c.Plants d es' ts') :
    b.Plants d (es ++ es') (ts ++ ts') := by
  obtain ⟨ns, hs, hnodup, hnew⟩ := h.spells
  obtain ⟨ns', hs', hnodup', hnew'⟩ := h'.spells
  have hc := (h.leads.reached hb).sound
  have hsize : b.state.graph.size ≤ c.state.graph.size := (h.leads.extends hb.sound).size_le
  refine ⟨h.leads.trans h'.leads, ns ++ ns', (hs.grow (h'.leads.extends hc)).append hs', ?_, ?_⟩
  · refine List.nodup_append.2 ⟨hnodup, hnodup', ?_⟩
    rintro e he x hx rfl
    exact absurd (hs.built he).1 (Nat.not_lt.2 (hnew' e hx))
  · exact List.forall_mem_append.2 ⟨hnew, fun e he => hsize.trans (hnew' e he)⟩

theorem Plants.create (hb : b.Reached) (hscopes : b.state.scopes = [])
    (h : b.Plants c kids t.children) (draft : Draft) {flags : Flags} {kind : Kind}
    (hmake : c.state.create draft = c.state.make flags kind) (hpinned : flags.pinned = false)
    (ht : t.HasNode kids ⟨none, flags, kind⟩) (next : NodeId → Recipe σ) :
    ∃ e d, run (.create draft next) c = run (next e) d ∧ b.Plants d [e] [t] := by
  obtain ⟨ns, hs, hnodup, hnew⟩ := h.spells
  have hsize : b.state.graph.size ≤ c.state.graph.size := (h.leads.extends hb.sound).size_le
  have hscope : c.state.scope = none := by rw [BuilderState.scope, h.leads.2, hscopes]; rfl
  refine ⟨c.state.graph.size, c.perform (.create draft), ?_, ?_, ?_⟩
  · rw [run_create, hmake, perform, hmake]
    rfl
  · exact h.leads.trans (.single (.create draft) (BuilderState.create_scopes ..))
  · have hgraph : (c.perform (.create draft)).state.graph =
        c.state.graph.push ⟨none, flags, kind⟩ := by
      show (c.state.create draft).2.graph = _
      rw [hmake, BuilderState.make, BuilderState.push, hscope]
    refine ⟨c.state.graph.size :: (ns ++ []), ?_, ?_, ?_⟩
    · rw [hgraph]
      exact .cons (by rw [Graph.node?_push, if_pos rfl]) rfl hpinned ht
        (hs.grow (Graph.extends_push _ _)) .nil
    · rw [List.append_nil]
      exact List.nodup_cons.2 ⟨fun hmem => Nat.lt_irrefl _ (hs.built hmem).1, hnodup⟩
    · rw [List.append_nil]
      exact List.forall_mem_cons.2 ⟨hsize, hnew⟩

/-- Running the construction of a tree makes its nodes. -/
def Plantable (σ : Type) (t : Tree) : Prop :=
  ∀ b : Builder σ, b.Reached → b.state.scopes = [] → ∀ next : NodeId → Recipe σ,
    ∃ e c, run (t.build next) b = run (next e) c ∧ b.Plants c [e] [t]

theorem Plants.scopes (h : b.Plants c es ts) (hscopes : b.state.scopes = []) :
    c.state.scopes = [] := h.leads.2.trans hscopes

theorem plant_all {args : List Tree} (h : ∀ t ∈ args, Plantable σ t) (hb : b.Reached)
    (hscopes : b.state.scopes = []) (next : List NodeId → Recipe σ) :
    ∃ es c, run (Tree.buildAll args next) b = run (next es) c ∧ b.Plants c es args := by
  induction args generalizing b next with
  | nil => exact ⟨[], b, rfl, .refl b⟩
  | cons t args ih =>
    obtain ⟨ht, hargs⟩ := List.forall_mem_cons.1 h
    obtain ⟨e, c, hrun, hplants⟩ := ht b hb hscopes fun e =>
      Tree.buildAll args fun es => next (e :: es)
    obtain ⟨es, d, hrun', hplants'⟩ := ih hargs (hplants.leads.reached hb)
      (hplants.scopes hscopes) fun es => next (e :: es)
    exact ⟨e :: es, d, hrun.trans hrun', hplants.append hb hplants'⟩

theorem Plantable.two {u : Tree} (ht : Plantable σ t) (hu : Plantable σ u) (hb : b.Reached)
    (hscopes : b.state.scopes = []) (next : NodeId → NodeId → Recipe σ) :
    ∃ x y d, run (t.build fun x => u.build fun y => next x y) b = run (next x y) d ∧
      b.Plants d [x, y] [t, u] := by
  obtain ⟨x, c, hrun, hplants⟩ := ht b hb hscopes fun x => u.build fun y => next x y
  obtain ⟨y, d, hrun', hplants'⟩ := hu c (hplants.leads.reached hb) (hplants.scopes hscopes) (next x)
  exact ⟨x, y, d, hrun.trans hrun', hplants.append hb hplants'⟩

theorem Plantable.many {args : List Tree} (ht : Plantable σ t) (hargs : ∀ u ∈ args, Plantable σ u)
    (hb : b.Reached) (hscopes : b.state.scopes = []) (next : NodeId → List NodeId → Recipe σ) :
    ∃ x es d, run (t.build fun x => Tree.buildAll args fun es => next x es) b = run (next x es) d ∧
      b.Plants d (x :: es) (t :: args) := by
  obtain ⟨x, c, hrun, hplants⟩ := ht b hb hscopes fun x => Tree.buildAll args fun es => next x es
  obtain ⟨es, d, hrun', hplants'⟩ :=
    plant_all hargs (hplants.leads.reached hb) (hplants.scopes hscopes) (next x)
  exact ⟨x, es, d, hrun.trans hrun', hplants.append hb hplants'⟩

theorem plantable (t : Tree) : Plantable σ t := by
  induction t with
  | ident name =>
    intro b hb hscopes next
    have hmake : b.state.create (.ident name.val) = b.state.make .literal (.text name.val) := by
      rw [BuilderState.create, if_pos name.property]
    exact (Plants.refl b).create (t := .ident name) hb hscopes (.ident name.val) hmake rfl rfl next
  | member object property optional ih =>
    intro b hb hscopes next
    obtain ⟨o, c, hrun, hplants⟩ := ih b hb hscopes fun o =>
      (if optional then Build.getOptional o property else Build.get o property) next
    obtain ⟨e, d, hlast, hplants⟩ := hplants.create (t := .member object property optional) hb
      hscopes (.template [.node o, .text (Build.memberAccess property.val optional)]
        false false optional) rfl rfl ⟨rfl, rfl⟩ next
    exact ⟨e, d, hrun.trans (by cases optional <;> exact hlast), hplants⟩
  | index object key ih ihkey =>
    intro b hb hscopes next
    obtain ⟨o, k, c, hrun, hplants⟩ := ih.two ihkey hb hscopes fun o k => Build.index o k next
    obtain ⟨e, d, hlast, hplants⟩ := hplants.create (t := .index object key) hb hscopes
      (.template [.node o, .text "[", .node k, .text "]"] false false false)
      rfl rfl ⟨rfl, rfl⟩ next
    exact ⟨e, d, hrun.trans hlast, hplants⟩
  | call callee args optional ih ihargs =>
    intro b hb hscopes next
    obtain ⟨f, es, c, hrun, hplants⟩ := ih.many ihargs hb hscopes fun f es =>
      (if optional then Build.callOptional f es else Build.call f es) next
    obtain ⟨e, d, hlast, hplants⟩ := hplants.create (t := .call callee args optional) hb hscopes
      (.call f es (if optional then .optional else .plain)) rfl
      (by cases optional <;> rfl) ⟨rfl, by cases optional <;> rfl⟩ next
    exact ⟨e, d, hrun.trans (by cases optional <;> exact hlast), hplants⟩
  | construct constructor args ih ihargs =>
    intro b hb hscopes next
    obtain ⟨f, es, c, hrun, hplants⟩ := ih.many ihargs hb hscopes fun f es =>
      Build.construct f es next
    obtain ⟨e, d, hlast, hplants⟩ := hplants.create (t := .construct constructor args) hb hscopes
      (.template ([Part.text "new ", Part.node f, Part.text "("] ++
        commaSeparated (es.map .node) ++ [Part.text ")"]) false false false) rfl rfl ⟨rfl, rfl⟩ next
    exact ⟨e, d, hrun.trans hlast, hplants⟩
  | assign target value iht ihv =>
    intro b hb hscopes next
    obtain ⟨x, v, c, hrun, hplants⟩ := iht.two ihv hb hscopes fun x v => Build.assign x v next
    obtain ⟨e, d, hlast, hplants⟩ := hplants.create (t := .assign target value) hb hscopes
      (.template [.node x, .text "=", .node v] false false false) rfl rfl ⟨rfl, rfl⟩ next
    exact ⟨e, d, hrun.trans hlast, hplants⟩
  | await value ih =>
    intro b hb hscopes next
    obtain ⟨v, c, hrun, hplants⟩ := ih b hb hscopes fun v => Build.await v next
    obtain ⟨e, d, hlast, hplants⟩ := hplants.create (t := .await value) hb hscopes
      (.template [.text "await ", .node v] true false false) rfl rfl ⟨rfl, rfl⟩ next
    exact ⟨e, d, hrun.trans hlast, hplants⟩

end Builder

end Build

end ScriptGraph
