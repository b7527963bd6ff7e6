import ScriptGraph.Builder.Operators
import ScriptGraph.Proofs.Analysis.Naming
import ScriptGraph.Proofs.Emission.Registering

/-!
# Writing an analysed graph succeeds

* `Analysis.Contains` : one node is written out directly within the text of another;
* `Graph.Resolved.acc_contains` : from every reachable node, this comes to an end;
* `Graph.Resolved.exists_expansion` : every reachable node can be written out;
* `Graph.Resolved.exists_output` : so can the script;
* `Graph.compile_of_output`, `Graph.compile_of_error` : with every mention of the script something is
  registered, and nothing is when there is no script.
-/

namespace ScriptGraph

/-- Writing `e` out includes writing `x` out, inline or as a declaration of the function `e`. -/
def Analysis.Contains (a : Analysis) (g : Graph) (e x : NodeId) : Prop :=
  (x ∈ g.successors e ∧ a.isDeclared x = false) ∨ x ∈ a.declarationsOf (some e)

/-- How far down a scope is at most: functions are younger than their scopes. -/
def Scope.depth (s : Scope) : Nat := s.elim 0 (· + 1)

namespace Graph.Resolved

variable {g : Graph} {body : Body} {a : Analysis} (h : g.Resolved body a) {e f x : NodeId}
  {t : Scope}

include h

theorem mem_of_contains (he : e ∈ a.order) (hc : a.Contains g e x) : x ∈ a.order := by
  rcases hc with ⟨hx, _⟩ | hx
  · exact h.surveyed.successor_mem he hx
  · exact h.mem_order_of_isDeclared (h.mem_declarationsOf_iff.1 hx).1

/-- What is written out within a node that is no function stands where the node stands. -/
theorem standsIn_of_contains (he : e ∈ a.order) (hf : g.isFunction e = false)
    (ht : a.StandsIn g body e t) (hc : a.Contains g e x) :
    x ∈ g.children e ∧ a.StandsIn g body x t := by
  rcases hc with ⟨hx, hd⟩ | hx
  · rw [successors_of_not_isFunction hf] at hx
    exact ⟨hx, (standsIn_of_undeclared hd).2 (h.uses_child he hx ht)⟩
  · have hs := (h.mem_declarationsOf_iff.1 hx).2
    rw [h.sound.scope_isFunction hs] at hf
    cases hf

/-- What is written out within a function stands in the function. -/
theorem standsIn_of_function (hf : f ∈ a.order) (hfun : g.isFunction f = true)
    (hc : a.Contains g f x) : a.StandsIn g body x (some f) := by
  rcases hc with ⟨hx, hd⟩ | hx
  · obtain ⟨inner, hb⟩ := h.surveyed.exists_body hf hfun
    rw [successors_of_body? hb] at hx
    exact (standsIn_of_undeclared hd).2 (h.uses_body_root hf hb hx)
  · obtain ⟨hd, hs⟩ := h.mem_declarationsOf_iff.1 hx
    exact (standsIn_of_declared hd).2 hs

omit h in
theorem depth_scopeOf_le (hg : g.Sound) (e : NodeId) : (g.scopeOf e).depth ≤ e := by
  cases hs : g.scopeOf e with
  | none => exact Nat.zero_le e
  | some f => exact hg.scope_lt hs

/-- Nodes within a node come later in the order of settling, or stand in a scope further down. -/
theorem acc_of_standsIn (he : e ∈ a.order) (ht : a.StandsIn g body e t) :
    Acc (fun x y => a.Contains g y x) e := by
  induction hn : g.size - t.depth using Nat.strongRecOn generalizing t e with
  | _ n ih =>
    revert ht
    refine h.children_first (P := fun e => a.StandsIn g body e t → Acc _ e)
      (fun e he hchildren ht => ⟨_, fun x hx => ?_⟩) e he
    cases hfun : g.isFunction e with
    | false =>
      obtain ⟨hc, hstands⟩ := h.standsIn_of_contains he hfun ht hx
      exact hchildren x hc hstands
    | true =>
      have hdepth : t.depth ≤ e := h.scopeOf_function he hfun ht ▸ depth_scopeOf_le h.sound e
      refine ih _ ?_ (h.mem_of_contains he hx) (h.standsIn_of_function he hfun hx) rfl
      rw [← hn]
      exact Nat.sub_lt_sub_left (Nat.lt_of_le_of_lt hdepth (h.surveyed.lt_size he))
        (Nat.lt_succ_of_le hdepth)

/-- Text within text within text comes to an end, also where functions refer to each other. -/
theorem acc_contains (he : e ∈ a.order) : Acc (fun x y => a.Contains g y x) e := by
  obtain ⟨t, ht⟩ := h.exists_standsIn he
  exact h.acc_of_standsIn he ht

/-- No node is written out within its own text. -/
theorem not_contains_self (he : e ∈ a.order) : ¬Relation.TransGen (a.Contains g) e e := by
  intro hcycle
  have hacc := (h.acc_contains he).transGen
  induction hacc with
  | intro e _ ih => exact ih e (Relation.transGen_swap.2 hcycle) he hcycle

end Graph.Resolved

/-! ## Writing -/

namespace Layout

variable {l : Layout} {within : List NodeId}

theorem exists_forall₂ {α β : Type} {R : α → β → Prop} {xs : List α} (h : ∀ x ∈ xs, ∃ y, R x y) :
    ∃ ys, List.Forall₂ R xs ys := by
  induction xs with
  | nil => exact ⟨[], .nil⟩
  | cons x xs ih =>
    obtain ⟨y, hy⟩ := h x List.mem_cons_self
    obtain ⟨ys, hys⟩ := ih fun z hz => h z (List.mem_cons_of_mem x hz)
    exact ⟨y :: ys, .cons hy hys⟩

theorem exists_parts {ps : List (Part × Position)}
    (h : ∀ e ∈ (ps.map (·.1)).filterMap Part.node?, ∀ pos, ∃ frag, l.use within e pos = .ok frag) :
    ∃ fs, l.parts within ps = .ok fs := by
  obtain ⟨fs, hfs⟩ : ∃ fs, List.Forall₂ (l.WritesPart within) ps fs := exists_forall₂ fun p hp => by
    obtain ⟨part, pos⟩ := p
    cases part with
    | text t => exact ⟨.text t, rfl⟩
    | node e =>
      have hmem : e ∈ (ps.map (·.1)).filterMap Part.node? :=
        List.mem_filterMap.2 ⟨.node e, List.mem_map_of_mem hp, rfl⟩
      exact h e hmem pos
  exact ⟨fs, parts_eq_ok.2 hfs⟩

theorem exists_declarations {es : List NodeId} (hname : ∀ e ∈ es, ∃ name, l.nameOf e = .ok name)
    (h : ∀ e ∈ es, ∃ frag, l.expansion within e .standalone = .ok frag) :
    ∃ ds, l.declarations within es = .ok ds := by
  obtain ⟨ds, hds⟩ : ∃ ds, List.Forall₂ (l.WritesDeclaration within) es ds :=
    exists_forall₂ fun e he => by
      obtain ⟨name, hn⟩ := hname e he
      obtain ⟨frag, hf⟩ := h e he
      exact ⟨_, name, frag, hn, hf, rfl⟩
  exact ⟨ds, declarations_eq_ok.2 hds⟩

theorem exists_block {scope : Scope} {body : Body}
    (hds : ∃ ds, l.declarations within (l.analysis.declarationsOf scope) = .ok ds)
    (h : ∀ e ∈ body.roots, ∀ pos, ∃ frag, l.use within e pos = .ok frag) :
    ∃ b, l.block within scope body = .ok b := by
  obtain ⟨ds, hds⟩ := hds
  cases body with
  | value root =>
    obtain ⟨frag, hf⟩ := h root (List.mem_singleton_self root) .standalone
    exact ⟨_, block_eq_ok.2 ⟨ds, hds, frag, hf, rfl⟩⟩
  | statements roots =>
    obtain ⟨fs, hfs⟩ : ∃ fs, l.parts within (statementParts roots) = .ok fs :=
      exists_parts (by rwa [filterMap_statementParts])
    exact ⟨_, block_eq_ok.2 ⟨ds, hds, fs, hfs, rfl⟩⟩

/-! ## Every reachable node can be written -/

section Total

variable {body : Body} (h : l.graph.Resolved body l.analysis) {e f : NodeId}

include h

theorem exists_nameOf_declared (hd : l.analysis.isDeclared e = true) :
    ∃ name, l.nameOf e = .ok name := by
  obtain ⟨name, hn⟩ := h.exists_name_declared hd
  exact ⟨name, nameOf_eq_ok.2 hn⟩

theorem exists_nameOf_parameter (he : e ∈ l.analysis.order)
    (hp : l.graph.isParameter e = true) : ∃ name, l.nameOf e = .ok name := by
  obtain ⟨f, hf, hmem, _⟩ := h.exists_function he hp
  obtain ⟨name, hn⟩ := h.exists_name_param hf hmem
  exact ⟨name, nameOf_eq_ok.2 hn⟩

theorem exists_paramNames (hf : f ∈ l.analysis.order) : ∃ params, l.paramNames f = .ok params := by
  obtain ⟨params, hparams⟩ : ∃ params, List.Forall₂
      (fun p q => ∃ name, l.nameOf p = .ok name ∧ q = (p, name)) (l.graph.params f) params :=
    exists_forall₂ fun p hp => by
      obtain ⟨name, hn⟩ := h.exists_name_param hf hp
      exact ⟨(p, name), name, nameOf_eq_ok.2 hn, rfl⟩
  exact ⟨params, paramNames_eq_ok.2 hparams⟩

omit h in
theorem exists_use {pos : Position}
    (hname : l.analysis.isDeclared e = true → ∃ name, l.nameOf e = .ok name)
    (hexp : l.analysis.isDeclared e = false → ∃ frag, l.expansion within e pos = .ok frag) :
    ∃ frag, l.use within e pos = .ok frag := by
  cases hd : l.analysis.isDeclared e with
  | true =>
    obtain ⟨name, hn⟩ := hname hd
    exact ⟨_, by rw [use_declared hd, hn]; rfl⟩
  | false =>
    rw [use_undeclared hd]
    exact hexp hd

theorem exists_expansion (he : e ∈ l.analysis.order)
    (hwithin : ∀ x, Relation.ReflTransGen (l.analysis.Contains l.graph) e x → x ∈ within)
    (pos : Position) : ∃ frag, l.expansion within e pos = .ok frag := by
  have hacc := h.acc_contains he
  induction hacc generalizing within pos with
  | intro e _ ih =>
    have hin : e ∈ within := hwithin e .refl
    have hinner : ∀ x, l.analysis.Contains l.graph e x → ∀ pos,
        ∃ frag, l.expansion (within.erase e) x pos = .ok frag := fun x hx pos => by
      refine ih x hx (h.mem_of_contains he hx) (fun y hy => ?_) pos
      have hne : y ≠ e := by
        rintro rfl
        exact h.not_contains_self he (Relation.TransGen.head' hx hy)
      exact (List.mem_erase_of_ne hne).2 (hwithin y (.head hx hy))
    have huse : ∀ x ∈ l.graph.successors e, ∀ pos,
        ∃ frag, l.use (within.erase e) x pos = .ok frag := fun x hx pos =>
      exists_use (exists_nameOf_declared h) fun hd => hinner x (.inl ⟨hx, hd⟩) pos
    cases hfun : l.graph.isFunction e with
    | true =>
      obtain ⟨inner, hb⟩ := h.surveyed.exists_body he hfun
      obtain ⟨params, hparams⟩ := exists_paramNames h he
      have hds : ∃ ds, l.declarations (within.erase e) (l.analysis.declarationsOf (some e)) =
          .ok ds :=
        exists_declarations
          (fun x hx => exists_nameOf_declared h (h.mem_declarationsOf_iff.1 hx).1)
          (fun x hx => hinner x (.inr hx) .standalone)
      obtain ⟨b, hblock⟩ : ∃ b, l.block (within.erase e) (some e) inner = .ok b :=
        exists_block hds fun x hx => huse x (by rwa [Graph.successors_of_body? hb])
      rw [expansion_function hin hfun, hparams, bodyOf_eq_ok.2 hb]
      exact ⟨_, bind_eq_ok.2 ⟨params, rfl, bind_eq_ok.2 ⟨inner, rfl, bind_eq_ok.2 ⟨b, hblock, rfl⟩⟩⟩⟩
    | false =>
      cases hp : l.graph.isParameter e with
      | true =>
        obtain ⟨name, hn⟩ := exists_nameOf_parameter h he hp
        exact ⟨_, by rw [expansion_parameter hin hp, hn]; rfl⟩
      | false =>
        obtain ⟨hlt, hslot, _⟩ := h.surveyed.built e he
        obtain ⟨n, hn⟩ := Graph.exists_node hlt
        obtain ⟨pieces, hpieces⟩ : ∃ fs,
            l.parts (within.erase e) (positioned pos (l.shape e n).1) = .ok fs :=
          exists_parts fun x hx pos => by
            rw [map_fst_positioned, children_of_shape hn] at hx
            exact huse x (List.mem_append_left _ hx) pos
        exact ⟨_, by rw [expansion_inline hin hn hfun hp hslot, hpieces]; rfl⟩

theorem exists_expansion_order (he : e ∈ l.analysis.order) (pos : Position) :
    ∃ frag, l.expansion l.analysis.order e pos = .ok frag := by
  refine exists_expansion h he (fun x hx => ?_) pos
  induction hx with
  | refl => exact he
  | tail _ hstep ih => exact h.mem_of_contains ih hstep

theorem exists_output {mode : CompileMode} (hmode : mode = .evaluation → ∃ root, body = .value root) :
    ∃ o, l.output mode body = .ok o := by
  have huse : ∀ e ∈ body.roots, ∀ pos, ∃ frag, l.use l.analysis.order e pos = .ok frag :=
    fun e he pos => exists_use (exists_nameOf_declared h) fun _ =>
      exists_expansion_order h (h.surveyed.root_mem he) pos
  have hds : ∃ ds, l.declarations l.analysis.order (l.analysis.declarationsOf none) = .ok ds :=
    exists_declarations
      (fun e he => exists_nameOf_declared h (h.mem_declarationsOf_iff.1 he).1)
      (fun e he => exists_expansion_order h
        (h.mem_order_of_isDeclared (h.mem_declarationsOf_iff.1 he).1) .standalone)
  cases mode with
  | statements =>
    obtain ⟨ds, hds⟩ := hds
    obtain ⟨list, hlist⟩ : ∃ fs, l.parts l.analysis.order (statementParts body.roots) = .ok fs :=
      exists_parts (by rwa [filterMap_statementParts])
    exact ⟨_, script_eq_ok.2 ⟨ds, hds, list, hlist, rfl⟩⟩
  | evaluation =>
    obtain ⟨root, rfl⟩ := hmode rfl
    obtain ⟨b, hb⟩ : ∃ b, l.block l.analysis.order none (.value root) = .ok b :=
      exists_block hds huse
    exact ⟨_, evaluation_eq_ok.2 ⟨b, hb, rfl⟩⟩

end Total

/-- Reachable nodes refer to stores by name: a store is always declared. -/
theorem namesStores_of_resolved {l : Layout} {body : Body} (h : l.graph.Resolved body l.analysis)
    (hlinked : l.graph.Linked) : l.NamesStores l.analysis.order := by
  intro e he k s n hk hs
  have hnode := hlinked.reference e k s n hk hs
  obtain ⟨m, hm, rfl⟩ := Graph.kindOf?_eq_some.1 hk
  have hstore : s ∈ m.template.filterMap Part.node? ∧ n.flags.pinned = true := by
    obtain ⟨scope, flags, kind⟩ := m
    cases kind <;> cases hs <;> exact ⟨List.mem_singleton_self s, rfl⟩
  rw [← Graph.children_of_node hm] at hstore
  exact h.isDeclared_of_pinned (h.surveyed.child_mem he hstore.1)
    ((Graph.flagsOf_of_node hnode).symm ▸ hstore.2)

end Layout

/-! ## Compiling -/

namespace Graph

variable {g : Graph} {body : Body} {a : Analysis} {o : Options}

/-- On the way to a script everything is registered that it mentions. -/
theorem compile_of_output {output : Output} (h : g.Resolved body a) (hlinked : g.Linked)
    (ho : (o.layout g a).output o.mode body = .ok output) (stores : Stores) (resolver : Resolver) :
    g.compile a body o stores resolver =
      Ledger.outcome ⟨Links.ofMentions resolver stores output.mentions,
        producedKeys stores.keys output.mentions⟩ o a output := by
  have hstores : (o.layout g a).NamesStores a.order := Layout.namesStores_of_resolved h hlinked
  rw [compile, Layout.writeOutput_emits hstores ho, Ledger.foldl_register]
  rfl

/-- A script that cannot be written leaves nothing registered: of an analysed body, it is the
statements that were to be an evaluation. -/
theorem compile_of_error {fault : Fault} (h : g.Resolved body a)
    (ho : (o.layout g a).output o.mode body = .error fault) (stores : Stores) (resolver : Resolver) :
    g.compile a body o stores resolver = .failed fault stores := by
  have hmode : ¬(o.mode = .evaluation → ∃ root, body = .value root) := fun hmode => by
    obtain ⟨output, houtput⟩ := (o.layout g a).exists_output h hmode
    rw [ho] at houtput
    cases houtput
  obtain ⟨hmode, hroot⟩ := Classical.not_imp.1 hmode
  rw [hmode] at ho
  rw [compile, hmode]
  cases body with
  | value root => exact absurd ⟨root, rfl⟩ hroot
  | statements roots =>
    cases ho
    rfl

end Graph

namespace Builder

variable {σ : Type}

/-- A recursive function, whose value for a module is used twice. -/
def recursiveExample : Builder Unit :=
  (Builder.run (Build.toRecipe do
    let slot ← Build.create .slot
    let f ← Build.function 1 fun _ params => Build.toRecipe do
      let value ← Build.call slot params
      return .ok (.value value)
    let _ ← Build.fill slot f
    let module ← Build.create (.module "m")
    let x ← Build.call f [module]
    let sum ← Build.template [.node x, .text "+", .node x]
    return .ok (.value sum)) (.empty ())).2

theorem reached_recursiveExample : recursiveExample.Reached :=
  (run_leads _ _).reached (reached_empty ())

theorem analyze_recursiveExample (stem : String) :
    ∃ a c, recursiveExample.analyze (.value 6) stem = (.ok a, c) ∧
      c.state.graph = (recursiveExample.survey [] [6]).2.state.graph := by
  have hsurvey : (recursiveExample.survey [] [6]).1 = .ok [6, 5, 1, 4, 7, 3, 0, 2] := by cbv
  exact exists_analysis (.value 6) stem hsurvey (by cbv)

/-- **Writing succeeds after every successful analysis**: as a script, as an evaluation if the body
is an expression, and up to the verification of the text whatever the options and stores are. The
nodes that are written have what this needs, and within each the text comes to an end. -/
theorem output_of_analyze {b c : Builder σ} {body : Body} {stem : String} {a : Analysis}
    (hb : b.Reached) (ha : b.analyze body stem = (.ok a, c)) :
    (∀ l : Layout, l.graph = c.state.graph → l.analysis = a →
      (∃ o, l.output .statements body = .ok o) ∧
        ∀ root, body = .value root → ∃ o, l.output .evaluation body = .ok o) ∧
    (∀ (o : Options) (stores : Stores) (resolver : Resolver), o.verify = false →
      (o.mode = .evaluation → ∃ root, body = .value root) →
      ∃ compiled, (c.state.graph.compile a body o stores resolver).result = .ok compiled) ∧
    (∀ e, c.state.graph.Reaches body.roots e → c.state.graph.isUnfilledSlot e = false ∧
      (c.state.graph.isFunction e = true → ∃ inner, c.state.graph.body? e = some inner)) ∧
    (∀ e, a.isDeclared e = true ∨
        (c.state.graph.Reaches body.roots e ∧ c.state.graph.isParameter e = true) ∨
        (∃ f, c.state.graph.Reaches body.roots f ∧ e ∈ c.state.graph.params f) →
      ∃ name, a.name? e = some name) ∧
    WellFounded fun x e => c.state.graph.Reaches body.roots e ∧ a.Contains c.state.graph e x := by
  have h := analyze_resolved hb ha
  have hc := hb.of_analyze ha
  have hreach := h.surveyed.mem_iff
  refine ⟨?_, ?_, fun e he => ?_, fun e he => ?_, ⟨fun e => ?_⟩⟩
  · rintro l hg rfl
    rw [← hg] at h
    exact ⟨l.exists_output h (fun hm => nomatch hm),
      fun root hroot => l.exists_output h fun _ => ⟨root, hroot⟩⟩
  · intro o stores resolver hverify hmode
    obtain ⟨output, ho⟩ := (o.layout c.state.graph a).exists_output h hmode
    rw [Graph.compile_of_output h hc.linked ho, Ledger.outcome, hverify]
    exact ⟨_, rfl⟩
  · exact (h.surveyed.built e ((hreach e).2 he)).2
  · rcases he with hd | ⟨he, hp⟩ | ⟨f, hf, hp⟩
    · exact h.exists_name_declared hd
    · obtain ⟨f, hf, hmem, _⟩ := h.exists_function ((hreach e).2 he) hp
      exact h.exists_name_param hf hmem
    · exact h.exists_name_param ((hreach f).2 hf) hp
  · refine ⟨e, fun x ⟨he, hx⟩ => ?_⟩
    have hacc := h.acc_contains ((hreach e).2 he)
    exact Subrelation.accessible (fun hsub => hsub.2) (hacc.inv hx)

theorem output_recursiveExample : ∃ a c, recursiveExample.analyze (.value 6) "_" = (.ok a, c) ∧
    (∃ o, (({} : Options).layout c.state.graph a).output .evaluation (.value 6) = .ok o) ∧
    WellFounded fun x e => c.state.graph.Reaches [6] e ∧ a.Contains c.state.graph e x := by
  obtain ⟨a, c, ha, _⟩ := analyze_recursiveExample "_"
  obtain ⟨hlayout, _, _, _, hwf⟩ := output_of_analyze reached_recursiveExample ha
  exact ⟨a, c, ha, (hlayout _ rfl rfl).2 6 rfl, hwf⟩

end Builder

end ScriptGraph
