import ScriptGraph.Proofs.Builder.Conduct
import ScriptGraph.Proofs.Builder.Handles
import ScriptGraph.Proofs.Graph.Forests

/-!
# The nodes of a builder at any moment

* `Graph.Arena` : scopes and references lead to older nodes, and parameters follow their function;
* `Builder.Alters`, `Builder.perform_becomes` : what an operation does to the nodes that are there;
* `Event.Own`, `Event.moments` : an event on existing nodes, and the builders it is about;
* `Builder.Runs.ownHandles` : all through a run on existing nodes, handles are the builder's own;
* `Builder.arena_of_ownHandles` : the main result.
-/

namespace ScriptGraph

variable {σ : Type}

/-! ## Graphs -/

/-- What holds of the nodes of a graph wherever one looks. -/
structure Graph.Arena (g : Graph) : Prop where
  /-- A node is made at the top level or in an older function. -/
  scope : ∀ e n, g.node? e = some n →
    n.scope = none ∨ ∃ f, n.scope = some f ∧ f < e ∧ g.isFunction f = true
  /-- The search for a scope from an existing one on comes to an end, with one answer. -/
  climbs : ∀ s t, (∀ f, s = some f → f < g.size) →
    ∀ answer, g.Climbs t s answer ↔ answer = g.isWithin s t
  forest : g.Forest
  /-- A node is made from older nodes, unless it is a slot. -/
  older : ∀ p, ¬g.IsSlot p → ∀ e ∈ g.children p, e < p
  /-- The parameters are the nodes after the function. -/
  params : ∀ f arity state, g.kindOf? f = some (.function arity state) →
    g.params f = List.range' (f + 1) arity ∧ ∀ i < arity, ∃ n, g.node? (f + 1 + i) = some n ∧
      n.kind = .parameter i ∧ n.scope = some f
  /-- A parameter belongs to exactly one function. -/
  owner : ∀ p, g.isParameter p = true → ∃! f, p ∈ g.params f

namespace Graph.Sound

variable {g : Graph} {p : NodeId}

theorem node_scope (h : g.Sound) {e : NodeId} {n : Node} (hn : g.node? e = some n) :
    n.scope = none ∨ ∃ f, n.scope = some f ∧ f < e ∧ g.isFunction f = true := by
  cases hs : n.scope with
  | none => exact .inl rfl
  | some f => exact .inr ⟨f, rfl, (h e n hn).scope f hs⟩

theorem params_function (h : g.Sound) {f : NodeId} {arity : Nat} {state : BodyState}
    (hk : g.kindOf? f = some (.function arity state)) :
    ∀ i < arity, ∃ n, g.node? (f + 1 + i) = some n ∧ n.kind = .parameter i ∧
      n.scope = some f := by
  intro i hi
  obtain ⟨m, hm, hkind⟩ := kindOf?_eq_some.1 hk
  have hsound := (h f m hm).kind
  rw [hkind] at hsound
  obtain ⟨n, hn, hscope, hparam⟩ := hsound.2 i hi
  exact ⟨n, hn, hparam, hscope⟩

/-- A parameter is among the parameters of its scope, and of no other function. -/
theorem exists_unique_owner (h : g.Sound) (hp : g.isParameter p = true) :
    ∃! f, p ∈ g.params f := by
  obtain ⟨-, f, hf, hmem⟩ := h.isParameter hp
  refine ⟨f, hmem, fun f' hmem' => ?_⟩
  exact Option.some.inj ((h.mem_params hmem').2.symm.trans hf)

theorem arena (h : g.Sound) (hdescends : g.Descends) : g.Arena where
  scope _ _ := h.node_scope
  climbs _ _ hs _ := h.climbs_iff hs
  forest := h.forest
  older _ hslot _ hx := hdescends.lt hslot hx
  params _ _ _ hk := ⟨params_of_kind hk, h.params_function hk⟩
  owner _ := h.exists_unique_owner

end Graph.Sound

namespace Builder

variable {b c d : Builder σ} {e : NodeId} {n : Node}

/-! ## Operations and the nodes that are there -/

/-- What an operation does to the kind of a node that is there: an empty slot is filled, the
construction of a body begins, or the one that was begun last ends. -/
inductive Alters (b : Builder σ) : Operation σ → NodeId → Kind → Kind → Prop
  | fill (slot target : NodeId) :
    Alters b (.fill slot target) slot (.slot none) (.slot (some target))
  | enter (f : NodeId) (arity : Nat) :
    Alters b (.enter f) f (.function arity .pending) (.function arity .building)
  | leave {f : NodeId} (arity : Nat) (outcome : Except Fault Body) (h : b.state.scope = some f) :
    Alters b (.leave outcome) f (.function arity .building)
      (.function arity (settledState outcome))

/-- A node that is there stays as it is, or changes its kind alone. -/
def Becomes (b : Builder σ) (op : Operation σ) (e : NodeId) (n n' : Node) : Prop :=
  n' = n ∨ ∃ kind, b.Alters op e n.kind kind ∧ n' = { n with kind }

theorem becomes_of_setKind {op : Operation σ} {x : NodeId} {k k' : Kind}
    (hk : b.state.graph.kindOf? x = some k) (halters : b.Alters op x k k')
    (hn : b.state.graph.node? e = some n) :
    ∃ n', (b.state.graph.setKind x k').node? e = some n' ∧ b.Becomes op e n n' := by
  rw [Graph.node?_setKind]
  by_cases he : e = x
  · subst he
    rw [Graph.kindOf?_of_node hn] at hk
    cases hk
    rw [if_pos rfl, hn]
    exact ⟨_, rfl, .inr ⟨k', halters, rfl⟩⟩
  · rw [if_neg he]
    exact ⟨n, hn, .inl rfl⟩

/-- **Operations leave the nodes that are there alone**, except that an empty slot is filled and that
the body of a function advances. -/
theorem perform_becomes (h : b.state.Sound) (op : Operation σ)
    (hn : b.state.graph.node? e = some n) :
    ∃ n', (b.perform op).state.graph.node? e = some n' ∧ b.Becomes op e n n' := by
  cases op with
  | create draft =>
    exact ⟨n, (BuilderState.create_old draft (Graph.lt_size hn)).trans hn, .inl rfl⟩
  | function arity body =>
    refine ⟨n, ?_, .inl rfl⟩
    show (b.state.graph.pushFunction b.state.scope arity).node? e = some n
    rw [Graph.node?_pushFunction, if_pos (Graph.lt_size hn), hn]
  | fill slot target =>
    rw [perform, update, BuilderState.fill]
    split
    · rename_i hk
      exact becomes_of_setKind hk (.fill slot target) hn
    · exact ⟨n, hn, .inl rfl⟩
    · exact ⟨n, hn, .inl rfl⟩
  | share update | memoize i x | warn ws => exact ⟨n, hn, .inl rfl⟩
  | enter f =>
    rw [perform]
    split
    · rename_i hreq
      obtain ⟨⟨arity, hk⟩, hc⟩ := request_construct hreq
      rw [hc, BuilderState.enter, Graph.setBodyState_eq hk]
      exact becomes_of_setKind hk (.enter f arity) hn
    · exact ⟨n, hn, .inl rfl⟩
  | leave outcome =>
    rw [perform]
    split
    · rename_i f rest hs
      obtain ⟨arity, hk⟩ := h.building f (hs ▸ List.mem_cons_self)
      have hscope : b.state.scope = some f := congrArg List.head? hs
      rw [b.graph_leave hk outcome]
      exact becomes_of_setKind hk (.leave arity outcome hscope) hn
    · exact ⟨n, hn, .inl rfl⟩

end Builder

/-! ## Runs on existing nodes -/

/-- The nodes that an event gives to the builder exist. -/
def Event.Own : Event σ → Prop
  | .performed op before => ∀ e ∈ op.handles, e < before.state.graph.size
  | .answered _ (.ok body) _ after => ∀ e ∈ body.roots, e < after.state.graph.size
  | _ => True

/-- The builders before and after an event, and after the beginning of what a request begins. -/
def Event.moments : Event σ → List (Builder σ)
  | .performed op before => [before, before.perform op]
  | .answered f _ before after => [before, before.perform (.enter f), after]
  | _ => []

namespace Builder

variable {b c d : Builder σ}

theorem OwnHandles.reached (h : b.OwnHandles) : b.Reached := by
  obtain ⟨shared, ops, -, hops⟩ := h
  exact ⟨shared, ops, hops⟩

theorem PerformsOwn.concat {ops : List (Operation σ)} (h : b.PerformsOwn ops) {op : Operation σ}
    (hop : ∀ e ∈ op.handles, e < (b.performAll ops).state.graph.size) :
    b.PerformsOwn (ops ++ [op]) := by
  induction ops generalizing b with
  | nil => exact ⟨hop, trivial⟩
  | cons first ops ih => exact ⟨h.1, ih h.2 hop⟩

theorem OwnHandles.perform (h : b.OwnHandles) {op : Operation σ}
    (hop : ∀ e ∈ op.handles, e < b.state.graph.size) : (b.perform op).OwnHandles := by
  obtain ⟨shared, ops, hown, rfl⟩ := h
  exact ⟨shared, ops ++ [op], hown.concat hop, by simp [performAll]⟩

/-- The construction of a body begins. -/
theorem OwnHandles.start (h : b.OwnHandles) {f : NodeId} {recipe : Recipe σ}
    (hreq : b.request f = .construct recipe c) : c.OwnHandles := by
  obtain ⟨⟨arity, hk⟩, -⟩ := request_construct hreq
  obtain ⟨n, hn, -⟩ := Graph.kindOf?_eq_some.1 hk
  rw [← perform_enter hreq]
  refine h.perform fun e he => ?_
  rw [List.mem_singleton.1 he]
  exact Graph.lt_size hn

/-- The construction that was begun last ends, with a body that exists or with a fault. -/
theorem OwnHandles.finish (h : b.OwnHandles) {f : NodeId} {rest : List NodeId}
    (hs : b.state.scopes = f :: rest) {outcome : Except Fault Body}
    (hown : (Event.answered f outcome c (b.leave f outcome)).Own) :
    (b.leave f outcome).OwnHandles := by
  obtain ⟨arity, hk⟩ := h.reached.sound.building f (hs ▸ List.mem_cons_self)
  have hsize : (b.leave f outcome).state.graph.size = b.state.graph.size := by
    rw [b.graph_leave hk outcome, Graph.size_setKind]
  rw [← perform_leave hs outcome]
  refine h.perform fun e he => ?_
  cases outcome with
  | ok body => exact hsize ▸ hown e he
  | error fault => cases he

/-- All through a run on existing nodes, handles are the builder's own. -/
theorem Runs.ownHandles {t : Agenda σ} {hist : List (Event σ)} {out : Except Fault Body}
    (h : Runs t b hist out d) (hb : b.OwnHandles) (hown : ∀ event ∈ hist, event.Own) :
    d.OwnHandles ∧ ∀ event ∈ hist, ∀ m ∈ event.moments, m.OwnHandles := by
  induction h with
  | stop => exact ⟨hb, List.forall_mem_nil _⟩
  | silent _ _ ih => exact ih hb hown
  | @perform t t' b d op hist out _ _ ih =>
    obtain ⟨hop, hrest⟩ := List.forall_mem_cons.1 hown
    have hnext := hb.perform hop
    obtain ⟨hd, hmoments⟩ := ih hnext hrest
    exact ⟨hd, List.forall_mem_cons.2 ⟨by simp [Event.moments, hb, hnext], hmoments⟩⟩
  | @answer t b d f next answer hist out _ hreq _ ih =>
    obtain ⟨-, hrest⟩ := List.forall_mem_cons.1 hown
    have henter : b.perform (.enter f) = b := by simp only [Builder.perform, hreq]
    obtain ⟨hd, hmoments⟩ := ih hb hrest
    exact ⟨hd, List.forall_mem_cons.2 ⟨by simp [Event.moments, henter, hb], hmoments⟩⟩
  | @construct t b c e d f next recipe result inner hist out _ hreq hinner _ ihinner ih =>
    rw [List.cons_append, List.forall_mem_cons, List.forall_mem_append, List.forall_mem_cons,
      List.forall_mem_cons] at hown
    obtain ⟨-, hinside, -, hanswer, hrest⟩ := hown
    have hc := hb.start hreq
    obtain ⟨he, hmoments⟩ := ihinner hc hinside
    have hleave := he.finish (hinner.leads.2.trans (request_scopes hreq)) hanswer
    obtain ⟨hd, hmoments'⟩ := ih hleave hrest
    refine ⟨hd, ?_⟩
    rw [List.cons_append, List.forall_mem_cons, List.forall_mem_append, List.forall_mem_cons,
      List.forall_mem_cons]
    refine ⟨List.forall_mem_nil _, hmoments, List.forall_mem_nil _, ?_, hmoments'⟩
    simp [Event.moments, perform_enter hreq, hb, hc, hleave]

/-- **The nodes of a builder at any moment.** Operations on existing nodes lead to builders of which
the following holds, also in the middle of constructions, after bodies that failed, and after
attempts to fill a slot again or what is no slot. A node is made at the top level or in an older
function, so every search for a scope from the inside out ends, and scopes form a forest. A node
refers to older nodes unless it is a slot. The parameters of a function are the nodes right after it,
and each parameter belongs to one function. Whatever is done next leaves the nodes that are there
alone, except that a slot is filled if it is empty, and that bodies advance; so it is with whatever
is done later. And running a recipe on existing nodes leads through such builders only. -/
theorem arena_of_ownHandles (h : b.OwnHandles) :
    b.state.graph.Arena ∧
    (∀ op e n, b.state.graph.node? e = some n →
      ∃ n', (b.perform op).state.graph.node? e = some n' ∧ b.Becomes op e n n') ∧
    (∀ ops, b.state.graph.Extends (b.performAll ops).state.graph) ∧
    ∀ r, ∃ hist, Runs (.run r) b hist (run r b).1 (run r b).2 ∧
      ((∀ event ∈ hist, event.Own) →
        (run r b).2.OwnHandles ∧ ∀ event ∈ hist, ∀ m ∈ event.moments, m.OwnHandles) := by
  have hsound := h.reached.sound
  refine ⟨hsound.graph.arena h.descends, fun op e n hn => perform_becomes hsound op hn,
    fun ops => (performAll_sound_extends hsound ops).2, fun r => ?_⟩
  obtain ⟨hist, hruns⟩ := exists_runs r b
  exact ⟨hist, hruns, hruns.ownHandles h⟩

/-- While the body of a function is built it asks for that of another one, which fails. A slot is
filled, and then again in vain, and so is what is no slot. -/
def unfinishedOperations : List (Operation Unit) := [
  .create .slot,
  .function 2 fun _ _ => .done (.error .slotRefilled),
  .function 0 fun _ _ => .done (.error .reentrantBody),
  .enter 4,
  .create (.module "m"),
  .enter 1,
  .create (.call 0 [2, 3] .plain),
  .fill 0 7,
  .fill 0 6,
  .fill 6 0,
  .leave (.error .slotRefilled),
  .function 1 fun _ args => .done (.ok (.statements args)),
  .create (.template [.node 7, .text "+", .node 6] false false false)]

def unfinishedExample : Builder Unit := (empty ()).performAll unfinishedOperations

/-- The slot keeps its target whatever is done, the failed body stays so, and a body is built within
the unfinished one. -/
theorem arena_unfinishedExample :
    unfinishedExample.OwnHandles ∧ unfinishedExample.state.graph.Arena ∧
    unfinishedExample.state.scopes = [4] ∧
    unfinishedExample.state.graph.Climbs (some 1) (some 8) false ∧
    (∀ ops, (unfinishedExample.performAll ops).state.graph.kindOf? 0 = some (.slot (some 7))) ∧
    (∀ ops, (unfinishedExample.performAll ops).state.graph.kindOf? 1 =
      some (.function 2 (.failed .slotRefilled))) ∧
    (run (.body 8 .done) unfinishedExample).1 = .ok (.statements [9]) ∧
    (run (.body 8 .done) unfinishedExample).2.OwnHandles := by
  have hown : unfinishedExample.OwnHandles := ⟨(), unfinishedOperations, by decide, rfl⟩
  obtain ⟨harena, -, hlater, hruns⟩ := arena_of_ownHandles hown
  have hslot : unfinishedExample.state.graph.kindOf? 0 = some (.slot (some 7)) := rfl
  have hfailed : unfinishedExample.state.graph.kindOf? 1 =
      some (.function 2 (settledState (.error .slotRefilled))) := rfl
  have hsize : 8 < unfinishedExample.state.graph.size := by decide
  have hwithin : unfinishedExample.state.graph.isWithin (some 8) (some 1) = false := by cbv
  obtain ⟨hist, hrun, himp⟩ := hruns (.body 8 .done)
  have hbuild := Runs.construct (t := .run (.body 8 .done)) (b := unfinishedExample) rfl rfl
    (.stop rfl) (.stop rfl)
  obtain ⟨rfl, hout, -⟩ := hbuild.unique hrun
  refine ⟨hown, harena, rfl, ?_, fun ops => ?_, fun ops => ?_, hout, (himp ?_).1⟩
  · refine (harena.climbs _ _ (fun f hf => ?_) _).2 hwithin.symm
    exact Option.some.inj hf ▸ hsize
  · obtain ⟨k, hk, hgrow⟩ := (hlater ops).kind hslot
    cases hgrow
    exact hk
  · exact (hlater ops).settled hfailed
  · refine List.forall_mem_cons.2 ⟨trivial, List.forall_mem_cons.2 ⟨trivial, ?_⟩⟩
    exact List.forall_mem_singleton.2 (List.forall_mem_singleton.2 (by decide))

end Builder

end ScriptGraph
