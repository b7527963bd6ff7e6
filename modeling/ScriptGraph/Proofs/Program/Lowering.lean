import ScriptGraph.Proofs.Builder.Endings
import ScriptGraph.Proofs.Program.Lexical

/-!
# What lowering does to a builder

* `TryBuild.Lowers` : a computation that fails for an unknown name only;
* `Expression.lowers`, `fillDefinitions_lowers`, … : the lowering of each part of a program is such
  a computation, and keeps builders lexical;
* `withDefinitions_lowers` : so is that of a body with its definitions.
-/

namespace ScriptGraph

variable {σ α β : Type}

/-- A computation fails for an unknown name, or answers what has a property. -/
abbrev TryBuild.Lowers (x : TryBuild σ α) (b : Builder σ) (P : Builder σ → α → Prop) : Prop :=
  x.Ends (fun fault => ∃ name, fault = .unknownName name) b P

open TryBuild

variable {b : Builder σ} {holes : List NodeId} {env : Bindings}

/-- What a computation answers may be used, and the builder stays lexical. -/
def Shows (holes : List NodeId) (b : Builder σ) (e : NodeId) : Prop := b.Lexical holes ∧ b.Sees e

def ShowsAll (holes : List NodeId) (b : Builder σ) (es : List NodeId) : Prop :=
  b.Lexical holes ∧ ∀ e ∈ es, b.Sees e

/-- All names are bound to what may be used. -/
def Builder.Binds (b : Builder σ) (env : Bindings) : Prop := ∀ p ∈ env, b.Sees p.2

theorem Builder.Binds.leads {c : Builder σ} (h : b.Binds env) (hb : b.Lexical holes)
    (hc : b.Leads c) : c.Binds env := fun p hp => (h p hp).leads hb.sound hc

theorem Builder.Binds.bind (h : b.Binds env) (names : List String) {nodes : List NodeId}
    (hnodes : ∀ e ∈ nodes, b.Sees e) : b.Binds (Bindings.bind names nodes env) := by
  intro p hp
  rw [Bindings.bind, List.foldl_flip_cons_eq_append', List.mem_append, List.mem_reverse] at hp
  rcases hp with hp | hp
  · exact hnodes p.2 (List.of_mem_zip hp).2
  · exact h p hp

theorem create_lowers (hb : b.Lexical holes) {draft : Draft} (hdraft : draft ≠ .slot)
    (hnodes : ∀ e ∈ draft.nodes, b.Sees e) :
    Lowers (ExceptT.lift (Build.create draft)) b (Shows holes) :=
  .lift (fun next => Builder.run_create draft next b) (.create b draft)
    ⟨hb.create hdraft hnodes, hb.sees_create draft⟩

theorem leaf_lowers (hb : b.Lexical holes) {draft : Draft} (hdraft : draft ≠ .slot)
    (hnodes : draft.nodes = []) : Lowers (ExceptT.lift (Build.create draft)) b (Shows holes) :=
  create_lowers hb hdraft fun _ he => absurd (hnodes ▸ he) List.not_mem_nil

theorem importFrom_lowers (hb : b.Lexical holes) (address exported : String) :
    Lowers (ExceptT.lift (Build.importFrom address exported)) b (Shows holes) := by
  have hmodule : (b.perform (.create (.module address))).Lexical holes :=
    hb.create nofun fun _ he => absurd he List.not_mem_nil
  have hsees := hb.sees_create (.module address)
  refine .lift (fun next => ?_) ((Builder.Leads.create b (.module address)).trans
    (.create _ (.template [.node (b.state.create (.module address)).1,
      .text (Build.memberAccess exported false)] false false false)))
    ⟨hmodule.create nofun fun e he => ?_, hmodule.sees_create _⟩
  · show Builder.run (.create (.module address) fun e => .create _ next) b = _
    rw [Builder.run_create, Builder.run_create]
    rfl
  · rw [show e = (b.state.create (.module address)).1 from List.mem_singleton.1 he]
    exact hsees

theorem json_lowers (hb : b.Lexical holes) (v : Json) :
    Lowers ((HostValue.json v).toNode) b (Shows holes) := by
  rw [HostValue.toNode]
  split
  · exact leaf_lowers hb (by simp) rfl
  · exact leaf_lowers hb (by simp) rfl

/-- A function is lowered when its body is asked for. -/
theorem function_lowers (hb : b.Lexical holes) (henv : b.Binds env) (name : Option String)
    (params : List String) (definitions : List Definition) (body : Option Form) :
    Lowers (ExceptT.lift (Build.function params.length fun me args =>
      (loweredBody env name params definitions body me args).recipe)) b (Shows holes) := by
  exact .lift (fun next => Builder.run_function _ _ next b) (.function b _ _)
    ⟨hb.function henv name params definitions body, hb.sees_function _ _⟩

theorem use_lowers (hb : b.Lexical holes) (henv : b.Binds env) (name : String) :
    ((Expression.use name).lower env).Lowers b (Shows holes) := by
  rw [Expression.lower]
  cases h : env.lookup name with
  | none => exact .throw ⟨name, rfl⟩
  | some e =>
    obtain ⟨before, after, rfl, _⟩ := List.lookup_eq_some_iff.1 h
    exact .pure ⟨hb, henv (name, e) (by simp)⟩

theorem nodes_construct (callee : NodeId) (args : List NodeId) :
    ([Part.text "new ", Part.node callee, Part.text "("] ++ commaSeparated (args.map .node) ++
      [Part.text ")"] : List Part).filterMap Part.node? = callee :: args := by
  rw [List.filterMap_append, List.filterMap_append, filterMap_node?_commaSeparated,
    filterMap_node?_map]
  exact congrArg (callee :: ·) (List.append_nil args)

mutual

theorem Expression.lowers : ∀ (x : Expression) {b : Builder σ}, b.Lexical holes → b.Binds env →
    (x.lower env).Lowers b (Shows holes)
  | .value v, _, hb, _ => json_lowers hb v
  | .raw code, _, hb, _ => leaf_lowers hb nofun rfl
  | .ident name, _, hb, _ => leaf_lowers hb nofun rfl
  | .template parts, _, hb, henv => by
    refine (lowerParts_lowers parts hb henv).bind fun ps c hc hps => ?_
    exact create_lowers hps.1 nofun hps.2
  | .member object property optional, _, hb, henv => by
    refine (object.lowers hb henv).bind fun e c hc he => ?_
    exact create_lowers he.1 nofun (List.forall_mem_singleton.2 he.2)
  | .index object key, _, hb, henv => by
    refine (object.lowers hb henv).bind fun e c hc he => ?_
    refine (key.lowers he.1 (henv.leads hb hc)).bind fun k d hd hk => ?_
    exact create_lowers hk.1 nofun <| List.forall_mem_cons.2
      ⟨he.2.leads he.1.sound hd, List.forall_mem_singleton.2 hk.2⟩
  | .call callee args optional pure, _, hb, henv => by
    refine (callee.lowers hb henv).bind fun e c hc he => ?_
    refine (lowerAll_lowers args he.1 (henv.leads hb hc)).bind fun es d hd hes => ?_
    exact create_lowers hes.1 nofun (List.forall_mem_cons.2 ⟨he.2.leads he.1.sound hd, hes.2⟩)
  | .construct callee args, _, hb, henv => by
    refine (callee.lowers hb henv).bind fun e c hc he => ?_
    refine (lowerAll_lowers args he.1 (henv.leads hb hc)).bind fun es d hd hes => ?_
    refine create_lowers hes.1 nofun ?_
    rw [Draft.nodes, nodes_construct]
    exact List.forall_mem_cons.2 ⟨he.2.leads he.1.sound hd, hes.2⟩
  | .function name params definitions body, _, hb, henv =>
    function_lowers hb henv name params definitions body
  | .await value, _, hb, henv => by
    refine (value.lowers hb henv).bind fun e c hc he => ?_
    exact create_lowers he.1 nofun (List.forall_mem_singleton.2 he.2)
  | .assign target value, _, hb, henv => by
    refine (target.lowers hb henv).bind fun e c hc he => ?_
    refine (value.lowers he.1 (henv.leads hb hc)).bind fun v d hd hv => ?_
    exact create_lowers hv.1 nofun <| List.forall_mem_cons.2
      ⟨he.2.leads he.1.sound hd, List.forall_mem_singleton.2 hv.2⟩
  | .module address none, _, hb, _ => leaf_lowers hb nofun rfl
  | .module address (some exported), _, hb, _ => importFrom_lowers hb address exported
  | .resource key value, _, hb, _ => leaf_lowers hb nofun rfl
  | .placeholder, _, hb, _ => leaf_lowers hb nofun rfl
  | .use name, _, hb, henv => use_lowers hb henv name

theorem lowerAll_lowers : ∀ (xs : List Expression) {b : Builder σ}, b.Lexical holes →
    b.Binds env → (lowerAll env xs).Lowers b (ShowsAll holes)
  | [], _, hb, _ => .pure ⟨hb, nofun⟩
  | x :: xs, _, hb, henv => by
    refine (x.lowers hb henv).bind fun e c hc he => ?_
    refine (lowerAll_lowers xs he.1 (henv.leads hb hc)).bind fun es d hd hes => ?_
    exact .pure ⟨hes.1, List.forall_mem_cons.2 ⟨he.2.leads he.1.sound hd, hes.2⟩⟩

theorem lowerParts_lowers : ∀ (ps : List TemplatePart) {b : Builder σ}, b.Lexical holes →
    b.Binds env → (lowerParts env ps).Lowers b fun c qs =>
      c.Lexical holes ∧ ∀ e ∈ qs.filterMap Part.node?, c.Sees e
  | [], _, hb, _ => .pure ⟨hb, nofun⟩
  | p :: ps, _, hb, henv => by
    refine (p.lowers hb henv).bind fun q c hc hq => ?_
    refine (lowerParts_lowers ps hq.1 (henv.leads hb hc)).bind fun qs d hd hqs => ?_
    refine .pure ⟨hqs.1, fun e he => ?_⟩
    obtain ⟨q', hmem, hnode⟩ := List.mem_filterMap.1 he
    rcases List.mem_cons.1 hmem with rfl | hmem
    · exact (hq.2 e hnode).leads hq.1.sound hd
    · exact hqs.2 e (List.mem_filterMap.2 ⟨q', hmem, hnode⟩)

theorem TemplatePart.lowers : ∀ (p : TemplatePart) {b : Builder σ}, b.Lexical holes →
    b.Binds env → (p.lower env).Lowers b fun c q =>
      c.Lexical holes ∧ ∀ e, q.node? = some e → c.Sees e
  | .text _, _, hb, _ => .pure ⟨hb, nofun⟩
  | .expression x, _, hb, henv =>
    (x.lowers hb henv).bind fun _ _ _ he => .pure ⟨he.1, fun _ heq => Option.some.inj heq ▸ he.2⟩

end

theorem lowerForm_lowers (hb : b.Lexical holes) (henv : b.Binds env) (body : Option Form) :
    (lowerForm env body).Lowers b fun c body => ShowsAll holes c body.roots := by
  rcases body with _ | ⟨list | e⟩
  · exact .pure ⟨hb, nofun⟩
  · exact (lowerAll_lowers list hb henv).bind fun ns c _ hns => .pure hns
  · exact (e.lowers hb henv).bind fun n c _ hn => .pure ⟨hn.1, List.forall_mem_singleton.2 hn.2⟩

theorem fill_lowers {slot target : NodeId} {rest : List NodeId} (hb : b.Lexical (slot :: rest))
    (ht : b.Sees target) :
    Lowers (ExceptT.mk (Build.fill slot target)) b fun c _ => c.Lexical rest :=
  .fill ((hb.slots slot).2 List.mem_cons_self) (hb.fill rfl ht)

/-- Definitions are lowered, and their slots filled, in order. -/
theorem fillDefinitions_lowers : ∀ (definitions : List Definition) {slots : List NodeId}
    {b : Builder σ}, b.Lexical slots → b.Binds env → slots.length = definitions.length →
    (fillDefinitions env slots definitions).Lowers b fun c _ => c.Lexical []
  | [], [], _, hb, _, _ => .pure hb
  | .mk name value :: definitions, slot :: slots, _, hb, henv, hlength => by
    have hfill : ((Definition.mk name value).fill env slot).Lowers _ fun c _ => c.Lexical slots :=
      (value.lowers hb henv).bind fun n c _ hn => fill_lowers hn.1 hn.2
    refine hfill.bind fun _ c hc hfilled => ?_
    exact fillDefinitions_lowers definitions hfilled (henv.leads hb hc) (Nat.succ.inj hlength)

theorem makeSlots_lowers (n : Nat) (hb : b.Lexical holes) :
    (makeSlots n).Lowers b fun c slots => c.Lexical (holes ++ slots) ∧ slots.length = n ∧
      ∀ e ∈ slots, c.Sees e := by
  induction n generalizing b holes with
  | zero => exact .pure ⟨by rwa [List.append_nil], rfl, nofun⟩
  | succ n ih =>
    have hslot : Lowers (ExceptT.lift (Build.create .slot)) b fun c e =>
        c.Lexical (holes ++ [e]) ∧ c.Sees e :=
      .lift (fun next => Builder.run_create .slot next b) (.create b .slot)
        ⟨hb.create_slot, hb.sees_create .slot⟩
    refine hslot.bind fun e c hc he => ?_
    refine (ih he.1).bind fun es d hd hes => ?_
    refine .pure ⟨?_, congrArg (· + 1) hes.2.1, ?_⟩
    · rw [List.append_cons]
      exact hes.1
    · exact List.forall_mem_cons.2 ⟨he.2.leads he.1.sound hd, hes.2.2⟩

/-- Between constructions a body is lowered with all its slots filled. -/
theorem withDefinitions_lowers (definitions : List Definition) (body : Option Form)
    (hb : b.Lexical []) (henv : b.Binds env) :
    (withDefinitions (definitions.map Definition.name) env
      (fun env slots => fillDefinitions env slots definitions)
      (fun env => lowerForm env body)).Lowers b fun c body => ShowsAll [] c body.roots := by
  refine (makeSlots_lowers _ hb).bind fun slots c hc hslots => ?_
  have hbind := (henv.leads hb hc).bind (definitions.map Definition.name) hslots.2.2
  have hlexical : c.Lexical slots := hslots.1
  refine (fillDefinitions_lowers definitions hlexical hbind
    (hslots.2.1.trans (List.length_map _))).bind fun _ d hd hfilled => ?_
  exact lowerForm_lowers hfilled (hbind.leads hslots.1 hd) body

end ScriptGraph
