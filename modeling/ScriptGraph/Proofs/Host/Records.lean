import ScriptGraph.Program.Lowering
import ScriptGraph.Proofs.Builder.Endings
import ScriptGraph.Proofs.Emission.Spelling
import ScriptGraph.Proofs.Json.Objects

/-!
# How records and JSON values are written

* `HostValue.toNode_ends` : the conversion of a value ends;
* `HostValue.isTemplate_of_record` : a record is converted to a template that has its keys;
* `HostValue.kindOf?_of_json` : an array or object of JSON is converted to its literal;
* `HostValue.render_recordTemplate` : what is written for the template is the object literal of the
  keys and of what is written for the values.
-/

namespace ScriptGraph

open Ecma

variable {σ α : Type} {b c : Builder σ}

/-! ## Conversions end -/

theorem Build.Yields.unique {x : Build σ (Except Fault NodeId)} {r r' : Except Fault NodeId}
    {c' : Builder σ} (h : x.Yields b r c) (h' : x.Yields b r' c') : r = r' ∧ c = c' := by
  have hrun := (h fun r => .done (r.map .value)).symm.trans (h' fun r => .done (r.map .value))
  rw [Builder.run_done, Builder.run_done, Prod.mk.injEq] at hrun
  refine ⟨?_, hrun.2⟩
  cases r <;> cases r' <;> simp_all [Except.map]

theorem TryBuild.Ends.of_yields {x : TryBuild σ NodeId} {F : Fault → Prop}
    {P : Builder σ → NodeId → Prop} {e : NodeId} (h : x.Ends F b P)
    (hx : x.run.Yields b (.ok e) c) : b.Leads c ∧ P c e := by
  rcases h with ⟨fault, d, _, hfault⟩ | ⟨v, d, hv, hd, hP⟩
  · cases (hx.unique hfault).1
  · obtain ⟨heq, rfl⟩ := hx.unique hv
    exact ⟨hd, Except.ok.inj heq ▸ hP⟩

theorem TryBuild.Ends.yields {x : TryBuild σ α} {F : Fault → Prop} {P : Builder σ → α → Prop}
    (h : x.Ends F b P) : x.Ends F b fun c v => P c v ∧ x.run.Yields b (.ok v) c := by
  rcases h with hfault | ⟨v, c, hv, hc, hP⟩
  · exact .inl hfault
  · exact .inr ⟨v, c, hv, hc, hP, hv⟩

/-- At `b` a computation answers the node `e`, and operations lead on to `c`. -/
def TryBuild.Gives (x : TryBuild σ NodeId) (b : Builder σ) (e : NodeId) (c : Builder σ) : Prop :=
  b.Reached ∧ ∃ d ops, x.run.Yields b (.ok e) d ∧ d.performAll ops = c

/-- On the way from `b` to `c`, the value of an entry is converted to the node of the same key. -/
def Builder.Converts (b c : Builder σ) (entry : String × HostValue σ) (x : String × NodeId) : Prop :=
  x.1 = entry.1 ∧ ∃ b' c', b.Leads b' ∧ entry.2.toNode.run.Yields b' (.ok x.2) c' ∧ c'.Leads c

theorem Builder.Converts.leads {b' c' : Builder σ} {entry : String × HostValue σ}
    {x : String × NodeId} (h : b.Converts c entry x) (hb : b'.Leads b) (hc : c.Leads c') :
    b'.Converts c' entry x := by
  obtain ⟨hkey, d, d', hd, hx, hd'⟩ := h
  exact ⟨hkey, d, d', hb.trans hd, hx, hd'.trans hc⟩

theorem Builder.Converts.gives {entry : String × HostValue σ} {x : String × NodeId}
    (h : b.Converts c entry x) (hb : b.Reached) (ops : List (Operation σ)) :
    ∃ b', entry.2.toNode.Gives b' x.2 (c.performAll ops) := by
  obtain ⟨-, d, d', hd, hx, ⟨ops', rfl⟩, -⟩ := h
  refine ⟨d, hd.reached hb, d', ops' ++ ops, hx, ?_⟩
  rw [Builder.performAll, List.foldl_append]
  rfl

namespace HostValue

open TryBuild

/-- A computation fails or answers what has a property. -/
abbrev Finishes (x : TryBuild σ α) (b : Builder σ) (P : Builder σ → α → Prop) : Prop :=
  x.Ends (fun _ => True) b P

theorem literal_finishes (code : String) (b : Builder σ) :
    Finishes (literal code) b fun _ _ => True :=
  .lift (Builder.run_create _ · b) (.create b (.literal code)) trivial

theorem once_finishes (i : Nat) {x : TryBuild σ NodeId} {P : Builder σ → NodeId → Prop}
    (hx : Finishes x b P) (hmemoize : ∀ c e, P c e → P (c.perform (.memoize i e)) e) :
    Finishes (once i x) b fun c e => b.state.memo.lookup i = none → P c e := by
  have hlook : Finishes (ExceptT.lift Build.look) b fun c s => c.state = s ∧ c = b :=
    .lift (Builder.run_look · b) (.refl b) ⟨rfl, rfl⟩
  refine hlook.bind fun s c _ ⟨hs, hc⟩ => ?_
  subst hs hc
  cases hmemo : c.state.memo.lookup i with
  | some e => exact .pure fun h => absurd h (Option.some_ne_none e)
  | none =>
    refine hx.bind fun e d _ he => ?_
    have hleads : d.Leads (d.perform (.memoize i e)) := .single _ rfl
    exact Ends.bind (P := fun c _ => P c e)
      (.lift (fun next => Builder.run_memoize i e (next ()) d) hleads (hmemoize d e he))
      fun _ _ _ h => .pure fun _ => h

theorem once_template_finishes (i : Nat) {x : TryBuild σ α} (parts : α → List Part)
    {P : Builder σ → α → Prop} (hx : Finishes x b P) :
    Finishes (once i do template (parts (← x))) b fun c e => b.state.memo.lookup i = none →
      ∃ v d, P d v ∧ d.Leads c ∧ c.state.graph.IsTemplate e (parts v) := by
  refine once_finishes i (P := fun c e =>
    ∃ v d, P d v ∧ d.Leads c ∧ c.state.graph.IsTemplate e (parts v)) (hx.bind fun v d _ hv => ?_) ?_
  · exact .lift (Builder.run_create _ · d) (.create d _) ⟨v, d, hv, .create d _,
      _, (d.state.graph.node?_push _ _).trans (if_pos rfl), rfl, rfl⟩
  · rintro c e ⟨v, d, hv, hd, he⟩
    exact ⟨v, d, hv, hd.trans (.single _ rfl), he⟩

mutual

/-- **The conversion of a value ends.** -/
theorem toNode_ends : (v : HostValue σ) → (b : Builder σ) → Finishes v.toNode b fun _ _ => True
  | .undefined, b => literal_finishes _ b
  | .null, b => literal_finishes _ b
  | .bool true, b => literal_finishes _ b
  | .bool false, b => literal_finishes _ b
  | .number _, b => literal_finishes _ b
  | .bigInteger _, b => literal_finishes _ b
  | .string _, b => literal_finishes _ b
  | .date _, b => literal_finishes _ b
  | .bytes _, b => literal_finishes _ b
  | .regExp _ _, b => literal_finishes _ b
  | .array i items, b => (once_template_finishes i _ (itemsToNodes_ends items b)).imp
      (fun _ h => h) fun _ _ _ => trivial
  | .record i entries, b => (once_template_finishes i _ (recordToNodes_ends entries b)).imp
      (fun _ h => h) fun _ _ _ => trivial
  | .map i entries, b => (once_template_finishes i _ (mapToNodes_ends entries b)).imp
      (fun _ h => h) fun _ _ _ => trivial
  | .set i items, b => (once_template_finishes i _ (itemsToNodes_ends items b)).imp
      (fun _ h => h) fun _ _ _ => trivial
  | .function i arity body, b => (once_finishes (P := fun _ _ => True) i
      (.lift (Builder.run_function arity _ · b) (.function b arity _) trivial) fun _ _ h => h).imp
        (fun _ h => h) fun _ _ _ => trivial
  | .json v, b => by
    rw [toNode]
    split
    · exact .lift (Builder.run_create _ · b) (.create b _) trivial
    · exact literal_finishes _ b
  | .node e, _ => .pure trivial
  | .foreign _, _ => .throw trivial

theorem itemsToNodes_ends : (items : List (HostValue σ)) → (b : Builder σ) →
    Finishes (itemsToNodes items) b fun _ _ => True
  | [], _ => .pure trivial
  | v :: rest, b => (toNode_ends v b).bind fun _ c _ _ =>
      (itemsToNodes_ends rest c).bind fun _ _ _ _ => .pure trivial

theorem recordToNodes_ends : (entries : List (String × HostValue σ)) → (b : Builder σ) →
    Finishes (recordToNodes entries) b fun c es => List.Forall₂ (b.Converts c) entries es
  | [], _ => .pure .nil
  | (_, v) :: rest, b => (toNode_ends v b).yields.bind fun _ c hc ⟨_, hv⟩ =>
      (recordToNodes_ends rest c).bind fun _ _ hd hes => .pure (.cons
        ⟨rfl, b, c, .refl b, hv, hd⟩ (hes.imp fun _ _ h => h.leads hc (.refl _)))

theorem mapToNodes_ends : (entries : List (HostValue σ × HostValue σ)) → (b : Builder σ) →
    Finishes (mapToNodes entries) b fun _ _ => True
  | [], _ => .pure trivial
  | (key, v) :: rest, b => (toNode_ends key b).bind fun _ c _ _ =>
      (toNode_ends v c).bind fun _ d _ _ =>
        (mapToNodes_ends rest d).bind fun _ _ _ _ => .pure trivial

end

/-! ## Records and JSON values -/

/-- The parts of a record whose values are the given nodes. -/
def recordTemplate (es : List (String × NodeId)) : List Part :=
  .text "\x7b" :: recordParts es ++ [.text "\x7d"]

/-- What is written for the values of a record: by key, the fragment of each node. -/
def ValuesOf (es : List (String × NodeId)) (ds : List (String × Fragment)) : Prop :=
  List.Forall₂ (fun e d => d.1 = e.1 ∧ d.2.node? = some e.2) es ds

theorem ValuesOf.map_fst {es : List (String × NodeId)} {ds : List (String × Fragment)}
    (h : ValuesOf es ds) : ds.map (·.1) = es.map (·.1) := by
  induction h with
  | nil => rfl
  | cons h _ ih => exact congrArg₂ (· :: ·) h.1 ih

/-- What is written for the entries of a record after the first one, and for the end. -/
theorem render_following {es : List (String × NodeId)} {pieces : List Fragment}
    (h : List.Forall₂ (fun q f => Fragment.Spells f q)
      (es.flatMap (fun e => [Part.text ("," ++ propertyKey e.1 ++ ":"), .node e.2]) ++
        [Part.text "\x7d"]) pieces) :
    ∃ ds, ValuesOf es ds ∧ ∀ links (text : List Char), text ++ renderAll links pieces =
      joined [','] (text :: ds.map fun d => (propertyKey d.1).toList ++ ':' :: d.2.render links) ++
        ['\x7d'] := by
  induction es generalizing pieces with
  | nil =>
    obtain ⟨_, _, hclose, hnil, rfl⟩ := List.forall₂_cons_left_iff.1 h
    cases hnil
    cases hclose
    refine ⟨[], .nil, fun _ text => ?_⟩
    simp [renderAll, Fragment.render, joined]
  | cons e es ih =>
    obtain ⟨key, x⟩ := e
    obtain ⟨_, _, hkey, hrest, rfl⟩ := List.forall₂_cons_left_iff.1 h
    obtain ⟨f, rest, hf, hrest', rfl⟩ := List.forall₂_cons_left_iff.1 hrest
    cases hkey
    obtain ⟨ds, hds, hrender⟩ := ih hrest'
    refine ⟨(key, f) :: ds, .cons ⟨rfl, hf⟩ hds, fun links text => ?_⟩
    rw [List.map_cons, joined_cons_cons, List.append_assoc, List.append_assoc, ← hrender]
    simp [renderAll, Fragment.render]

/-- **What is written for a record is the object literal** of its keys and of what is written for its
values. -/
theorem render_recordTemplate {es : List (String × NodeId)} {pieces : List Fragment}
    (h : List.Forall₂ (fun q f => Fragment.Spells f q) (recordTemplate es) pieces) :
    ∃ ds, ValuesOf es ds ∧ ∀ links, renderAll links pieces =
      objectText (ds.map fun d => (d.1, d.2.render links)) := by
  obtain ⟨_, _, hopen, hparts, rfl⟩ := List.forall₂_cons_left_iff.1 h
  cases hopen
  cases es with
  | nil =>
    obtain ⟨_, _, hclose, hnil, rfl⟩ := List.forall₂_cons_left_iff.1 hparts
    cases hnil
    cases hclose
    exact ⟨[], .nil, fun _ => rfl⟩
  | cons e es =>
    obtain ⟨key, x⟩ := e
    obtain ⟨_, _, hkey, hrest, rfl⟩ := List.forall₂_cons_left_iff.1 hparts
    obtain ⟨f, rest, hf, hrest', rfl⟩ := List.forall₂_cons_left_iff.1 hrest
    cases hkey
    obtain ⟨ds, hds, hrender⟩ := render_following hrest'
    refine ⟨(key, f) :: ds, .cons ⟨rfl, hf⟩ hds, fun links => ?_⟩
    have htext := hrender links ((propertyKey key).toList ++ ':' :: f.render links)
    rw [objectText, List.map_map, List.map_cons, List.cons_append]
    refine Eq.trans ?_ (congrArg ('\x7b' :: ·) htext)
    simp [renderAll, Fragment.render]

theorem map_fst_converts {entries : List (String × HostValue σ)} {es : List (String × NodeId)}
    (h : List.Forall₂ (b.Converts c) entries es) : es.map (·.1) = entries.map (·.1) := by
  induction h with
  | nil => rfl
  | cons h _ ih => exact congrArg₂ (· :: ·) h.1 ih

theorem yields_of_run {v : HostValue σ} {e : NodeId}
    (h : Builder.run (returning (pure v)) b = (.ok (.value e), c)) :
    v.toNode.run.Yields b (.ok e) c := by
  rcases toNode_ends v b with ⟨fault, d, -, hyields⟩ | ⟨e', d, hyields, -⟩
  · have hrun : Builder.run (returning (pure v)) b = Builder.run (.done (.error fault)) d :=
      hyields _
    rw [h, Builder.run_done, Prod.mk.injEq] at hrun
    cases hrun.1
  · have hrun : Builder.run (returning (pure v)) b = Builder.run (.done (.ok (.value e'))) d :=
      hyields _
    rw [h, Builder.run_done, Prod.mk.injEq, Except.ok.injEq, Body.value.injEq] at hrun
    obtain ⟨rfl, rfl⟩ := hrun
    exact hyields

/-- What the conversion of a value answers is there when operations have led on. -/
theorem extends_of_yields {v : HostValue σ} {e : NodeId} (hb : b.Reached)
    (h : v.toNode.run.Yields b (.ok e) c) (ops : List (Operation σ)) :
    c.state.graph.Extends (c.performAll ops).state.graph :=
  (Builder.performAll_sound_extends (((toNode_ends v b).of_yields h).1.reached hb).sound ops).2

/-- A record that is converted for the first time becomes a template of its keys and of the nodes
that its values are converted to. -/
theorem isTemplate_of_record {i : Nat} {entries : List (String × HostValue σ)} {e : NodeId}
    (h : (HostValue.record i entries).toNode.run.Yields b (.ok e) c)
    (hnew : b.state.memo.lookup i = none) :
    ∃ es, List.Forall₂ (b.Converts c) entries es ∧
      c.state.graph.IsTemplate e (recordTemplate es) := by
  obtain ⟨-, hmade⟩ :=
    (once_template_finishes i recordTemplate (recordToNodes_ends entries b)).of_yields h
  obtain ⟨es, d, hes, hd, htemplate⟩ := hmade hnew
  exact ⟨es, hes.imp fun _ _ h => h.leads (.refl b) hd, htemplate⟩

/-- An array or an object of JSON becomes its literal. -/
theorem kindOf?_of_json {v : Json} {e : NodeId} (hv : v.isComposite = true)
    (h : (HostValue.json v).toNode.run.Yields b (.ok e) c) :
    c.state.graph.kindOf? e = some (.text v.literal) := by
  rw [toNode, if_pos hv] at h
  refine (Ends.of_yields (F := fun _ => True)
    (P := fun c e => c.state.graph.kindOf? e = some (.text v.literal))
    (.lift (Builder.run_create _ · b) (.create b (.raw v.literal)) ?_) h).2
  exact Graph.kindOf?_of_node ((b.state.graph.node?_push _ _).trans (if_pos rfl))

end HostValue

end ScriptGraph
