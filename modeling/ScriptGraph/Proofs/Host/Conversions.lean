import ScriptGraph.Proofs.Host.Records

/-!
# How host values are converted

* `HostValue.toNode_eq_once` : an instance is converted by way of its elements, unless its node is
  recorded;
* `HostValue.ConvertsAll` : values are converted one after the other, and these instances are met;
* `HostValue.exists_convertsAll`, `HostValue.ConvertsAll.passes` : that is how values are converted.
-/

namespace ScriptGraph

variable {σ : Type} {b c : Builder σ}

namespace HostValue

/-! ## Instances -/

/-- The instance that a value is. -/
def instance? : HostValue σ → Option Nat
  | .array i _ | .record i _ | .map i _ | .set i _ | .function i _ _ => some i
  | _ => none

/-- The values that an instance holds, in the order in which they are converted. A function holds
none. -/
def elements : HostValue σ → List (HostValue σ)
  | .array _ items | .set _ items => items
  | .record _ entries => entries.map (·.2)
  | .map _ entries => entries.flatMap fun p => [p.1, p.2]
  | _ => []

/-- The nodes of a list in pairs. -/
def paired : List NodeId → List (NodeId × NodeId)
  | k :: e :: rest => (k, e) :: paired rest
  | _ => []

/-- The parts of the template of an instance whose elements have the given nodes. -/
def parts (es : List NodeId) : HostValue σ → List Part
  | .array .. => .text "[" :: commaSeparated (es.map .node) ++ [.text "]"]
  | .record _ entries => .text "\x7b" :: recordParts ((entries.map (·.1)).zip es) ++ [.text "\x7d"]
  | .map .. => .text "new Map([" :: mapParts (paired es) ++ [.text "])"]
  | .set .. => .text "new Set([" :: commaSeparated (es.map .node) ++ [.text "])"]
  | _ => []

/-- Makes the node of an instance whose elements have the given nodes. -/
def assemble (es : List NodeId) : HostValue σ → TryBuild σ NodeId
  | .function _ arity body => ExceptT.lift (Build.function arity fun _ args => body args)
  | v => template (v.parts es)

/-- The operation that makes the node of an instance. -/
def assembly (es : List NodeId) : HostValue σ → Operation σ
  | .function _ arity body => .function arity fun _ args => body args
  | v => .create (.template (v.parts es) false false false)

/-- Makes the node of an instance and records it. -/
def finish (v : HostValue σ) (i : Nat) (es : List NodeId) (b : Builder σ) : Builder σ :=
  (b.perform (v.assembly es)).perform (.memoize i b.state.graph.size)

theorem recordToNodes_eq (entries : List (String × HostValue σ)) :
    recordToNodes entries =
      (do return (entries.map (·.1)).zip (← itemsToNodes (entries.map (·.2)))) := by
  induction entries with
  | nil => simp [recordToNodes, itemsToNodes]
  | cons entry rest ih => simp [recordToNodes, itemsToNodes, ih]

theorem mapToNodes_eq (entries : List (HostValue σ × HostValue σ)) :
    mapToNodes entries =
      (do return paired (← itemsToNodes (entries.flatMap fun p => [p.1, p.2]))) := by
  induction entries with
  | nil => simp [mapToNodes, itemsToNodes, paired]
  | cons entry rest ih => simp [mapToNodes, itemsToNodes, paired, ih]

/-- An instance is converted by way of its elements, unless its node is recorded. -/
theorem toNode_eq_once {v : HostValue σ} {i : Nat} (h : v.instance? = some i) :
    v.toNode = once i (do v.assemble (← itemsToNodes v.elements)) := by
  cases v <;> cases h
  · simp only [toNode, elements, assemble, parts]
  · simp [toNode, recordToNodes_eq, elements, assemble, parts]
  · simp [toNode, mapToNodes_eq, elements, assemble, parts]
  · simp only [toNode, elements, assemble, parts]
  · simp [toNode, itemsToNodes, elements, assemble]

theorem sizeOf_map_snd_le (entries : List (String × HostValue σ)) :
    sizeOf (entries.map (·.2)) ≤ sizeOf entries := by
  induction entries with
  | nil => simp
  | cons entry rest ih =>
    cases entry
    simp only [List.map_cons, List.cons.sizeOf_spec, Prod.mk.sizeOf_spec]
    omega

theorem sizeOf_flatMap_pair_le (entries : List (HostValue σ × HostValue σ)) :
    sizeOf (entries.flatMap fun p => [p.1, p.2]) ≤ sizeOf entries := by
  induction entries with
  | nil => simp
  | cons entry rest ih =>
    cases entry
    simp only [List.flatMap_cons, List.cons_append, List.nil_append, List.cons.sizeOf_spec,
      Prod.mk.sizeOf_spec]
    omega

theorem sizeOf_elements_le (v : HostValue σ) : sizeOf v.elements ≤ sizeOf v := by
  cases v with
  | array i items | set i items =>
    simp only [elements, array.sizeOf_spec, set.sizeOf_spec]
    omega
  | record i entries =>
    have := sizeOf_map_snd_le entries
    simp only [elements, record.sizeOf_spec]
    omega
  | map i entries =>
    have := sizeOf_flatMap_pair_le entries
    simp only [elements, map.sizeOf_spec]
    omega
  | regExp | function =>
    simp only [elements, List.nil.sizeOf_spec, regExp.sizeOf_spec, function.sizeOf_spec]
    omega
  | _ => simp [elements]

/-- A value without an instance is foreign, or has a node, or a node is made for its text. -/
theorem toNode_cases {v : HostValue σ} (h : v.instance? = none) :
    (∃ description, v = .foreign description) ∨ (∃ e, v = .node e) ∨
      ∃ draft, v.toNode = ExceptT.lift (Build.create draft) := by
  cases v with
  | foreign description => exact .inl ⟨description, rfl⟩
  | node e => exact .inr (.inl ⟨e, rfl⟩)
  | json v =>
    refine .inr (.inr ?_)
    rw [toNode]
    split <;> exact ⟨_, rfl⟩
  | array | record | map | set | function => cases h
  | _ => exact .inr (.inr ⟨_, by rw [toNode, literal]⟩)

/-- Values are converted one after the other, from `b` to `c`. `J` names the instances that are
converted on the way, each with its node. -/
inductive ConvertsAll : List (HostValue σ) → Builder σ → List (Nat × NodeId) →
    Except Fault (List NodeId) → Builder σ → Prop
  | nil (b : Builder σ) : ConvertsAll [] b [] (.ok []) b
  /-- A value without an instance. -/
  | plain {v vs b e c J r d} (hv : v.instance? = none) (hx : v.toNode.run.Yields b (.ok e) c)
    (h : ConvertsAll vs c J r d) : ConvertsAll (v :: vs) b J (r.map (e :: ·)) d
  | foreign (description : String) (vs : List (HostValue σ)) (b : Builder σ) :
    ConvertsAll (.foreign description :: vs) b [] (.error (.unconvertible description)) b
  /-- An instance whose node is recorded. -/
  | known {v vs b i e J r d} (hv : v.instance? = some i) (hi : b.state.memo.lookup i = some e)
    (h : ConvertsAll vs b J r d) : ConvertsAll (v :: vs) b ((i, e) :: J) (r.map (e :: ·)) d
  /-- An instance whose node is made and recorded. -/
  | made {v vs b i J₀ es c J r d} (hv : v.instance? = some i) (hi : b.state.memo.lookup i = none)
    (hes : ConvertsAll v.elements b J₀ (.ok es) c)
    (h : ConvertsAll vs (v.finish i es c) J r d) :
    ConvertsAll (v :: vs) b (J₀ ++ (i, c.state.graph.size) :: J)
      (r.map (c.state.graph.size :: ·)) d
  /-- An instance with an element that cannot be converted. -/
  | failed {v vs b i J fault c} (hv : v.instance? = some i) (hi : b.state.memo.lookup i = none)
    (hes : ConvertsAll v.elements b J (.error fault) c) : ConvertsAll (v :: vs) b J (.error fault) c

/-- A value is converted. -/
abbrev Converts (v : HostValue σ) (b : Builder σ) (J : List (Nat × NodeId))
    (r : Except Fault NodeId) (c : Builder σ) : Prop :=
  ConvertsAll [v] b J (r.map ([·])) c

theorem toNode_yields_of_none {v : HostValue σ} (h : v.instance? = none) (b : Builder σ) :
    (∃ description, v = .foreign description) ∨ ∃ e c, v.toNode.run.Yields b (.ok e) c := by
  rcases toNode_cases h with hforeign | ⟨e, rfl⟩ | ⟨draft, hdraft⟩
  · exact .inl hforeign
  · refine .inr ⟨e, b, fun next => ?_⟩
    rw [toNode]
    rfl
  · refine .inr ⟨(b.state.create draft).1, b.perform (.create draft), fun next => ?_⟩
    rw [hdraft]
    exact Builder.run_create draft _ b

theorem exists_convertsAll (vs : List (HostValue σ)) (b : Builder σ) :
    ∃ J r c, ConvertsAll vs b J r c := by
  match vs with
  | [] => exact ⟨_, _, _, .nil b⟩
  | v :: rest =>
    have hrest : ∀ c, ∃ J r d, ConvertsAll rest c J r d := exists_convertsAll rest
    cases hv : v.instance? with
    | none =>
      rcases toNode_yields_of_none hv b with ⟨description, rfl⟩ | ⟨e, c, hx⟩
      · exact ⟨_, _, _, .foreign description rest b⟩
      · obtain ⟨J, r, d, h⟩ := hrest c
        exact ⟨_, _, _, .plain hv hx h⟩
    | some i =>
      cases hi : b.state.memo.lookup i with
      | some e =>
        obtain ⟨J, r, d, h⟩ := hrest b
        exact ⟨_, _, _, .known hv hi h⟩
      | none =>
        obtain ⟨J₀, r₀, c, hes⟩ := exists_convertsAll v.elements b
        cases r₀ with
        | error fault => exact ⟨_, _, _, .failed hv hi hes⟩
        | ok es =>
          obtain ⟨J, r, d, h⟩ := hrest (v.finish i es c)
          exact ⟨_, _, _, .made hv hi hes h⟩
termination_by sizeOf vs
decreasing_by
  · simp
  · have := sizeOf_elements_le v
    simp only [List.cons.sizeOf_spec]
    omega

/-! ## What conversions do -/

theorem assemble_passes {v : HostValue σ} {i : Nat} (h : v.instance? = some i) (es : List NodeId)
    (b : Builder σ) :
    (v.assemble es).run.Passes b (.ok b.state.graph.size) (b.perform (v.assembly es)) := by
  intro next
  cases v with
  | function _ arity body => exact .single (.function arity _ _ b)
  | array | record | map | set => exact .single (.create _ _ b)
  | _ => cases h

/-- A value without an instance has a node, or one is made for its text. -/
theorem plain_cases {v : HostValue σ} {e : NodeId} (hv : v.instance? = none)
    (hx : v.toNode.run.Yields b (.ok e) c) : v = .node e ∧ c = b ∨
      ∃ draft, v.toNode = ExceptT.lift (Build.create draft) ∧ e = (b.state.create draft).1 ∧
        c = b.perform (.create draft) := by
  rcases toNode_cases hv with ⟨description, rfl⟩ | ⟨e', rfl⟩ | ⟨draft, hdraft⟩
  · have hthrow : (foreign description : HostValue σ).toNode.run.Yields b
        (.error (.unconvertible description)) b := fun next => rfl
    cases (hx.unique hthrow).1
  · have hpure : (node e' : HostValue σ).toNode.run.Yields b (.ok e') b := fun next => rfl
    obtain ⟨he, hc⟩ := hx.unique hpure
    exact .inl ⟨congrArg _ (Except.ok.inj he).symm, hc⟩
  · have hcreate : (ExceptT.lift (Build.create draft) : TryBuild σ NodeId).run.Yields b
        (.ok (b.state.create draft).1) (b.perform (.create draft)) :=
      fun next => Builder.run_create draft _ b
    obtain ⟨he, hc⟩ := (hdraft ▸ hx).unique hcreate
    exact .inr ⟨draft, hdraft, Except.ok.inj he, hc⟩

theorem toNode_passes_plain {v : HostValue σ} {e : NodeId} (hv : v.instance? = none)
    (hx : v.toNode.run.Yields b (.ok e) c) : v.toNode.run.Passes b (.ok e) c := by
  intro next
  rcases plain_cases hv hx with ⟨rfl, rfl⟩ | ⟨draft, hdraft, rfl, rfl⟩
  · rw [toNode]
    exact .refl
  · rw [hdraft]
    exact .single (.create draft _ b)

/-- An instance that has a node keeps it; for another one, `x` makes the node that is recorded. -/
theorem once_step (i : Nat) (x : TryBuild σ NodeId) (next : Except Fault NodeId → Recipe σ)
    (b : Builder σ) :
    Recipe.Step ((once i x).run next, b)
      ((match b.state.memo.lookup i with
        | some e => return e
        | none => do
          let e ← x
          ExceptT.lift (Build.memoize i e)
          return e : TryBuild σ NodeId).run next, b) :=
  .look _ b

theorem toNode_passes_known {v : HostValue σ} {i : Nat} {e : NodeId} (hv : v.instance? = some i)
    (hi : b.state.memo.lookup i = some e) : v.toNode.run.Passes b (.ok e) b := by
  intro next
  rw [toNode_eq_once hv]
  have hstep := once_step i (do v.assemble (← itemsToNodes v.elements)) next b
  rw [hi] at hstep
  exact .single hstep

/-- An instance without a node is converted by way of its elements. -/
theorem toNode_step {v : HostValue σ} {i : Nat} (hv : v.instance? = some i)
    (hi : b.state.memo.lookup i = none) (next : Except Fault NodeId → Recipe σ) :
    Recipe.Step (v.toNode.run next, b)
      (((do v.assemble (← itemsToNodes v.elements)) >>= fun e => do
        ExceptT.lift (Build.memoize i e)
        return e : TryBuild σ NodeId).run next, b) := by
  have hstep := once_step i (do v.assemble (← itemsToNodes v.elements)) next b
  rw [hi, ← toNode_eq_once hv] at hstep
  exact hstep

theorem toNode_passes_made {v : HostValue σ} {i : Nat} {es : List NodeId}
    (hv : v.instance? = some i) (hi : b.state.memo.lookup i = none)
    (hes : (itemsToNodes v.elements).run.Passes b (.ok es) c) :
    v.toNode.run.Passes b (.ok c.state.graph.size) (v.finish i es c) := by
  intro next
  refine .head (toNode_step hv hi next) ((hes _).trans ((assemble_passes hv es c _).trans ?_))
  exact .single (.memoize i c.state.graph.size _ _)

theorem toNode_passes_failed {v : HostValue σ} {i : Nat} {fault : Fault}
    (hv : v.instance? = some i) (hi : b.state.memo.lookup i = none)
    (hes : (itemsToNodes v.elements).run.Passes b (.error fault) c) :
    v.toNode.run.Passes b (.error fault) c := fun next =>
  .head (toNode_step hv hi next) (hes _)

theorem itemsToNodes_passes_ok {v : HostValue σ} {vs : List (HostValue σ)} {e : NodeId}
    {r : Except Fault (List NodeId)} {d : Builder σ} (hv : v.toNode.run.Passes b (.ok e) c)
    (h : (itemsToNodes vs).run.Passes c r d) :
    (itemsToNodes (v :: vs)).run.Passes b (r.map (e :: ·)) d := by
  intro next
  rw [itemsToNodes]
  refine (hv _).trans ((h _).trans ?_)
  cases r <;> exact .refl

theorem itemsToNodes_passes_error {v : HostValue σ} {fault : Fault}
    (hv : v.toNode.run.Passes b (.error fault) c) (vs : List (HostValue σ)) :
    (itemsToNodes (v :: vs)).run.Passes b (.error fault) c := by
  intro next
  rw [itemsToNodes]
  exact hv _

theorem ConvertsAll.passes {vs : List (HostValue σ)} {J : List (Nat × NodeId)}
    {r : Except Fault (List NodeId)} (h : ConvertsAll vs b J r c) :
    (itemsToNodes vs).run.Passes b r c := by
  induction h with
  | nil b => exact fun next => .refl
  | plain hv hx _ ih => exact itemsToNodes_passes_ok (toNode_passes_plain hv hx) ih
  | foreign description vs b => exact itemsToNodes_passes_error (fun next => .refl) vs
  | known hv hi _ ih => exact itemsToNodes_passes_ok (toNode_passes_known hv hi) ih
  | made hv hi _ _ ihes ih => exact itemsToNodes_passes_ok (toNode_passes_made hv hi ihes) ih
  | failed hv hi _ ihes => exact itemsToNodes_passes_error (toNode_passes_failed hv hi ihes) _

/-- The first value is converted before the others, and alone if it cannot be. -/
theorem ConvertsAll.exists_head {v : HostValue σ} {vs : List (HostValue σ)}
    {J : List (Nat × NodeId)} {r : Except Fault (List NodeId)} {d : Builder σ}
    (h : ConvertsAll (v :: vs) b J r d) :
    (∃ fault, v.toNode.run.Passes b (.error fault) d ∧ r = .error fault) ∨
      ∃ e c J' r', v.toNode.run.Passes b (.ok e) c ∧ ConvertsAll vs c J' r' d ∧
        r = r'.map (e :: ·) := by
  cases h with
  | plain hv hx h => exact .inr ⟨_, _, _, _, toNode_passes_plain hv hx, h, rfl⟩
  | foreign => exact .inl ⟨_, fun next => .refl, rfl⟩
  | known hv hi h => exact .inr ⟨_, _, _, _, toNode_passes_known hv hi, h, rfl⟩
  | made hv hi hes h => exact .inr ⟨_, _, _, _, toNode_passes_made hv hi hes.passes, h, rfl⟩
  | failed hv hi hes => exact .inl ⟨_, toNode_passes_failed hv hi hes.passes, rfl⟩

theorem Converts.passes {v : HostValue σ} {J : List (Nat × NodeId)} {r : Except Fault NodeId}
    (h : v.Converts b J r c) : v.toNode.run.Passes b r c := by
  rcases h.exists_head with ⟨fault, hx, hr⟩ | ⟨e, _, _, _, hx, hrest, hr⟩
  · cases r with
    | error => exact Except.error.inj hr ▸ hx
    | ok => cases hr
  · cases hrest
    cases r with
    | error => cases hr
    | ok x =>
      cases hr
      exact hx

theorem Converts.yields {v : HostValue σ} {J : List (Nat × NodeId)} {r : Except Fault NodeId}
    (h : v.Converts b J r c) : v.toNode.run.Yields b r c := h.passes.yields

theorem exists_converts (v : HostValue σ) (b : Builder σ) : ∃ J r c, v.Converts b J r c := by
  obtain ⟨J, r, c, h⟩ := exists_convertsAll [v] b
  rcases h.exists_head with ⟨fault, _, rfl⟩ | ⟨e, _, _, _, _, hrest, rfl⟩
  · exact ⟨J, .error fault, c, h⟩
  · cases hrest
    exact ⟨J, .ok e, c, h⟩

theorem finish_leads {v : HostValue σ} {i : Nat} (hv : v.instance? = some i) (es : List NodeId)
    (b : Builder σ) : b.Leads (v.finish i es b) := by
  have hmake : b.Leads (b.perform (v.assembly es)) := by
    cases v with
    | function _ arity body => exact .function b arity _
    | array | record | map | set => exact .create b _
    | _ => cases hv
  exact hmake.trans (.single _ rfl)

theorem finish_memo {v : HostValue σ} {i : Nat} (hv : v.instance? = some i) (es : List NodeId)
    (b : Builder σ) : (v.finish i es b).state.memo = (i, b.state.graph.size) :: b.state.memo := by
  have hmake : (b.perform (v.assembly es)).state.memo = b.state.memo := by
    refine b.perform_memo_eq ?_
    cases v with
    | function | array | record | map | set => exact nofun
    | _ => cases hv
  exact congrArg ((i, b.state.graph.size) :: ·) hmake

theorem lt_size_finish {v : HostValue σ} {i : Nat} (hv : v.instance? = some i) (es : List NodeId)
    (b : Builder σ) : b.state.graph.size < (v.finish i es b).state.graph.size := by
  show _ < (b.perform (v.assembly es)).state.graph.size
  cases v with
  | function _ arity body =>
    exact Graph.lt_size (b.node?_function arity fun _ args => body args)
  | array | record | map | set =>
    exact Nat.lt_of_lt_of_eq (Nat.lt_succ_self _) (Array.size_push _).symm
  | _ => cases hv

/-- A value without an instance leaves what is recorded alone. -/
theorem memo_of_yields {v : HostValue σ} {e : NodeId} (hv : v.instance? = none)
    (hx : v.toNode.run.Yields b (.ok e) c) : c.state.memo = b.state.memo := by
  rcases plain_cases hv hx with ⟨-, rfl⟩ | ⟨draft, -, -, rfl⟩
  · rfl
  · exact b.perform_memo_eq nofun

theorem ConvertsAll.leads {vs : List (HostValue σ)} {J : List (Nat × NodeId)}
    {r : Except Fault (List NodeId)} (h : ConvertsAll vs b J r c) : b.Leads c := by
  induction h with
  | nil b => exact .refl b
  | @plain v _ b _ _ _ _ _ _ hx _ ih => exact ((toNode_ends v b).of_yields hx).1.trans ih
  | foreign _ _ b => exact .refl b
  | known _ _ _ ih => exact ih
  | made hv _ _ _ ihes ih => exact ihes.trans ((finish_leads hv _ _).trans ih)
  | failed _ _ _ ihes => exact ihes

end HostValue

end ScriptGraph
