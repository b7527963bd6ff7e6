import ScriptGraph.Compile.Basic
import ScriptGraph.Proofs.Builder.Growth
import ScriptGraph.Proofs.Emission.Sites

/-!
# How a node is written

* `Layout.expansion_function`, `Layout.expansion_parameter`, `Layout.expansion_inline` : what writing
  a node amounts to, by its kind;
* `Layout.parts_eq_ok`, `Layout.declarations_eq_ok`, `Layout.block_eq_ok` : lists are written item by
  item;
* `Layout.expansion_yields`, `Layout.output_yields` : the places of what is written.
-/

namespace ScriptGraph

theorem bind_eq_ok {α β : Type} {x : Except Fault α} {f : α → Except Fault β} {r : β} :
    x >>= f = .ok r ↔ ∃ v, x = .ok v ∧ f v = .ok r := by
  cases x with
  | error fault => simp [bind, Except.bind]
  | ok v => simp [bind, Except.bind]

theorem map_eq_ok {α β : Type} {x : Except Fault α} {f : α → β} {r : β} :
    x.map f = .ok r ↔ ∃ v, x = .ok v ∧ f v = r := by
  cases x with
  | error fault => simp [Except.map]
  | ok v => simp [Except.map]

/-- Where nothing but failure can happen, a result is taken as it is. -/
theorem ofExcept_eq {α : Type} (x : Except Fault α) : MonadExcept.ofExcept x = x := by
  cases x <;> rfl

theorem bind_pure_eq_map {α β : Type} (x : Except Fault α) (f : α → β) :
    (x >>= fun v => pure (f v)) = x.map f := by
  cases x <;> rfl

theorem map_fst_positionedAfter (outer : Position) (before : Option Part) (ps : List Part) :
    (positionedAfter outer before ps).map (·.1) = ps := by
  induction ps generalizing before with
  | nil => rfl
  | cons p ps ih => rw [positionedAfter, List.map_cons, ih]

theorem map_fst_positioned (outer : Position) (ps : List Part) :
    (positioned outer ps).map (·.1) = ps := map_fst_positionedAfter outer none ps

namespace Layout

variable {l : Layout} {within : List NodeId} {e f : NodeId} {pos : Position}

theorem nameOf_eq_ok {name : String} : l.nameOf e = .ok name ↔ l.analysis.name? e = some name := by
  unfold nameOf
  cases l.analysis.name? e <;> simp

theorem bodyOf_eq_ok {body : Body} : l.bodyOf f = .ok body ↔ l.graph.body? f = some body := by
  unfold bodyOf
  cases l.graph.body? f <;> simp

/-! ## Lists -/

theorem parts_nil : l.parts within [] = .ok [] := by
  rw [parts, writeParts]
  rfl

theorem parts_text {t : String} {rest : List (Part × Position)} :
    l.parts within ((.text t, pos) :: rest) = do
      let fs ← l.parts within rest
      return .text t :: fs := by
  rw [parts, writeParts]
  rfl

theorem parts_node {rest : List (Part × Position)} :
    l.parts within ((.node e, pos) :: rest) = do
      let f ← l.use within e pos
      let fs ← l.parts within rest
      return f :: fs := by
  rw [parts, writeParts]
  rfl

/-- How one part is written. -/
def WritesPart (l : Layout) (within : List NodeId) (p : Part × Position) (f : Fragment) : Prop :=
  match p.1 with
  | .text t => f = .text t
  | .node e => l.use within e p.2 = .ok f

theorem parts_eq_ok {ps : List (Part × Position)} {fs : List Fragment} :
    l.parts within ps = .ok fs ↔ List.Forall₂ (l.WritesPart within) ps fs := by
  induction ps generalizing fs with
  | nil =>
    rw [parts_nil, List.forall₂_nil_left_iff, Except.ok.injEq, eq_comm]
  | cons p ps ih =>
    rw [List.forall₂_cons_left_iff]
    obtain ⟨part, pos⟩ := p
    cases part with
    | text t =>
      simp only [parts_text, bind_eq_ok, ih, pure, Except.pure, Except.ok.injEq, WritesPart]
      constructor
      · rintro ⟨fs', h, rfl⟩
        exact ⟨_, _, rfl, h, rfl⟩
      · rintro ⟨_, fs', rfl, h, rfl⟩
        exact ⟨fs', h, rfl⟩
    | node e =>
      simp only [parts_node, bind_eq_ok, ih, pure, Except.pure, Except.ok.injEq, WritesPart]
      constructor
      · rintro ⟨f, hf, fs', h, rfl⟩
        exact ⟨f, fs', hf, h, rfl⟩
      · rintro ⟨f, fs', hf, h, rfl⟩
        exact ⟨f, hf, fs', h, rfl⟩

theorem declarations_nil : l.declarations within [] = .ok [] := by
  rw [declarations, writeDeclarations]
  rfl

theorem declarations_cons {es : List NodeId} :
    l.declarations within (e :: es) = do
      let name ← l.nameOf e
      let init ← l.expansion within e .standalone
      let ds ← l.declarations within es
      return .mk e name (l.analysis.isAccessor e) init :: ds := by
  rw [declarations, writeDeclarations, ofExcept_eq]
  rfl

/-- How one declaration is written. -/
def WritesDeclaration (l : Layout) (within : List NodeId) (e : NodeId) (d : Declaration) : Prop :=
  ∃ name init, l.nameOf e = .ok name ∧ l.expansion within e .standalone = .ok init ∧
    d = .mk e name (l.analysis.isAccessor e) init

theorem declarations_eq_ok {es : List NodeId} {ds : List Declaration} :
    l.declarations within es = .ok ds ↔ List.Forall₂ (l.WritesDeclaration within) es ds := by
  induction es generalizing ds with
  | nil => rw [declarations_nil, List.forall₂_nil_left_iff, Except.ok.injEq, eq_comm]
  | cons e es ih =>
    rw [List.forall₂_cons_left_iff]
    simp only [declarations_cons, bind_eq_ok, ih, pure, Except.pure, Except.ok.injEq,
      WritesDeclaration]
    constructor
    · rintro ⟨name, hn, init, hi, ds', h, rfl⟩
      exact ⟨_, ds', ⟨name, init, hn, hi, rfl⟩, h, rfl⟩
    · rintro ⟨_, ds', ⟨name, init, hn, hi, rfl⟩, h, rfl⟩
      exact ⟨name, hn, init, hi, ds', h, rfl⟩

/-- The roots of a list of statements, as parts. -/
def statementParts (roots : List NodeId) : List (Part × Position) :=
  roots.map fun e => (.node e, .standalone)

/-- How the result or the statements of a body are written. -/
def WritesBody (l : Layout) (within : List NodeId) (ds : List Declaration) (b : Block) :
    Body → Prop
  | .value root => ∃ result, l.use within root .standalone = .ok result ∧ b = .value ds result
  | .statements roots =>
    ∃ list, l.parts within (statementParts roots) = .ok list ∧ b = .statements ds list

theorem block_value {scope : Scope} {root : NodeId} :
    l.block within scope (.value root) = do
      let ds ← l.declarations within (l.analysis.declarationsOf scope)
      let result ← l.use within root .standalone
      return .value ds result := by
  rw [block, writeBlock]
  rfl

theorem block_statements {scope : Scope} {roots : List NodeId} :
    l.block within scope (.statements roots) = do
      let ds ← l.declarations within (l.analysis.declarationsOf scope)
      let list ← l.parts within (statementParts roots)
      return .statements ds list := by
  rw [block, writeBlock]
  rfl

theorem block_eq_ok {scope : Scope} {body : Body} {b : Block} :
    l.block within scope body = .ok b ↔
      ∃ ds, l.declarations within (l.analysis.declarationsOf scope) = .ok ds ∧
        l.WritesBody within ds b body := by
  cases body <;>
    simp only [block_value, block_statements, bind_eq_ok, pure, Except.pure, Except.ok.injEq,
      WritesBody, eq_comm (a := b)]

theorem script_eq_ok {roots : List NodeId} {o : Output} :
    l.script roots = .ok o ↔
      ∃ ds, l.declarations l.analysis.order (l.analysis.declarationsOf none) = .ok ds ∧
        ∃ list, l.parts l.analysis.order (statementParts roots) = .ok list ∧ .script ds list = o := by
  simp only [script, writeScript, bind_eq_ok, pure, Except.pure, Except.ok.injEq]
  rfl

theorem evaluation_eq_ok {root : NodeId} {o : Output} :
    l.evaluation root = .ok o ↔
      ∃ b, l.block l.analysis.order none (.value root) = .ok b ∧ .evaluation b = o := by
  simp only [evaluation, writeEvaluation, bind_eq_ok, pure, Except.pure, Except.ok.injEq]
  rfl

/-! ## Single nodes -/

theorem use_declared (h : l.analysis.isDeclared e = true) :
    l.use within e pos =
      (l.nameOf e).map fun name => .name e name (l.analysis.isAccessor e) := by
  rw [use, writeUse, if_pos h, ofExcept_eq]
  exact bind_pure_eq_map ..

theorem use_undeclared (h : l.analysis.isDeclared e = false) :
    l.use within e pos = l.expansion within e pos := by
  rw [use, writeUse, if_neg (by simp [h])]
  rfl

theorem expansion_ok_built {frag : Fragment} (h : l.expansion within e pos = .ok frag) :
    e ∈ within ∧ e < l.graph.size ∧ l.graph.isUnfilledSlot e = false := by
  rw [expansion, writeExpansion] at h
  split at h
  · rename_i he
    cases hn : l.graph.node? e with
    | none =>
      rw [hn] at h
      cases h
    | some n =>
      refine ⟨he, Graph.lt_size hn, ?_⟩
      rw [← Bool.not_eq_true, Graph.isUnfilledSlot_iff, Graph.kindOf?_of_node hn]
      intro hk
      rw [hn] at h
      simp only [Option.some.inj hk] at h
      cases h
  · cases h

theorem expansion_function (he : e ∈ within) (hf : l.graph.isFunction e = true) :
    l.expansion within e pos = do
      let params ← l.paramNames e
      let body ← l.bodyOf e
      let b ← l.block (within.erase e) (some e) body
      return .lambda e (pos = .operand) (l.analysis.suspends (some e)) params b := by
  obtain ⟨arity, state, hk⟩ := Graph.isFunction_iff.1 hf
  obtain ⟨n, hn, hkind⟩ := Graph.kindOf?_eq_some.1 hk
  rw [expansion, writeExpansion, dif_pos he, hn]
  simp only [hkind, ofExcept_eq]
  rfl

theorem expansion_parameter (he : e ∈ within) (hp : l.graph.isParameter e = true) :
    l.expansion within e pos = (l.nameOf e).map fun name => .name e name false := by
  obtain ⟨i, hk⟩ := Graph.isParameter_iff.1 hp
  obtain ⟨n, hn, hkind⟩ := Graph.kindOf?_eq_some.1 hk
  rw [expansion, writeExpansion, dif_pos he, hn]
  simp only [hkind, ofExcept_eq]
  exact bind_pure_eq_map ..

/-- The parts of a node that is neither a function nor a parameter, and what is written after them. -/
def shape (l : Layout) (e : NodeId) (n : Node) : List Part × List Fragment :=
  match n.kind with
  | .moduleRef store address => ([.node store, .text "["], [.moduleIndex address, .text "]"])
  | .resourceRef store key value =>
    ([.node store, .text (resourceBrackets l.resourceMode).1],
      [.resourceIndex key value, .text (resourceBrackets l.resourceMode).2])
  | .placeholder => ([], [.text l.placeholderArray, .text "[", .placeholderIndex e, .text "]"])
  | .moduleStore => ([], [.moduleStore])
  | .resourceStore => ([], [.resourceStore])
  | _ => (n.template, [])

/-- Whether a node is put in parentheses. -/
def encloses (n : Node) (pos : Position) : Bool :=
  match n.kind with
  | .template _ => n.flags.awaits && pos = .operand
  | _ => false

theorem children_of_shape {n : Node} (hn : l.graph.node? e = some n) :
    (l.shape e n).1.filterMap Part.node? = l.graph.children e := by
  rw [Graph.children_of_node hn]
  unfold shape
  split <;> simp_all [Node.template, Part.node?]

theorem mentions_of_shape {n : Node} (hn : l.graph.node? e = some n) (around : List Frame) :
    sitesOfAll around (l.shape e n).2 =
      (l.graph.ownMentions e).map fun m => ⟨.mention m, around⟩ := by
  obtain ⟨scope, flags, kind⟩ := n
  rw [Graph.ownMentions, Graph.kindOf?_of_node hn]
  cases kind <;> rfl

/-- Any other node is written as its parts, followed by what it mentions itself. -/
theorem expansion_inline {n : Node} (he : e ∈ within) (hn : l.graph.node? e = some n)
    (hf : l.graph.isFunction e = false) (hp : l.graph.isParameter e = false)
    (hs : l.graph.isUnfilledSlot e = false) (pos : Position) :
    l.expansion within e pos =
      (l.parts (within.erase e) (positioned pos (l.shape e n).1)).map fun pieces =>
        .expansion e (encloses n pos) (pieces ++ (l.shape e n).2) := by
  have hk := Graph.kindOf?_of_node hn
  have plain : ∀ enclosed,
      ((l.parts (within.erase e) (positioned pos n.template)) >>= fun pieces =>
        pure (Fragment.expansion e enclosed pieces)) =
      (l.parts (within.erase e) (positioned pos n.template)).map fun pieces =>
        .expansion e enclosed (pieces ++ []) := fun enclosed => by
    simp only [List.append_nil]
    exact bind_pure_eq_map ..
  rw [expansion, writeExpansion, dif_pos he, hn]
  obtain ⟨scope, flags, kind⟩ := n
  cases kind with
  | function arity state => simp [Graph.isFunction, hk] at hf
  | parameter i => simp [Graph.isParameter, hk] at hp
  | moduleRef store address => exact bind_pure_eq_map ..
  | resourceRef store key value => exact bind_pure_eq_map ..
  | placeholder | moduleStore | resourceStore =>
    rw [shape, positioned, positionedAfter, parts_nil]
    rfl
  | slot target =>
    cases target with
    | none => simp [Graph.isUnfilledSlot, hk] at hs
    | some target => exact plain _
  | _ => exact plain _

theorem paramNames_eq_ok {params : List (NodeId × String)} :
    l.paramNames f = .ok params ↔
      List.Forall₂ (fun p q => ∃ name, l.nameOf p = .ok name ∧ q = (p, name)) (l.graph.params f)
        params := by
  unfold paramNames
  generalize l.graph.params f = ps
  induction ps generalizing params with
  | nil =>
    simp only [List.mapM_nil, List.forall₂_nil_left_iff, pure, Except.pure, Except.ok.injEq,
      eq_comm]
  | cons p ps ih =>
    rw [List.mapM_cons, List.forall₂_cons_left_iff]
    simp only [bind_eq_ok, map_eq_ok, ih, pure, Except.pure, Except.ok.injEq]
    constructor
    · rintro ⟨_, ⟨name, hn, rfl⟩, rest, h, rfl⟩
      exact ⟨_, rest, ⟨name, hn, rfl⟩, h, rfl⟩
    · rintro ⟨_, rest, ⟨name, hn, rfl⟩, h, rfl⟩
      exact ⟨_, ⟨name, hn, rfl⟩, rest, h, rfl⟩

theorem map_fst_paramNames {params : List (NodeId × String)} (h : l.paramNames f = .ok params) :
    params.map (·.1) = l.graph.params f := by
  rw [paramNames_eq_ok] at h
  generalize l.graph.params f = ps at h
  induction h with
  | nil => rfl
  | cons hp _ ih =>
    obtain ⟨name, _, rfl⟩ := hp
    rw [List.map_cons, ih]

/-! ## Places -/

theorem filterMap_statementParts (roots : List NodeId) :
    ((statementParts roots).map (·.1)).filterMap Part.node? = roots := by
  induction roots with
  | nil => rfl
  | cons e roots ih =>
    show e :: ((statementParts roots).map (·.1)).filterMap Part.node? = _
    rw [ih]

section Places

-- The nodes of `within` give their places when they are written.
variable (hexp : ∀ e pos frag around, l.expansion within e pos = .ok frag →
  l.analysis.Yields l.graph [.write e around] (frag.sites around))

include hexp

theorem use_yields_of {frag : Fragment} (around : List Frame)
    (h : l.use within e pos = .ok frag) :
    l.analysis.Yields l.graph [.use e around] (frag.sites around) := by
  cases hd : l.analysis.isDeclared e with
  | true =>
    rw [use_declared hd, map_eq_ok] at h
    obtain ⟨name, _, rfl⟩ := h
    exact .named hd .done
  | false =>
    rw [use_undeclared hd] at h
    exact .inlined hd (hexp _ _ _ _ h)

theorem parts_yields_of {ps : List (Part × Position)} {fs : List Fragment} (around : List Frame)
    (h : l.parts within ps = .ok fs) :
    l.analysis.Yields l.graph (((ps.map (·.1)).filterMap Part.node?).map (.use · around))
      (sitesOfAll around fs) := by
  rw [parts_eq_ok] at h
  induction h with
  | nil => exact .done
  | @cons p f ps fs hp _ ih =>
    obtain ⟨part, pos⟩ := p
    cases part with
    | text t =>
      cases hp
      exact ih
    | node e =>
      have hf : l.use within e pos = .ok f := hp
      exact (use_yields_of hexp around hf).append ih

theorem declarations_yields_of {es : List NodeId} {ds : List Declaration} (around : List Frame)
    (h : l.declarations within es = .ok ds) :
    l.analysis.Yields l.graph (es.map (.declare · around)) (sitesOfDeclarations around ds) := by
  rw [declarations_eq_ok] at h
  induction h with
  | nil => exact .done
  | @cons e d es ds hd _ ih =>
    obtain ⟨name, init, _, hi, rfl⟩ := hd
    have hdecl : l.analysis.Yields l.graph [.declare e around]
        (Declaration.sites around (.mk e name (l.analysis.isAccessor e) init)) :=
      .declare (hexp _ _ _ _ hi)
    exact hdecl.append ih

theorem block_yields_of {scope : Scope} {body : Body} {b : Block} (around : List Frame)
    (h : l.block within scope body = .ok b) :
    l.analysis.Yields l.graph (l.analysis.bodyTasks scope body.roots around)
      (b.sites around) := by
  obtain ⟨ds, hds, hbody⟩ := block_eq_ok.1 h
  have hdecls := declarations_yields_of hexp around hds
  cases body with
  | value root =>
    obtain ⟨result, hr, rfl⟩ := hbody
    exact hdecls.append (use_yields_of hexp around hr)
  | statements roots =>
    obtain ⟨list, hl, rfl⟩ := hbody
    have hlist := parts_yields_of hexp around hl
    rw [filterMap_statementParts] at hlist
    exact hdecls.append hlist

end Places

theorem expansion_yields {frag : Fragment} {around : List Frame}
    (h : l.expansion within e pos = .ok frag) :
    l.analysis.Yields l.graph [.write e around] (frag.sites around) := by
  induction hlen : within.length using Nat.strongRecOn generalizing within e pos frag around with
  | _ n ih =>
    obtain ⟨he, hin, hs⟩ := expansion_ok_built h
    have hexp : ∀ x p f ar, l.expansion (within.erase e) x p = .ok f →
        l.analysis.Yields l.graph [.write x ar] (f.sites ar) := fun x p f ar hx =>
      ih _ (hlen ▸ length_erase_lt he) hx rfl
    by_cases hf : l.graph.isFunction e = true
    · rw [expansion_function he hf] at h
      simp only [bind_eq_ok, pure, Except.pure, Except.ok.injEq] at h
      obtain ⟨params, hparams, body, hbody, b, hb, rfl⟩ := h
      have hinner := block_yields_of hexp (.function e :: around) hb
      have := Analysis.Yields.function (bodyOf_eq_ok.1 hbody) hinner .done
      rw [← map_fst_paramNames hparams, List.map_map, List.append_nil] at this
      exact this
    · by_cases hp : l.graph.isParameter e = true
      · rw [expansion_parameter he hp, map_eq_ok] at h
        obtain ⟨name, _, rfl⟩ := h
        exact .parameter hp .done
      · rw [Bool.not_eq_true] at hf hp
        obtain ⟨n, hn⟩ := Graph.exists_node hin
        rw [expansion_inline he hn hf hp hs, map_eq_ok] at h
        obtain ⟨pieces, hpieces, rfl⟩ := h
        have hinner := parts_yields_of hexp around hpieces
        rw [map_fst_positioned, children_of_shape hn] at hinner
        have := Analysis.Yields.expansion hf hp hinner .done
        rw [List.append_nil, List.cons_append] at this
        rw [Fragment.sites, sitesOfAll_append, mentions_of_shape hn]
        exact this

theorem block_yields {scope : Scope} {body : Body} {b : Block} {around : List Frame}
    (h : l.block within scope body = .ok b) :
    l.analysis.Yields l.graph (l.analysis.bodyTasks scope body.roots around) (b.sites around) :=
  block_yields_of (fun _ _ _ _ => expansion_yields) around h

theorem output_yields {mode : CompileMode} {body : Body} {o : Output}
    (h : l.output mode body = .ok o) :
    l.analysis.Yields l.graph (l.analysis.bodyTasks none body.roots []) o.sites := by
  cases mode with
  | statements =>
    have h' : l.script body.roots = .ok o := h
    obtain ⟨ds, hds, list, hl, rfl⟩ := script_eq_ok.1 h'
    have hdecls := declarations_yields_of (fun _ _ _ _ => expansion_yields) [] hds
    have hlist := parts_yields_of (fun _ _ _ _ => expansion_yields) [] hl
    rw [filterMap_statementParts] at hlist
    exact hdecls.append hlist
  | evaluation =>
    cases body with
    | value root =>
      have h' : l.evaluation root = .ok o := h
      obtain ⟨b, hb, rfl⟩ := evaluation_eq_ok.1 h'
      exact block_yields hb
    | statements roots => cases h

end Layout

end ScriptGraph
