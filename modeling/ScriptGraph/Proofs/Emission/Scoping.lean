import ScriptGraph.Proofs.Emission.Counts

/-!
# Names are used where they are known

* `Graph.Resolved.inherits_placed` : functions are written as they are nested;
* `Graph.Resolved.scoped_of_yields` : names are used inside the functions their nodes belong to, and
  given at the head of these functions;
* `Graph.Resolved.count_parameter_eq_one` : a parameter is given its name once;
* `Access.ReadsModuleParam`, `Access.ReadsResourceParam` : whether a store reads what the caller
  passes;
* `Builder.scoped_of_analyze` : the names of every script.
-/

namespace ScriptGraph

/-- The functions around a place as scopes, innermost first. -/
def enclosing (around : List Frame) : List Scope :=
  (around.filterMap Frame.function?).map some ++ [none]

theorem enclosing_function (f : NodeId) (around : List Frame) :
    enclosing (.function f :: around) = some f :: enclosing around := rfl

theorem mem_around_of_mem_enclosing {f : NodeId} {around : List Frame}
    (h : some f ∈ enclosing around) : .function f ∈ around := by
  simp only [enclosing, List.mem_append, List.mem_map, Option.some.injEq, exists_eq_right,
    List.mem_singleton, reduceCtorEq, or_false, List.mem_filterMap] at h
  obtain ⟨x, hx, hf⟩ := h
  cases x with
  | function x =>
    cases hf
    exact hx
  | initializer x => cases hf

/-- Where a task stands: in a scope whose functions are those around it. -/
def Analysis.Placed (a : Analysis) (g : Graph) (body : Body) : Task → Prop
  | .use e around =>
    e ∈ a.order ∧ ∃ t, enclosing around = g.scopeChain t ∧ 0 < a.usesIn g body e t
  | .write e around =>
    e ∈ a.order ∧ ∃ t, enclosing around = g.scopeChain t ∧ a.StandsIn g body e t
  | .declare e around =>
    a.isDeclared e = true ∧ enclosing around = g.scopeChain (g.scopeOf e) ∧
      around.head? = (g.scopeOf e).map .function

/-- What the name of a node is for: it is used inside the function the node belongs to, and given at
the head of that function. -/
def Site.Scoped (g : Graph) (s : Site) : Prop :=
  match s.mark with
  | .name e => ∀ f, g.scopeOf e = some f → .function f ∈ s.around
  | .binding e => s.around.head? = (g.scopeOf e).map .function
  | .parameter e => s.around.head? = (g.scopeOf e).map .function
  | _ => True

namespace Graph.Resolved

variable {g : Graph} {body : Body} {a : Analysis} (h : g.Resolved body a) {sites : List Site}
  {e f p : NodeId}

include h

/-- A declaration or a parameter is used only where the function it belongs to is around. -/
theorem mem_around_of_uses (he : e ∈ a.order)
    (hd : a.isDeclared e = true ∨ g.isParameter e = true) {t : Scope} {around : List Frame}
    (ht : enclosing around = g.scopeChain t) (hu : 0 < a.usesIn g body e t)
    (hf : g.scopeOf e = some f) : .function f ∈ around := by
  have hwithin := h.within_of_uses he hd hu
  rw [isWithin_iff, ← ht, hf] at hwithin
  exact mem_around_of_mem_enclosing hwithin

theorem placed_bodyTasks {scope : Scope} {roots : List NodeId} {around : List Frame}
    (hchain : enclosing around = g.scopeChain scope)
    (hhead : around.head? = scope.map .function)
    (hroots : ∀ e ∈ roots, e ∈ a.order ∧ 0 < a.usesIn g body e scope) :
    ∀ t ∈ a.bodyTasks scope roots around, a.Placed g body t := by
  refine Analysis.forall_bodyTasks (I := a.Placed g body) (fun e he => ?_) fun e he => ?_
  · obtain ⟨hd, rfl⟩ := h.mem_declarationsOf_iff.1 he
    exact ⟨hd, hchain, hhead⟩
  · obtain ⟨hmem, hu⟩ := hroots e he
    exact ⟨hmem, scope, hchain, hu⟩

/-- Functions are written as they are nested: what is written in a scope has the functions of this
scope around it. -/
theorem inherits_placed : a.Inherits g (a.Placed g body) (Site.Scoped g) := by
  refine ⟨?_, ?_, ?_, ?_, ?_, ?_⟩
  · rintro e around hd ⟨he, t, ht, hu⟩ f hf
    exact h.mem_around_of_uses he (.inl hd) ht hu hf
  · rintro e around hd ⟨he, t, ht, hu⟩
    exact ⟨he, t, ht, (standsIn_of_undeclared hd).2 hu⟩
  · rintro e around hp ⟨he, t, ht, hstands⟩ f hf
    have hu := (standsIn_of_undeclared (h.isDeclared_parameter hp)).1 hstands
    exact h.mem_around_of_uses he (.inr hp) ht hu hf
  · rintro f inner around hb ⟨hf, t, ht, hstands⟩
    obtain rfl := h.scopeOf_function hf (isFunction_of_body? hb) hstands
    have hchain : enclosing (.function f :: around) = g.scopeChain (some f) := by
      rw [enclosing_function, ht, h.sound.scopeChain_some]
    refine ⟨trivial, fun p hp => ?_, h.placed_bodyTasks hchain rfl fun e he => ?_⟩
    · change some (Frame.function f) = (g.scopeOf p).map .function
      rw [(h.sound.mem_params hp).2]
      rfl
    · exact ⟨h.surveyed.body_mem hf hb he, h.uses_body_root hf hb he⟩
  · rintro e around _ _ ⟨he, t, ht, hstands⟩
    exact ⟨trivial, fun _ _ => trivial, fun x hx =>
      ⟨h.surveyed.child_mem he hx, t, ht, h.uses_child he hx hstands⟩⟩
  · rintro e around ⟨hd, hchain, hhead⟩
    exact ⟨hhead, h.mem_order_of_isDeclared hd, g.scopeOf e, hchain, (standsIn_of_declared hd).2 rfl⟩

variable (hy : a.Yields g (a.bodyTasks none body.roots []) sites)

include hy

/-- Names are used inside the functions their nodes belong to, and given at the head of these
functions. -/
theorem scoped_of_yields : ∀ s ∈ sites, s.Scoped g := by
  refine hy.forall_sites h.inherits_placed (h.placed_bodyTasks ?_ rfl fun e he => ?_)
  · rw [scopeChain_none]
    rfl
  · exact ⟨h.surveyed.root_mem he, h.uses_root he⟩

theorem count_bound_eq_one (hd : a.isDeclared e = true) :
    (marked Mark.binding? sites).count e = 1 := by
  rw [(h.count_written_declared hy hd).2]
  exact h.count_written_eq_one hy (h.mem_order_of_isDeclared hd) (.inl hd)

theorem isDeclared_of_bound (he : e ∈ marked Mark.binding? sites) : a.isDeclared e = true := by
  have hpos := List.count_pos_iff.2 he
  rw [h.count_bound hy] at hpos
  by_contra hd
  have hzero : ∀ s, (a.declarationsOf s).count e = 0 := fun s =>
    List.count_eq_zero.2 fun hmem => hd (h.mem_declarationsOf_iff.1 hmem).1
  simp [hzero] at hpos

theorem count_parameter_eq_one (hf : f ∈ a.order) (hp : p ∈ g.params f) :
    (marked Mark.parameter? sites).count p = 1 := by
  rw [hy.count_parameter p, sum_map_eq_sum_count (h.written_subset hy),
    Finset.sum_eq_single_of_mem f (List.mem_toFinset.2 hf)]
  · have hinert : (g.flagsOf f).inert = false := by
      rw [h.sound.flagsOf_function (isFunction_of_mem_params hp)]
    rw [List.count_eq_one_of_mem (g.nodup_params f) hp,
      h.count_written_eq_one hy hf (.inr hinert)]
  · intro f' _ hne
    have hp' : p ∉ g.params f' := fun hp' => hne <| by
      have := (h.sound.mem_params hp').2.symm.trans (h.sound.mem_params hp).2
      exact Option.some.inj this
    rw [List.count_eq_zero.2 hp', Nat.mul_zero]

/-- The contents of a store are written where the store is declared. -/
theorem mention_store_iff {m : Mention} {k : Kind} (hk : k = .moduleStore ∨ k = .resourceStore)
    (hown : ∀ e, m ∈ g.ownMentions e ↔ g.kindOf? e = some k) :
    m ∈ sites.filterMap Site.mention? ↔
      ∃ e ∈ marked Mark.binding? sites, g.kindOf? e = some k := by
  constructor
  · intro hm
    obtain ⟨⟨mark, around⟩, hs, hmark⟩ := List.mem_filterMap.1 hm
    cases mark with
    | mention m' =>
      cases hmark
      obtain ⟨e, he, hme⟩ := hy.mem_mention_iff.1 hs
      have hke := (hown e).1 hme
      have hmem := h.mem_order_of_site hy h.bodyTasks_order _ he e rfl
      have hd := h.isDeclared_of_pinned hmem (h.sound.store hke hk).1
      exact ⟨e, List.count_pos_iff.1 (h.count_bound_eq_one hy hd ▸ Nat.one_pos), hke⟩
    | _ => cases hmark
  · rintro ⟨e, he, hke⟩
    have hcount := (h.count_written_declared hy (h.isDeclared_of_bound hy he)).2
    have hwritten : e ∈ marked Mark.written? sites :=
      List.count_pos_iff.1 (hcount ▸ List.count_pos_iff.2 he)
    obtain ⟨around, hs⟩ := mem_marked_written.1 hwritten
    exact List.mem_filterMap.2 ⟨_, hy.mem_mention_iff.2 ⟨e, hs, (hown e).2 hke⟩, rfl⟩

end Graph.Resolved

/-! ## What the caller passes -/

namespace Access

/-- What the declaration of a store is set to. -/
def storeText (x : Access) (stores : Stores) : Kind → String
  | .moduleStore => stores.modulesText x.moduleParam
  | .resourceStore => x.resourcesText stores
  | _ => ""

/-- A store reads the parameter for modules if it is set to another text when the parameter has
another name. -/
def ReadsModuleParam (x : Access) (k : Kind) : Prop :=
  ∃ stores name, storeText { x with moduleParam := some name } stores k ≠ x.storeText stores k

/-- A store reads the parameter for resources if it is set to another text when the parameter has
another name. -/
def ReadsResourceParam (x : Access) (k : Kind) : Prop :=
  ∃ stores name, storeText { x with resourceParam := some name } stores k ≠ x.storeText stores k

theorem exists_ne (text : String) : ∃ name, name ≠ text := by
  by_cases h : text = ""
  · exact ⟨"a", by simp [h]⟩
  · exact ⟨"", fun h' => h h'.symm⟩

theorem modulesText_ne {stores : Stores} {param : Option String} {name : String}
    (h : name ≠ param.getD (Stores.bracketed (stores.addresses.map quoted))) :
    stores.modulesText (some name) ≠ stores.modulesText param := by
  intro htext
  exact h ((String.append_right_inj _).1 ((String.append_left_inj _).1 htext))

/-- The module store reads the parameter for modules, and nothing else does. -/
theorem readsModuleParam_iff (x : Access) (k : Kind) :
    x.ReadsModuleParam k ↔ k = .moduleStore := by
  constructor
  · rintro ⟨stores, name, hne⟩
    cases k with
    | moduleStore => rfl
    | resourceStore => exact (hne rfl).elim
    | _ => exact (hne rfl).elim
  · rintro rfl
    obtain ⟨name, hname⟩ := exists_ne
      (x.moduleParam.getD (Stores.bracketed ((Stores.addresses {}).map quoted)))
    refine ⟨{}, name, ?_⟩
    simp only [storeText]
    exact modulesText_ne hname

/-- The resource store reads the parameter for resources while the script runs, and nothing else
does. -/
theorem readsResourceParam_iff (x : Access) (k : Kind) :
    x.ReadsResourceParam k ↔ k = .resourceStore ∧ x.resourceMode = .runtime := by
  constructor
  · rintro ⟨stores, name, hne⟩
    cases k with
    | resourceStore =>
      refine ⟨rfl, ?_⟩
      cases hm : x.resourceMode with
      | runtime => rfl
      | snapshot => exact (hne (by simp [storeText, resourcesText, hm, Stores.resourcesText])).elim
    | _ => exact (hne rfl).elim
  · rintro ⟨rfl, hm⟩
    obtain ⟨name, hname⟩ := exists_ne (x.resourcesText {})
    refine ⟨{}, name, ?_⟩
    simpa [storeText, resourcesText, hm, Stores.resourcesText] using hname

end Access

namespace Output

theorem usesModules_iff (o : Output) : o.usesModules = true ↔ .moduleStore ∈ o.mentions := by
  rw [usesModules, List.any_eq_true]
  constructor
  · rintro ⟨m, hm, htrue⟩
    cases m with
    | moduleStore => exact hm
    | _ => cases htrue
  · exact fun hm => ⟨_, hm, rfl⟩

theorem usesResources_iff (o : Output) : o.usesResources = true ↔ .resourceStore ∈ o.mentions := by
  rw [usesResources, List.any_eq_true]
  constructor
  · rintro ⟨m, hm, htrue⟩
    cases m with
    | resourceStore => exact hm
    | _ => cases htrue
  · exact fun hm => ⟨_, hm, rfl⟩

end Output

theorem Graph.mem_ownMentions_store (g : Graph) (e : NodeId) :
    (Mention.moduleStore ∈ g.ownMentions e ↔ g.kindOf? e = some .moduleStore) ∧
      (Mention.resourceStore ∈ g.ownMentions e ↔ g.kindOf? e = some .resourceStore) := by
  unfold ownMentions
  cases g.kindOf? e with
  | none => simp
  | some k => cases k <;> simp

namespace Graph.Resolved

variable {g : Graph} {body : Body} {a : Analysis} (h : g.Resolved body a) {o : Output}
  (hy : a.Yields g (a.bodyTasks none body.roots []) o.sites)

include h hy

open Classical in
/-- A script's caller passes what the stores read that the script declares. -/
theorem params_eq (x : Access) : x.params o =
    (if ∃ e ∈ o.bound, ∃ k, g.kindOf? e = some k ∧ x.ReadsModuleParam k
      then x.moduleParam.toList else []) ++
    (if ∃ e ∈ o.bound, ∃ k, g.kindOf? e = some k ∧ x.ReadsResourceParam k
      then x.resourceParam.toList else []) := by
  have hmodules : o.usesModules = true ↔
      ∃ e ∈ o.bound, ∃ k, g.kindOf? e = some k ∧ x.ReadsModuleParam k := by
    rw [o.usesModules_iff, o.mentions_eq, h.mention_store_iff hy (.inl rfl) fun e =>
      (g.mem_ownMentions_store e).1]
    simp only [x.readsModuleParam_iff, exists_eq_right, Output.bound]
  have hresources : (o.usesResources && decide (x.resourceMode = .runtime)) = true ↔
      ∃ e ∈ o.bound, ∃ k, g.kindOf? e = some k ∧ x.ReadsResourceParam k := by
    rw [Bool.and_eq_true, decide_eq_true_iff, o.usesResources_iff, o.mentions_eq,
      h.mention_store_iff hy (.inr rfl) fun e => (g.mem_ownMentions_store e).2]
    simp only [x.readsResourceParam_iff, Output.bound]
    constructor
    · rintro ⟨⟨e, he, hk⟩, hm⟩
      exact ⟨e, he, _, hk, rfl, hm⟩
    · rintro ⟨e, he, k, hk, rfl, hm⟩
      exact ⟨⟨e, he, hk⟩, hm⟩
  simp only [Access.params, hmodules, hresources]

end Graph.Resolved

namespace Builder

variable {σ : Type}

open Classical in
/-- **Every name is used where it is known**: after every successful analysis, the name of a
declared node or of a parameter stands inside the function the node was made in, is given once, at
the head of that function, and what an evaluation's caller passes is what its stores read. -/
theorem scoped_of_analyze {b c : Builder σ} {body : Body} {stem : String} {a : Analysis}
    (hb : b.Reached) (ha : b.analyze body stem = (.ok a, c)) (mode : CompileMode)
    (hmode : mode = .evaluation → ∃ root, body = .value root) (l : Layout)
    (hg : l.graph = c.state.graph) (hl : l.analysis = a) :
    ∃ o, l.output mode body = .ok o ∧
      (∀ s ∈ o.sites, ∀ e, s.mark = .name e →
        (a.isDeclared e = true ∨ c.state.graph.isParameter e = true) ∧
        ∀ f, c.state.graph.scopeOf e = some f → .function f ∈ s.around) ∧
      (∀ s ∈ o.sites, ∀ e, s.mark = .binding e ∨ s.mark = .parameter e →
        s.around.head? = (c.state.graph.scopeOf e).map .function) ∧
      (∀ e, a.isDeclared e = true → o.bound.count e = 1) ∧
      (∀ f, c.state.graph.Reaches body.roots f → ∀ p ∈ c.state.graph.params f,
        o.parameters.count p = 1) ∧
      ∀ x : Access, x.params o =
        (if ∃ e ∈ o.bound, ∃ k, c.state.graph.kindOf? e = some k ∧ x.ReadsModuleParam k
          then x.moduleParam.toList else []) ++
        (if ∃ e ∈ o.bound, ∃ k, c.state.graph.kindOf? e = some k ∧ x.ReadsResourceParam k
          then x.resourceParam.toList else []) := by
  have h := analyze_resolved hb ha
  rw [← hg, ← hl] at h
  rw [← hg, ← hl]
  obtain ⟨o, ho⟩ := l.exists_output h hmode
  have hy := l.output_yields ho
  refine ⟨o, ho, fun s hs e hmark => ⟨?_, ?_⟩, fun s hs e hmark => ?_, fun e hd => ?_,
    fun f hf p hp => ?_, fun x => h.params_eq hy x⟩
  · exact Graph.Resolved.declared_or_parameter_of_named hy s hs e (by rw [hmark]; rfl)
  · have hscoped := h.scoped_of_yields hy s hs
    rwa [Site.Scoped, hmark] at hscoped
  · have hscoped := h.scoped_of_yields hy s hs
    rcases hmark with hmark | hmark <;> rwa [Site.Scoped, hmark] at hscoped
  · exact h.count_bound_eq_one hy hd
  · exact h.count_parameter_eq_one hy ((h.surveyed.mem_iff f).2 hf) hp

theorem scoped_recursiveExample :
    ∃ a c, recursiveExample.analyze (.value 6) "_" = (.ok a, c) ∧
      ∃ o, (({} : Options).layout c.state.graph a).output .evaluation (.value 6) = .ok o ∧
        ∀ s ∈ o.sites, s.mark = .name 2 → .function 1 ∈ s.around := by
  obtain ⟨a, c, ha, hc⟩ := analyze_recursiveExample "_"
  obtain ⟨o, ho, hnames, _⟩ := scoped_of_analyze reached_recursiveExample ha .evaluation
    (fun _ => ⟨6, rfl⟩) (({} : Options).layout c.state.graph a) rfl rfl
  refine ⟨a, c, ha, o, ho, fun s hs hmark => (hnames s hs 2 hmark).2 1 ?_⟩
  rw [hc]
  cbv

end Builder

end ScriptGraph
