import ScriptGraph.Proofs.Emission.Scoping

/-!
# Names in the text of a node

* `Analysis.textTasks` : what is written within the text of a node;
* `Task.Done` : what a task leaves behind;
* `Analysis.Yields.done_of_written` : within each text, what is to be written is;
* `Output.Names`, `Output.NamesEagerly` : whether a name occurs in the initializer of a declaration,
  and whether it is read as soon as the initializer is evaluated;
* `Graph.Resolved.names_iff` : which names occur there.
-/

namespace ScriptGraph

/-- What is written within the text of a node: for a function its body, for another one its parts. -/
def Analysis.textTasks (a : Analysis) (g : Graph) (e : NodeId) (around : List Frame) : List Task :=
  match g.body? e with
  | some body => a.bodyTasks (some e) body.roots (.function e :: around)
  | none => (g.children e).map (.use · around)

/-- What a task leaves behind. -/
def Task.Done (a : Analysis) (g : Graph) (sites : List Site) : Task → Prop
  | .use e around =>
    (a.isDeclared e = true → ⟨.name e, around⟩ ∈ sites) ∧
      (a.isDeclared e = false → g.isParameter e = false → ⟨.written e, around⟩ ∈ sites)
  | .write e around => g.isParameter e = false → ⟨.written e, around⟩ ∈ sites
  | .declare e around => ⟨.binding e, around⟩ ∈ sites ∧
      (g.isParameter e = false → ⟨.written e, .initializer e :: around⟩ ∈ sites)

theorem Task.Done.mono {a : Analysis} {g : Graph} {sites sites' : List Site} {t : Task}
    (h : t.Done a g sites) (hs : sites ⊆ sites') : t.Done a g sites' := by
  cases t with
  | use e around =>
    exact ⟨fun hd => hs (h.1 hd), fun hd hp => hs (h.2 hd hp)⟩
  | write e around => exact fun hp => hs (h hp)
  | declare e around => exact ⟨hs h.1, fun hp => hs (h.2 hp)⟩

namespace Analysis.Yields

variable {a : Analysis} {g : Graph} {tasks : List Task} {sites : List Site}

theorem done_of_mem (h : a.Yields g tasks sites) : ∀ t ∈ tasks, t.Done a g sites := by
  induction h with
  | done => exact fun t ht => nomatch ht
  | @named e around tasks sites hd _ ih =>
    refine List.forall_mem_cons.2 ⟨⟨fun _ => List.mem_cons_self, fun hd' => ?_⟩, fun t ht =>
      (ih t ht).mono (List.subset_cons_self _ _)⟩
    rw [hd] at hd'
    cases hd'
  | @inlined e around tasks sites hd _ ih =>
    obtain ⟨he, ht⟩ := List.forall_mem_cons.1 ih
    refine List.forall_mem_cons.2 ⟨⟨fun hd' => ?_, fun _ => he⟩, ht⟩
    rw [hd] at hd'
    cases hd'
  | @parameter e around tasks sites hp _ ih =>
    refine List.forall_mem_cons.2 ⟨fun hp' => ?_, fun t ht =>
      (ih t ht).mono (List.subset_cons_self _ _)⟩
    rw [hp] at hp'
    cases hp'
  | @function f body around tasks inside sites _ _ _ _ ih =>
    exact List.forall_mem_cons.2 ⟨fun _ => by simp, fun t ht =>
      (ih t ht).mono (List.subset_append_right _ _)⟩
  | @expansion e around tasks inside sites _ _ _ _ _ ih =>
    exact List.forall_mem_cons.2 ⟨fun _ => by simp, fun t ht =>
      (ih t ht).mono (List.subset_append_right _ _)⟩
  | @declare e around tasks sites _ ih =>
    obtain ⟨he, ht⟩ := List.forall_mem_cons.1 ih
    exact List.forall_mem_cons.2 ⟨⟨List.mem_cons_self, fun hp => List.mem_cons_of_mem _ (he hp)⟩,
      fun t h => (ht t h).mono (List.subset_cons_self _ _)⟩

theorem done_of_written (h : a.Yields g tasks sites) {e : NodeId} {around : List Frame}
    (he : ⟨.written e, around⟩ ∈ sites) : ∀ t ∈ a.textTasks g e around, t.Done a g sites := by
  induction h with
  | done => cases he
  | named _ _ ih | parameter _ _ ih =>
    have he := (List.mem_cons.1 he).resolve_left (by simp)
    exact fun t ht => (ih he t ht).mono (List.subset_cons_self _ _)
  | inlined _ _ ih => exact ih he
  | declare _ ih =>
    have he := (List.mem_cons.1 he).resolve_left (by simp)
    exact fun t ht => (ih he t ht).mono (List.subset_cons_self _ _)
  | @function f body around' tasks inside sites hb inner _ ihi ih =>
    simp only [List.cons_append, List.append_assoc, List.mem_cons, List.mem_append, List.mem_map,
      Site.mk.injEq, Mark.written.injEq, reduceCtorEq, false_and, and_false, exists_false,
      false_or] at he
    rcases he with ⟨rfl, rfl⟩ | he | he
    · rw [textTasks, hb]
      exact fun t ht => (inner.done_of_mem t ht).mono fun s hs => by simp [hs]
    · exact fun t ht => (ihi he t ht).mono fun s hs => by simp [hs]
    · exact fun t ht => (ih he t ht).mono fun s hs => by simp [hs]
  | @expansion f around' tasks inside sites hf hp inner _ ihi ih =>
    simp only [List.cons_append, List.append_assoc, List.mem_cons, List.mem_append, List.mem_map,
      Site.mk.injEq, Mark.written.injEq, reduceCtorEq, false_and, and_false, exists_false,
      false_or] at he
    rcases he with ⟨rfl, rfl⟩ | he | he
    · have hb : g.body? e = none := Graph.body?_eq_none hf
      rw [textTasks, hb]
      exact fun t ht => (inner.done_of_mem t ht).mono fun s hs => by simp [hs]
    · exact fun t ht => (ihi he t ht).mono fun s hs => by simp [hs]
    · exact fun t ht => (ih he t ht).mono fun s hs => by simp [hs]

/-- A declared node is written out in its own initializer. -/
theorem initializer_of_bound (h : a.Yields g tasks sites) {e : NodeId} {around : List Frame}
    (he : ⟨.binding e, around⟩ ∈ sites) (hp : g.isParameter e = false) :
    ⟨.written e, .initializer e :: around⟩ ∈ sites := by
  induction h with
  | done => cases he
  | named _ _ ih | parameter _ _ ih =>
    exact List.mem_cons_of_mem _ (ih ((List.mem_cons.1 he).resolve_left (by simp)))
  | inlined _ _ ih => exact ih he
  | @declare e' around' tasks sites inner ih =>
    rcases List.mem_cons.1 he with he | he
    · cases he
      exact List.mem_cons_of_mem _ (inner.done_of_mem _ List.mem_cons_self hp)
    · exact List.mem_cons_of_mem _ (ih he)
  | function _ _ _ ihi ih | expansion _ _ _ _ ihi ih =>
    simp only [List.cons_append, List.append_assoc, List.mem_cons, List.mem_append, List.mem_map,
      Site.mk.injEq, reduceCtorEq, false_and, and_false, exists_false, false_or] at he
    rcases he with he | he
    · have := ihi he
      simp [this]
    · have := ih he
      simp [this]

end Analysis.Yields

/-- Whether the name of `y` occurs in the initializer of the declaration `x`, bodies of functions
included. -/
def Output.Names (o : Output) (x y : NodeId) : Prop :=
  ∃ s ∈ o.sites, s.mark = .name y ∧ .initializer x ∈ s.around

/-- Whether the name of `y` occurs there outside of all functions, and so is read as soon as the
initializer is evaluated. -/
def Output.NamesEagerly (o : Output) (x y : NodeId) : Prop :=
  ∃ s ∈ o.sites, s.mark = .name y ∧ .initializer x ∈ s.around.takeWhile (·.function?.isNone)

theorem Output.NamesEagerly.names {o : Output} {x y : NodeId} (h : o.NamesEagerly x y) :
    o.Names x y := by
  obtain ⟨s, hs, hmark, hin⟩ := h
  exact ⟨s, hs, hmark, List.takeWhile_subset _ hin⟩

namespace Graph.Resolved

variable {g : Graph} {body : Body} {a : Analysis} (h : g.Resolved body a) {sites : List Site}
  {e x y : NodeId}

include h

/-! ## What occurs is written there -/

/-- What a task has to do with the initializers around it. -/
def BelongsTo (a : Analysis) (g : Graph) : Task → Prop
  | .use e around => ∀ x, .initializer x ∈ around →
    ∃ c, Relation.ReflTransGen (a.Contains g) x c ∧ e ∈ g.successors c
  | .write e around => ∀ x, .initializer x ∈ around → Relation.ReflTransGen (a.Contains g) x e
  | .declare e around => ∀ x, .initializer x ∈ around → Relation.ReflTransGen (a.Contains g) x e

/-- Names of declarations in an initializer come from nodes that are written out in it. -/
theorem inherits_belongsTo : a.Inherits g (BelongsTo a g) fun s =>
    ∀ y, s.mark = .name y → a.isDeclared y = true → ∀ x, .initializer x ∈ s.around →
      ∃ c, Relation.ReflTransGen (a.Contains g) x c ∧ y ∈ g.successors c := by
  refine ⟨?_, ?_, ?_, ?_, ?_, ?_⟩
  · rintro e around _ huse _ ⟨⟩ _
    exact huse
  · intro e around hd huse x hx
    obtain ⟨c, hpath, he⟩ := huse x hx
    exact hpath.tail (.inl ⟨he, hd⟩)
  · rintro e around hp _ _ ⟨⟩ hd
    rw [h.isDeclared_parameter hp] at hd
    cases hd
  · intro f inner around hb hwrite
    have hinside : ∀ x, Frame.initializer x ∈ Frame.function f :: around →
        Relation.ReflTransGen (a.Contains g) x f := fun x hx =>
      hwrite x ((List.mem_cons.1 hx).resolve_left (by simp))
    refine ⟨by rintro _ ⟨⟩, by rintro p _ _ ⟨⟩, Analysis.forall_bodyTasks (I := BelongsTo a g)
      (fun e he x hx => ?_) fun e he x hx => ?_⟩
    · exact (hinside x hx).tail (.inr he)
    · exact ⟨f, hinside x hx, by rwa [successors_of_body? hb]⟩
  · intro e around hf _ hwrite
    refine ⟨by rintro _ ⟨⟩, by rintro m _ _ ⟨⟩, fun c hc x hx => ⟨e, hwrite x hx, ?_⟩⟩
    rwa [successors_of_not_isFunction hf]
  · intro e around hdeclare
    refine ⟨by rintro _ ⟨⟩, fun x hx => ?_⟩
    rcases List.mem_cons.1 hx with hx | hx
    · cases hx
      exact .refl
    · exact hdeclare x hx

/-! ## What is written there occurs -/

theorem not_isParameter_of_contains (hc : a.Contains g e x) : g.isParameter e = false := by
  rw [← Bool.not_eq_true]
  intro hp
  rcases hc with ⟨hx, _⟩ | hx
  · rw [successors_of_isParameter hp] at hx
    cases hx
  · have hf := h.sound.scope_isFunction (h.mem_declarationsOf_iff.1 hx).2
    rw [not_isFunction_of_isParameter hp] at hf
    cases hf

variable (hy : a.Yields g (a.bodyTasks none body.roots []) sites)

include hy

/-- Around what is written within a node is what is around the node. -/
theorem exists_written_of_contains {around : List Frame} (he : ⟨.written e, around⟩ ∈ sites)
    (hc : a.Contains g e x) (hp : g.isParameter x = false) :
    ∃ around', ⟨.written x, around'⟩ ∈ sites ∧ around <:+ around' := by
  have hdone := hy.done_of_written he
  have hmem := h.mem_order_of_site hy h.bodyTasks_order _ he e rfl
  cases hb : g.body? e with
  | some inner =>
    rw [Analysis.textTasks, hb] at hdone
    rcases hc with ⟨hx, hd⟩ | hx
    · rw [successors_of_body? hb] at hx
      have hwritten := (hdone (.use x _) (List.mem_append_right _ (List.mem_map_of_mem hx))).2 hd hp
      exact ⟨_, hwritten, List.suffix_cons _ _⟩
    · have hwritten :=
        (hdone (.declare x _) (List.mem_append_left _ (List.mem_map_of_mem hx))).2 hp
      exact ⟨_, hwritten, (List.suffix_cons _ _).trans (List.suffix_cons _ _)⟩
  | none =>
    have hf : g.isFunction e = false := by
      rw [← Bool.not_eq_true]
      intro hf
      obtain ⟨inner, hinner⟩ := h.surveyed.exists_body hmem hf
      rw [hb] at hinner
      cases hinner
    rw [Analysis.textTasks, hb] at hdone
    rcases hc with ⟨hx, hd⟩ | hx
    · rw [successors_of_not_isFunction hf] at hx
      exact ⟨_, (hdone (.use x _) (List.mem_map_of_mem hx)).2 hd hp, List.suffix_refl _⟩
    · rw [h.sound.scope_isFunction (h.mem_declarationsOf_iff.1 hx).2] at hf
      cases hf

theorem exists_written_of_path {around : List Frame} (he : ⟨.written e, around⟩ ∈ sites)
    (hpath : Relation.ReflTransGen (a.Contains g) e x) (hp : g.isParameter x = false) :
    ∃ around', ⟨.written x, around'⟩ ∈ sites ∧ around <:+ around' := by
  induction hpath with
  | refl => exact ⟨around, he, List.suffix_refl _⟩
  | tail _ hc ih =>
    obtain ⟨around', hwritten, hsuffix⟩ := ih (h.not_isParameter_of_contains hc)
    obtain ⟨around'', hwritten', hsuffix'⟩ := h.exists_written_of_contains hy hwritten hc hp
    exact ⟨around'', hwritten', hsuffix.trans hsuffix'⟩

omit h in
/-- The declarations that a written node refers to are named in its text. -/
theorem exists_name_of_successor {around : List Frame} (he : ⟨.written e, around⟩ ∈ sites)
    (hs : y ∈ g.successors e) (hd : a.isDeclared y = true) :
    ∃ around', ⟨.name y, around'⟩ ∈ sites ∧ around <:+ around' := by
  have hdone := hy.done_of_written he
  rw [Analysis.textTasks] at hdone
  cases hb : g.body? e with
  | some inner =>
    rw [hb] at hdone
    rw [successors_of_body? hb] at hs
    have hname := (hdone (.use y _) (List.mem_append_right _ (List.mem_map_of_mem hs))).1 hd
    exact ⟨_, hname, List.suffix_cons _ _⟩
  | none =>
    rw [hb] at hdone
    rw [successors, hb, Option.map_none, Option.getD_none, List.append_nil] at hs
    exact ⟨_, (hdone (.use y _) (List.mem_map_of_mem hs)).1 hd, List.suffix_refl _⟩

/-- A declared node is written out in its own initializer. -/
theorem exists_initializer (hd : a.isDeclared x = true) :
    ∃ around, ⟨.written x, .initializer x :: around⟩ ∈ sites := by
  have hbound : x ∈ marked Mark.binding? sites :=
    List.count_pos_iff.1 (h.count_bound_eq_one hy hd ▸ Nat.one_pos)
  obtain ⟨around, hs⟩ := mem_marked_binding.1 hbound
  exact ⟨around, hy.initializer_of_bound hs (h.not_isParameter_of_isDeclared hd)⟩

end Graph.Resolved

/-- A declaration names those that the nodes within its initializer refer to. -/
theorem Graph.Resolved.names_iff {g : Graph} {body : Body} {a : Analysis} (h : g.Resolved body a)
    {o : Output} (hy : a.Yields g (a.bodyTasks none body.roots []) o.sites) {x y : NodeId}
    (hx : a.isDeclared x = true) (hd : a.isDeclared y = true) :
    o.Names x y ↔ ∃ c, Relation.ReflTransGen (a.Contains g) x c ∧ y ∈ g.successors c := by
  constructor
  · rintro ⟨s, hs, hmark, hin⟩
    refine hy.forall_sites h.inherits_belongsTo ?_ s hs y hmark hd x hin
    exact Analysis.forall_bodyTasks (I := BelongsTo a g) (fun _ _ _ hx => nomatch hx)
      fun _ _ _ hx => nomatch hx
  · rintro ⟨c, hpath, hsucc⟩
    obtain ⟨around, hwritten⟩ := h.exists_initializer hy hx
    have hp : g.isParameter c = false := by
      rw [← Bool.not_eq_true]
      intro hp
      rw [successors_of_isParameter hp] at hsucc
      cases hsucc
    obtain ⟨around', hc, hsuffix⟩ := h.exists_written_of_path hy hwritten hpath hp
    obtain ⟨around'', hname, hsuffix'⟩ := exists_name_of_successor hy hc hsucc hd
    exact ⟨_, hname, rfl, (hsuffix.trans hsuffix').subset List.mem_cons_self⟩

end ScriptGraph
