import ScriptGraph.Analysis.Declarations
import ScriptGraph.Builder.Pool
import ScriptGraph.Proofs.Order.DepthFirst

/-!
# The order of declarations

Looking for references and placing declarations are both walks in depth that go far enough.

* `Declared.Closed` : declared nodes are among the nodes of a survey, with what they are written
  with;
* `Declared.mem_references_iff` : which declarations the search finds;
* `Declared.ordered_perm` : all declarations of a scope are placed, each once;
* `Declared.preorder` : the declarations in the order in which their placing begins;
* `Declared.idxOf_ordered_lt_iff` : which of two declarations comes first when one refers to the
  other.
-/

namespace ScriptGraph.Declared

/-! ## Nodes that are not begun -/

/-- How many of `nodes` are not begun. -/
def unbegun (nodes begun : List NodeId) : Nat := nodes.countP fun e => !begun.contains e

theorem unbegun_le_length (nodes begun : List NodeId) : unbegun nodes begun ≤ nodes.length :=
  List.countP_le_length

theorem unbegun_anti {nodes begun begun' : List NodeId} (h : begun ⊆ begun') :
    unbegun nodes begun' ≤ unbegun nodes begun := by
  apply List.countP_mono_left
  intro e _ he
  simp only [Bool.not_eq_true', List.contains_eq_mem, decide_eq_false_iff_not] at he ⊢
  exact fun hb => he (h hb)

theorem unbegun_cons_lt {nodes begun : List NodeId} {e : NodeId} (he : e ∈ nodes)
    (hnew : e ∉ begun) : unbegun nodes (e :: begun) < unbegun nodes begun := by
  apply Builder.countP_lt he (by simpa using hnew) (by simp)
  intro x hx
  simp only [Bool.not_eq_true', List.contains_eq_mem, decide_eq_false_iff_not, List.mem_cons,
    not_or] at hx ⊢
  exact hx.2

/-! ## Looking for references -/

variable {d : Declared} {scope : Scope} {e c y : NodeId}

theorem mem_group_iff : e ∈ d.group scope ↔ e ∈ d.nodes ∧ d.graph.scopeOf e = scope := by
  simp [group]

theorem mem_neighbours_iff : c ∈ d.neighbours e ↔ c ∈ d.graph.children e ∨
    ∃ inner, d.graph.body? e = some inner ∧ (c ∈ inner.roots ∨ c ∈ d.group (some e)) := by
  rw [neighbours, List.mem_append]
  cases d.graph.body? e with
  | none => simp
  | some inner => simp

/-- Whether the search goes on at `c`: what is written inline, and what is declared further
inside. -/
def passes (d : Declared) (scope : Scope) (c : NodeId) : Bool :=
  !d.nodes.contains c || (d.graph.scopeOf c != scope && d.graph.isWithin (d.graph.scopeOf c) scope)

/-- Where the search goes on from `e`. -/
def passages (d : Declared) (scope : Scope) (e : NodeId) : List NodeId :=
  (d.neighbours e).filter (d.passes scope)

/-- What the search does at a neighbour. -/
def searchStep (d : Declared) (scope : Scope) (depth : Nat) (s : Search) (c : NodeId) : Search :=
  if d.nodes.contains c && d.graph.scopeOf c == scope then
    if s.found.contains c then s else { s with found := s.found ++ [c] }
  else if d.nodes.contains c && !d.graph.isWithin (d.graph.scopeOf c) scope then s
  else if s.visited.contains c then s
  else d.search scope depth c { s with visited := c :: s.visited }

theorem search_succ (depth : Nat) (e : NodeId) (s : Search) :
    d.search scope (depth + 1) e s = (d.neighbours e).foldl (d.searchStep scope depth) s := by
  rw [search]
  rfl

/-- What the search does at a neighbour: it finds it, passes through it or leaves it alone. -/
theorem searchStep_cases (d : Declared) (scope : Scope) (depth : Nat) (s : Search) (c : NodeId) :
    (c ∈ d.group scope ∧ d.passes scope c = false ∧
      (d.searchStep scope depth s c).visited = s.visited ∧
      ∀ y, y ∈ (d.searchStep scope depth s c).found ↔ y ∈ s.found ∨ y = c) ∨
    (c ∉ d.group scope ∧ (d.passes scope c = false ∨ c ∈ s.visited) ∧
      d.searchStep scope depth s c = s) ∨
    (c ∉ d.group scope ∧ d.passes scope c = true ∧ c ∉ s.visited ∧
      d.searchStep scope depth s c =
        d.search scope depth c { s with visited := c :: s.visited }) := by
  unfold searchStep
  by_cases htarget : (d.nodes.contains c && d.graph.scopeOf c == scope) = true
  · rw [if_pos htarget]
    simp only [Bool.and_eq_true, List.contains_eq_mem, decide_eq_true_eq, beq_iff_eq] at htarget
    refine .inl ⟨mem_group_iff.2 htarget, by simp [passes, htarget], ?_, fun y => ?_⟩
    · split <;> rfl
    · split
      · rename_i hf
        exact ⟨.inl, fun hy => hy.elim id fun hy => hy ▸ by simpa using hf⟩
      · simp
  · rw [if_neg htarget]
    have hgroup : c ∉ d.group scope := fun hc => htarget (by simpa using mem_group_iff.1 hc)
    by_cases hout : (d.nodes.contains c && !d.graph.isWithin (d.graph.scopeOf c) scope) = true
    · rw [if_pos hout]
      refine .inr (.inl ⟨hgroup, .inl ?_, rfl⟩)
      simp only [Bool.and_eq_true, Bool.not_eq_true'] at hout
      simp only [passes, hout.1, hout.2, Bool.not_true, Bool.and_false, Bool.or_self]
    · rw [if_neg hout]
      by_cases hseen : s.visited.contains c = true
      · rw [if_pos hseen]
        exact .inr (.inl ⟨hgroup, .inr (by simpa using hseen), rfl⟩)
      · rw [if_neg hseen]
        refine .inr (.inr ⟨hgroup, ?_, by simpa using hseen, rfl⟩)
        unfold passes
        cases hc : d.nodes.contains c with
        | false => rfl
        | true =>
          simp only [hc, Bool.true_and, Bool.not_eq_true, Bool.not_eq_false', beq_eq_false_iff_ne,
            ne_eq] at htarget hout
          simp [htarget, hout]

/-- The nodes of a survey are closed under what nodes are written with. -/
structure Closed (d : Declared) : Prop where
  declared : ∀ e ∈ d.nodes, e ∈ d.order
  neighbours : ∀ e ∈ d.order, ∀ c ∈ d.neighbours e, c ∈ d.order

/-- The search is a walk in depth through the nodes at which it goes on. -/
theorem search_depthFirst (hd : d.Closed) (scope : Scope) (depth : Nat) (todo : List NodeId)
    (s : Search) (htodo : todo ⊆ d.order) (hdepth : unbegun d.order s.visited ≤ depth) :
    ∃ out, DepthFirst (d.passages scope) s.visited (todo.filter (d.passes scope)) out
        (todo.foldl (d.searchStep scope depth) s).visited ∧
      ∀ y, y ∈ (todo.foldl (d.searchStep scope depth) s).found ↔ y ∈ s.found ∨
        (y ∈ d.group scope ∧ (y ∈ todo ∨ ∃ c ∈ out, y ∈ d.neighbours c)) := by
  induction depth using Nat.strongRecOn generalizing todo s with
  | _ depth ihd =>
    induction todo generalizing s with
    | nil => exact ⟨[], .done _, by simp⟩
    | cons c todo iht =>
      have hc : c ∈ d.order := htodo List.mem_cons_self
      have hrest : todo ⊆ d.order := fun x hx => htodo (List.mem_cons_of_mem c hx)
      rw [List.foldl_cons]
      rcases d.searchStep_cases scope depth s c with ⟨hg, hp, hv, hf⟩ | ⟨hg, hp, hs⟩ |
        ⟨hg, hp, hnew, hs⟩
      · obtain ⟨out, hout, hfound⟩ := iht _ hrest (hv.symm ▸ hdepth)
        rw [hv] at hout
        refine ⟨out, by rwa [List.filter_cons_of_neg (by simp [hp])], fun y => ?_⟩
        rw [hfound, hf, List.mem_cons]
        constructor
        · rintro ((hy | rfl) | ⟨hy, hin⟩)
          · exact .inl hy
          · exact .inr ⟨hg, .inl (.inl rfl)⟩
          · exact .inr ⟨hy, hin.imp_left .inr⟩
        · rintro (hy | ⟨hy, (rfl | hin) | hin⟩)
          · exact .inl (.inl hy)
          · exact .inl (.inr rfl)
          · exact .inr ⟨hy, .inl hin⟩
          · exact .inr ⟨hy, .inr hin⟩
      · obtain ⟨out, hout, hfound⟩ := iht s hrest hdepth
        rw [hs]
        refine ⟨out, ?_, fun y => ?_⟩
        · by_cases hpass : d.passes scope c = true
          · rw [List.filter_cons_of_pos hpass]
            exact .skip (hp.resolve_left (by simp [hpass])) hout
          · rwa [List.filter_cons_of_neg hpass]
        · rw [hfound, List.mem_cons]
          refine or_congr_right (and_congr_right fun hy => ?_)
          have hyc : y ≠ c := fun heq => hg (heq ▸ hy)
          simp [hyc]
      · have hlt := unbegun_cons_lt hc hnew
        obtain ⟨k, rfl⟩ : ∃ k, depth = k + 1 := Nat.exists_eq_add_one.2 (by omega)
        rw [search_succ] at hs
        obtain ⟨below, hbelow, hfound⟩ := ihd k (Nat.lt_add_one k) (d.neighbours c)
          { s with visited := c :: s.visited } (fun x hx => hd.neighbours c hc x hx)
          (by dsimp only; omega)
        rw [← hs] at hbelow hfound
        have hvis : s.visited ⊆ (d.searchStep scope (k + 1) s c).visited := fun x hx =>
          hbelow.suffix.subset (List.mem_cons_of_mem c hx)
        obtain ⟨after, hafter, hfound'⟩ := iht _ hrest (Nat.le_trans (unbegun_anti hvis) hdepth)
        refine ⟨below ++ c :: after, ?_, fun y => ?_⟩
        · rw [List.filter_cons_of_pos hp]
          exact .place hnew hbelow hafter
        · rw [hfound', hfound]
          dsimp only
          have hin : (∃ x ∈ below ++ c :: after, y ∈ d.neighbours x) ↔
              (∃ x ∈ below, y ∈ d.neighbours x) ∨ y ∈ d.neighbours c ∨
                ∃ x ∈ after, y ∈ d.neighbours x := by
            simp only [List.mem_append, List.mem_cons, or_and_right, exists_or, exists_eq_left]
          rw [hin, or_assoc, ← and_or_left]
          refine or_congr_right (and_congr_right fun hy => ?_)
          have hyc : y ≠ c := fun heq => hg (heq ▸ hy)
          rw [List.mem_cons, or_iff_right hyc]
          simp only [or_assoc, or_left_comm]

/-- From a declaration, the search goes on at what `Relation.ReflTransGen` reaches. -/
theorem mem_references_iff (hd : d.Closed) (he : e ∈ d.order) :
    y ∈ d.references scope e ↔ y ∈ d.group scope ∧
      ∃ c, Relation.ReflTransGen (fun u v => v ∈ d.passages scope u) e c ∧
        y ∈ d.neighbours c := by
  obtain ⟨out, hout, hfound⟩ := search_depthFirst hd scope d.order.length
    (d.neighbours e) ⟨[e], []⟩ (fun x hx => hd.neighbours e he x hx) (unbegun_le_length _ _)
  rw [references, search_succ, hfound]
  simp only [List.not_mem_nil, false_or]
  have hall : ∀ c, c = e ∨ c ∈ out ↔
      Relation.ReflTransGen (fun u v => v ∈ d.passages scope u) e c := by
    intro c
    constructor
    · rintro (rfl | hc)
      · exact .refl
      · obtain ⟨x, hx, _, hpath⟩ := hout.mem_placed_iff.1 hc
        exact .head hx (Relation.ReflTransGen.mono (fun _ _ huv => huv.1) _ _ hpath)
    · intro hc
      induction hc with
      | refl => exact .inl rfl
      | tail _ huv ih =>
        have hsub := ih.elim (fun heq => heq ▸ hout.todo_subset) hout.refs_subset huv
        exact (hout.mem_begun_iff.1 hsub).symm.imp_left List.mem_singleton.1
  refine and_congr_right fun _ => ⟨?_, ?_⟩
  · rintro (hy | ⟨c, hc, hy⟩)
    · exact ⟨e, .refl, hy⟩
    · exact ⟨c, (hall c).1 (.inr hc), hy⟩
  · rintro ⟨c, hc, hy⟩
    rcases (hall c).2 hc with rfl | hc
    · exact .inl hy
    · exact .inr ⟨c, hc, hy⟩

theorem references_subset (hd : d.Closed) (he : e ∈ d.group scope) :
    d.references scope e ⊆ d.group scope := fun _ hy =>
  ((mem_references_iff hd (hd.declared e (mem_group_iff.1 he).1)).1 hy).1

/-! ## Placing declarations -/

theorem place_depthFirst (hd : d.Closed) (scope : Scope) (depth : Nat) (todo : List NodeId) (p : Placing)
    (htodo : todo ⊆ d.group scope) (hdepth : unbegun (d.group scope) p.begun ≤ depth) :
    ∃ out, DepthFirst (d.references scope) p.begun todo out
        (todo.foldl (d.placeAfterReferences scope depth) p).begun ∧
      (todo.foldl (d.placeAfterReferences scope depth) p).placed = p.placed ++ out := by
  induction depth using Nat.strongRecOn generalizing todo p with
  | _ depth ihd =>
    induction todo generalizing p with
    | nil => exact ⟨[], .done _, by simp⟩
    | cons e todo iht =>
      have he : e ∈ d.group scope := htodo List.mem_cons_self
      have hrest : todo ⊆ d.group scope := fun x hx => htodo (List.mem_cons_of_mem e hx)
      rw [List.foldl_cons]
      by_cases hb : e ∈ p.begun
      · have hsame : d.placeAfterReferences scope depth p e = p := by
          cases depth with
          | zero => rfl
          | succ k => rw [placeAfterReferences, if_pos (by simpa using hb)]
        obtain ⟨out, hout, hplaced⟩ := iht p hrest hdepth
        rw [hsame]
        exact ⟨out, .skip hb hout, hplaced⟩
      · have hlt := unbegun_cons_lt he hb
        obtain ⟨k, rfl⟩ : ∃ k, depth = k + 1 := Nat.exists_eq_add_one.2 (by omega)
        obtain ⟨below, hbelow, hplaced⟩ := ihd k (Nat.lt_add_one k) (d.references scope e)
          { p with begun := e :: p.begun } (references_subset hd he) (by dsimp only; omega)
        have hstep : d.placeAfterReferences scope (k + 1) p e =
            ⟨((d.references scope e).foldl (d.placeAfterReferences scope k)
              { p with begun := e :: p.begun }).begun, p.placed ++ below ++ [e]⟩ := by
          rw [placeAfterReferences, if_neg (by simpa using hb)]
          dsimp only
          rw [hplaced]
        have hsub : p.begun ⊆ (d.placeAfterReferences scope (k + 1) p e).begun := fun x hx => by
          rw [hstep]
          exact hbelow.suffix.subset (List.mem_cons_of_mem e hx)
        obtain ⟨after, hafter, hplaced'⟩ := iht (d.placeAfterReferences scope (k + 1) p e) hrest
          (Nat.le_trans (unbegun_anti hsub) hdepth)
        rw [hplaced']
        rw [hstep] at hafter ⊢
        exact ⟨below ++ e :: after, .place hb hbelow hafter, by simp⟩

/-- The declarations of a scope in the order in which their placing begins. -/
def preorder (d : Declared) (scope : Scope) : List NodeId :=
  ((d.group scope).foldl (d.placeAfterReferences scope ((d.group scope).length + 1))
    ⟨[], []⟩).begun.reverse

theorem ordered_depthFirst (hd : d.Closed) (scope : Scope) :
    DepthFirst (d.references scope) [] (d.group scope) (d.ordered scope)
      (d.preorder scope).reverse := by
  obtain ⟨out, hout, hplaced⟩ := place_depthFirst hd scope _ (d.group scope) ⟨[], []⟩
    (List.Subset.refl _) (Nat.le_succ_of_le (unbegun_le_length _ _))
  rw [preorder, List.reverse_reverse, ordered, hplaced]
  exact hout

theorem mem_ordered_iff (hd : d.Closed) : e ∈ d.ordered scope ↔ e ∈ d.group scope := by
  have hwalk := d.ordered_depthFirst hd scope
  rw [hwalk.mem_placed_iff]
  constructor
  · rintro ⟨x, hx, _, hpath⟩
    induction hpath with
    | refl => exact hx
    | tail _ huv ih => exact references_subset hd ih huv.1
  · exact fun he => ⟨e, he, List.not_mem_nil, .refl⟩

/-- All declarations of a scope are placed, each once. -/
theorem ordered_perm (hd : d.Closed) (hn : d.nodes.Nodup) (scope : Scope) :
    (d.ordered scope).Perm (d.group scope) :=
  (List.perm_ext_iff_of_nodup (d.ordered_depthFirst hd scope).nodup_placed (hn.filter _)).2
    fun _ => mem_ordered_iff hd

/-- Which of two declarations comes first when one refers to the other: the one referred to, unless
it leads back through declarations that were not begun before it. -/
theorem idxOf_ordered_lt_iff (hd : d.Closed) {x : NodeId} (hx : x ∈ d.group scope)
    (hy : y ∈ d.references scope x) (hne : x ≠ y) {before later : List NodeId}
    (hsplit : d.preorder scope = before ++ y :: later) :
    (d.ordered scope).idxOf y < (d.ordered scope).idxOf x ↔
      ¬Relation.ReflTransGen (Fresh (d.references scope) before) y x := by
  have hback : ∀ u v, Fresh (d.references scope) before u v ↔
      Fresh (d.references scope) before.reverse u v := fun u v => by
    simp only [Fresh, List.mem_reverse]
  have hsame : Relation.ReflTransGen (Fresh (d.references scope) before) y x ↔
      Relation.ReflTransGen (Fresh (d.references scope) before.reverse) y x :=
    iff_of_eq (congrArg (fun r => Relation.ReflTransGen r y x)
      (funext fun u => funext fun v => propext (hback u v)))
  rw [hsame]
  have hreverse : (d.preorder scope).reverse = later.reverse ++ y :: before.reverse := by
    simp [hsplit]
  exact (d.ordered_depthFirst hd scope).idxOf_lt_iff .nil ((mem_ordered_iff hd).2 hx)
    ((mem_ordered_iff hd).2 (references_subset hd hx hy)) hy hne hreverse

end ScriptGraph.Declared
