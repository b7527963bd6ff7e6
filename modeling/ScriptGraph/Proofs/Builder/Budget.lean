import ScriptGraph.Host.Value
import ScriptGraph.Proofs.Builder.Conduct

/-!
# How many nodes a recipe makes

Each body is constructed at most once, so a recipe makes no more nodes than are written in it, those
in the bodies of its functions included.

* `Recipe.Within` : a recipe makes at most so many nodes, whatever it is answered; the two stores do
  not count;
* `Build.Within`, `TryBuild.Within` : the same for computations;
* `Builder.Runs.within` : a run stays within what its recipe and the pending recipes are allowed;
* `Builder.Runs.size_le` : at no moment of a run there are more nodes than in the end.
-/

namespace ScriptGraph

variable {σ α β : Type}

/-! ## Recipes -/

/-- How many nodes a draft makes, besides stores. -/
def Draft.cost : Draft → Nat
  | .moduleStore => 0
  | .resourceStore => 0
  | _ => 1

theorem Draft.cost_le (draft : Draft) : draft.cost ≤ 1 := by
  unfold cost
  split <;> decide

/-- The recipe makes at most `n` nodes besides stores, now or in the bodies of functions. -/
def Recipe.Within : Recipe σ → Nat → Prop
  | .done _, _ => True
  | .look next, n => ∀ s, (next s).Within n
  | .share _ next, n => next.Within n
  | .create draft next, n => ∃ m, draft.cost + m ≤ n ∧ ∀ e, (next e).Within m
  | .function arity inner next, n => ∃ k m, (arity + 1) + k + m ≤ n ∧
    (∀ f args, (inner f args).Within k) ∧ ∀ e, (next e).Within m
  | .body _ next, n => ∀ r, (next r).Within n
  | .fill _ _ next, n => ∀ r, (next r).Within n
  | .memoize _ _ next, n => next.Within n
  | .warn _ next, n => next.Within n
  | .survey _ next, n => ∀ r, (next r).Within n

theorem Recipe.Within.mono {r : Recipe σ} {n m : Nat} (h : r.Within n) (hle : n ≤ m) :
    r.Within m := by
  induction r generalizing n m with
  | done => trivial
  | create draft next ih =>
    obtain ⟨k, hk, hnext⟩ := h
    exact ⟨k, hk.trans hle, hnext⟩
  | function arity body next =>
    obtain ⟨j, k, hk, hbody, hnext⟩ := h
    exact ⟨j, k, hk.trans hle, hbody, hnext⟩
  | look _ ih | body _ _ ih | fill _ _ _ ih | survey _ _ ih => exact fun a => ih a (h a) hle
  | share _ _ ih | memoize _ _ _ ih | warn _ _ ih => exact ih h hle

/-! ## Computations -/

/-- A computation makes at most `n` nodes, apart from what it goes on with. -/
def Build.Within (x : Build σ α) (n : Nat) : Prop :=
  ∀ (next : α → Recipe σ) (m : Nat), (∀ a, (next a).Within m) → (x next).Within (n + m)

namespace Build.Within

theorem pure (a : α) : Build.Within (pure a : Build σ α) 0 := fun _ m h => by
  rw [Nat.zero_add]
  exact h a

theorem bind {x : Build σ α} {f : α → Build σ β} {n m : Nat} (hx : Build.Within x n)
    (hf : ∀ a, Build.Within (f a) m) : Build.Within (x >>= f) (n + m) := fun next k h => by
  rw [Nat.add_assoc]
  exact hx _ _ fun a => hf a next k h

theorem mono {x : Build σ α} {n m : Nat} (h : Build.Within x n) (hle : n ≤ m) :
    Build.Within x m := fun next k hnext => (h next k hnext).mono (Nat.add_le_add_right hle k)

theorem create (draft : Draft) : Build.Within (Build.create draft : Build σ NodeId) draft.cost :=
  fun _ m h => ⟨m, Nat.le_refl _, h⟩

theorem function {arity n : Nat} {body : NodeId → List NodeId → Recipe σ}
    (h : ∀ f args, (body f args).Within n) :
    Build.Within (Build.function arity body) (arity + 1 + n) :=
  fun _ m hnext => ⟨n, m, Nat.le_refl _, h, hnext⟩

theorem fill (slot target : NodeId) :
    Build.Within (Build.fill slot target : Build σ (Except Fault Unit)) 0 := fun _ m h => by
  rw [Nat.zero_add]
  exact h

end Build.Within

/-- A computation that can fail makes at most `n` nodes. -/
def TryBuild.Within (x : TryBuild σ α) (n : Nat) : Prop := Build.Within x.run n

namespace TryBuild.Within

theorem pure (a : α) : TryBuild.Within (pure a : TryBuild σ α) 0 := Build.Within.pure _

theorem throw (fault : Fault) : TryBuild.Within (throw fault : TryBuild σ α) 0 :=
  Build.Within.pure _

theorem lift {x : Build σ α} {n : Nat} (h : Build.Within x n) :
    TryBuild.Within (ExceptT.lift x) n := fun _ m hnext => h _ m fun a => hnext (.ok a)

theorem bind {x : TryBuild σ α} {f : α → TryBuild σ β} {n m : Nat} (hx : x.Within n)
    (hf : ∀ a, (f a).Within m) : TryBuild.Within (x >>= f) (n + m) := by
  intro next k hnext
  rw [Nat.add_assoc]
  refine hx _ _ fun r => ?_
  cases r with
  | ok a => exact hf a next k hnext
  | error fault => exact (hnext (.error fault)).mono (Nat.le_add_left k m)

theorem mono {x : TryBuild σ α} {n m : Nat} (h : x.Within n) (hle : n ≤ m) : x.Within m :=
  Build.Within.mono h hle

end TryBuild.Within

/-! ## Sizes -/

/-- How many of the two stores there are. -/
def Graph.storeCount (g : Graph) : Nat :=
  g.moduleStore.toList.length + g.resourceStore.toList.length

theorem Graph.storeCount_le (g : Graph) : g.storeCount ≤ 2 := by
  unfold storeCount
  cases g.moduleStore <;> cases g.resourceStore <;> simp

/-- One graph has `n` nodes more than the other, stores apart. -/
def Graph.Adds (g g' : Graph) (n : Nat) : Prop := g'.size + g.storeCount = g.size + n + g'.storeCount

namespace Graph.Adds

variable {g g' g'' : Graph} {n m : Nat}

theorem refl (g : Graph) : g.Adds g 0 := rfl

theorem trans (h : g.Adds g' n) (h' : g'.Adds g'' m) : g.Adds g'' (n + m) := by
  unfold Adds at *
  omega

theorem push (g : Graph) (node : Node) : g.Adds (g.push node) 1 := by
  show (g.push node).size + g.storeCount = g.size + 1 + g.storeCount
  rw [show (g.push node).size = g.size + 1 from Array.size_push ..]

theorem setKind (g : Graph) (e : NodeId) (kind : Kind) : g.Adds (g.setKind e kind) 0 :=
  congrArg (· + g.storeCount) (g.size_setKind e kind)

theorem setBodyState (g : Graph) (f : NodeId) (state : BodyState) :
    g.Adds (g.setBodyState f state) 0 := by
  unfold Graph.setBodyState
  split
  · exact setKind ..
  · exact refl g

theorem pushFunction (g : Graph) (scope : Scope) (arity : Nat) :
    g.Adds (g.pushFunction scope arity) (arity + 1) := by
  show (g.pushFunction scope arity).size + g.storeCount = g.size + (arity + 1) + g.storeCount
  have hsize : (g.pushFunction scope arity).size = g.size + (arity + 1) := by
    simp [Graph.pushFunction, Graph.size]
  rw [hsize]

end Graph.Adds

namespace BuilderState

theorem moduleStore_adds (s : BuilderState σ) : s.graph.Adds s.moduleStore.2.graph 0 := by
  unfold moduleStore
  split
  · exact .refl _
  · rename_i h
    show (s.graph.push _).size + _ = s.graph.size + 0 + _
    simp [Graph.storeCount, h, BuilderState.push, Graph.push, Graph.size]
    omega

theorem resourceStore_adds (s : BuilderState σ) : s.graph.Adds s.resourceStore.2.graph 0 := by
  unfold resourceStore
  split
  · exact .refl _
  · rename_i h
    show (s.graph.push _).size + _ = s.graph.size + 0 + _
    simp [Graph.storeCount, h, BuilderState.push, Graph.push, Graph.size]
    omega

theorem create_adds (s : BuilderState σ) (draft : Draft) :
    s.graph.Adds (s.create draft).2.graph draft.cost := by
  cases draft with
  | ident name =>
    simp only [create]
    split <;> exact .push ..
  | moduleStore => exact s.moduleStore_adds
  | resourceStore => exact s.resourceStore_adds
  | module address => exact s.moduleStore_adds.trans (.push ..)
  | resource key value => exact s.resourceStore_adds.trans (.push ..)
  | _ => exact .push ..

theorem fill_adds (s : BuilderState σ) (slot target : NodeId) :
    s.graph.Adds (s.fill slot target).2.graph 0 := by
  unfold fill
  split
  · exact .setKind ..
  · exact .refl _
  · exact .refl _

end BuilderState

/-! ## Pending recipes -/

/-- The recipes make at most `n` nodes together. -/
inductive PendingWithin : List (NodeId × Recipe σ) → Nat → Prop
  | nil (n : Nat) : PendingWithin [] n
  | cons {f : NodeId} {r : Recipe σ} {rest : List (NodeId × Recipe σ)} {n m : Nat} (h : r.Within n)
    (hrest : PendingWithin rest m) : PendingWithin ((f, r) :: rest) (n + m)

namespace PendingWithin

variable {l l' : List (NodeId × Recipe σ)} {r : Recipe σ} {f : NodeId} {n m : Nat}

theorem concat (h : PendingWithin l n) (hr : r.Within m) :
    PendingWithin (l ++ [(f, r)]) (m + n) := by
  induction h with
  | nil n => exact .cons hr (.nil n)
  | cons h _ ih =>
    rw [Nat.add_left_comm]
    exact .cons h ih

theorem take (h : PendingWithin l n) (htake : Builder.take f l = some (r, l')) :
    ∃ k m, k + m = n ∧ r.Within k ∧ PendingWithin l' m := by
  induction h generalizing l' with
  | nil => cases htake
  | @cons e s rest n m hs hrest ih =>
    rw [Builder.take] at htake
    split at htake
    · cases htake
      exact ⟨n, m, rfl, hs, hrest⟩
    · obtain ⟨⟨r', rest'⟩, hrest', heq⟩ := Option.map_eq_some_iff.1 htake
      cases heq
      obtain ⟨k, j, rfl, hr, hj⟩ := ih hrest'
      exact ⟨k, n + j, Nat.add_left_comm .., hr, .cons hs hj⟩

end PendingWithin

/-! ## Runs -/

/-- What is still to be done makes at most `n` nodes. -/
def Agenda.Within : Agenda σ → Nat → Prop
  | .run r, n => r.Within n
  | .walk next _ _, n => ∀ a, (next a).Within n

/-- What is done next stays within what is allowed. -/
def Move.Within (b : Builder σ) (n : Nat) : Move σ → Prop
  | .stop _ => True
  | .silent t => t.Within n
  | .perform op t => ∃ k j m, k + j + m ≤ n ∧
    b.state.graph.Adds (b.perform op).state.graph k ∧
    (∀ i, PendingWithin b.pending i → PendingWithin (b.perform op).pending (j + i)) ∧ t.Within m
  | .ask _ next => ∀ a, (next a).Within n

theorem Agenda.Within.move {t : Agenda σ} {n : Nat} (h : t.Within n) (b : Builder σ) :
    (t.move b).Within b n := by
  have perform : ∀ {op : Operation σ} {t' : Agenda σ} {m : Nat}, t'.Within m → m ≤ n →
      b.state.graph.Adds (b.perform op).state.graph 0 → (b.perform op).pending = b.pending →
      (Move.perform op t').Within b n := by
    intro op t' m ht hm hadds hpending
    refine ⟨0, 0, m, by omega, hadds, fun i hi => ?_, ht⟩
    rwa [hpending, Nat.zero_add]
  cases t with
  | run r =>
    cases r with
    | done result => trivial
    | look next => exact h b.state
    | share update next => exact perform h (Nat.le_refl n) (.refl _) rfl
    | create draft next =>
      obtain ⟨m, hm, hnext⟩ := h
      refine ⟨draft.cost, 0, m, by omega, b.state.create_adds draft, fun i hi => ?_, hnext _⟩
      rwa [Nat.zero_add]
    | function arity body next =>
      obtain ⟨k, m, hm, hbody, hnext⟩ := h
      exact ⟨arity + 1, k, m, hm, .pushFunction .., fun i hi => hi.concat (hbody _ _), hnext _⟩
    | body f next => exact h
    | fill slot target next =>
      exact perform (h _) (Nat.le_refl n) (b.state.fill_adds slot target) rfl
    | memoize i e next => exact perform h (Nat.le_refl n) (.refl _) rfl
    | warn ws next => exact perform h (Nat.le_refl n) (.refl _) rfl
    | survey roots next => exact h
  | walk next order queue =>
    cases queue with
    | nil => exact h _
    | cons e rest =>
      rw [Agenda.move]
      split_ifs
      · exact h
      · exact h _
      · exact h _
      · intro a
        cases a with
        | error fault => exact h _
        | ok body => exact h
      · exact h

namespace Builder

/-- The pending recipes make at most `n` nodes. -/
def Owes (b : Builder σ) (n : Nat) : Prop := PendingWithin b.pending n

theorem request_owes {b c : Builder σ} {f : NodeId} {recipe : Recipe σ} {n : Nat}
    (hreq : b.request f = .construct recipe c) (h : b.Owes n) :
    ∃ k m, k + m = n ∧ recipe.Within k ∧ c.Owes m ∧ b.state.graph.Adds c.state.graph 0 := by
  unfold request at hreq
  split at hreq <;> try cases hreq
  split at hreq <;> cases hreq
  rename_i htake
  obtain ⟨k, m, hkm, hr, hm⟩ := PendingWithin.take h htake
  exact ⟨k, m, hkm, hr, hm, .setBodyState ..⟩

/-- A run adds no more nodes than its agenda and the pending recipes are allowed. -/
theorem Runs.within {t : Agenda σ} {b d : Builder σ} {hist : List (Event σ)} {out : Except Fault Body}
    (h : Runs t b hist out d) {n m : Nat} (ht : t.Within n) (hb : b.Owes m) :
    ∃ k j, d.Owes j ∧ k + j ≤ n + m ∧ b.state.graph.Adds d.state.graph k := by
  induction h generalizing n m with
  | stop => exact ⟨0, m, hb, by omega, .refl _⟩
  | @silent t t' b d hist out hm hrest ih =>
    have := ht.move b
    rw [hm] at this
    exact ih this hb
  | @perform t t' b d op hist out hm hrest ih =>
    have hmove := ht.move b
    rw [hm] at hmove
    obtain ⟨k, j, l, hle, hadds, hpending, ht'⟩ := hmove
    obtain ⟨k', j', howes, hle', hadds'⟩ := ih ht' (hpending m hb)
    exact ⟨k + k', j', howes, by omega, hadds.trans hadds'⟩
  | @answer t b d f next answer hist out hm hreq hrest ih =>
    have hmove := ht.move b
    rw [hm] at hmove
    exact ih (hmove answer) hb
  | @construct t b c e d f next recipe result inner hist out hm hreq hinner hrest ihinner ih =>
    have hmove := ht.move b
    rw [hm] at hmove
    -- What was owed is divided: the body takes its share, and the rest is owed still.
    obtain ⟨k, l, rfl, hr, hc, henter⟩ := request_owes hreq hb
    obtain ⟨k', j', hj', hle', hadds'⟩ := ihinner hr hc
    have hleave : e.state.graph.Adds (e.leave f result).state.graph 0 := .setBodyState ..
    obtain ⟨k'', j'', hj'', hle'', hadds''⟩ := ih (hmove result) (show (e.leave f result).Owes j' from hj')
    exact ⟨0 + k' + 0 + k'', j'', hj'', by omega,
      ((henter.trans hadds').trans hleave).trans hadds''⟩

/-- At no moment of a run there are more nodes than in the end. -/
theorem Runs.size_le {t : Agenda σ} {b d : Builder σ} {hist : List (Event σ)}
    {out : Except Fault Body} (h : Runs t b hist out d) (hb : b.state.Sound) :
    ∀ op before, Event.performed op before ∈ hist →
      (before.perform op).state.graph.size ≤ d.state.graph.size := by
  induction h with
  | stop => exact fun _ _ hmem => nomatch hmem
  | silent _ _ ih => exact ih hb
  | perform _ hrest ih =>
    obtain ⟨hsound, _⟩ := perform_sound_extends hb _
    intro op before hmem
    rcases List.mem_cons.1 hmem with heq | hmem
    · cases heq
      exact (hrest.leads.extends hsound).size_le
    · exact ih hsound op before hmem
  | answer _ _ _ ih =>
    intro op before hmem
    exact ih hb op before ((List.mem_cons.1 hmem).resolve_left nofun)
  | @construct t b c e d f next recipe result inner hist out _ hreq hinner hrest ihinner ih =>
    obtain ⟨⟨_, hk⟩, hc⟩ := request_construct hreq
    have hcs : c.state.Sound := hc ▸ (hb.enter hk).1
    obtain ⟨hleave, hext⟩ := (hinner.leads.sound hcs).leave
      (hinner.leads.2.trans (request_scopes hreq)) result
    intro op before hmem
    rcases List.mem_append.1 hmem with hmem | hmem
    · have hmem := (List.mem_cons.1 hmem).resolve_left nofun
      exact (ihinner hcs op before hmem).trans
        (hext.size_le.trans (hrest.leads.extends hleave).size_le)
    · have hmem := (List.mem_cons.1 ((List.mem_cons.1 hmem).resolve_left nofun)).resolve_left nofun
      exact ih hleave op before hmem

end Builder

end ScriptGraph
