import ScriptGraph.Host.Value
import ScriptGraph.Proofs.Builder.Creation

/-!
# How computations end

* `Build.Yields` : what a computation answers and leaves behind;
* `Build.Passes` : it does so without a request for a body, and no more may run afterwards;
* `TryBuild.Ends` : a computation fails with a fault of some sort, or answers what has a property;
* `TryBuild.Ends.run` : so does its recipe.
-/

namespace ScriptGraph

variable {σ α β : Type} {b c : Builder σ}

instance : LawfulMonad (Build σ) :=
  .mk' _ (fun _ => rfl) (fun _ _ => rfl) (fun _ _ _ => rfl)

/-- A computation answers `r` and leaves `c` behind. -/
def Build.Yields (x : Build σ α) (b : Builder σ) (r : α) (c : Builder σ) : Prop :=
  ∀ next, Builder.run (x next) b = Builder.run (next r) c

/-- A step of a recipe in a builder, without a request for a body. -/
inductive Recipe.Step : Recipe σ × Builder σ → Recipe σ × Builder σ → Prop
  | look (next : BuilderState σ → Recipe σ) (b : Builder σ) : Step (.look next, b) (next b.state, b)
  | create (draft : Draft) (next : NodeId → Recipe σ) (b : Builder σ) :
    Step (.create draft next, b) (next (b.state.create draft).1, b.perform (.create draft))
  | function (arity : Nat) (body : NodeId → List NodeId → Recipe σ) (next : NodeId → Recipe σ)
    (b : Builder σ) : Step (.function arity body next, b)
      (next (b.makeFunction arity body).1, b.perform (.function arity body))
  | memoize (i : Nat) (e : NodeId) (next : Recipe σ) (b : Builder σ) :
    Step (.memoize i e next, b) (next, b.perform (.memoize i e))

namespace Recipe.Step

variable {x y : Recipe σ × Builder σ}

theorem run_eq (h : Step x y) : Builder.run x.1 x.2 = Builder.run y.1 y.2 := by
  cases h with
  | look next b => exact Builder.run_look next b
  | create draft next b => exact Builder.run_create draft next b
  | function arity body next b => exact Builder.run_function arity body next b
  | memoize i e next b => exact Builder.run_memoize i e next b

theorem smaller (h : Step x y) : Pool.Smaller ⟨y.1 :: y.2.recipes⟩ ⟨x.1 :: x.2.recipes⟩ := by
  cases h with
  | look next b => exact .step (.look next b.state)
  | create draft next b => exact .step (.create draft next _)
  | function arity body next b => exact b.makeFunction_smaller arity body next
  | memoize i e next b => exact .step (.memoize i e next)

end Recipe.Step

/-- A computation answers `r` and leaves `c` behind, without a request for a body. -/
def Build.Passes (x : Build σ α) (b : Builder σ) (r : α) (c : Builder σ) : Prop :=
  ∀ next, Relation.ReflTransGen Recipe.Step (x next, b) (next r, c)

namespace Build.Passes

variable {x : Build σ α} {r : α}

theorem yields (h : x.Passes b r c) : x.Yields b r c := by
  have hrun : ∀ {s t : Recipe σ × Builder σ}, Relation.ReflTransGen Recipe.Step s t →
      Builder.run s.1 s.2 = Builder.run t.1 t.2 := by
    intro s t h
    induction h with
    | refl => rfl
    | tail _ hstep ih => exact ih.trans hstep.run_eq
  exact fun next => hrun (h next)

/-- What may still run afterwards is what might before, or less. -/
theorem smaller (h : x.Passes b r c) (next : α → Recipe σ) :
    Relation.ReflTransGen Pool.Smaller ⟨next r :: c.recipes⟩ ⟨x next :: b.recipes⟩ := by
  have hpool : ∀ {s t : Recipe σ × Builder σ}, Relation.ReflTransGen Recipe.Step s t →
      Relation.ReflTransGen Pool.Smaller ⟨t.1 :: t.2.recipes⟩ ⟨s.1 :: s.2.recipes⟩ := by
    intro s t h
    induction h with
    | refl => exact .refl
    | tail _ hstep ih => exact ih.head hstep.smaller
  exact hpool (h next)

end Build.Passes

/-- A computation fails with a fault of some sort, or answers what has a property. -/
def TryBuild.Ends (x : TryBuild σ α) (F : Fault → Prop) (b : Builder σ)
    (P : Builder σ → α → Prop) : Prop :=
  (∃ fault c, F fault ∧ x.run.Yields b (.error fault) c) ∨
    ∃ v c, x.run.Yields b (.ok v) c ∧ b.Leads c ∧ P c v

namespace TryBuild.Ends

variable {F : Fault → Prop} {b : Builder σ} {P : Builder σ → α → Prop} {Q : Builder σ → β → Prop}

theorem pure {v : α} (h : P b v) : Ends (pure v) F b P :=
  .inr ⟨v, b, fun _ => rfl, .refl b, h⟩

theorem throw {fault : Fault} (h : F fault) : Ends (throw fault) F b P :=
  .inl ⟨fault, b, h, fun _ => rfl⟩

theorem bind {x : TryBuild σ α} {f : α → TryBuild σ β} (hx : x.Ends F b P)
    (hf : ∀ v c, b.Leads c → P c v → (f v).Ends F c Q) : (x >>= f).Ends F b Q := by
  rcases hx with ⟨fault, c, hfault, hx⟩ | ⟨v, c, hx, hc, hv⟩
  · exact .inl ⟨fault, c, hfault, fun next => hx _⟩
  · rcases hf v c hc hv with ⟨fault, d, hfault, hy⟩ | ⟨w, d, hy, hd, hw⟩
    · exact .inl ⟨fault, d, hfault, fun next => (hx _).trans (hy next)⟩
    · exact .inr ⟨w, d, fun next => (hx _).trans (hy next), hc.trans hd, hw⟩

theorem lift {x : Build σ α} {v : α} {c : Builder σ} (hx : x.Yields b v c) (hc : b.Leads c)
    (hv : P c v) : Ends (ExceptT.lift x) F b P :=
  .inr ⟨v, c, fun _ => hx _, hc, hv⟩

theorem imp {x : TryBuild σ α} {F' : Fault → Prop} {P' : Builder σ → α → Prop} (h : x.Ends F b P)
    (hF : ∀ fault, F fault → F' fault) (hP : ∀ c v, P c v → P' c v) : x.Ends F' b P' := by
  rcases h with ⟨fault, c, hfault, hx⟩ | ⟨v, c, hx, hc, hv⟩
  · exact .inl ⟨fault, c, hF fault hfault, hx⟩
  · exact .inr ⟨v, c, hx, hc, hP c v hv⟩

theorem fill {slot target : NodeId} {P : Builder σ → Unit → Prop}
    (hslot : b.state.graph.kindOf? slot = some (.slot none))
    (hP : P (b.perform (.fill slot target)) ()) :
    Ends (ExceptT.mk (Build.fill slot target)) F b P := by
  have hanswer : (b.state.fill slot target).1 = .ok () := by
    rw [BuilderState.fill, hslot]
  refine .inr ⟨(), b.perform (.fill slot target), fun next => ?_, .fill b slot target, hP⟩
  rw [← hanswer]
  exact Builder.run_fill slot target next b

/-- The recipe of a computation ends as the computation does. -/
theorem run {x : TryBuild σ Body} {P : Builder σ → Body → Prop} (h : x.Ends F b P) :
    (∃ fault, F fault ∧ (Builder.run (Build.toRecipe x.run) b).1 = .error fault) ∨
      ∃ body c, Builder.run (Build.toRecipe x.run) b = (.ok body, c) ∧ b.Leads c ∧ P c body := by
  rcases h with ⟨fault, c, hfault, hx⟩ | ⟨body, c, hx, hc, hbody⟩
  · refine .inl ⟨fault, hfault, ?_⟩
    rw [show Builder.run (Build.toRecipe x.run) b = Builder.run (.done (.error fault)) c from hx _,
      Builder.run_done]
  · refine .inr ⟨body, c, ?_, hc, hbody⟩
    rw [show Builder.run (Build.toRecipe x.run) b = Builder.run (.done (.ok body)) c from hx _,
      Builder.run_done]

end TryBuild.Ends

end ScriptGraph
