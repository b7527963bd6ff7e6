import ScriptGraph.Builder.Create

/-!
# Builders and what they have still to do

* `Builder` : a graph under construction together with the recipes of the bodies not yet built;
* `Builder.request` : what a request for the body of a function finds;
* `Pool` : the recipes that may still run, ordered by `Pool.Smaller`;
* `Builder.unvisited` : how many nodes a walk through the graph has not reached yet.

A request for a body sets the current recipe aside and runs another one. This comes to an end:
each operation replaces one recipe, among the current one and the pending ones, by recipes it may
go on as.
-/

namespace ScriptGraph

/-- A graph under construction together with the recipes of the bodies not yet built. -/
structure Builder (σ : Type) where
  state : BuilderState σ
  pending : List (NodeId × Recipe σ) := []

/-- A builder without nodes. -/
def Builder.empty {σ : Type} (shared : σ) : Builder σ := { state := { shared } }

/-- Recipes of which each may still run once. -/
structure Pool (σ : Type) where
  recipes : List (Recipe σ)

namespace Pool

variable {σ : Type}

/-- Some steps, each of which replaces a recipe by what it may go on as. -/
def Smaller (p q : Pool σ) : Prop :=
  Relation.TransGen (Replaces Recipe.Continues) p.recipes q.recipes

instance : WellFoundedRelation (Pool σ) where
  rel := Smaller
  wf := InvImage.wf Pool.recipes (Replaces.wf Recipe.Continues.wf).transGen

theorem Smaller.trans {p q r : Pool σ} (h : p.Smaller q) (h' : q.Smaller r) : p.Smaller r :=
  Relation.TransGen.trans h h'

theorem Smaller.replace {r : Recipe σ} (below : List (Recipe σ)) {rest p : List (Recipe σ)}
    (hp : p.Perm (below ++ rest)) (h : ∀ s ∈ below, s.Continues r) : Smaller ⟨p⟩ ⟨r :: rest⟩ :=
  .single ⟨r, rest, below, .refl _, hp, h⟩

theorem Smaller.step {s r : Recipe σ} {rest : List (Recipe σ)} (h : s.Continues r) :
    Smaller ⟨s :: rest⟩ ⟨r :: rest⟩ :=
  .replace [s] (.refl _) fun x hx => by
    rw [List.mem_singleton] at hx
    exact hx ▸ h

theorem Smaller.drop {r : Recipe σ} {rest : List (Recipe σ)} : Smaller ⟨rest⟩ ⟨r :: rest⟩ :=
  .replace [] (.refl _) fun _ h => nomatch h

theorem Smaller.perm {k l l' : List (Recipe σ)} (h : Smaller ⟨k⟩ ⟨l⟩) (p : l.Perm l') :
    Smaller ⟨k⟩ ⟨l'⟩ := by
  generalize hx : l = x at h
  unfold Smaller at h
  dsimp only at h
  induction h with
  | single h => exact .single (h.perm (.refl _) (hx ▸ p))
  | tail h h' _ => exact .tail h (h'.perm (.refl _) (hx ▸ p))

theorem Smaller.cons {k l : List (Recipe σ)} (h : Smaller ⟨k⟩ ⟨l⟩) (r : Recipe σ) :
    Smaller ⟨r :: k⟩ ⟨r :: l⟩ := by
  unfold Smaller at h ⊢
  dsimp only at h ⊢
  induction h with
  | single h => exact .single (h.cons r)
  | tail _ h ih => exact .tail ih (h.cons r)

end Pool

namespace Builder

variable {σ : Type}

/-- The recipes that may still run. -/
def recipes (b : Builder σ) : List (Recipe σ) := b.pending.map (·.2)

/-- Removes the recipe of `f`'s body from the pending ones. -/
def take (f : NodeId) :
    List (NodeId × Recipe σ) → Option (Recipe σ × List (NodeId × Recipe σ))
  | [] => none
  | (e, r) :: rest =>
    if e = f then some (r, rest) else (take f rest).map fun (s, rest) => (s, (e, r) :: rest)

theorem take_perm {f : NodeId} {l l' : List (NodeId × Recipe σ)} {r : Recipe σ}
    (h : take f l = some (r, l')) : (l.map (·.2)).Perm (r :: l'.map (·.2)) := by
  induction l generalizing l' with
  | nil => simp [take] at h
  | cons x l ih =>
    obtain ⟨e, s⟩ := x
    by_cases he : e = f
    · simp only [take, he, if_true, Option.some.injEq, Prod.mk.injEq] at h
      obtain ⟨rfl, rfl⟩ := h
      exact .refl _
    · simp only [take, he, if_false, Option.map_eq_some_iff] at h
      obtain ⟨⟨t, m⟩, ht, heq⟩ := h
      simp only [Prod.mk.injEq] at heq
      obtain ⟨rfl, rfl⟩ := heq
      exact ((ih ht).cons s).trans (.swap ..)

/-- What a request for the body of `f` finds: an answer, or the recipe that is to be run first. -/
inductive Request (σ : Type)
  | answer (result : Except Fault Body)
  | construct (recipe : Recipe σ) (b : Builder σ)

def request (b : Builder σ) (f : NodeId) : Request σ :=
  match b.state.graph.kindOf? f with
  | some (.function _ (.ready body)) => .answer (.ok body)
  | some (.function _ (.failed fault)) => .answer (.error fault)
  | some (.function _ .building) => .answer (.error .reentrantBody)
  | some (.function _ .pending) =>
    match take f b.pending with
    | some (recipe, pending) => .construct recipe { state := b.state.enter f, pending }
    | none => .answer (.error .notAFunction)
  | _ => .answer (.error .notAFunction)

theorem request_perm {b c : Builder σ} {f : NodeId} {r : Recipe σ}
    (h : b.request f = .construct r c) : b.recipes.Perm (r :: c.recipes) := by
  unfold request at h
  split at h <;> try cases h
  split at h <;> cases h
  exact take_perm (by assumption)

/-- Ends the construction of `f`'s body. -/
def leave (b : Builder σ) (f : NodeId) (outcome : Except Fault Body) : Builder σ :=
  { b with state := b.state.leave f outcome }

/-- Makes a function and keeps the recipe of its body. -/
def makeFunction (b : Builder σ) (arity : Nat) (body : NodeId → List NodeId → Recipe σ) :
    NodeId × Builder σ :=
  let (f, state) := b.state.makeFunction arity
  (f, { state, pending := b.pending ++ [(f, body f (state.graph.params f))] })

def update (b : Builder σ) (state : BuilderState σ) : Builder σ := { b with state }

def warn (b : Builder σ) (ws : List Warning) : Builder σ :=
  b.update { b.state with warnings := b.state.warnings ++ ws }

/-- How many nodes the walk has not reached yet. -/
def unvisited (b : Builder σ) (order : List NodeId) : Nat :=
  (List.range b.state.graph.size).countP fun e => !order.contains e

theorem countP_lt {p q : NodeId → Bool} {e : NodeId} {l : List NodeId} (he : e ∈ l)
    (hpe : p e = true) (hqe : q e = false) (hqp : ∀ x, q x = true → p x = true) :
    l.countP q < l.countP p := by
  induction l with
  | nil => cases he
  | cons x l ih =>
    have hle : l.countP q ≤ l.countP p := List.countP_mono_left fun y _ => hqp y
    rw [List.countP_cons, List.countP_cons]
    rcases List.mem_cons.1 he with rfl | he
    · rw [if_pos hpe, if_neg (by simp [hqe])]
      omega
    · have := ih he
      by_cases hq : q x = true
      · rw [if_pos hq, if_pos (hqp x hq)]
        omega
      · rw [if_neg hq]
        omega

theorem unvisited_append_lt {b : Builder σ} {order : List NodeId} {e : NodeId}
    (hmem : e ∉ order) (hin : ¬b.state.graph.size ≤ e) :
    b.unvisited (order ++ [e]) < b.unvisited order := by
  have hlt : e < b.state.graph.size := Nat.lt_of_not_le hin
  apply countP_lt (e := e) (List.mem_range.2 hlt)
  · simpa using hmem
  · simp
  · intro x hx
    simp only [Bool.not_eq_true', List.contains_eq_mem, decide_eq_false_iff_not, List.mem_append,
      not_or] at hx ⊢
    exact hx.1

end Builder
end ScriptGraph
