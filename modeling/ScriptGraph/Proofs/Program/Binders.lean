import Mathlib
import ScriptGraph.Program.Lowering

/-!
# Names in nested bodies

* `Binders` : the names of a body, each with what it stands for;
* `innermost` : what a name stands for in the innermost body that binds it;
* `lookup_bindingsOf` : lowering's list of names finds the same;
* `innermost_rel` : related bodies bind a name to what is related.
-/

namespace ScriptGraph

variable {α β : Type}

/-- The names of a body, each with what it stands for: those of its definitions, those of the
parameters of its function, and that of the function itself. -/
structure Binders (α : Type) where
  definitions : List (String × α)
  params : List (String × α)
  self : List (String × α)

/-- What the last of equal names stands for. -/
def lastOf (names : List (String × α)) (name : String) : Option α := names.reverse.lookup name

/-- What a body binds a name to: definitions come before parameters, and these before the name of
the function. -/
def Binders.find (bs : Binders α) (name : String) : Option α :=
  (lastOf bs.definitions name).or ((lastOf bs.params name).or (lastOf bs.self name))

/-- What a name stands for in the innermost body that binds it. -/
def innermost (bodies : List (Binders α)) (name : String) : Option α :=
  bodies.findSome? (·.find name)

theorem innermost_cons (bs : Binders α) (bodies : List (Binders α)) (name : String) :
    innermost (bs :: bodies) name = (bs.find name).or (innermost bodies name) := by
  rw [innermost, List.findSome?_cons]
  cases bs.find name <;> rfl

example : innermost [⟨[("x", 0), ("x", 1)], [("x", 2), ("y", 3)], [("y", 4)]⟩, ⟨[], [], [("z", 5)]⟩]
    "x" = some 1 := by decide

/-! ## Lists of bindings -/

/-- The bindings of a body, innermost first. -/
def Binders.bindings (bs : Binders α) : List (String × α) :=
  bs.definitions.reverse ++ (bs.params.reverse ++ bs.self.reverse)

theorem Binders.lookup_bindings (bs : Binders α) (name : String) :
    bs.bindings.lookup name = bs.find name := by
  rw [bindings, List.lookup_append, List.lookup_append]
  rfl

/-- The bindings of nested bodies, innermost first. -/
def bindingsOf (bodies : List (Binders NodeId)) : Bindings := bodies.flatMap Binders.bindings

theorem lookup_bindingsOf (bodies : List (Binders NodeId)) (name : String) :
    (bindingsOf bodies).lookup name = innermost bodies name := by
  induction bodies with
  | nil => rfl
  | cons bs bodies ih =>
    rw [innermost_cons, ← ih, ← bs.lookup_bindings]
    exact List.lookup_append

theorem Bindings.bind_eq (names : List String) (nodes : List NodeId) (env : Bindings) :
    Bindings.bind names nodes env = (names.zip nodes).reverse ++ env :=
  List.foldl_flip_cons_eq_append'

/-! ## Related bodies -/

/-- The names are the same, and what they stand for is related. -/
def Paired (R : α → β → Prop) (p : String × α) (q : String × β) : Prop := p.1 = q.1 ∧ R p.2 q.2

/-- Two bodies bind the same names to what is related. -/
structure Binders.Rel (R : α → β → Prop) (bs : Binders α) (bs' : Binders β) : Prop where
  definitions : List.Forall₂ (Paired R) bs.definitions bs'.definitions
  params : List.Forall₂ (Paired R) bs.params bs'.params
  self : List.Forall₂ (Paired R) bs.self bs'.self

variable {R S : α → β → Prop}

theorem Binders.Rel.imp {bs : Binders α} {bs' : Binders β} (h : bs.Rel R bs')
    (hRS : ∀ a b, R a b → S a b) : bs.Rel S bs' where
  definitions := h.definitions.imp fun _ _ hp => ⟨hp.1, hRS _ _ hp.2⟩
  params := h.params.imp fun _ _ hp => ⟨hp.1, hRS _ _ hp.2⟩
  self := h.self.imp fun _ _ hp => ⟨hp.1, hRS _ _ hp.2⟩

theorem zip_paired (names : List String) {as : List α} {bs : List β} (h : List.Forall₂ R as bs) :
    List.Forall₂ (Paired R) (names.zip as) (names.zip bs) := by
  induction h generalizing names with
  | nil => simp
  | cons hab _ ih =>
    cases names with
    | nil => exact .nil
    | cons name names => exact .cons ⟨rfl, hab⟩ (ih names)

theorem lookup_rel {l : List (String × α)} {l' : List (String × β)}
    (h : List.Forall₂ (Paired R) l l') (name : String) :
    Option.Rel R (l.lookup name) (l'.lookup name) := by
  induction h with
  | nil => exact .none
  | @cons p q _ _ hpq _ ih =>
    obtain ⟨x, a⟩ := p
    obtain ⟨y, b⟩ := q
    obtain ⟨rfl : x = y, hab⟩ := hpq
    rw [List.lookup_cons, List.lookup_cons]
    split
    · exact .some hab
    · exact ih

theorem or_rel {a b : Option α} {a' b' : Option β} (h : Option.Rel R a a')
    (h' : Option.Rel R b b') : Option.Rel R (a.or b) (a'.or b') := by
  cases h with
  | none => exact h'
  | some h => exact .some h

theorem Binders.Rel.find {bs : Binders α} {bs' : Binders β} (h : bs.Rel R bs') (name : String) :
    Option.Rel R (bs.find name) (bs'.find name) :=
  or_rel (lookup_rel (List.rel_reverse h.definitions) name)
    (or_rel (lookup_rel (List.rel_reverse h.params) name)
      (lookup_rel (List.rel_reverse h.self) name))

/-- Nested bodies that are related bind a name to what is related. -/
theorem innermost_rel {bodies : List (Binders α)} {bodies' : List (Binders β)}
    (h : List.Forall₂ (Binders.Rel R) bodies bodies') (name : String) :
    Option.Rel R (innermost bodies name) (innermost bodies' name) := by
  induction h with
  | nil => exact .none
  | cons hbs _ ih =>
    rw [innermost_cons, innermost_cons]
    exact or_rel (hbs.find name) ih

end ScriptGraph
