import ScriptGraph.Graph.Basic
import ScriptGraph.Order.Replacement

/-!
# Recipes for function bodies

A function's body is not built with the function, but when it is first asked for. Until then it is
a `Recipe`: a tree of builder operations, each followed by what to do with its answer.

* `BuilderState` : the graph under construction and what surrounds it;
* `Draft` : a node that is to be made;
* `Recipe` : how to construct a body, with access to a state `σ` that recipes share;
* `Build` : a computation that continues as a recipe;
* `Recipe.Continues` : what a recipe may go on as, a well-founded relation (`Continues.wf`).
-/

namespace ScriptGraph

/-- A graph under construction. -/
structure BuilderState (σ : Type) where
  graph : Graph := {}
  /-- The functions whose bodies are being constructed, innermost first. -/
  scopes : List NodeId := []
  /-- The nodes of host values, by instance. -/
  memo : List (Nat × NodeId) := []
  /-- In the order in which they arose. -/
  warnings : List Warning := []
  /-- What the recipes share. -/
  shared : σ

/-- Where a new node belongs. -/
def BuilderState.scope {σ : Type} (s : BuilderState σ) : Scope := s.scopes.head?

inductive CallStyle
  | plain
  | optional
  /-- May be evaluated at every use. -/
  | pure
deriving DecidableEq

/-- A node that is to be made. -/
inductive Draft
  /-- Script text, declared when it is used more than once. -/
  | raw (code : String)
  /-- Script text that may be written at every use. -/
  | literal (code : String)
  /-- A name without side effects. -/
  | ident (name : String)
  | template (parts : List Part) (awaits inert optional : Bool)
  | call (callee : NodeId) (args : List NodeId) (style : CallStyle)
  | moduleStore
  | resourceStore
  /-- The namespace of a module. -/
  | module (address : String)
  | resource (key : String) (value : ResourceValue)
  | placeholder
  | slot

/-- How to construct a function's body: builder operations, each with a continuation. -/
inductive Recipe (σ : Type) : Type
  | done (result : Except Fault Body)
  | look (next : BuilderState σ → Recipe σ)
  | share (update : σ → σ) (next : Recipe σ)
  | create (draft : Draft) (next : NodeId → Recipe σ)
  /-- Makes a function; `body` gets its handle and its parameters. -/
  | function (arity : Nat) (body : NodeId → List NodeId → Recipe σ) (next : NodeId → Recipe σ)
  /-- Asks for the body of a function, which constructs it at the first request. -/
  | body (f : NodeId) (next : Except Fault Body → Recipe σ)
  | fill (slot target : NodeId) (next : Except Fault Unit → Recipe σ)
  /-- Records the node of a host value. -/
  | memoize (instanceId : Nat) (e : NodeId) (next : Recipe σ)
  | warn (warnings : List Warning) (next : Recipe σ)
  /-- Asks for the nodes reachable from some roots, and so for the bodies of the functions among
  them. -/
  | survey (roots : List NodeId) (next : Except Fault (List NodeId) → Recipe σ)

/-- A computation that continues as a recipe. -/
def Build (σ α : Type) : Type := (α → Recipe σ) → Recipe σ

namespace Build

variable {σ : Type}

instance : Monad (Build σ) where
  pure a := fun k => k a
  bind x f := fun k => x fun a => f a k

def look : Build σ (BuilderState σ) := fun k => .look k

def share (update : σ → σ) : Build σ Unit := fun k => .share update (k ())

def create (draft : Draft) : Build σ NodeId := fun k => .create draft k

def function (arity : Nat) (body : NodeId → List NodeId → Recipe σ) : Build σ NodeId :=
  fun k => .function arity body k

def body (f : NodeId) : Build σ (Except Fault Body) := fun k => .body f k

def fill (slot target : NodeId) : Build σ (Except Fault Unit) := fun k => .fill slot target k

def memoize (instanceId : Nat) (e : NodeId) : Build σ Unit :=
  fun k => .memoize instanceId e (k ())

def warn (warnings : List Warning) : Build σ Unit := fun k => .warn warnings (k ())

def survey (roots : List NodeId) : Build σ (Except Fault (List NodeId)) := fun k => .survey roots k

/-- The recipe that ends with the computation's body or fault. -/
def toRecipe (x : Build σ (Except Fault Body)) : Recipe σ := x .done

end Build

namespace Recipe

variable {σ : Type}

/-- `Continues s r` : running `r` may go on as `s`, or leave `s` for later. -/
inductive Continues : Recipe σ → Recipe σ → Prop
  | look (next state) : Continues (next state) (.look next)
  | share (update next) : Continues next (.share update next)
  | create (draft next e) : Continues (next e) (.create draft next)
  | functionBody (arity body next f ps) : Continues (body f ps) (.function arity body next)
  | functionNext (arity body next f) : Continues (next f) (.function arity body next)
  | body (f next answer) : Continues (next answer) (.body f next)
  | fill (slot target next answer) : Continues (next answer) (.fill slot target next)
  | memoize (i e next) : Continues next (.memoize i e next)
  | warn (warnings next) : Continues next (.warn warnings next)
  | survey (roots next answer) : Continues (next answer) (.survey roots next)

theorem Continues.wf : WellFounded (Continues (σ := σ)) := by
  refine ⟨fun r => ?_⟩
  induction r with
  | done => exact ⟨_, fun _ h => nomatch h⟩
  | look _ ih => exact ⟨_, fun _ h => by cases h; exact ih _⟩
  | share _ _ ih => exact ⟨_, fun _ h => by cases h; exact ih⟩
  | create _ _ ih => exact ⟨_, fun _ h => by cases h; exact ih _⟩
  | function _ _ _ ihb ihn =>
    refine ⟨_, fun _ h => ?_⟩
    cases h
    · exact ihb _ _
    · exact ihn _
  | body _ _ ih => exact ⟨_, fun _ h => by cases h; exact ih _⟩
  | fill _ _ _ ih => exact ⟨_, fun _ h => by cases h; exact ih _⟩
  | memoize _ _ _ ih => exact ⟨_, fun _ h => by cases h; exact ih⟩
  | warn _ _ ih => exact ⟨_, fun _ h => by cases h; exact ih⟩
  | survey _ _ ih => exact ⟨_, fun _ h => by cases h; exact ih _⟩

end Recipe

end ScriptGraph
