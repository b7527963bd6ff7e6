import Mathlib
import ScriptGraph.Analysis.Basic
import ScriptGraph.Emission.Fragment

/-!
# The places of a written script

* `Site` : a place in a script, with what is found there and what encloses it;
* `Output.sites` : all places of a script, in the order of the text;
* `Analysis.Yields` : the places that come from uses, nodes and declarations still to be written;
* `Analysis.Yields.forall_sites` : what tasks hand down holds at all places they lead to.
-/

namespace ScriptGraph

/-- What encloses a place. -/
inductive Frame
  | function (f : NodeId)
  | initializer (e : NodeId)
deriving DecidableEq

def Frame.function? : Frame → Option NodeId
  | .function f => some f
  | .initializer _ => none

/-- What is found at a place. -/
inductive Mark
  /-- A node is written out. -/
  | written (e : NodeId)
  /-- A node is referred to by its name. -/
  | name (e : NodeId)
  /-- A declaration gives a node its name. -/
  | binding (e : NodeId)
  /-- A list of parameters gives a node its name. -/
  | parameter (e : NodeId)
  | mention (m : Mention)

@[simp] def Mark.written? : Mark → Option NodeId
  | .written e => some e
  | _ => none

@[simp] def Mark.name? : Mark → Option NodeId
  | .name e => some e
  | _ => none

@[simp] def Mark.binding? : Mark → Option NodeId
  | .binding e => some e
  | _ => none

@[simp] def Mark.parameter? : Mark → Option NodeId
  | .parameter e => some e
  | _ => none

@[simp] def Mark.mention? : Mark → Option Mention
  | .mention m => some m
  | _ => none

structure Site where
  mark : Mark
  /-- What is around the place, innermost first. -/
  around : List Frame

/-- The nodes that the marks of one sort are about. -/
def marked (sort : Mark → Option NodeId) (sites : List Site) : List NodeId :=
  sites.filterMap fun s => sort s.mark

def Site.mention? (s : Site) : Option Mention := s.mark.mention?

mutual

def Fragment.sites (around : List Frame) : Fragment → List Site
  | .text _ => []
  | .moduleIndex address => [⟨.mention (.module address), around⟩]
  | .resourceIndex key value => [⟨.mention (.resource key value), around⟩]
  | .placeholderIndex e => [⟨.mention (.placeholder e), around⟩]
  | .moduleStore => [⟨.mention .moduleStore, around⟩]
  | .resourceStore => [⟨.mention .resourceStore, around⟩]
  | .name e _ _ => [⟨.name e, around⟩]
  | .expansion e _ pieces => ⟨.written e, around⟩ :: sitesOfAll around pieces
  | .lambda f _ _ params body =>
    ⟨.written f, around⟩ :: params.map (fun p => ⟨.parameter p.1, .function f :: around⟩) ++
      body.sites (.function f :: around)

def sitesOfAll (around : List Frame) : List Fragment → List Site
  | [] => []
  | f :: rest => f.sites around ++ sitesOfAll around rest

def Block.sites (around : List Frame) : Block → List Site
  | .value declarations result => sitesOfDeclarations around declarations ++ result.sites around
  | .statements declarations list =>
    sitesOfDeclarations around declarations ++ sitesOfAll around list

def Declaration.sites (around : List Frame) : Declaration → List Site
  | .mk e _ _ initializer => ⟨.binding e, around⟩ :: initializer.sites (.initializer e :: around)

def sitesOfDeclarations (around : List Frame) : List Declaration → List Site
  | [] => []
  | d :: rest => d.sites around ++ sitesOfDeclarations around rest

end

namespace Output

/-- All places of a script, in the order of the text. -/
def sites : Output → List Site
  | .script declarations list => sitesOfDeclarations [] declarations ++ sitesOfAll [] list
  | .evaluation body => body.sites []

/-- How often a node is written out. -/
def timesWritten (o : Output) (e : NodeId) : Nat := (marked Mark.written? o.sites).count e

/-- The nodes that declarations give names to. -/
def bound (o : Output) : List NodeId := marked Mark.binding? o.sites

/-- The nodes that lists of parameters give names to. -/
def parameters (o : Output) : List NodeId := marked Mark.parameter? o.sites

end Output

theorem sitesOfAll_append (around : List Frame) (fs fs' : List Fragment) :
    sitesOfAll around (fs ++ fs') = sitesOfAll around fs ++ sitesOfAll around fs' := by
  induction fs with
  | nil => rfl
  | cons f fs ih => rw [List.cons_append, sitesOfAll, ih, sitesOfAll, List.append_assoc]

/-! ## Sites and mentions -/

mutual

theorem Fragment.mentions_eq (around : List Frame) :
    (f : Fragment) → f.mentions = (f.sites around).filterMap Site.mention?
  | .text _ => rfl
  | .moduleIndex _ => rfl
  | .resourceIndex _ _ => rfl
  | .placeholderIndex _ => rfl
  | .moduleStore => rfl
  | .resourceStore => rfl
  | .name _ _ _ => rfl
  | .expansion _ _ pieces => mentionsOfAll_eq around pieces
  | .lambda f _ _ params body => by
    have hparams : (params.map fun p => (⟨.parameter p.1, .function f :: around⟩ : Site)).filterMap
        Site.mention? = [] := by
      rw [List.filterMap_map]
      exact List.filterMap_eq_nil_iff.2 fun _ _ => rfl
    rw [Fragment.mentions, Fragment.sites, List.filterMap_append, List.filterMap_cons_none rfl,
      hparams, List.nil_append, body.mentions_eq (.function f :: around)]

theorem mentionsOfAll_eq (around : List Frame) :
    (fs : List Fragment) → mentionsOfAll fs = (sitesOfAll around fs).filterMap Site.mention?
  | [] => rfl
  | f :: rest => by
    rw [mentionsOfAll, sitesOfAll, List.filterMap_append, f.mentions_eq around,
      mentionsOfAll_eq around rest]

theorem Block.mentions_eq (around : List Frame) :
    (b : Block) → b.mentions = (b.sites around).filterMap Site.mention?
  | .value ds result => by
    rw [Block.mentions, Block.sites, List.filterMap_append, mentionsOfDeclarations_eq around ds,
      result.mentions_eq around]
  | .statements ds list => by
    rw [Block.mentions, Block.sites, List.filterMap_append, mentionsOfDeclarations_eq around ds,
      mentionsOfAll_eq around list]

theorem Declaration.mentions_eq (around : List Frame) :
    (d : Declaration) → d.mentions = (d.sites around).filterMap Site.mention?
  | .mk e _ _ init => init.mentions_eq (.initializer e :: around)

theorem mentionsOfDeclarations_eq (around : List Frame) :
    (ds : List Declaration) →
      mentionsOfDeclarations ds = (sitesOfDeclarations around ds).filterMap Site.mention?
  | [] => rfl
  | d :: rest => by
    rw [mentionsOfDeclarations, sitesOfDeclarations, List.filterMap_append, d.mentions_eq around,
      mentionsOfDeclarations_eq around rest]

end

/-- What a script mentions is found at its places, in the same order. -/
theorem Output.mentions_eq : (o : Output) → o.mentions = o.sites.filterMap Site.mention?
  | .script ds list => by
    rw [Output.mentions, Output.sites, List.filterMap_append, mentionsOfDeclarations_eq [],
      mentionsOfAll_eq []]
  | .evaluation body => body.mentions_eq []

/-! ## Where places come from -/

/-- Something still to be written, and what is around it. -/
inductive Task
  | use (e : NodeId) (around : List Frame)
  | write (e : NodeId) (around : List Frame)
  | declare (e : NodeId) (around : List Frame)

namespace Task

@[simp] def use? : Task → Option NodeId
  | .use e _ => some e
  | _ => none

@[simp] def write? : Task → Option NodeId
  | .write e _ => some e
  | _ => none

@[simp] def declare? : Task → Option NodeId
  | .declare e _ => some e
  | _ => none

end Task

/-- What a node itself mentions. -/
def Graph.ownMentions (g : Graph) (e : NodeId) : List Mention :=
  match g.kindOf? e with
  | some (.moduleRef _ address) => [.module address]
  | some (.resourceRef _ key value) => [.resource key value]
  | some .placeholder => [.placeholder e]
  | some .moduleStore => [.moduleStore]
  | some .resourceStore => [.resourceStore]
  | _ => []

namespace Analysis

/-- What a function's body still has to have written: the declarations of its scope, then its
roots. -/
def bodyTasks (a : Analysis) (scope : Scope) (roots : List NodeId) (around : List Frame) :
    List Task :=
  (a.declarationsOf scope).map (.declare · around) ++ roots.map (.use · around)

/-- What is still to be written gives certain places. -/
inductive Yields (a : Analysis) (g : Graph) : List Task → List Site → Prop
  | done : Yields a g [] []
  | named {e : NodeId} {around : List Frame} {tasks : List Task} {sites : List Site}
    (hd : a.isDeclared e = true) (rest : Yields a g tasks sites) :
    Yields a g (.use e around :: tasks) (⟨.name e, around⟩ :: sites)
  | inlined {e : NodeId} {around : List Frame} {tasks : List Task} {sites : List Site}
    (hd : a.isDeclared e = false) (h : Yields a g (.write e around :: tasks) sites) :
    Yields a g (.use e around :: tasks) sites
  | parameter {e : NodeId} {around : List Frame} {tasks : List Task} {sites : List Site}
    (hp : g.isParameter e = true) (rest : Yields a g tasks sites) :
    Yields a g (.write e around :: tasks) (⟨.name e, around⟩ :: sites)
  | function {f : NodeId} {body : Body} {around : List Frame} {tasks : List Task}
    {inside sites : List Site} (hb : g.body? f = some body)
    (inner : Yields a g (a.bodyTasks (some f) body.roots (.function f :: around)) inside)
    (rest : Yields a g tasks sites) :
    Yields a g (.write f around :: tasks) (⟨.written f, around⟩ ::
      (g.params f).map (fun p => ⟨.parameter p, .function f :: around⟩) ++ inside ++ sites)
  | expansion {e : NodeId} {around : List Frame} {tasks : List Task} {inside sites : List Site}
    (hf : g.isFunction e = false) (hp : g.isParameter e = false)
    (inner : Yields a g ((g.children e).map (.use · around)) inside)
    (rest : Yields a g tasks sites) :
    Yields a g (.write e around :: tasks) (⟨.written e, around⟩ :: inside ++
      (g.ownMentions e).map (fun m => ⟨.mention m, around⟩) ++ sites)
  | declare {e : NodeId} {around : List Frame} {tasks : List Task} {sites : List Site}
    (h : Yields a g (.write e (.initializer e :: around) :: tasks) sites) :
    Yields a g (.declare e around :: tasks) (⟨.binding e, around⟩ :: sites)

theorem Yields.append {a : Analysis} {g : Graph} {tasks tasks' : List Task}
    {sites sites' : List Site} (h : a.Yields g tasks sites) (h' : a.Yields g tasks' sites') :
    a.Yields g (tasks ++ tasks') (sites ++ sites') := by
  induction h with
  | done => exact h'
  | named hd _ ih => exact .named hd ih
  | inlined hd _ ih => exact .inlined hd ih
  | parameter hp _ ih => exact .parameter hp ih
  | @function f body around tasks inside sites hb inner _ _ ih =>
    have := Yields.function hb inner ih
    simpa using this
  | @expansion e around tasks inside sites hf hp inner _ _ ih =>
    have := Yields.expansion hf hp inner ih
    simpa using this
  | declare _ ih => exact .declare ih

/-- A property of tasks that passes to the tasks they lead to, and what it says of the places. -/
structure Inherits (a : Analysis) (g : Graph) (I : Task → Prop) (Q : Site → Prop) : Prop where
  named : ∀ e around, a.isDeclared e = true → I (.use e around) → Q ⟨.name e, around⟩
  inlined : ∀ e around, a.isDeclared e = false → I (.use e around) → I (.write e around)
  parameter : ∀ e around, g.isParameter e = true → I (.write e around) → Q ⟨.name e, around⟩
  function : ∀ f body around, g.body? f = some body → I (.write f around) →
    Q ⟨.written f, around⟩ ∧ (∀ p ∈ g.params f, Q ⟨.parameter p, .function f :: around⟩) ∧
      ∀ t ∈ a.bodyTasks (some f) body.roots (.function f :: around), I t
  expansion : ∀ e around, g.isFunction e = false → g.isParameter e = false → I (.write e around) →
    Q ⟨.written e, around⟩ ∧ (∀ m ∈ g.ownMentions e, Q ⟨.mention m, around⟩) ∧
      ∀ x ∈ g.children e, I (.use x around)
  declare : ∀ e around, I (.declare e around) →
    Q ⟨.binding e, around⟩ ∧ I (.write e (.initializer e :: around))

theorem Yields.forall_sites {a : Analysis} {g : Graph} {I : Task → Prop} {Q : Site → Prop}
    {tasks : List Task} {sites : List Site} (hI : a.Inherits g I Q) (h : a.Yields g tasks sites)
    (ht : ∀ t ∈ tasks, I t) : ∀ s ∈ sites, Q s := by
  induction h with
  | done => exact fun s hs => nomatch hs
  | @named e around tasks sites hd _ ih =>
    obtain ⟨he, ht⟩ := List.forall_mem_cons.1 ht
    exact List.forall_mem_cons.2 ⟨hI.named e around hd he, ih ht⟩
  | @inlined e around tasks sites hd _ ih =>
    obtain ⟨he, ht⟩ := List.forall_mem_cons.1 ht
    exact ih (List.forall_mem_cons.2 ⟨hI.inlined e around hd he, ht⟩)
  | @parameter e around tasks sites hp _ ih =>
    obtain ⟨he, ht⟩ := List.forall_mem_cons.1 ht
    exact List.forall_mem_cons.2 ⟨hI.parameter e around hp he, ih ht⟩
  | @function f body around tasks inside sites hb _ _ ihi ih =>
    obtain ⟨hf, ht⟩ := List.forall_mem_cons.1 ht
    obtain ⟨hwritten, hparams, hinner⟩ := hI.function f body around hb hf
    refine List.forall_mem_append.2 ⟨List.forall_mem_append.2 ⟨?_, ihi hinner⟩, ih ht⟩
    refine List.forall_mem_cons.2 ⟨hwritten, fun s hs => ?_⟩
    obtain ⟨p, hp, rfl⟩ := List.mem_map.1 hs
    exact hparams p hp
  | @expansion e around tasks inside sites hf hp _ _ ihi ih =>
    obtain ⟨he, ht⟩ := List.forall_mem_cons.1 ht
    obtain ⟨hwritten, hmentions, hinner⟩ := hI.expansion e around hf hp he
    have huses : ∀ t ∈ (g.children e).map (Task.use · around), I t := fun t ht => by
      obtain ⟨x, hx, rfl⟩ := List.mem_map.1 ht
      exact hinner x hx
    refine List.forall_mem_append.2 ⟨List.forall_mem_append.2 ⟨?_, fun s hs => ?_⟩, ih ht⟩
    · exact List.forall_mem_cons.2 ⟨hwritten, ihi huses⟩
    · obtain ⟨m, hm, rfl⟩ := List.mem_map.1 hs
      exact hmentions m hm
  | @declare e around tasks sites _ ih =>
    obtain ⟨he, ht⟩ := List.forall_mem_cons.1 ht
    obtain ⟨hbinding, hwrite⟩ := hI.declare e around he
    exact List.forall_mem_cons.2 ⟨hbinding, ih (List.forall_mem_cons.2 ⟨hwrite, ht⟩)⟩

theorem forall_bodyTasks {a : Analysis} {scope : Scope} {roots : List NodeId}
    {around : List Frame} {I : Task → Prop}
    (hd : ∀ e ∈ a.declarationsOf scope, I (.declare e around))
    (hr : ∀ e ∈ roots, I (.use e around)) : ∀ t ∈ a.bodyTasks scope roots around, I t := by
  refine List.forall_mem_append.2 ⟨fun t ht => ?_, fun t ht => ?_⟩
  · obtain ⟨e, he, rfl⟩ := List.mem_map.1 ht
    exact hd e he
  · obtain ⟨e, he, rfl⟩ := List.mem_map.1 ht
    exact hr e he

end Analysis

end ScriptGraph
