import ScriptGraph.Proofs.Emission.Occurrences
import ScriptGraph.Proofs.Emission.Recursion

/-!
# The fragments in which nodes are written out

* `Fragment.node?` : the node that a fragment is written for;
* `Output.written` : the fragments of a script in which nodes are written out;
* `Output.nodes_written` : their nodes are those of all places where a node is written out;
* `Graph.Resolved.exists_written` : every reachable node that is no parameter is among them;
* `Layout.Throughout`, `Layout.throughout_output` : what holds within what is written for the nodes
  of a script holds within the script.
-/

namespace ScriptGraph

/-- The node that a fragment is written for. -/
def Fragment.node? : Fragment → Option NodeId
  | .name e _ _ => some e
  | .expansion e _ _ => some e
  | .lambda f _ _ _ _ => some f
  | _ => none

mutual

/-- The fragments in which nodes are written out, from the outside to the inside. -/
def Fragment.written : Fragment → List Fragment
  | .expansion e enclosed pieces => .expansion e enclosed pieces :: writtenInAll pieces
  | .lambda f enclosed suspends params body =>
    .lambda f enclosed suspends params body :: body.written
  | .name .. => []
  | .text _ => []
  | .moduleIndex _ => []
  | .resourceIndex .. => []
  | .placeholderIndex _ => []
  | .moduleStore => []
  | .resourceStore => []

def writtenInAll : List Fragment → List Fragment
  | [] => []
  | f :: rest => f.written ++ writtenInAll rest

def Block.written : Block → List Fragment
  | .value ds result => writtenInDeclarations ds ++ result.written
  | .statements ds list => writtenInDeclarations ds ++ writtenInAll list

def Declaration.written : Declaration → List Fragment
  | .mk _ _ _ init => init.written

def writtenInDeclarations : List Declaration → List Fragment
  | [] => []
  | d :: rest => d.written ++ writtenInDeclarations rest

end

/-- The fragments of a script in which nodes are written out. -/
def Output.written : Output → List Fragment
  | .script ds list => writtenInDeclarations ds ++ writtenInAll list
  | .evaluation body => body.written

mutual

theorem Fragment.nodes_written (around : List Frame) :
    (f : Fragment) → f.written.filterMap Fragment.node? = marked Mark.written? (f.sites around)
  | .text _ => rfl
  | .moduleIndex _ => rfl
  | .resourceIndex _ _ => rfl
  | .placeholderIndex _ => rfl
  | .moduleStore => rfl
  | .resourceStore => rfl
  | .name _ _ _ => rfl
  | .expansion e enclosed pieces => by
    have hnode : (Fragment.expansion e enclosed pieces).node? = some e := rfl
    rw [Fragment.written, Fragment.sites, List.filterMap_cons_some hnode,
      nodes_writtenInAll around pieces]
    rfl
  | .lambda f enclosed suspends params body => by
    have hnode : (Fragment.lambda f enclosed suspends params body).node? = some f := rfl
    have hparams : (params.filterMap fun p => Mark.written? (.parameter p.1)) = [] :=
      List.filterMap_eq_nil_iff.2 fun _ _ => rfl
    rw [Fragment.written, Fragment.sites, List.filterMap_cons_some hnode,
      body.nodes_written (.function f :: around), List.cons_append, marked_cons, marked_append,
      marked_map _ fun p : NodeId × String => .parameter p.1, hparams]
    rfl

theorem nodes_writtenInAll (around : List Frame) : (fs : List Fragment) →
    (writtenInAll fs).filterMap Fragment.node? = marked Mark.written? (sitesOfAll around fs)
  | [] => rfl
  | f :: rest => by
    rw [writtenInAll, sitesOfAll, List.filterMap_append, marked_append, f.nodes_written around,
      nodes_writtenInAll around rest]

theorem Block.nodes_written (around : List Frame) :
    (b : Block) → b.written.filterMap Fragment.node? = marked Mark.written? (b.sites around)
  | .value ds result => by
    rw [Block.written, Block.sites, List.filterMap_append, marked_append,
      nodes_writtenInDeclarations around ds, result.nodes_written around]
  | .statements ds list => by
    rw [Block.written, Block.sites, List.filterMap_append, marked_append,
      nodes_writtenInDeclarations around ds, nodes_writtenInAll around list]

theorem Declaration.nodes_written (around : List Frame) :
    (d : Declaration) → d.written.filterMap Fragment.node? = marked Mark.written? (d.sites around)
  | .mk e _ _ init => init.nodes_written (.initializer e :: around)

theorem nodes_writtenInDeclarations (around : List Frame) : (ds : List Declaration) →
    (writtenInDeclarations ds).filterMap Fragment.node? =
      marked Mark.written? (sitesOfDeclarations around ds)
  | [] => rfl
  | d :: rest => by
    rw [writtenInDeclarations, sitesOfDeclarations, List.filterMap_append, marked_append,
      d.nodes_written around, nodes_writtenInDeclarations around rest]

end

/-- The places of a script where nodes are written out are those of its written fragments. -/
theorem Output.nodes_written :
    (o : Output) → o.written.filterMap Fragment.node? = marked Mark.written? o.sites
  | .script ds list => by
    rw [Output.written, Output.sites, List.filterMap_append, marked_append,
      nodes_writtenInDeclarations [], nodes_writtenInAll []]
  | .evaluation body => body.nodes_written []

theorem writtenInAll_append (fs fs' : List Fragment) :
    writtenInAll (fs ++ fs') = writtenInAll fs ++ writtenInAll fs' := by
  induction fs with
  | nil => rfl
  | cons f fs ih => rw [List.cons_append, writtenInAll, ih, writtenInAll, List.append_assoc]

/-! ## Every reachable node is written -/

/-- Every reachable node that is no parameter is written out somewhere. -/
theorem Graph.Resolved.exists_written {g : Graph} {body : Body} {a : Analysis} {sites : List Site}
    (h : g.Resolved body a) (hy : a.Yields g (a.bodyTasks none body.roots []) sites) {e : NodeId}
    (he : g.Reaches body.roots e) (hp : g.isParameter e = false) :
    ∃ around, ⟨.written e, around⟩ ∈ sites := by
  induction he with
  | @root e hr =>
    cases hd : a.isDeclared e with
    | true =>
      obtain ⟨around, hw⟩ := h.exists_initializer hy hd
      exact ⟨_, hw⟩
    | false =>
      have hdone := hy.done_of_mem (.use e []) (List.mem_append_right _ (List.mem_map_of_mem hr))
      exact ⟨[], hdone.2 hd hp⟩
  | @step p x _ hx ih =>
    cases hd : a.isDeclared x with
    | true =>
      obtain ⟨around, hw⟩ := h.exists_initializer hy hd
      exact ⟨_, hw⟩
    | false =>
      have hc : a.Contains g p x := .inl ⟨hx, hd⟩
      obtain ⟨around, hw⟩ := ih (h.not_isParameter_of_contains hc)
      obtain ⟨around', hw', _⟩ := h.exists_written_of_contains hy hw hc hp
      exact ⟨around', hw'⟩

/-! ## What holds throughout a text -/

namespace Layout

variable {l : Layout} {Q : Fragment → Prop} {e : NodeId} {pos : Position}

/-- A property of all fragments in which nodes are written out, in what is written for a node. -/
def Throughout (Q : Fragment → Prop) (_ : NodeId) (_ : Position) (f : Fragment) : Prop :=
  ∀ w ∈ f.written, Q w

theorem throughout_use {f : Fragment} (h : l.UseAs (Throughout Q) e pos f) :
    ∀ w ∈ f.written, Q w := by
  unfold UseAs at h
  split at h
  · obtain ⟨name, _, rfl⟩ := h
    exact nofun
  · exact h

theorem throughout_parts {ps : List (Part × Position)} {fs : List Fragment}
    (h : List.Forall₂ (l.PartAs (Throughout Q)) ps fs) : ∀ w ∈ writtenInAll fs, Q w := by
  induction h with
  | nil => exact nofun
  | @cons p f ps fs hp _ ih =>
    obtain ⟨part, pos⟩ := p
    cases part with
    | text t =>
      cases hp
      exact ih
    | node e => exact List.forall_mem_append.2 ⟨throughout_use hp, ih⟩

theorem throughout_declarations {es : List NodeId} {ds : List Declaration}
    (h : List.Forall₂ (l.DeclarationAs (Throughout Q)) es ds) :
    ∀ w ∈ writtenInDeclarations ds, Q w := by
  induction h with
  | nil => exact nofun
  | cons hd _ ih =>
    obtain ⟨name, init, _, hinit, rfl⟩ := hd
    exact List.forall_mem_append.2 ⟨hinit, ih⟩

theorem throughout_block {scope : Scope} {body : Body} {b : Block}
    (h : l.BlockAs (Throughout Q) scope body b) : ∀ w ∈ b.written, Q w := by
  obtain ⟨ds, hds, hbody⟩ := h
  cases body with
  | value root =>
    obtain ⟨result, hresult, rfl⟩ := hbody
    exact List.forall_mem_append.2 ⟨throughout_declarations hds, throughout_use hresult⟩
  | statements roots =>
    obtain ⟨list, hlist, rfl⟩ := hbody
    exact List.forall_mem_append.2 ⟨throughout_declarations hds, throughout_parts hlist⟩

theorem throughout_output {mode : CompileMode} {body : Body} {o : Output}
    (h : l.OutputAs (Throughout Q) mode body o) : ∀ w ∈ o.written, Q w := by
  cases mode with
  | statements =>
    obtain ⟨ds, list, hb, rfl⟩ := h
    exact throughout_block hb
  | evaluation =>
    obtain ⟨root, b, rfl, hb, rfl⟩ := h
    exact throughout_block hb

end Layout

end ScriptGraph
