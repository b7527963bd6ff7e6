import ScriptGraph.Proofs.Emission.Completion
import ScriptGraph.Proofs.Emission.Copies

/-!
# Copies compile to the same script

* `Graph.Copies.compile` : an analysed body is written as the same script in a copy of its graph.
-/

namespace ScriptGraph

variable {ι : NodeId → NodeId}

theorem producedKeys_map (known : List String) (mentions : List Mention) :
    producedKeys known (mentions.map (Mention.map ι)) = producedKeys known mentions := by
  induction mentions generalizing known with
  | nil => rfl
  | cons mention mentions ih =>
    cases mention <;> simp only [List.map_cons, Mention.map, producedKeys, ih]

theorem Links.splice_map (links : Links) (access : Access) (output : Output) (text : List Char) :
    (links.map ι).splice access (output.map ι) text = links.splice access output text := by
  rw [splice, splice, output.usesModules_map, output.usesResources_map]
  rfl

theorem Access.params_map (access : Access) (output : Output) :
    access.params (output.map ι) = access.params output := by
  rw [params, params, output.usesModules_map, output.usesResources_map]

namespace Graph.Copies

variable {g g' : Graph} {body : Body} {a : Analysis} (h : Copies ι g g')
  (hg : g.Resolved body a) (hlinked : g.Linked)
  (hg' : g'.Resolved (body.map ι) (a.map ι)) (hlinked' : g'.Linked)

include h hg hlinked hg' hlinked'

/-- **An analysed body is written as the same script in a copy of its graph**, with the same
effects on the stores. -/
theorem compile {o : Options} {output : Output}
    (hw : (o.layout g a).output o.mode body = .ok output) (stores : Stores)
    (resolver : Resolver) :
    g'.compile (a.map ι) (body.map ι) o stores resolver = g.compile a body o stores resolver := by
  have hcopies : (o.layout g a).Copies ι (o.layout g' (a.map ι)) := ⟨h, rfl, rfl, rfl⟩
  have hlinks := Links.ofMentions_map h.injective resolver stores output.mentions
  have hsuspends : (a.map ι).suspends none = a.suspends none := hcopies.suspends none
  rw [compile_of_output hg hlinked hw, compile_of_output hg' hlinked' (hcopies.output hw)]
  simp only [Ledger.outcome, Output.mentions_map, hlinks, Access.params_map, Output.render_map h.injective,
    Links.splice_map, producedKeys_map, hsuspends]
  simp [Links.map]

end Graph.Copies

end ScriptGraph
