import ScriptGraph.Proofs.Emission.References

/-!
# Nodes are written as their templates say

* `Layout.SpellsNode` : a fragment spells the parts of the node that is written out in it;
* `Layout.spellsNode_output` : every fragment of a script in which a node is written out does;
* `Layout.SpellsNode.of_text`, `Layout.SpellsNode.of_template` : what is written for a given text, and
  for a template without awaiting.
-/

namespace ScriptGraph

/-- The node is a template with these parts, which awaits nothing. -/
def Graph.IsTemplate (g : Graph) (e : NodeId) (parts : List Part) : Prop :=
  ∃ n, g.node? e = some n ∧ n.kind = .template parts ∧ n.flags.awaits = false

theorem Graph.Extends.isTemplate {g g' : Graph} (h : g.Extends g') {e : NodeId} {parts : List Part}
    (he : g.IsTemplate e parts) : g'.IsTemplate e parts := by
  obtain ⟨n, hn, hk, hawaits⟩ := he
  exact ⟨n, h.node?_eq hn (hk ▸ rfl), hk, hawaits⟩

theorem Graph.Extends.kindOf?_text {g g' : Graph} (h : g.Extends g') {e : NodeId} {code : String}
    (he : g.kindOf? e = some (.text code)) : g'.kindOf? e = some (.text code) := by
  obtain ⟨n, hn, hk⟩ := kindOf?_eq_some.1 he
  exact kindOf?_eq_some.2 ⟨n, h.node?_eq hn (hk ▸ rfl), hk⟩

namespace Layout

variable {l : Layout} {e : NodeId} {f : Fragment}

/-- The fragment spells the parts of the node that is written out in it. -/
def SpellsNode (l : Layout) : Fragment → Prop
  | .expansion e enclosed pieces => ∀ n, l.graph.node? e = some n → ∃ pos spelled,
    enclosed = encloses n pos ∧
      List.Forall₂ (fun q f => Fragment.Spells f q) (l.shape e n).1 spelled ∧
      pieces = spelled ++ (l.shape e n).2
  | .lambda f _ _ _ _ => l.graph.isFunction f = true
  | _ => False

def SpellsWithin (l : Layout) (e : NodeId) (_ : Position) (f : Fragment) : Prop :=
  f.node? = some e ∧ ∀ w ∈ f.written, l.SpellsNode w

theorem closed_spellsWithin : l.Closed l.SpellsWithin where
  parameter _ _ _ _ _ := ⟨rfl, nofun⟩
  function _ _ _ _ _ hf _ _ hb :=
    ⟨rfl, List.forall_mem_cons.2 ⟨hf, throughout_block (hb.imp fun _ _ _ h => h.2)⟩⟩
  inline e n pos pieces hn _ _ _ hpieces := by
    refine ⟨rfl, List.forall_mem_cons.2 ⟨fun n' hn' => ?_, ?_⟩⟩
    · obtain rfl : n = n' := Option.some.inj (hn.symm.trans hn')
      exact ⟨pos, pieces, rfl, spells_of_parts (fun _ _ _ h => h.1) hpieces, rfl⟩
    · rw [writtenInAll_append, l.written_of_shape, List.append_nil]
      exact throughout_parts (hpieces.imp fun _ _ h => h.imp fun _ _ _ h => h.2)

/-- **Every fragment of a script in which a node is written out spells the node's parts.** -/
theorem spellsNode_output {mode : CompileMode} {body : Body} {o : Output}
    (ho : l.output mode body = .ok o) : ∀ w ∈ o.written, l.SpellsNode w :=
  throughout_output ((closed_spellsWithin.of_output ho).imp fun _ _ _ h => h.2)

theorem SpellsNode.exists_expansion (h : l.SpellsNode f) (he : f.node? = some e) {n : Node}
    (hn : l.graph.node? e = some n) (hf : l.graph.isFunction e = false) :
    ∃ pos spelled, List.Forall₂ (fun q f => Fragment.Spells f q) (l.shape e n).1 spelled ∧
      f = .expansion e (encloses n pos) (spelled ++ (l.shape e n).2) := by
  unfold SpellsNode at h
  split at h
  · obtain rfl := Option.some.inj he
    obtain ⟨pos, spelled, rfl, hspelled, rfl⟩ := h n hn
    exact ⟨pos, spelled, hspelled, rfl⟩
  · obtain rfl := Option.some.inj he
    rw [hf] at h
    cases h
  · exact h.elim

theorem SpellsNode.of_text (h : l.SpellsNode f) (he : f.node? = some e) {code : String}
    (hk : l.graph.kindOf? e = some (.text code)) : f = .expansion e false [.text code] := by
  have hf : l.graph.isFunction e = false := by rw [Graph.isFunction, hk]
  obtain ⟨⟨scope, flags, kind⟩, hn, rfl⟩ := Graph.kindOf?_eq_some.1 hk
  obtain ⟨pos, spelled, hspelled, rfl⟩ := h.exists_expansion he hn hf
  obtain ⟨piece, rest, hpiece, hrest, rfl⟩ := List.forall₂_cons_left_iff.1 hspelled
  cases hpiece
  cases hrest
  rfl

theorem SpellsNode.of_template (h : l.SpellsNode f) (he : f.node? = some e) {parts : List Part}
    (ht : l.graph.IsTemplate e parts) : ∃ pieces, f = .expansion e false pieces ∧
      List.Forall₂ (fun q f => Fragment.Spells f q) parts pieces := by
  obtain ⟨⟨scope, flags, kind⟩, hn, rfl, hawaits⟩ := ht
  have hf : l.graph.isFunction e = false := by rw [Graph.isFunction, Graph.kindOf?_of_node hn]
  obtain ⟨pos, spelled, hspelled, rfl⟩ := h.exists_expansion he hn hf
  refine ⟨spelled, ?_, ?_⟩
  · rw [encloses, show flags.awaits = false from hawaits]
    exact congrArg _ (List.append_nil spelled)
  · simpa [shape, Node.template, hawaits] using hspelled

end Layout

end ScriptGraph
