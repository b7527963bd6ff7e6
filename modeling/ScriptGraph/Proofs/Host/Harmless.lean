import ScriptGraph.Host.Value
import ScriptGraph.Proofs.Builder.Harmless
import ScriptGraph.Proofs.Text.Markup

/-!
# Host values are written without `<`

* `HostValue.bodies` : the bodies of the functions in a host value;
* `HostValue.toNode_drafts` : whatever strings and keys a host value has, no text of the nodes that
  are made for it has a `<`.
-/

namespace ScriptGraph.HostValue

open TryBuild

variable {σ : Type}

mutual

/-- The bodies of the functions in a host value. -/
def bodies : HostValue σ → List (List NodeId → Recipe σ)
  | .array _ items => bodiesOfAll items
  | .record _ entries => bodiesOfRecord entries
  | .map _ entries => bodiesOfMap entries
  | .set _ items => bodiesOfAll items
  | .function _ _ body => [body]
  | _ => []

def bodiesOfAll : List (HostValue σ) → List (List NodeId → Recipe σ)
  | [] => []
  | v :: rest => v.bodies ++ bodiesOfAll rest

def bodiesOfRecord : List (String × HostValue σ) → List (List NodeId → Recipe σ)
  | [] => []
  | (_, v) :: rest => v.bodies ++ bodiesOfRecord rest

def bodiesOfMap : List (HostValue σ × HostValue σ) → List (List NodeId → Recipe σ)
  | [] => []
  | (key, v) :: rest => key.bodies ++ v.bodies ++ bodiesOfMap rest

end

theorem harmless_literal {code : String} (h : '<' ∉ code.toList) :
    Draft.Harmless (.literal code) := by
  simpa [Draft.Harmless, Draft.texts] using h

theorem lt_notMem_enclosed {parts : List Part} {opening closing t : String}
    (ho : '<' ∉ opening.toList) (hc : '<' ∉ closing.toList)
    (hparts : ∀ t, Part.text t ∈ parts → '<' ∉ t.toList)
    (h : Part.text t ∈ .text opening :: parts ++ [Part.text closing]) : '<' ∉ t.toList := by
  rw [List.cons_append, List.mem_cons, List.mem_append, List.mem_singleton] at h
  rcases h with h | h | h
  · cases h
    exact ho
  · exact hparts t h
  · cases h
    exact hc

theorem lt_notMem_recordParts {entries : List (String × NodeId)} {t : String}
    (h : Part.text t ∈ recordParts entries) : '<' ∉ t.toList := by
  cases entries with
  | nil => cases h
  | cons entry rest =>
    obtain ⟨key, e⟩ := entry
    have h' : t = propertyKey key ++ ":" ∨
        ∃ entry ∈ rest, t = "," ++ propertyKey entry.1 ++ ":" := by
      simpa [recordParts, eq_comm] using h
    rcases h' with rfl | ⟨entry, _, rfl⟩ <;> simp

theorem lt_notMem_mapParts {entries : List (NodeId × NodeId)} {t : String}
    (h : Part.text t ∈ mapParts entries) : '<' ∉ t.toList := by
  have hfixed : ∀ t ∈ ["[", ",[", ",", "]"], '<' ∉ t.toList := by decide
  refine hfixed t ?_
  cases entries with
  | nil => cases h
  | cons entry rest =>
    have h' : t = "[" ∨ t = "," ∨ t = "]" ∨
        (∃ a b, (a, b) ∈ rest) ∧ (t = ",[" ∨ t = "," ∨ t = "]") := by
      simpa [mapParts] using h
    rcases h' with rfl | rfl | rfl | ⟨_, rfl | rfl | rfl⟩ <;> simp

theorem lt_notMem_bytesText (bytes : List UInt8) : '<' ∉ (bytesText bytes).toList := by
  have hitems : '<' ∉ (",".intercalate (bytes.map fun b =>
      String.ofList (natText b.toNat))).toList :=
    lt_notMem_intercalate (by decide) fun t ht => by
      obtain ⟨b, _, rfl⟩ := List.mem_map.1 ht
      simp
  unfold bytesText
  rw [String.toList_append, String.toList_append, List.mem_append, List.mem_append, not_or, not_or]
  exact ⟨⟨by decide, hitems⟩, by decide⟩

theorem literal_drafts {code : String} (h : '<' ∉ code.toList) :
    (literal code : TryBuild σ NodeId).Drafts Draft.Harmless :=
  .create (harmless_literal h)

theorem template_drafts {parts : List Part} (h : ∀ t, Part.text t ∈ parts → '<' ∉ t.toList) :
    (template parts : TryBuild σ NodeId).Drafts Draft.Harmless :=
  .create (harmless_template h)

theorem once_drafts (i : Nat) {x : TryBuild σ NodeId} (h : x.Drafts Draft.Harmless) :
    (once i x).Drafts Draft.Harmless := by
  refine .bind (.lift .look) fun s => ?_
  split
  · exact .pure _
  · refine .bind h fun e => .bind (.lift (.memoize i e)) fun _ => .pure e

mutual

/-- Whatever strings a host value has, no text of the nodes made for it has a `<`. -/
theorem toNode_drafts : ∀ v : HostValue σ,
    (∀ body ∈ v.bodies, ∀ args, (body args).Drafts Draft.Harmless) →
      v.toNode.Drafts Draft.Harmless
  | .undefined, _ => literal_drafts (by decide)
  | .null, _ => literal_drafts (by decide)
  | .bool true, _ => literal_drafts (by decide)
  | .bool false, _ => literal_drafts (by decide)
  | .number x, _ => literal_drafts x.lt_notMem_literal
  | .bigInteger i, _ => literal_drafts (lt_notMem_bigIntegerLiteral i)
  | .string s, _ => literal_drafts (lt_notMem_quoted s)
  | .date ms, _ => literal_drafts (by simp)
  | .bytes bs, _ => literal_drafts (lt_notMem_bytesText bs)
  | .regExp source flags, _ => literal_drafts (by simp)
  | .array i items, h => by
    refine once_drafts i (.bind (itemsToNodes_drafts items h) fun es => ?_)
    exact template_drafts fun _ =>
      lt_notMem_enclosed (by decide) (by decide) fun _ => lt_notMem_commaSeparated
  | .record i entries, h => by
    refine once_drafts i (.bind (recordToNodes_drafts entries h) fun es => ?_)
    exact template_drafts fun _ =>
      lt_notMem_enclosed (by decide) (by decide) fun _ => lt_notMem_recordParts
  | .map i entries, h => by
    refine once_drafts i (.bind (mapToNodes_drafts entries h) fun es => ?_)
    exact template_drafts fun _ =>
      lt_notMem_enclosed (by decide) (by decide) fun _ => lt_notMem_mapParts
  | .set i items, h => by
    refine once_drafts i (.bind (itemsToNodes_drafts items h) fun es => ?_)
    exact template_drafts fun _ =>
      lt_notMem_enclosed (by decide) (by decide) fun _ => lt_notMem_commaSeparated
  | .function i arity body, h =>
    once_drafts i (.lift (.function arity fun _ args => h body List.mem_cons_self args))
  | .json v, _ => by
    rw [toNode]
    split
    · exact .create fun t ht => by
        rw [List.mem_singleton.1 ht]
        exact Json.lt_notMem_literal v
    · exact literal_drafts (Json.lt_notMem_literal v)
  | .node e, _ => .pure e
  | .foreign description, _ => .throw _

theorem itemsToNodes_drafts : ∀ items : List (HostValue σ),
    (∀ body ∈ bodiesOfAll items, ∀ args, (body args).Drafts Draft.Harmless) →
      (itemsToNodes items).Drafts Draft.Harmless
  | [], _ => .pure _
  | v :: rest, h => by
    obtain ⟨hv, hrest⟩ := List.forall_mem_append.1 h
    exact .bind (toNode_drafts v hv) fun _ =>
      .bind (itemsToNodes_drafts rest hrest) fun _ => .pure _

theorem recordToNodes_drafts : ∀ entries : List (String × HostValue σ),
    (∀ body ∈ bodiesOfRecord entries, ∀ args, (body args).Drafts Draft.Harmless) →
      (recordToNodes entries).Drafts Draft.Harmless
  | [], _ => .pure _
  | (_, v) :: rest, h => by
    obtain ⟨hv, hrest⟩ := List.forall_mem_append.1 h
    exact .bind (toNode_drafts v hv) fun _ =>
      .bind (recordToNodes_drafts rest hrest) fun _ => .pure _

theorem mapToNodes_drafts : ∀ entries : List (HostValue σ × HostValue σ),
    (∀ body ∈ bodiesOfMap entries, ∀ args, (body args).Drafts Draft.Harmless) →
      (mapToNodes entries).Drafts Draft.Harmless
  | [], _ => .pure _
  | (key, v) :: rest, h => by
    obtain ⟨hboth, hrest⟩ := List.forall_mem_append.1 h
    obtain ⟨hkey, hv⟩ := List.forall_mem_append.1 hboth
    exact .bind (toNode_drafts key hkey) fun _ => .bind (toNode_drafts v hv) fun _ =>
      .bind (mapToNodes_drafts rest hrest) fun _ => .pure _

end

end ScriptGraph.HostValue
