import ScriptGraph.Proofs.Builder.Drafts
import ScriptGraph.Proofs.Builder.Nodewise

/-!
# Builders without `<`

* `Draft.Harmless` : a draft without a text that has a `<`;
* `Graph.Harmless` : no text part of a node has a `<`;
* `Builder.follows_clean` : recipes that make nodes from such drafts keep a graph so.
-/

namespace ScriptGraph

variable {σ : Type}

/-! ## Drafts -/

def Part.text? : Part → Option String
  | .text t => some t
  | .node _ => none

/-- The texts of a draft that are written as they are. -/
def Draft.texts : Draft → List String
  | .raw code => [code]
  | .literal code => [code]
  | .ident name => [name]
  | .template parts .. => parts.filterMap Part.text?
  | _ => []

def Draft.Harmless (draft : Draft) : Prop := ∀ t ∈ draft.texts, '<' ∉ t.toList

theorem harmless_template {parts : List Part} {awaits inert optional : Bool}
    (h : ∀ t, Part.text t ∈ parts → '<' ∉ t.toList) :
    Draft.Harmless (.template parts awaits inert optional) := by
  intro t ht
  obtain ⟨part, hpart, heq⟩ := List.mem_filterMap.1 ht
  cases part with
  | text t' => exact Option.some.inj heq ▸ h t' hpart
  | node e => cases heq

theorem eq_of_text_mem_commaSeparated {es : List NodeId} {t : String}
    (h : Part.text t ∈ commaSeparated (es.map .node)) : t = "," := by
  induction es with
  | nil => cases h
  | cons e es ih =>
    cases es with
    | nil => simp [commaSeparated] at h
    | cons e' es =>
      have h' : Part.text t = .node e ∨ Part.text t = .text "," ∨
          Part.text t ∈ commaSeparated ((e' :: es).map .node) := by
        simpa [commaSeparated] using h
      rcases h' with h' | h' | h'
      · cases h'
      · cases h'
        rfl
      · exact ih h'

theorem lt_notMem_commaSeparated {es : List NodeId} {t : String}
    (h : Part.text t ∈ commaSeparated (es.map .node)) : '<' ∉ t.toList := by
  rw [eq_of_text_mem_commaSeparated h]
  decide

/-! ## Nodes and graphs -/

/-- No text part of the node has a `<`. -/
def Node.Harmless (n : Node) : Prop := ∀ t, Part.text t ∈ n.template → '<' ∉ t.toList

def Graph.Harmless (g : Graph) : Prop := ∀ e n, g.node? e = some n → n.Harmless

theorem harmless_of_template_eq_nil {n : Node} (h : n.template = []) : n.Harmless := fun t ht => by
  rw [h] at ht
  cases ht

theorem lasting_harmless : Lasting fun _ n => n.Harmless where
  function _ _ _ _ _ := harmless_of_template_eq_nil rfl
  parameter _ _ _ _ := harmless_of_template_eq_nil rfl
  fill _ _ _ _ _ t ht := by simp [Node.template] at ht

namespace BuilderState

variable {s : BuilderState σ}

theorem lt_notMem_call (scope : Scope) (flags : Flags) (callee : NodeId) (args : List NodeId) :
    (⟨scope, flags, .call callee args⟩ : Node).Harmless := by
  intro t ht
  have ht : t = (if flags.optional then "?.(" else "(") ∨
      Part.text t ∈ commaSeparated (args.map .node) ∨ t = ")" := by
    simpa [Node.template] using ht
  rcases ht with rfl | ht | rfl
  · cases flags.optional <;> decide
  · exact lt_notMem_commaSeparated ht
  · decide

theorem create_harmless (h : s.graph.Harmless) {draft : Draft} (hdraft : draft.Harmless) :
    (s.create draft).2.graph.Harmless := by
  have htext : ∀ code, '<' ∉ code.toList → ∀ scope flags,
      (⟨scope, flags, .text code⟩ : Node).Harmless := by
    intro code hcode scope flags t ht
    obtain rfl : t = code := by simpa [Node.template] using ht
    exact hcode
  have hmodules : s.moduleStore.2.graph.Harmless :=
    Graph.Each.moduleStore h (harmless_of_template_eq_nil rfl)
  have hresources : s.resourceStore.2.graph.Harmless :=
    Graph.Each.resourceStore h (harmless_of_template_eq_nil rfl)
  cases draft with
  | raw code => exact Graph.Each.make h (htext code (hdraft code List.mem_cons_self) _ _)
  | literal code => exact Graph.Each.make h (htext code (hdraft code List.mem_cons_self) _ _)
  | ident name =>
    simp only [create]
    split <;> exact Graph.Each.make h (htext name (hdraft name List.mem_cons_self) _ _)
  | template parts awaits inert optional =>
    refine Graph.Each.make h fun t ht => hdraft t ?_
    exact List.mem_filterMap.2 ⟨.text t, ht, rfl⟩
  | call callee args style => exact Graph.Each.make h (lt_notMem_call _ _ callee args)
  | moduleStore => exact hmodules
  | resourceStore => exact hresources
  | module address =>
    refine Graph.Each.make hmodules fun t ht => ?_
    simp [Node.template] at ht
  | resource key value =>
    refine Graph.Each.make hresources fun t ht => ?_
    simp [Node.template] at ht
  | placeholder => exact Graph.Each.make h (harmless_of_template_eq_nil rfl)
  | slot => exact Graph.Each.make h (harmless_of_template_eq_nil rfl)

end BuilderState

namespace Builder

/-- Neither the nodes of the builder nor those that are still to be made have a text with `<`. -/
structure Clean (b : Builder σ) : Prop where
  graph : b.state.graph.Harmless
  pending : ∀ q ∈ b.pending, q.2.Drafts Draft.Harmless

theorem clean_empty (shared : σ) : (empty shared).Clean where
  graph e n hn := by simp [Graph.node?, empty] at hn
  pending _ hq := nomatch hq

theorem Clean.perform {b : Builder σ} (h : b.Clean) (op : Operation σ)
    (hop : op.Drafts Draft.Harmless) : (b.perform op).Clean where
  graph := by
    refine Graph.Each.perform lasting_harmless h.graph fun draft heq => ?_
    subst heq
    exact BuilderState.create_harmless h.graph hop
  pending := by
    cases op with
    | function arity body =>
      intro q hq
      rcases List.mem_append.1 hq with hq | hq
      · exact h.pending q hq
      · rw [List.mem_singleton.1 hq]
        exact hop _ _
    | enter f =>
      cases hreq : b.request f with
      | answer result =>
        rw [Builder.perform, hreq]
        exact h.pending
      | construct recipe c =>
        rw [perform_enter hreq]
        exact fun q hq => h.pending q ((mem_of_request hreq).2 hq)
    | leave outcome =>
      rw [Builder.perform]
      split <;> exact h.pending
    | _ => exact h.pending

/-- Recipes that make nodes from harmless drafts keep a builder clean. -/
theorem follows_clean : Follows (σ := σ) Draft.Harmless fun b c =>
    b.Clean → c.state.scopes = b.state.scopes ∧ c.Clean :=
  follows_of_perform (fun _ h => h.pending) fun _ _ h hop => h.perform _ hop

end Builder

end ScriptGraph
