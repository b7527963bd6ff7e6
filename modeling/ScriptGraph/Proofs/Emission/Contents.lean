import ScriptGraph.Proofs.Builder.StoreNodes
import ScriptGraph.Proofs.Emission.Pieces
import ScriptGraph.Proofs.Emission.Scoping

/-!
# Where the contents of the stores go

* `Store` : the two stores; `Fragment.holds?`, `Declaration.holds?` : the store that is written as a
  fragment, or that a declaration is set to;
* `Output.heads` : the declarations at the top level of a script;
* `Output.withContents` : the script with the contents of the stores written out in its declarations;
* `Layout.holdsStores_output` : the stores are mentioned in declarations at the top level, each in one
  of its own.
-/

namespace ScriptGraph

/-! ## Stores in scripts -/

/-- A script reaches modules and resources through a store each. -/
inductive Store
  | modules
  | resources
deriving DecidableEq

namespace Store

/-- The kind of the node that stands for the store. -/
def kind : Store → Kind
  | .modules => .moduleStore
  | .resources => .resourceStore

/-- What is written for the node. -/
def fragment : Store → Fragment
  | .modules => .moduleStore
  | .resources => .resourceStore

end Store

/-- The store that a node stands for. -/
def Kind.holds? : Kind → Option Store
  | .moduleStore => some .modules
  | .resourceStore => some .resources
  | _ => none

/-- The store whose contents are mentioned. -/
def Mention.holds? : Mention → Option Store
  | .moduleStore => some .modules
  | .resourceStore => some .resources
  | _ => none

/-- The store that a fragment is written for. -/
def Fragment.holds? : Fragment → Option Store
  | .expansion _ false [.moduleStore] => some .modules
  | .expansion _ false [.resourceStore] => some .resources
  | _ => none

/-- The store that a declaration is set to. -/
def Declaration.holds? : Declaration → Option Store
  | .mk _ _ accessor init => if accessor then none else init.holds?

/-- The declaration with the contents of its store, if it is set to one. -/
def Declaration.withContents (contents : Store → String) : Declaration → Declaration
  | .mk e name accessor init =>
    match (Declaration.mk e name accessor init).holds? with
    | some s => .mk e name accessor (.text (contents s))
    | none => .mk e name accessor init

namespace Output

/-- The declarations at the top level. -/
def heads : Output → List Declaration
  | .script ds _ => ds
  | .evaluation (.value ds _) => ds
  | .evaluation (.statements ds _) => ds

/-- The script with the contents of the stores written out where these are declared. -/
def withContents (contents : Store → String) : Output → Output
  | .script ds list => .script (ds.map (Declaration.withContents contents)) list
  | .evaluation (.value ds result) =>
    .evaluation (.value (ds.map (Declaration.withContents contents)) result)
  | .evaluation (.statements ds list) =>
    .evaluation (.statements (ds.map (Declaration.withContents contents)) list)

/-- Whether the script mentions the contents of a store. -/
def uses (o : Output) : Store → Bool
  | .modules => o.usesModules
  | .resources => o.usesResources

theorem uses_iff (o : Output) (s : Store) :
    o.uses s = true ↔ s ∈ o.mentions.filterMap Mention.holds? := by
  have hmem : s ∈ o.mentions.filterMap Mention.holds? ↔ ∃ m ∈ o.mentions, m.holds? = some s := by
    simp only [List.mem_filterMap]
  rw [hmem]
  cases s with
  | modules =>
    rw [uses, usesModules_iff]
    refine ⟨fun h => ⟨_, h, rfl⟩, fun ⟨m, hm, hs⟩ => ?_⟩
    cases m with
    | moduleStore => exact hm
    | _ => cases hs
  | resources =>
    rw [uses, usesResources_iff]
    refine ⟨fun h => ⟨_, h, rfl⟩, fun ⟨m, hm, hs⟩ => ?_⟩
    cases m with
    | resourceStore => exact hm
    | _ => cases hs

end Output

/-- The stores among mentions. -/
def storesIn (ms : List Mention) : List Store := ms.filterMap Mention.holds?

theorem storesIn_append (ms ms' : List Mention) :
    storesIn (ms ++ ms') = storesIn ms ++ storesIn ms' := List.filterMap_append

theorem Fragment.storesIn_mentions {f : Fragment} {s : Store} (h : f.holds? = some s) :
    storesIn f.mentions = [s] := by
  unfold holds? at h
  split at h
  · cases h
    rfl
  · cases h
    rfl
  · cases h

/-! ## What is written for the stores -/

namespace Graph

variable {g : Graph} {e : NodeId} {s : Store}

/-- The store that a node stands for. -/
def holds? (g : Graph) (e : NodeId) : Option Store := (g.kindOf? e).bind Kind.holds?

theorem holds?_eq_some : g.holds? e = some s ↔ g.kindOf? e = some s.kind := by
  unfold holds?
  cases hk : g.kindOf? e with
  | none => simp
  | some k => cases k <;> cases s <;> simp [Kind.holds?, Store.kind]

theorem Stocked.holds?_inj (hstocked : g.Stocked) {e' : NodeId} (h : g.holds? e = some s)
    (h' : g.holds? e' = some s) : e = e' := by
  rw [holds?_eq_some] at h h'
  cases s with
  | modules => exact Option.some.inj ((hstocked.modules e h).symm.trans (hstocked.modules e' h'))
  | resources =>
    exact Option.some.inj ((hstocked.resources e h).symm.trans (hstocked.resources e' h'))

theorem node?_of_holds (hlinked : g.Linked) (hstocked : g.Stocked) (h : g.holds? e = some s) :
    g.node? e = some .modules ∨ g.node? e = some .resources := by
  rw [holds?_eq_some] at h
  cases s with
  | modules => exact .inl (hlinked.modules e (hstocked.modules e h))
  | resources => exact .inr (hlinked.resources e (hstocked.resources e h))

end Graph

namespace Layout

variable {l : Layout} {e : NodeId} {pos : Position}

/-- A store is written as its contents, and nothing else mentions contents. -/
def WrittenFor (l : Layout) (e : NodeId) (f : Fragment) : Prop :=
  match l.graph.holds? e with
  | some s => f = .expansion e false [s.fragment]
  | none => storesIn f.mentions = []

def HoldsStores (l : Layout) (e : NodeId) (_ : Position) (f : Fragment) : Prop :=
  e ∈ l.analysis.order → l.WrittenFor e f

theorem WrittenFor.of_none {f : Fragment} (h : l.WrittenFor e f) (hnone : l.graph.holds? e = none) :
    storesIn f.mentions = [] := by
  rwa [WrittenFor, hnone] at h

section Nodes

variable {body : Body} (h : l.graph.Resolved body l.analysis) (hlinked : l.graph.Linked)
  (hstocked : l.graph.Stocked)

include h hlinked hstocked

/-- The stores are declared at the top level, and are no accessors. -/
theorem declared_of_holds {s : Store} (he : e ∈ l.analysis.order)
    (hs : l.graph.holds? e = some s) : l.analysis.isDeclared e = true ∧
      l.analysis.isAccessor e = false ∧ l.graph.scopeOf e = none := by
  have hnode := Graph.node?_of_holds hlinked hstocked hs
  obtain ⟨hdeclared, haccessor⟩ := h.declared_store he hnode
  refine ⟨hdeclared, haccessor, ?_⟩
  rcases hnode with hn | hn <;> rw [Graph.scopeOf_of_node hn] <;> rfl

theorem storesIn_use {f : Fragment} (hf : l.UseAs l.HoldsStores e pos f)
    (he : e ∈ l.analysis.order) : storesIn f.mentions = [] := by
  unfold UseAs at hf
  split at hf
  · obtain ⟨name, _, rfl⟩ := hf
    rfl
  · rename_i hd
    refine (hf he).of_none (Option.eq_none_iff_forall_ne_some.2 fun s hs => hd ?_)
    exact (declared_of_holds h hlinked hstocked he hs).1

theorem storesIn_parts {ps : List (Part × Position)} {fs : List Fragment}
    (hfs : List.Forall₂ (l.PartAs l.HoldsStores) ps fs)
    (hps : ∀ e ∈ (ps.map (·.1)).filterMap Part.node?, e ∈ l.analysis.order) :
    storesIn (mentionsOfAll fs) = [] := by
  induction hfs with
  | nil => rfl
  | @cons p f ps fs hp _ ih =>
    obtain ⟨part, pos⟩ := p
    cases part with
    | text t =>
      cases hp
      exact ih hps
    | node e =>
      obtain ⟨he, hps⟩ := List.forall_mem_cons.1 hps
      rw [mentionsOfAll, storesIn_append, storesIn_use h hlinked hstocked hp he, ih hps]
      rfl

/-- A declaration is set to a store, or it does not mention the contents of one. -/
theorem holds_declaration {d : Declaration} (hd : l.DeclarationAs l.HoldsStores e d)
    (he : e ∈ l.analysis.order) :
    d.holds? = l.graph.holds? e ∧ storesIn d.mentions = (l.graph.holds? e).toList := by
  obtain ⟨name, init, _, hinit, rfl⟩ := hd
  have hwritten := hinit he
  rw [WrittenFor] at hwritten
  split at hwritten
  · rename_i s hs
    have haccessor := (declared_of_holds h hlinked hstocked he hs).2.1
    rw [hwritten, hs, haccessor]
    cases s <;> exact ⟨rfl, rfl⟩
  · rename_i hnone
    rw [hnone]
    refine ⟨Option.eq_none_iff_forall_ne_some.2 fun s hs => ?_, hwritten⟩
    rw [Declaration.holds?] at hs
    split at hs
    · cases hs
    · rw [Fragment.storesIn_mentions hs] at hwritten
      cases hwritten

theorem holds_declarations {es : List NodeId} {ds : List Declaration}
    (hds : List.Forall₂ (l.DeclarationAs l.HoldsStores) es ds)
    (hes : ∀ e ∈ es, e ∈ l.analysis.order) :
    ds.filterMap Declaration.holds? = es.filterMap l.graph.holds? ∧
      storesIn (mentionsOfDeclarations ds) = es.filterMap l.graph.holds? := by
  induction hds with
  | nil => exact ⟨rfl, rfl⟩
  | @cons e d es ds hd _ ih =>
    obtain ⟨he, hes⟩ := List.forall_mem_cons.1 hes
    obtain ⟨hholds, hmentions⟩ := holds_declaration h hlinked hstocked hd he
    obtain ⟨ihholds, ihmentions⟩ := ih hes
    rw [mentionsOfDeclarations, storesIn_append, hmentions, ihmentions, List.filterMap_cons,
      List.filterMap_cons, hholds, ihholds]
    cases l.graph.holds? e <;> exact ⟨rfl, rfl⟩

/-- A body mentions the contents of stores in its declarations only. -/
theorem storesIn_body {ds : List Declaration} {inner : Body} {b : Block}
    (hb : l.BodyAs l.HoldsStores ds b inner) (hroots : ∀ e ∈ inner.roots, e ∈ l.analysis.order) :
    storesIn b.mentions = storesIn (mentionsOfDeclarations ds) := by
  cases inner with
  | value root =>
    obtain ⟨result, hresult, rfl⟩ := hb
    have hnone := storesIn_use h hlinked hstocked hresult (hroots root List.mem_cons_self)
    rw [Block.mentions, storesIn_append, hnone, List.append_nil]
  | statements roots =>
    obtain ⟨list, hlist, rfl⟩ := hb
    have hnone := storesIn_parts h hlinked hstocked hlist (by rwa [filterMap_statementParts])
    rw [Block.mentions, storesIn_append, hnone, List.append_nil]

/-- What is written for a store is its contents, and nothing else that is written mentions them. -/
theorem closed_holdsStores : l.Closed l.HoldsStores := by
  have hmem (scope : Scope) : ∀ e ∈ l.analysis.declarationsOf scope, e ∈ l.analysis.order :=
    declarationsOf_mem_order h scope
  refine ⟨?_, ?_, ?_⟩
  · intro e pos name hp _ _
    obtain ⟨i, hk⟩ := Graph.isParameter_iff.1 hp
    rw [WrittenFor, show l.graph.holds? e = none by rw [Graph.holds?, hk]; rfl]
    rfl
  · intro f pos params inner b hf _ hbody hb hf'
    obtain ⟨arity, state, hk⟩ := Graph.isFunction_iff.1 hf
    obtain ⟨ds, hds, hb⟩ := hb
    rw [WrittenFor, show l.graph.holds? f = none by rw [Graph.holds?, hk]; rfl]
    show storesIn b.mentions = []
    rw [storesIn_body h hlinked hstocked hb fun e he => h.surveyed.body_mem hf' hbody he,
      (holds_declarations h hlinked hstocked hds (hmem _)).2, List.filterMap_eq_nil_iff]
    intro e he
    refine Option.eq_none_iff_forall_ne_some.2 fun s hs => ?_
    have hscope := (declared_of_holds h hlinked hstocked (hmem _ e he) hs).2.2
    rw [(h.mem_declarationsOf_iff.1 he).2] at hscope
    cases hscope
  · intro e n pos pieces hn _ _ _ hpieces he
    have hk := Graph.kindOf?_of_node hn
    have hparts := storesIn_parts h hlinked hstocked hpieces fun c hc => by
      rw [map_fst_positioned, children_of_shape hn] at hc
      exact h.surveyed.child_mem he hc
    rw [WrittenFor]
    split
    · rename_i s hs
      rw [Graph.holds?_eq_some, hk] at hs
      obtain ⟨scope, flags, kind⟩ := n
      cases Option.some.inj hs
      cases s <;> cases hpieces <;> rfl
    · rename_i hnone
      show storesIn (mentionsOfAll (pieces ++ (l.shape e n).2)) = []
      rw [mentionsOfAll_append, storesIn_append, hparts, List.nil_append]
      rw [Graph.holds?, hk] at hnone
      unfold shape
      split <;> first | rfl | simp_all [Kind.holds?]

/-- **The stores are mentioned in declarations at the top level**, each in one of its own. -/
theorem holdsStores_output {mode : CompileMode} {o : Output} (ho : l.output mode body = .ok o) :
    storesIn o.mentions = o.heads.filterMap Declaration.holds? ∧
      (o.heads.filterMap Declaration.holds?).Nodup := by
  have hroots : ∀ e ∈ body.roots, e ∈ l.analysis.order := fun e he => h.surveyed.root_mem he
  have hnodup : ((l.analysis.declarationsOf none).filterMap l.graph.holds?).Nodup :=
    (h.nodup_declarationsOf none).filterMap fun _ _ _ hs hs' => hstocked.holds?_inj hs hs'
  have hblock {ds : List Declaration}
      (hds : List.Forall₂ (l.DeclarationAs l.HoldsStores) (l.analysis.declarationsOf none) ds) :
      storesIn (mentionsOfDeclarations ds) = ds.filterMap Declaration.holds? ∧
        (ds.filterMap Declaration.holds?).Nodup := by
    obtain ⟨hholds, hmentions⟩ :=
      holds_declarations h hlinked hstocked hds (declarationsOf_mem_order h none)
    exact ⟨hmentions.trans hholds.symm, hholds ▸ hnodup⟩
  have hout := (closed_holdsStores h hlinked hstocked).of_output ho
  cases mode with
  | statements =>
    obtain ⟨ds, list, ⟨ds', hds, hb⟩, rfl⟩ := hout
    have hbody := storesIn_body h hlinked hstocked hb hroots
    obtain ⟨_, _, heq⟩ := hb
    cases heq
    exact ⟨hbody.trans (hblock hds).1, (hblock hds).2⟩
  | evaluation =>
    obtain ⟨root, b, rfl, ⟨ds, hds, hb⟩, rfl⟩ := hout
    have hbody := storesIn_body h hlinked hstocked hb hroots
    obtain ⟨result, _, rfl⟩ := hb
    exact ⟨hbody.trans (hblock hds).1, (hblock hds).2⟩

end Nodes

end Layout

end ScriptGraph
