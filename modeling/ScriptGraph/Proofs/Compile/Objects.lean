import ScriptGraph.Proofs.Compile.Splicing
import ScriptGraph.Proofs.Emission.Placements
import ScriptGraph.Proofs.Host.Records
import ScriptGraph.Proofs.Host.Sharing

/-!
# The objects of a compiled script

* `Compiled.WritesAs` : wherever a node is written out, the code has a text of some kind;
* `Ecma.MakesOwn` : an object literal makes an object with certain own properties;
* `Json.ReadsAs` : a text is the literal of a JSON value, and has its value but for `__proto__`;
* `Builder.properties_of_compile` : records and JSON values become objects with the keys that they
  have, but for `__proto__`;
* `Builder.properties_prototypeExample` : an entry with this key gets lost.
-/

namespace ScriptGraph

open Ecma

variable {σ : Type}

/-! ## Texts of objects -/

/-- Wherever the node is written out, the code has such a text. -/
def Compiled.WritesAs (x : Compiled) (o : Options) (output : Output) (links : Links) (e : NodeId)
    (P : List Char → Prop) : Prop :=
  ∀ p ∈ output.placements links (o.access.params output), p.fragment.node? = some e →
    ∃ text, x.code.toList = links.splice o.access output p.before ++ text ++
      links.splice o.access output p.after ∧ P text

/-- With any reader that reads the values, the object literal makes an object with these own
properties. -/
def Ecma.MakesOwn (ds : List (String × List Char)) (own : List String) : Prop :=
  ∀ {α : Type} (value : List Char → Option (α × List Char)) (inherits : α → Bool)
    (xs : List (String × α)), List.Forall₂ (ValueReads value) ds xs →
      ∃ object, readObject (objectOf? inherits) value (objectText ds) = some (object, []) ∧
        object.ownKeys = own

theorem Ecma.makesOwn_of_nodup {ds : List (String × List Char)} (h : (ds.map (·.1)).Nodup) :
    MakesOwn ds ((ds.map (·.1)).filter (· ≠ prototypeKey)) := by
  intro α value inherits xs hxs
  have hkeys : xs.map (·.1) = ds.map (·.1) := by
    clear h
    induction hxs with
    | nil => rfl
    | cons hx _ ih => exact congrArg₂ (· :: ·) hx.1.symm ih
  have hobject : objectOf? inherits xs = some _ := objectOf_of_nodup (hkeys ▸ h)
  refine ⟨_, ?_, (ownKeys_objectOfDistinct inherits xs).trans (congrArg _ hkeys)⟩
  have hread := readObject_objectText hxs hobject []
  rwa [List.append_nil] at hread

/-- The text is the object literal of a record: it has what is written for the nodes of the values,
and makes an object with the keys but for `__proto__`. -/
def Links.RecordText (links : Links) (a : Access) (o : Output) (es : List (String × NodeId))
    (text : List Char) : Prop :=
  ∃ ds : List (String × Fragment), HostValue.ValuesOf es ds ∧
    text = objectText (ds.map fun d => (d.1, links.splice a o (d.2.render links))) ∧
    MakesOwn (ds.map fun d => (d.1, links.splice a o (d.2.render links)))
      ((es.map (·.1)).filter (· ≠ prototypeKey))

/-- The text is the literal of a value. It has the value in which every entry is an own property, if
no key is `__proto__`, and its objects lack this key. -/
structure Json.ReadsAs (v : Json) (text : List Char) : Prop where
  literal : text = v.literalChars
  value : evaluateLiteral text = some (v.literalValue, [])
  own : ∀ entries, .object entries ∈ v.parts → ∃ object : Object Value,
    (Json.object entries).literalValue = .ofObject object ∧
      object.ownKeys = (entries.map (·.1)).filter (· ≠ prototypeKey)
  faithful : v.literalValue = v.value ↔ ∀ u ∈ v.parts, u.NoPrototype

theorem Json.readsAs_literalChars {v : Json} (h : v.Distinct) : v.ReadsAs v.literalChars where
  literal := rfl
  value := by
    have hread := evaluateLiteral_literalChars h (show EndsNumber [] from nofun)
    rwa [List.append_nil] at hread
  own entries _ := ownKeys_literalValue entries
  faithful := literalValue_eq_value_iff v

/-! ## Splicing objects -/

theorem separates_literalChars {v : Json} (h : v.isComposite = true) : Separates v.literalChars := by
  have hnul : '\x00' ∉ v.literalChars := fun hmem =>
    absurd (v.printed_literalChars _ hmem).1 (by decide)
  cases v with
  | array items =>
    exact separates_of_mem (c := '[') hnul List.mem_cons_self (by decide)
  | object entries =>
    exact separates_of_mem (c := '\x7b') hnul List.mem_cons_self (by decide)
  | _ => cases h

namespace Links

variable {links : Links} {a : Access} {o : Output}

/-- Only the values of an object literal are spliced. -/
theorem splice_objectText (x : List Char) (ds : List (String × List Char)) (y : List Char) :
    links.splice a o (x ++ objectText ds ++ y) =
      links.splice a o x ++ objectText (ds.map fun d => (d.1, links.splice a o d.2)) ++
        links.splice a o y := by
  have hopen : Separates ['\x7b'] :=
    separates_of_mem (c := '\x7b') (by decide) (by decide) (by decide)
  have hclose : Separates ['\x7d'] :=
    separates_of_mem (c := '\x7d') (by decide) (by decide) (by decide)
  have hkey (key : String) : Separates ((propertyKey key).toList ++ [':']) := by
    refine separates_of_mem (c := ':') (fun hmem => ?_) (by simp) (by decide)
    rcases List.mem_append.1 hmem with hmem | hmem
    · exact absurd (printed_propertyKey key _ hmem).1 (by decide)
    · exact absurd (List.mem_singleton.1 hmem) (by decide)
  have hdefinition (d : String × List Char) :
      links.splice a o ((propertyKey d.1).toList ++ ':' :: d.2) =
        (propertyKey d.1).toList ++ ':' :: links.splice a o d.2 := by
    have hsplice : links.splice a o ([] ++ (((propertyKey d.1).toList ++ [':']) ++ d.2)) = _ :=
      splice_append (hkey d.1) [] d.2
    rw [splice_of_notMem List.not_mem_nil] at hsplice
    simpa using hsplice
  have htext (ds : List (String × List Char)) (x y : List Char) : x ++ objectText ds ++ y =
      x ++ (['\x7b'] ++ (joined [','] (ds.map fun d => (propertyKey d.1).toList ++ ':' :: d.2) ++
        (['\x7d'] ++ y))) := by
    simp [objectText]
  rw [htext, htext, splice_append hopen, splice_append hclose, splice_joined, List.map_map,
    List.map_map]
  exact congrArg _ (congrArg _ (congrArg₂ _ (congrArg _
    (List.map_congr_left fun d _ => hdefinition d)) rfl))

end Links

/-- With snapshots, the contents of the resource store are the literal of the list of resources. -/
theorem toList_resourcesText {a : Access} (h : a.resourceMode = .snapshot) (stores : Stores) :
    (a.resourcesText stores).toList =
      (Json.array (stores.resources.map (·.2))).literalChars := by
  have htext : a.resourcesText stores =
      Stores.bracketed (stores.resources.map (·.2.literal)) := by
    rw [Access.resourcesText, h]
    rfl
  have hliteral (v : Json) : v.literal.toList = v.literalChars := String.toList_ofList
  rw [htext, Stores.toList_bracketed, Json.literalChars, Json.literalItems_eq, List.map_map,
    List.map_map]
  exact congrArg (fun texts => '[' :: joined [','] texts ++ [']'])
    (List.map_congr_left fun r _ => hliteral r.2)

theorem Json.mem_partsOfItems {u : Json} {items : List Json} :
    u ∈ Json.partsOfItems items ↔ ∃ v ∈ items, u ∈ v.parts := by
  induction items with
  | nil => simp [Json.partsOfItems]
  | cons v rest ih => simp [Json.partsOfItems, ih]

theorem Json.distinct_array {items : List Json} (h : ∀ v ∈ items, v.Distinct) :
    (Json.array items).Distinct := by
  intro entries hmem
  obtain ⟨v, hv, hmem⟩ := Json.mem_partsOfItems.1 ((List.mem_cons.1 hmem).resolve_left nofun)
  exact h v hv entries hmem

theorem Json.distinct_single (key : String) (n : Json.Number) :
    (Json.object [(key, .number n)]).Distinct := by
  intro entries hmem
  simp only [Json.parts, Json.partsOfEntries, List.append_nil, List.mem_cons, List.not_mem_nil,
    or_false, reduceCtorEq, Json.object.injEq] at hmem
  subst hmem
  exact List.nodup_singleton key

/-! ## What is written for converted values -/

theorem Compiled.Presents.code_of_placement {x : Compiled} {o : Options} {output : Output}
    {links : Links} (h : x.Presents o output links) {p : Placement}
    (hp : p ∈ output.placements links (o.access.params output)) :
    x.code.toList =
      links.splice o.access output (p.before ++ p.fragment.render links ++ p.after) := by
  rw [h.code, String.toList_ofList, ← output.text_of_placement _ p hp]
  rfl

section Written

variable {l : Layout} {mode : CompileMode} {body : Body} {o : Options} {output : Output}
  {links : Links} {x : Compiled} {e : NodeId}

theorem Layout.spellsNode_placement (ho : l.output mode body = .ok output) {p : Placement}
    {params : List String} (hp : p ∈ output.placements links params) : l.SpellsNode p.fragment :=
  l.spellsNode_output ho p.fragment (output.fragment_mem_written hp)

theorem Compiled.Presents.writesAs_record (h : x.Presents o output links)
    (ho : l.output mode body = .ok output) {es : List (String × NodeId)}
    (he : l.graph.IsTemplate e (HostValue.recordTemplate es)) (hkeys : (es.map (·.1)).Nodup) :
    x.WritesAs o output links e (links.RecordText o.access output es) := by
  intro p hp hnode
  obtain ⟨pieces, hpieces, hspells⟩ :=
    (Layout.spellsNode_placement ho hp).of_template hnode he
  obtain ⟨ds, hds, hrender⟩ := HostValue.render_recordTemplate hspells
  have htext : p.fragment.render links = objectText (ds.map fun d => (d.1, d.2.render links)) := by
    rw [hpieces, ← hrender]
    rfl
  have hspliced : (ds.map fun d => (d.1, links.splice o.access output (d.2.render links))).map
      (·.1) = es.map (·.1) := by
    rw [List.map_map]
    exact hds.map_fst
  refine ⟨_, ?_, ds, hds, rfl, hspliced ▸ makesOwn_of_nodup (hspliced ▸ hkeys)⟩
  rw [h.code_of_placement hp, htext, Links.splice_objectText, List.map_map]
  rfl

theorem Compiled.Presents.writesAs_json (h : x.Presents o output links)
    (ho : l.output mode body = .ok output) {v : Json} (hv : v.isComposite = true)
    (he : l.graph.kindOf? e = some (.text v.literal)) (hdistinct : v.Distinct) :
    x.WritesAs o output links e v.ReadsAs := by
  intro p hp hnode
  have htext : p.fragment.render links = v.literalChars := by
    rw [(Layout.spellsNode_placement ho hp).of_text hnode he]
    exact (List.append_nil _).trans String.toList_ofList
  refine ⟨v.literalChars, ?_, Json.readsAs_literalChars hdistinct⟩
  rw [h.code_of_placement hp, htext, List.append_assoc, List.append_assoc,
    Links.splice_append (separates_literalChars hv)]

end Written

namespace Builder

variable {b c : Builder σ} {body : Body} {o : Options}

/-- **Records and JSON values become objects with the keys that they have, but for `__proto__`.**
This holds of every record where it is converted for the first time, on the builder or in the body of
a function that the compilation constructs, and so of the records among its values. It holds of every
array and object of JSON, at any depth. -/
theorem properties_of_compile (hb : b.Reached) {stores : Stores} {resolver : Resolver}
    {outcome : Outcome} {compiled : Compiled}
    (h : b.compile body o stores resolver = (outcome, c)) (hok : outcome.result = .ok compiled) :
    ∃ output links, b.script body o = .ok output ∧ compiled.Presents o output links ∧
      (∀ i (entries : List (String × HostValue σ)) b₀ e, (entries.map (·.1)).Nodup →
        b₀.state.memo.lookup i = none → (HostValue.record i entries).toNode.Gives b₀ e c →
        ∃ es, List.Forall₂ (fun entry x => x.1 = entry.1 ∧ ∃ b₁, entry.2.toNode.Gives b₁ x.2 c)
          entries es ∧ compiled.WritesAs o output links e (links.RecordText o.access output es)) ∧
      (∀ (v : Json) (x : TryBuild σ NodeId) b₀ e, v.Distinct → v.isComposite = true →
        (x = (HostValue.json v).toNode ∨ ∃ env, x = (Expression.value v).lower env) →
        x.Gives b₀ e c → compiled.WritesAs o output links e v.ReadsAs) ∧
      (o.access.resourceMode = .snapshot → output.uses .resources = true →
        (∀ r ∈ compiled.resources, r.2.Distinct) → ∃ text, text <:+: compiled.code.toList ∧
          (Json.array (compiled.resources.map (·.2))).ReadsAs text) := by
  obtain ⟨a, output, ha, ho, hcheck, hpresents, -⟩ := presents_of_compile hb h hok
  have hc : c.Reached := (ha ▸ b.analyze_leads body o.nameStem).reached hb
  refine ⟨output, _, script_eq_ok.2 ⟨hcheck, a, c, ha, ho⟩, hpresents, ?_, ?_, ?_⟩
  · rintro i entries b₀ e hkeys hnew ⟨hb₀, b₁, ops, hx, rfl⟩
    obtain ⟨es, hes, he⟩ := HostValue.isTemplate_of_record hx hnew
    have htemplate := (HostValue.extends_of_yields hb₀ hx ops).isTemplate he
    exact ⟨es, hes.imp fun _ _ hx => ⟨hx.1, hx.gives hb₀ ops⟩,
      hpresents.writesAs_record ho htemplate (HostValue.map_fst_converts hes ▸ hkeys)⟩
  · rintro v x b₀ e hdistinct hv hx ⟨hb₀, b₁, ops, hyields, rfl⟩
    obtain rfl : x = (HostValue.json v).toNode := hx.elim id fun ⟨_, h⟩ => h
    have hk := HostValue.kindOf?_of_json hv hyields
    exact hpresents.writesAs_json ho hv
      ((HostValue.extends_of_yields hb₀ hyields ops).kindOf?_text hk) hdistinct
  · intro hmode huses hdistinct
    have hstores := (Layout.holdsStores_output (l := o.layout c.state.graph a)
      (analyze_resolved hb ha) hc.linked hc.stocked ho).1
    have hplain := Options.plain_contents hcheck (Links.ofMentions resolver stores output.mentions)
    have hdeclared : Store.resources ∈ output.heads.filterMap Declaration.holds? := by
      rw [← hstores, storesIn, ← Output.uses_iff]
      exact huses
    refine ⟨_, ?_, Json.readsAs_literalChars (Json.distinct_array fun v hv => ?_)⟩
    · rw [hpresents.code, String.toList_ofList, hpresents.resources,
        ← toList_resourcesText hmode]
      exact infix_splice_render hplain huses hdeclared _
    · obtain ⟨r, hr, rfl⟩ := List.mem_map.1 hv
      exact hdistinct r hr

def innerExample : Json := .object [("b-c", .number (.integer (-1)))]

/-- A record of an object of JSON and a string. -/
def recordExample : HostValue Unit := .record 0 [("a", .json innerExample), ("d", .string "\x7d")]

def recordBuilder : Builder Unit := (run (HostValue.returning (pure recordExample)) (.empty ())).2

def recordScript : Output :=
  .script [] [.expansion 2 false [.text "\x7b", .text "a:",
    .expansion 0 false [.text "\x7b\"b-c\":(-1)\x7d"], .text ",d:",
    .expansion 1 false [.text "\"\x7d\""], .text "\x7d"]]

theorem script_recordExample : recordBuilder.script (.statements [2]) {} = .ok recordScript := by cbv

/-- The record is an object literal, and so is the object in it. -/
theorem properties_recordExample : ∃ outcome c compiled output links es x,
    recordBuilder.compile (.statements [2]) {} {} Resolver.identity = (outcome, c) ∧
    outcome.result = .ok compiled ∧ compiled.Presents {} output links ∧
    compiled.code = "(\x7ba:\x7b\"b-c\":(-1)\x7d,d:\"\x7d\"\x7d);" ∧
    es.map (·.1) = ["a", "d"] ∧ es.head? = some ("a", x) ∧
    compiled.WritesAs {} output links 2 (links.RecordText ({} : Options).access output es) ∧
    compiled.WritesAs {} output links x innerExample.ReadsAs := by
  obtain ⟨hcheck, a, c, ha, ho⟩ := script_eq_ok.1 script_recordExample
  have hreached : recordBuilder.Reached := (run_leads _ _).reached (reached_empty ())
  obtain ⟨compiled, hcode, -, hcompile⟩ := exists_compiled hreached hcheck ha ho {} Resolver.identity
  have hrun : run (HostValue.returning (pure recordExample)) (.empty ()) =
      (.ok (.value 2), recordBuilder) := Prod.ext (by cbv) rfl
  obtain ⟨ops, hops⟩ := (recordBuilder.analyze_leads (.statements [2]) "_").1
  rw [show recordBuilder.analyze (.statements [2]) "_" = (.ok a, c) from ha] at hops
  obtain ⟨output, links, -, hpresents, hrecords, hjson, -⟩ :=
    properties_of_compile hreached hcompile rfl
  obtain ⟨es, hes, hwrites⟩ := hrecords 0 _ (.empty ()) 2 (by decide) rfl
    ⟨reached_empty (), recordBuilder, ops, HostValue.yields_of_run hrun, hops⟩
  obtain ⟨⟨key, x⟩, _, ⟨rfl, b₁, hgives⟩, hrest, rfl⟩ := List.forall₂_cons_left_iff.1 hes
  obtain ⟨⟨key', y⟩, _, ⟨rfl, -⟩, hnil, rfl⟩ := List.forall₂_cons_left_iff.1 hrest
  cases hnil
  refine ⟨_, c, compiled, output, links, _, x, hcompile, rfl, hpresents, ?_, rfl, rfl, hwrites,
    hjson innerExample _ b₁ x (Json.distinct_single _ _) rfl (.inl rfl) hgives⟩
  rw [hcode.code]
  decide

def prototypeExample : Json := .object [("__proto__", .number (.integer 1))]

def prototypeBuilder : Builder Unit :=
  (run (HostValue.returning (pure (.json prototypeExample))) (.empty ())).2

theorem script_prototypeExample : prototypeBuilder.script (.statements [0]) {} =
    .ok (.script [] [.expansion 0 false [.text "\x7b__proto__:1\x7d"]]) := by cbv

/-- The entry is to set the prototype, which a number cannot be. The object has no properties. -/
theorem properties_prototypeExample : ∃ outcome c compiled,
    prototypeBuilder.compile (.statements [0]) {} {} Resolver.identity = (outcome, c) ∧
    outcome.result = .ok compiled ∧ compiled.code = "(\x7b__proto__:1\x7d);" ∧
    evaluateLiteral "\x7b__proto__:1\x7d".toList = some (.object none [], []) ∧
    prototypeExample.value = .object none [("__proto__", .number "1")] := by
  obtain ⟨hcheck, a, c, ha, ho⟩ := script_eq_ok.1 script_prototypeExample
  have hreached : prototypeBuilder.Reached := (run_leads _ _).reached (reached_empty ())
  obtain ⟨compiled, hcode, -, hcompile⟩ := exists_compiled hreached hcheck ha ho {} Resolver.identity
  have hdistinct : prototypeExample.Distinct := Json.distinct_single _ _
  have htext : prototypeExample.literalChars = "\x7b__proto__:1\x7d".toList := by decide
  refine ⟨_, c, compiled, hcompile, rfl, ?_, htext ▸ (Json.readsAs_literalChars hdistinct).value, ?_⟩
  · rw [hcode.code]
    decide
  · rfl

end Builder

end ScriptGraph
