import ScriptGraph.Proofs.Analysis.Cycles
import ScriptGraph.Proofs.Compile.Objects
import ScriptGraph.Proofs.Emission.Makeup
import ScriptGraph.Proofs.Operators.Operands

/-!
# The numbers of a compiled script

* `Layout.exists_render_placement` : where an operator that is applied to a text is written out, its
  own text stands beside the given one;
* `TryBuild.Gives.node?` : what is made at once is there when operations have led on;
* `Builder.operands_of_compile` : numbers are read apart from the operators that are applied to them,
  but for a point behind digits;
* `Builder.operands_pointExample` : the point of a member access is taken for that of the number.
-/

namespace ScriptGraph

open Ecma

/-! ## How an applied operator is written -/

/-- What is written for a part, where `code` is written for the node `e`. -/
def Part.WrittenWith (e : NodeId) (code : String) : Part → Fragment → Prop
  | .text t, f => f = .text t
  | .node e', f => e' = e → f = .expansion e false [.text code]

theorem exists_of_forall₂_append {α β : Type} {R : α → β → Prop} {xs ys : List α} {zs : List β}
    (h : List.Forall₂ R (xs ++ ys) zs) :
    ∃ us vs, List.Forall₂ R xs us ∧ List.Forall₂ R ys vs ∧ zs = us ++ vs := by
  induction xs generalizing zs with
  | nil => exact ⟨[], zs, .nil, h, rfl⟩
  | cons x xs ih =>
    obtain ⟨z, zs, hx, hrest, rfl⟩ := List.forall₂_cons_left_iff.1 h
    obtain ⟨us, vs, hus, hvs, rfl⟩ := ih hrest
    exact ⟨z :: us, vs, .cons hx hus, hvs, rfl⟩

theorem renderAll_words {e : NodeId} {code text : String} {fs : List Fragment}
    (h : List.Forall₂ (Part.WrittenWith e code) (Operand.words text) fs) (links : Links) :
    renderAll links fs = text.toList := by
  unfold Operand.words at h
  split at h
  · rename_i hempty
    subst hempty
    cases h
    rfl
  · obtain ⟨f, rest, hf, hrest, rfl⟩ := List.forall₂_cons_left_iff.1 h
    cases hf
    cases hrest
    exact List.append_nil _

/-- The text of the operator stands beside what is written for the operand. -/
theorem Operand.exists_render {x : Operand} {e : NodeId} {code : String} {fs : List Fragment}
    (h : List.Forall₂ (Part.WrittenWith e code) (x.parts e) fs) (links : Links) :
    ∃ before after, renderAll links fs =
      before ++ (x.left.toList ++ (code.toList ++ x.right.toList)) ++ after := by
  obtain ⟨us, rear, hus, -, rfl⟩ := exists_of_forall₂_append h
  obtain ⟨front, mid, -, hmid, rfl⟩ := exists_of_forall₂_append hus
  obtain ⟨left, rest, hleft, hrest, rfl⟩ := exists_of_forall₂_append hmid
  obtain ⟨f, right, hf, hright, rfl⟩ := List.forall₂_cons_left_iff.1 hrest
  obtain rfl : f = .expansion e false [.text code] := hf rfl
  have hcode : (Fragment.expansion e false [.text code]).render links = code.toList :=
    List.append_nil _
  refine ⟨renderAll links front, renderAll links rear, ?_⟩
  rw [Layout.renderAll_append, Layout.renderAll_append, Layout.renderAll_append, renderAll, renderAll_words hleft,
    renderAll_words hright, hcode]

/-- No mark of a store can overlap the literal of a number with the text of an operator. -/
theorem Operand.separates (x : Operand) {code : List Char} (h : NumberForm code) :
    Separates (x.left.toList ++ (code ++ x.right.toList)) := by
  have hprinted : ∀ c ∈ x.left.toList ++ (code ++ x.right.toList), IsPrinted c :=
    List.forall_mem_append.2 ⟨x.printed_left, List.forall_mem_append.2 ⟨h.isPrinted, x.printed_right⟩⟩
  obtain ⟨c, cs, rfl, hc⟩ := h.exists_cons
  have hmark : c ∉ moduleMark ∧ c ∉ resourceMark := by
    fin_cases hc <;> decide
  exact separates_of_mem (fun hmem => absurd (hprinted _ hmem).1 (by decide))
    (List.mem_append_right _ List.mem_cons_self) hmark

theorem TryBuild.Gives.node? {σ : Type} {draft : Draft} {b c : Builder σ} {e : NodeId} {n : Node}
    (h : TryBuild.Gives (ExceptT.lift (Build.create draft)) b e c)
    (hn : (b.state.create draft).2.graph.node? (b.state.create draft).1 = some n)
    (hfinal : n.kind.isFinal = true) : c.state.graph.node? e = some n := by
  obtain ⟨hb, d, ops, hyields, rfl⟩ := h
  have hcreated : Build.Yields (ExceptT.run (ExceptT.lift (Build.create draft) : TryBuild σ NodeId))
      b (.ok (b.state.create draft).1) (b.perform (.create draft)) :=
    fun _ => Builder.run_create draft _ b
  obtain ⟨heq, rfl⟩ := hyields.unique hcreated
  obtain rfl := Except.ok.inj heq
  have hsound := ((Builder.Leads.create b draft).reached hb).sound
  exact (Builder.performAll_sound_extends hsound ops).2.node?_eq hn hfinal

/-- The literal of a number, a big integer or a number of JSON. -/
def HostValue.numberLiteral? {σ : Type} : HostValue σ → Option String
  | .number x => some x.literal
  | .bigInteger i => some (bigIntegerLiteral i)
  | .json (.number n) => some (Json.number n).literal
  | _ => none

theorem HostValue.of_numberLiteral? {σ : Type} {v : HostValue σ} {code : String}
    (h : v.numberLiteral? = some code) : v.toNode = literal code ∧ NumberForm code.toList := by
  unfold numberLiteral? at h
  split at h
  · cases h
    exact ⟨rfl, Binary64.numberForm_literal _⟩
  · cases h
    exact ⟨rfl, numberForm_bigIntegerLiteral _⟩
  · rename_i n
    cases h
    refine ⟨rfl, ?_⟩
    rw [Json.literal, String.toList_ofList]
    exact Json.numberForm_numberLiteral n
  · cases h

theorem Graph.Resolved.isDeclared_of_inert {g : Graph} {body : Body} {a : Analysis}
    (h : g.Resolved body a) {e : NodeId} (hinert : (g.flagsOf e).inert = true)
    (hpinned : (g.flagsOf e).pinned = false) : a.isDeclared e = false := by
  rw [← Bool.not_eq_true]
  intro hd
  obtain ⟨count, -, hdeclared⟩ := h.exists_countsLandings
  have hreach := (h.surveyed.mem_iff e).1 (h.mem_order_of_isDeclared hd)
  rcases (hdeclared e hreach).1 hd with hp | ⟨hi, -⟩
  · rw [hpinned] at hp
    cases hp
  · rw [hinert] at hi
    cases hi

section Written

variable {l : Layout} {mode : CompileMode} {body : Body} {output : Output} {links : Links}
  {e y : NodeId} {n : Node} {code : String} {x : Operand}

/-- What is written for a part, where the node `e` has the text `code` and is not declared. -/
theorem Layout.PartAs.writtenWith {q : Part × Position} {f : Fragment}
    (h : l.PartAs l.WritesOut q f) (hk : l.graph.kindOf? e = some (.text code))
    (hd : l.analysis.isDeclared e = false) : q.1.WrittenWith e code f := by
  obtain ⟨part, pos⟩ := q
  cases part with
  | text t => exact h
  | node e' =>
    rintro rfl
    exact Layout.use_text h hk hd

/-- Where the node is written out, the text of the operator stands beside the literal. -/
theorem Layout.exists_render_placement (ho : l.output mode body = .ok output)
    (hn : l.graph.node? y = some n) (hx : x.IsApplied e n)
    (hk : l.graph.kindOf? e = some (.text code)) (hd : l.analysis.isDeclared e = false)
    {params : List String} {p : Placement} (hp : p ∈ output.placements links params)
    (hnode : p.fragment.node? = some y) : ∃ before after, p.fragment.render links =
      before ++ (x.left.toList ++ (code.toList ++ x.right.toList)) ++ after := by
  obtain ⟨htemplate, hkind⟩ := hx
  have hmade := closed_writesOut.madeOf_output ho p.fragment (output.fragment_mem_written hp)
  unfold MadeOf at hmade
  split at hmade
  · rename_i y' enclosed pieces hfragment
    rw [hfragment] at hnode ⊢
    obtain rfl : y' = y := Option.some.inj hnode
    obtain ⟨-, hmade⟩ := hmade
    obtain ⟨pos, spelled, -, hspelled, rfl⟩ := hmade n hn
    have hshape : l.shape y' n = (x.parts e, []) := by
      rw [← htemplate, shape]
      rcases hkind with ⟨parts, hkind⟩ | ⟨f, es, hkind⟩ <;> rw [hkind]
    rw [hshape] at hspelled ⊢
    have hparts : List.Forall₂ (Part.WrittenWith e code) (x.parts e) spelled := by
      rw [← map_fst_positioned pos (x.parts e), List.forall₂_map_left_iff]
      exact hspelled.imp fun q f h => h.writtenWith hk hd
    obtain ⟨before, after, hrender⟩ := Operand.exists_render hparts links
    refine ⟨opening enclosed ++ before, after ++ closing enclosed, ?_⟩
    rw [List.append_nil, Fragment.render, parenthesized_if, hrender]
    simp
  · rename_i f enclosed suspends params body hfragment
    obtain ⟨body, hbody, -⟩ := hmade
    rw [hfragment] at hnode
    obtain rfl : f = y := Option.some.inj hnode
    have hnone : l.graph.body? f = none := by
      rw [Graph.body?, Graph.kindOf?_of_node hn]
      rcases hkind with ⟨parts, hkind⟩ | ⟨f, es, hkind⟩ <;> rw [hkind]
    rw [hnone] at hbody
    cases hbody
  · exact hmade.elim

end Written

namespace Builder

variable {σ : Type} {b c : Builder σ} {body : Body} {o : Options}

/-- **Numbers are read apart from the operators that are applied to them**, but for a point behind
digits. Wherever an operator that is applied to a converted number is written out, the code has the
text of the operator directly beside the literal of the number. In front of the literal a token of the
operator ends, or none begins. Behind it the operator's punctuator begins a token, unless the literal
is digits alone and the punctuator is the point of a member access. -/
theorem operands_of_compile (hb : b.Reached) {stores : Stores} {resolver : Resolver}
    {outcome : Outcome} {compiled : Compiled}
    (h : b.compile body o stores resolver = (outcome, c)) (hok : outcome.result = .ok compiled) :
    ∃ output links, b.script body o = .ok output ∧ compiled.Presents o output links ∧
      ∀ (v : HostValue σ) code b₀ e (x : Operand) b₁ y, v.numberLiteral? = some code →
        v.toNode.Gives b₀ e c → TryBuild.Gives (ExceptT.lift (x.apply e)) b₁ y c →
        ∀ p ∈ output.placements links (o.access.params output), p.fragment.node? = some y →
        ∃ before after, p.fragment.render links =
            before ++ (x.left.toList ++ (code.toList ++ x.right.toList)) ++ after ∧
          compiled.code.toList = links.splice o.access output (p.before ++ before) ++
            (x.left.toList ++ (code.toList ++ (x.right.toList ++
              links.splice o.access output (after ++ p.after)))) ∧
          x.ReadsApart code.toList (links.splice o.access output (after ++ p.after)) := by
  obtain ⟨a, output, ha, ho, hcheck, hpresents, -⟩ := presents_of_compile hb h hok
  have hresolved := analyze_resolved hb ha
  obtain ⟨links, hpresents⟩ : ∃ links, compiled.Presents o output links := ⟨_, hpresents⟩
  refine ⟨output, links, script_eq_ok.2 ⟨hcheck, a, c, ha, ho⟩, hpresents, ?_⟩
  intro v code b₀ e x b₁ y hv he hy p hp hnode
  obtain ⟨hliteral, hform⟩ := HostValue.of_numberLiteral? hv
  rw [hliteral] at he
  have hn := TryBuild.Gives.node? he (Operand.node?_make _ _ _) rfl
  have hk := Graph.kindOf?_of_node hn
  have hd : a.isDeclared e = false := by
    refine hresolved.isDeclared_of_inert ?_ ?_ <;> rw [Graph.flagsOf_of_node hn] <;> rfl
  obtain ⟨draft, happly, hcreate⟩ := x.exists_draft e
  obtain ⟨m, hm, happlied⟩ := hcreate b₁.state
  rw [happly] at hy
  have hfinal : m.kind.isFinal = true := by
    rcases happlied.2 with ⟨_, hk⟩ | ⟨_, _, hk⟩ <;> rw [hk] <;> rfl
  have hm' := hy.node? hm hfinal
  obtain ⟨before, after, hrender⟩ := Layout.exists_render_placement
    (l := o.layout c.state.graph a) ho hm' happlied hk hd hp hnode
  refine ⟨before, after, hrender, ?_, x.readsApart hform _⟩
  have htext : p.before ++ p.fragment.render links ++ p.after = p.before ++ before ++
      ((x.left.toList ++ (code.toList ++ x.right.toList)) ++ (after ++ p.after)) := by
    rw [hrender]
    simp
  rw [hpresents.code_of_placement hp, htext, Links.splice_append (x.separates hform)]
  simp

/-- The draft of a member of the first node. -/
def memberDraft (optional : Bool) : Draft :=
  .template [.node 0, .text (Build.memberAccess "p" optional)] false false optional

/-- A member of the number one. -/
def memberExample (optional : Bool) : Builder Unit :=
  (Builder.empty ()).performAll [.create (.literal "1"), .create (memberDraft optional)]

def memberText (optional : Bool) : Fragment :=
  .expansion 1 false [.expansion 0 false [.text "1"], .text (Build.memberAccess "p" optional)]

theorem script_memberExample : (memberExample true).script (.statements [1]) {} =
    .ok (.script [] [memberText true]) := by cbv

/-- The number and its member are made in the builder. -/
theorem gives_memberExample {c : Builder Unit} {optional : Bool}
    (hc : (memberExample optional).Leads c) : ∃ b₀ b₁,
      (HostValue.json (.number (.integer 1))).toNode.Gives b₀ 0 c ∧
      TryBuild.Gives (ExceptT.lift (Operand.apply 0 (.member "p" optional))) b₁ 1 c := by
  obtain ⟨ops, hops⟩ := hc.1
  have hone : (HostValue.json (.number (.integer 1)) : HostValue Unit).toNode =
      HostValue.literal "1" := (HostValue.of_numberLiteral? rfl).1
  refine ⟨.empty (), (Builder.empty ()).perform (.create (.literal "1")), ?_, ?_⟩
  · rw [hone]
    exact ⟨reached_empty (), _, .create (memberDraft optional) :: ops,
      fun _ => run_create _ _ _, hops⟩
  · refine ⟨(Leads.create _ _).reached (reached_empty ()), _, ops, fun _ => ?_, hops⟩
    cases optional <;> exact run_create _ _ _

theorem reached_memberExample (optional : Bool) : (memberExample optional).Reached :=
  ((Leads.create _ _).trans (Leads.create _ _)).reached (reached_empty ())

/-- The question mark ends the number. -/
theorem operands_memberExample : ∃ outcome c compiled before after,
    (memberExample true).compile (.statements [1]) {} {} Resolver.identity = (outcome, c) ∧
    outcome.result = .ok compiled ∧ compiled.code = "1?.p;" ∧
    compiled.code.toList = before ++ ("1".toList ++ ("?.p".toList ++ after)) ∧
    Apart "1".toList ("?.p".toList ++ after) := by
  obtain ⟨hcheck, a, c, ha, ho⟩ := script_eq_ok.1 script_memberExample
  have hreached := reached_memberExample true
  obtain ⟨compiled, hcode, -, hcompile⟩ := exists_compiled hreached hcheck ha ho {} Resolver.identity
  have hleads := (memberExample true).analyze_leads (.statements [1]) ({} : Options).nameStem
  rw [ha] at hleads
  obtain ⟨b₀, b₁, hone, hmember⟩ := gives_memberExample hleads
  obtain ⟨output, links, hscript, -, hall⟩ := operands_of_compile hreached hcompile rfl
  obtain rfl : output = .script [] [memberText true] :=
    Except.ok.inj (hscript.symm.trans script_memberExample)
  obtain ⟨p, hp, hnode⟩ : ∃ p ∈ (Output.script [] [memberText true]).placements links
      (({} : Options).access.params (.script [] [memberText true])),
      p.fragment = memberText true := by
    refine List.mem_map.1 ?_
    rw [Output.map_fragment_placements]
    exact List.mem_cons_self
  obtain ⟨before, after, -, htext, hreads⟩ :=
    hall _ "1" b₀ 0 (.member "p" true) b₁ 1 rfl hone hmember p hp (hnode ▸ rfl)
  refine ⟨_, c, compiled, _, _, hcompile, rfl, ?_, htext, (hreads.between (by decide)).2 ?_⟩
  · rw [hcode.code]
    decide
  · rintro ⟨-, hoptional, -⟩
    cases hoptional

theorem script_pointExample : (memberExample false).script (.statements [1]) {} =
    .ok (.script [] [memberText false]) := by cbv

/-- The point belongs to the number, behind which no name may follow. -/
theorem operands_pointExample : ∃ outcome c compiled,
    (memberExample false).compile (.statements [1]) {} {} Resolver.identity = (outcome, c) ∧
    outcome.result = .ok compiled ∧ compiled.code = "1.p;" ∧ ¬Apart ['1'] ".p;".toList ∧
    readToken "1.p;".toList = none := by
  obtain ⟨hcheck, a, c, ha, ho⟩ := script_eq_ok.1 script_pointExample
  obtain ⟨compiled, hcode, -, hcompile⟩ :=
    exists_compiled (reached_memberExample _) hcheck ha ho {} Resolver.identity
  refine ⟨_, c, compiled, hcompile, rfl, ?_, not_apart_point (isDigits_natText 1) _, ?_⟩
  · rw [hcode.code]
    decide
  · decide

end Builder

end ScriptGraph
