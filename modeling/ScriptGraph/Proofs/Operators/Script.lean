import ScriptGraph.Proofs.Compile.Script
import ScriptGraph.Proofs.Emission.Recursion
import ScriptGraph.Proofs.Operators.Nodes
import ScriptGraph.Proofs.Operators.Reading

/-!
# Scripts of operator trees

* `Layout.closed_renders` : what is written for the nodes of a tree has the text of the tree;
* `Tree.script` : the script of a tree, which is made and compiled; `Tree.script_eq` : its code;
* `Tree.exists_unique_script` : each code is that of exactly one grouped tree;
* `Tree.script_memberOfAssignment` : but it may be that of other trees as well.
-/

namespace ScriptGraph

/-- A node spells a tree. -/
def Graph.Spell (g : Graph) (e : NodeId) (t : Tree) : Prop := ∃ ns, g.Spells [e] [t] ns

theorem Graph.Spells.forall₂ {g : Graph} {es ns : List NodeId} {ts : List Tree}
    (h : g.Spells es ts ns) : List.Forall₂ g.Spell es ts := by
  induction h with
  | nil => exact .nil
  | cons hn hscope hpinned ht hkids _ _ ih => exact .cons ⟨_, .cons hn hscope hpinned ht hkids .nil⟩ ih

/-- The node of a tree applies the tree's operator to nodes of its operands. -/
theorem Graph.Spell.node {g : Graph} {e : NodeId} {t : Tree} (h : g.Spell e t) :
    ∃ n kids, g.node? e = some n ∧ t.HasNode kids n ∧ List.Forall₂ g.Spell kids t.children := by
  obtain ⟨ns, hs⟩ := h
  cases hs with
  | cons hn _ _ ht hkids _ => exact ⟨_, _, hn, ht, hkids.forall₂⟩

/-! ## Positions -/

theorem closesExpression_memberAccess (property : Identifier) (optional : Bool) :
    closesExpression (Build.memberAccess property.val optional) = false := by
  cases optional <;>
    simp [Build.memberAccess, property.property, closesExpression, trimStart, isBlank]

theorem toList_memberAccess (property : Identifier) (optional : Bool) :
    (Build.memberAccess property.val optional).toList =
      (if optional then ['?', '.'] else ['.']) ++ property.val.toList := by
  cases optional <;> simp [Build.memberAccess, property.property]

theorem positionBetween_standalone (before after : String) (hb : opensExpression before = true)
    (ha : closesExpression after = true) (outer : Position) :
    positionBetween outer (some (.text before)) (some (.text after)) = .standalone := by
  simp [positionBetween, hb, ha]

theorem positionBetween_before (before : String) (hb : opensExpression before = false)
    (outer : Position) (after : Option Part) :
    positionBetween outer (some (.text before)) after = .operand := by
  simp [positionBetween, hb]

/-- Where nothing follows, what is around decides. -/
theorem positionBetween_end (before : String) (hb : opensExpression before = true)
    (outer : Position) : positionBetween outer (some (.text before)) none = outer := by
  cases outer <;> simp [positionBetween, hb]

theorem positionBetween_after (after : String) (ha : closesExpression after = false)
    (outer : Position) (before : Option Part) :
    positionBetween outer before (some (.text after)) = .operand := by
  simp [positionBetween, ha]

theorem not_blank_of_start {c : Char} (h : isIdentifierStart c = true) :
    isBlank c = false ∧ c ≠ '\x7b' := by
  have hrange : (65 ≤ c.toNat ∧ c.toNat ≤ 90) ∨ (97 ≤ c.toNat ∧ c.toNat ≤ 122) ∨ c.toNat = 95 ∨
      c.toNat = 36 := by
    simp only [isIdentifierStart, Char.isAlpha, Char.isUpper, Char.isLower, Bool.or_eq_true,
      Bool.and_eq_true, decide_eq_true_eq, beq_iff_eq, ge_iff_le, UInt32.le_iff_toNat_le] at h
    rcases h with ((h | h) | rfl) | rfl
    · exact .inl h
    · exact .inr (.inl h)
    · decide
    · decide
  constructor
  · simp only [isBlank, Bool.or_eq_false_iff, Bool.and_eq_false_iff, decide_eq_false_iff_not,
      beq_eq_false_iff_ne, ne_eq]
    omega
  · rintro rfl
    revert hrange
    decide

/-- The words of an operand begin with a name or a parenthesis. -/
theorem Phrase.exists_cons (w : Phrase) :
    ∃ c cs, w.text = c :: cs ∧ (isIdentifierStart c = true ∨ c = '(') := by
  cases w with
  | new rest => exact ⟨_, _, rfl, .inl (by decide)⟩
  | await rest => exact ⟨_, _, rfl, .inl (by decide)⟩
  | name n rest =>
    obtain ⟨c, cs, hn, hc⟩ := n.exists_cons
    exact ⟨c, cs ++ rest.text, by rw [Phrase.text, hn, List.cons_append], .inl hc⟩
  | group inner rest => exact ⟨_, _, rfl, .inr rfl⟩

/-! ## Writing -/

namespace Layout

variable {l : Layout} {links : Links} {e : NodeId} {pos : Position}
  {P : NodeId → Position → Fragment → Prop}

/-- What is written for the node of a tree has the text of the tree, whatever follows. -/
def Renders (l : Layout) (links : Links) (e : NodeId) (pos : Position) (f : Fragment) : Prop :=
  ∀ t, l.graph.Spell e t →
    f.mentions = [] ∧ ∀ k : Tail, f.render links ++ k.text = (t.write pos k).text

theorem Renders.alone {f : Fragment} (h : l.Renders links e pos f) {t : Tree}
    (ht : l.graph.Spell e t) :
    f.mentions = [] ∧ f.render links = (t.write pos .done).text := by
  obtain ⟨hm, hr⟩ := h t ht
  have htext := hr .done
  rw [Tail.text, List.append_nil] at htext
  exact ⟨hm, htext⟩

theorem Renders.of_eq {pos' : Position} {f : Fragment} (h : l.Renders links e pos f)
    (hpos : pos = pos') : l.Renders links e pos' f := hpos ▸ h

section Parts

theorem partsAs_text {s : String} {ps : List (Part × Position)} {fs : List Fragment}
    (h : List.Forall₂ (l.PartAs P) ((.text s, pos) :: ps) fs) :
    ∃ fs', fs = .text s :: fs' ∧ List.Forall₂ (l.PartAs P) ps fs' := by
  obtain ⟨f, fs', hf, hfs, rfl⟩ := List.forall₂_cons_left_iff.1 h
  cases hf
  exact ⟨fs', rfl, hfs⟩

theorem partsAs_lastText {s : String} {fs : List Fragment}
    (h : List.Forall₂ (l.PartAs P) [(.text s, pos)] fs) : fs = [.text s] := by
  obtain ⟨rest, rfl, hrest⟩ := partsAs_text h
  rw [List.forall₂_nil_left_iff.1 hrest]

theorem partsAs_node (hd : ∀ e, l.analysis.isDeclared e = false) {ps : List (Part × Position)}
    {fs : List Fragment} (h : List.Forall₂ (l.PartAs P) ((.node e, pos) :: ps) fs) :
    ∃ f fs', fs = f :: fs' ∧ P e pos f ∧ List.Forall₂ (l.PartAs P) ps fs' := by
  obtain ⟨f, fs', hf, hfs, rfl⟩ := List.forall₂_cons_left_iff.1 h
  have huse : l.UseAs P e pos f := hf
  rw [UseAs, hd, if_neg Bool.false_ne_true] at huse
  exact ⟨f, fs', rfl, huse, hfs⟩

theorem partsAs_lastNode (hd : ∀ e, l.analysis.isDeclared e = false) {fs : List Fragment}
    (h : List.Forall₂ (l.PartAs P) [(.node e, pos)] fs) : ∃ f, fs = [f] ∧ P e pos f := by
  obtain ⟨f, rest, rfl, hf, hrest⟩ := partsAs_node hd h
  exact ⟨f, by rw [List.forall₂_nil_left_iff.1 hrest], hf⟩

theorem renders_args (hd : ∀ e, l.analysis.isDeclared e = false) {es : List NodeId}
    {ts : List Tree} (hs : List.Forall₂ l.graph.Spell es ts) (before : String)
    (hb : opensExpression before = true) {fs : List Fragment}
    (h : List.Forall₂ (l.PartAs (l.Renders links)) (positionedAfter pos (some (.text before))
      (commaSeparated (es.map .node) ++ [Part.text ")"])) fs) :
    mentionsOfAll fs = [] ∧
      renderAll links fs = Phrase.textOfArgs (Tree.writeAll ts) ++ [')'] := by
  induction hs generalizing before fs with
  | nil =>
    obtain rfl := partsAs_lastText h
    exact ⟨rfl, rfl⟩
  | @cons e t es ts he hes ih =>
    cases hes with
    | nil =>
      obtain ⟨f, fs, rfl, hf, hfs⟩ := partsAs_node hd h
      obtain rfl := partsAs_lastText hfs
      obtain ⟨hm, htext⟩ := (hf.of_eq (positionBetween_standalone before ")" hb (by decide) pos)).alone he
      simp [mentionsOfAll, Fragment.mentions, hm, renderAll, Fragment.render, htext,
        Tree.writeAll, Phrase.textOfArgs, Phrase.textOfMore]
    | @cons e' t' es ts he' hes' =>
      obtain ⟨f, fs, rfl, hf, hfs⟩ := partsAs_node hd h
      obtain ⟨rest, rfl, hrest⟩ := partsAs_text hfs
      obtain ⟨hm, htext⟩ := (hf.of_eq (positionBetween_standalone before "," hb (by decide) pos)).alone he
      obtain ⟨hmrest, hmore⟩ := ih "," (by decide) hrest
      simp [mentionsOfAll, Fragment.mentions, hm, hmrest, renderAll, Fragment.render, htext,
        hmore, Tree.writeAll, Phrase.textOfArgs, Phrase.textOfMore]

theorem exists_of_forall₂_singleton {α β : Type} {R : α → β → Prop} {l : List α} {y : β}
    (h : List.Forall₂ R l [y]) : ∃ x, R x y ∧ l = [x] := by
  obtain ⟨x, rest, hx, hrest, rfl⟩ := List.forall₂_cons_right_iff.1 h
  exact ⟨x, hx, congrArg (x :: ·) (List.forall₂_nil_right_iff.1 hrest)⟩

/-- The operands of a node stand where the words of its tree have them. -/
theorem renders_parts (hd : ∀ e, l.analysis.isDeclared e = false) {n : Node} {t : Tree}
    {kids : List NodeId} (ht : t.HasNode kids n) (hkids : List.Forall₂ l.graph.Spell kids t.children)
    {fs : List Fragment}
    (h : List.Forall₂ (l.PartAs (l.Renders links)) (positioned pos n.template) fs) :
    mentionsOfAll fs = [] ∧ ∀ k : Tail,
      (if encloses n pos then parenthesized (renderAll links fs) else renderAll links fs) ++ k.text =
        (t.write pos k).text := by
  obtain ⟨scope, flags, kind⟩ := n
  cases t with
  | ident name =>
    obtain rfl := List.forall₂_nil_right_iff.1 hkids
    obtain rfl : kind = .text name.val := ht
    obtain rfl := partsAs_lastText h
    exact ⟨rfl, fun k => by simp [encloses, renderAll, Fragment.render, Tree.write, Phrase.text]⟩
  | member object property optional =>
    obtain ⟨o, ho, rfl⟩ := exists_of_forall₂_singleton hkids
    obtain ⟨hkind, ha⟩ := ht
    dsimp only at hkind ha
    subst hkind
    obtain ⟨f, fs, rfl, hf, hfs⟩ := partsAs_node hd h
    obtain rfl := partsAs_lastText hfs
    have hoperand := hf.of_eq (positionBetween_after _
      (closesExpression_memberAccess property optional) pos none)
    obtain ⟨hm, hr⟩ := hoperand object ho
    refine ⟨by simp [mentionsOfAll, Fragment.mentions, hm], fun k => ?_⟩
    rw [Tree.write, ← hr]
    simp [encloses, ha, renderAll, Fragment.render, toList_memberAccess, Tail.text]
  | index object key =>
    obtain ⟨o, _, ho, hrest, rfl⟩ := List.forall₂_cons_right_iff.1 hkids
    obtain ⟨x, hx, rfl⟩ := exists_of_forall₂_singleton hrest
    obtain ⟨hkind, ha⟩ := ht
    dsimp only at hkind ha
    subst hkind
    obtain ⟨f, fs, rfl, hf, hfs⟩ := partsAs_node hd h
    obtain ⟨fs, rfl, hfs'⟩ := partsAs_text hfs
    obtain ⟨f', fs, rfl, hf', hfs''⟩ := partsAs_node hd hfs'
    obtain rfl := partsAs_lastText hfs''
    have hoperand := hf.of_eq (positionBetween_after "[" (by decide) pos none)
    have hkey := hf'.of_eq (positionBetween_standalone "[" "]" (by decide) (by decide) pos)
    obtain ⟨hm, hr⟩ := hoperand object ho
    obtain ⟨hm', hr'⟩ := hkey.alone hx
    refine ⟨by simp [mentionsOfAll, Fragment.mentions, hm, hm'], fun k => ?_⟩
    rw [Tree.write, ← hr]
    simp [encloses, ha, renderAll, Fragment.render, hr', Tail.text]
  | call callee args optional =>
    obtain ⟨x, es, hx, hes, rfl⟩ := List.forall₂_cons_right_iff.1 hkids
    obtain ⟨hkind, ho⟩ := ht
    dsimp only at hkind ho
    subst hkind ho
    obtain ⟨f, fs, rfl, hf, hfs⟩ := partsAs_node hd h
    obtain ⟨rest, rfl, hrest⟩ := partsAs_text hfs
    have hoperand := hf.of_eq (positionBetween_after (if flags.optional then "?.(" else "(")
      (by split <;> decide) pos none)
    obtain ⟨hm, hr⟩ := hoperand callee hx
    obtain ⟨hmargs, hargs⟩ := renders_args hd hes _ (by split <;> decide) hrest
    refine ⟨by simp [mentionsOfAll, Fragment.mentions, hm, hmargs], fun k => ?_⟩
    rw [Tree.write, ← hr]
    cases ho : flags.optional <;>
      simp [encloses, renderAll, Fragment.render, hargs, Tail.text]
  | construct constructor args =>
    obtain ⟨c, es, hc, hes, rfl⟩ := List.forall₂_cons_right_iff.1 hkids
    obtain ⟨hkind, ha⟩ := ht
    dsimp only at hkind ha
    subst hkind
    obtain ⟨fs, rfl, hfs⟩ := partsAs_text h
    obtain ⟨f, fs, rfl, hf, hfs'⟩ := partsAs_node hd hfs
    obtain ⟨rest, rfl, hrest⟩ := partsAs_text hfs'
    have hoperand := hf.of_eq (positionBetween_before "new " (by decide) pos (some (.text "(")))
    obtain ⟨hm, hr⟩ := hoperand constructor hc
    obtain ⟨hmargs, hargs⟩ := renders_args hd hes "(" (by decide) hrest
    refine ⟨by simp [mentionsOfAll, Fragment.mentions, hm, hmargs], fun k => ?_⟩
    rw [Tree.write, Phrase.text, ← hr]
    simp [encloses, ha, renderAll, Fragment.render, hargs, Tail.text]
  | assign target value =>
    obtain ⟨x, _, hx, hrest, rfl⟩ := List.forall₂_cons_right_iff.1 hkids
    obtain ⟨v, hv, rfl⟩ := exists_of_forall₂_singleton hrest
    obtain ⟨hkind, ha⟩ := ht
    dsimp only at hkind ha
    subst hkind
    obtain ⟨f, fs, rfl, hf, hfs⟩ := partsAs_node hd h
    obtain ⟨fs, rfl, hfs'⟩ := partsAs_text hfs
    obtain ⟨f', rfl, hf'⟩ := partsAs_lastNode hd hfs'
    have htarget := hf.of_eq (positionBetween_after "=" (by decide) pos none)
    have hvalue := hf'.of_eq (positionBetween_end "=" (by decide) pos)
    obtain ⟨hm, hr⟩ := htarget target hx
    obtain ⟨hm', hr'⟩ := hvalue value hv
    refine ⟨by simp [mentionsOfAll, Fragment.mentions, hm, hm'], fun k => ?_⟩
    rw [Tree.write, ← hr, Tail.text, ← hr']
    simp [encloses, ha, renderAll, Fragment.render]
  | await value =>
    obtain ⟨v, hv, rfl⟩ := exists_of_forall₂_singleton hkids
    obtain ⟨hkind, ha⟩ := ht
    dsimp only at hkind ha
    subst hkind
    obtain ⟨fs, rfl, hfs⟩ := partsAs_text h
    obtain ⟨f, rfl, hf⟩ := partsAs_lastNode hd hfs
    have hoperand := hf.of_eq (positionBetween_before "await " (by decide) pos none)
    obtain ⟨hm, hr⟩ := hoperand value hv
    refine ⟨by simp [mentionsOfAll, Fragment.mentions, hm], fun k => ?_⟩
    cases pos with
    | standalone =>
      rw [Tree.write, Phrase.text, ← hr]
      simp [encloses, ha, renderAll, Fragment.render]
    | operand =>
      obtain ⟨_, htext⟩ := hoperand.alone hv
      rw [Tree.write, Phrase.text, Phrase.text, ← htext]
      simp [encloses, ha, renderAll, Fragment.render, parenthesized]

theorem shape_of_hasNode {n : Node} {t : Tree} {kids : List NodeId} (ht : t.HasNode kids n) :
    l.shape e n = (n.template, []) := by
  obtain ⟨scope, flags, kind⟩ := n
  rcases ht.kind_cases with ⟨_, h⟩ | ⟨_, h⟩ | ⟨_, _, h⟩ <;>
  · dsimp only at h
    subst h
    rfl

theorem closed_renders (links : Links) (hd : ∀ e, l.analysis.isDeclared e = false) :
    l.Closed (l.Renders links) := by
  refine ⟨fun e pos name hp _ t ht => ?_, fun f pos params body b hf _ _ _ t ht => ?_,
    fun e n pos pieces hn _ _ _ hpieces t ht => ?_⟩
  · obtain ⟨ns, hs⟩ := ht
    exact absurd hp (by simp [hs.isParameter (hs.root_mem List.mem_cons_self)])
  · obtain ⟨ns, hs⟩ := ht
    exact absurd hf (by simp [hs.isFunction (hs.root_mem List.mem_cons_self)])
  · obtain ⟨n', kids, hn', hnode, hkids⟩ := ht.node
    obtain rfl := Option.some.inj (hn.symm.trans hn')
    rw [shape_of_hasNode hnode] at hpieces ⊢
    rw [List.append_nil]
    exact renders_parts hd hnode hkids hpieces

end Parts

/-- A statement begins with a name or a parenthesis, and so does not look like a block. -/
theorem guardBlock_text (w : Phrase) : guardBlock w.text = w.text := by
  obtain ⟨c, cs, hw, hc⟩ := w.exists_cons
  have hblank : isBlank c = false ∧ c ≠ '\x7b' := by
    rcases hc with hc | rfl
    · exact not_blank_of_start hc
    · decide
  have hstart : startsLikeBlock w.text = false := by
    rw [hw, startsLikeBlock, trimStart, List.dropWhile_cons_of_neg (by simp [hblank.1])]
    simpa using hblank.2
  rw [guardBlock, hstart]
  rfl

/-- The script of a tree that declares nothing is the text of the tree, with a semicolon. -/
theorem render_script (hd : ∀ e, l.analysis.isDeclared e = false)
    (h : l.graph.Resolved (.statements [e]) l.analysis) {t : Tree} (ht : l.graph.Spell e t)
    {o : Output} (ho : l.output .statements (.statements [e]) = .ok o) (links : Links)
    (params : List String) :
    o.mentions = [] ∧ o.render links params = t.text ++ [';'] := by
  have hnone : l.analysis.declarationsOf none = [] := List.eq_nil_iff_forall_not_mem.2 fun x hx => by
    have hdeclared := (h.mem_declarationsOf_iff.1 hx).1
    rw [hd] at hdeclared
    cases hdeclared
  obtain ⟨ds, list, ⟨ds', hds, list', hlist, hbody⟩, rfl⟩ :=
    (closed_renders links hd).of_output ho
  obtain ⟨rfl, rfl⟩ := Block.statements.inj hbody
  rw [hnone] at hds
  obtain rfl := List.forall₂_nil_left_iff.1 hds
  obtain ⟨f, rfl, hf⟩ := partsAs_lastNode hd hlist
  obtain ⟨hm, htext⟩ := hf.alone ht
  refine ⟨by simp [Output.mentions, mentionsOfAll, mentionsOfDeclarations, hm], ?_⟩
  show [] ++ renderStatements links [f] = _
  rw [renderStatements, renderStatements, htext, guardBlock_text]
  rfl

end Layout

theorem Links.splice_of_nil {o : Output} (h : o.mentions = []) (links : Links) (a : Access)
    (text : List Char) : links.splice a o text = text := by
  simp [splice, Output.usesModules, Output.usesResources, h]

namespace Tree

/-- The script of a tree, which is made in an empty graph. -/
def script (t : Tree) (o : Options) (stores : Stores) (resolver : Resolver) :
    Except Fault Compiled :=
  match Builder.run (Build.toRecipe do return .ok (.value (← t.build))) (.empty ()) with
  | (.ok body, b) => (b.toScript body.roots o stores resolver).1.result
  | (.error fault, _) => .error fault

theorem script_eq (t : Tree) {o : Options} (hcheck : o.check = .ok ()) (hverify : o.verify = false)
    (stores : Stores) (resolver : Resolver) :
    (t.script o stores resolver).map (·.code) = .ok (String.ofList (t.text ++ [';'])) := by
  obtain ⟨e, b, hrun, hplants⟩ := Builder.plantable t (.empty ()) (Builder.reached_empty ()) rfl
    fun e => .done (.ok (.value e))
  have hb := hplants.leads.reached (Builder.reached_empty ())
  obtain ⟨ns, hs, hnodup, _⟩ := hplants.spells
  obtain ⟨a, c, ha, hspell, hd⟩ := hs.analyze hb hnodup (.statements [e]) rfl o.nameStem
  obtain ⟨output, ho⟩ : ∃ output, (({ o with mode := .statements } : Options).layout
      c.state.graph a).output .statements (.statements [e]) = .ok output :=
    Layout.exists_output (Builder.analyze_resolved hb ha) nofun
  have hcheck' : ({ o with mode := .statements } : Options).check = .ok () := hcheck
  obtain ⟨compiled, hpresents, _, hcompile⟩ :=
    Builder.exists_compiled hb hcheck' ha ho stores resolver
  obtain ⟨hmentions, hrender⟩ := Layout.render_script hd (Builder.analyze_resolved hb ha)
    ⟨ns, hspell⟩ ho (Links.ofMentions resolver stores output.mentions)
    (({ o with mode := .statements } : Options).access.params output)
  have hcode : compiled.code = String.ofList (t.text ++ [';']) := by
    rw [hpresents.code, Links.splice_of_nil hmentions, hrender]
  have hresult : t.script o stores resolver = .ok compiled := by
    rw [script, show Builder.run (Build.toRecipe do return .ok (.value (← t.build)))
      (.empty ()) = _ from hrun, Builder.run_done]
    show (b.compile (.statements [e]) { o with mode := .statements } stores resolver).1.result = _
    rw [hcompile]
    show (if o.verify then _ else Except.ok ()).map (fun _ => compiled) = _
    rw [hverify]
    rfl
  rw [hresult, ← hcode]
  rfl

/-- **Each code of an operator tree is the code of exactly one grouped tree.** So two grouped trees
never have the same code; and a tree that is not grouped has the code of another tree, as which the
code is read. -/
theorem exists_unique_script (t : Tree) {o : Options} (hcheck : o.check = .ok ())
    (hverify : o.verify = false) (stores : Stores) (resolver : Resolver) :
    (∃ x, t.script o stores resolver = .ok x) ∧
      ∃! u : Tree, u.Grouped false ∧
        (u.script o stores resolver).map (·.code) = (t.script o stores resolver).map (·.code) := by
  have hcode := fun u : Tree => u.script_eq hcheck hverify stores resolver
  have hsame : ∀ u : Tree, (u.script o stores resolver).map (·.code) =
      (t.script o stores resolver).map (·.code) ↔ u.text = t.text := fun u => by
    rw [hcode, hcode, Except.ok.injEq, String.ofList_inj, List.append_cancel_right_eq]
  refine ⟨?_, ?_⟩
  · obtain ⟨x, hx, _⟩ := map_eq_ok.1 (hcode t)
    exact ⟨x, hx⟩
  · simpa only [hsame] using t.exists_unique_grouped

/-- A member of an assignment. -/
def memberOfAssignment : Tree :=
  .member (.assign (.ident ⟨"a", by decide⟩) (.ident ⟨"b", by decide⟩)) ⟨"p", by decide⟩ false

/-- An assignment of a member. -/
def assignmentOfMember : Tree :=
  .assign (.ident ⟨"a", by decide⟩) (.member (.ident ⟨"b", by decide⟩) ⟨"p", by decide⟩ false)

theorem check_default : ({} : Options).check = .ok () := by decide

/-- Different trees may have the same code. -/
theorem script_memberOfAssignment : memberOfAssignment ≠ assignmentOfMember ∧
    (memberOfAssignment.script {} {} Resolver.identity).map (·.code) = .ok "a=b.p;" ∧
    (assignmentOfMember.script {} {} Resolver.identity).map (·.code) = .ok "a=b.p;" := by
  refine ⟨nofun, ?_, ?_⟩
  · rw [script_eq _ check_default rfl]
    rfl
  · rw [script_eq _ check_default rfl]
    rfl

theorem unique_script_memberOfAssignment : ({} : Options).check = .ok () ∧
    ∃! u : Tree, u.Grouped false ∧
      (u.script {} {} Resolver.identity).map (·.code) = .ok "a=b.p;" := by
  obtain ⟨_, hunique⟩ :=
    exists_unique_script memberOfAssignment check_default rfl {} Resolver.identity
  rw [script_eq memberOfAssignment check_default rfl] at hunique
  exact ⟨check_default, hunique⟩

end Tree

end ScriptGraph
