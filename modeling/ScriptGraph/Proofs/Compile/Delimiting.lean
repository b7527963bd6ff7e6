import ScriptGraph.Proofs.Analysis.Naming
import ScriptGraph.Proofs.Compile.Script
import ScriptGraph.Proofs.Emission.Delimiters
import ScriptGraph.Proofs.Emission.Placements

/-!
# Functions and awaited templates are delimited

The position of a part is found from the parts next to it and from the position of the template. It
stands for the text around the part, whatever is nested around the template.

* `Graph.BindsLoosely` : a function or an awaited template is written out;
* `Layout.closed_writtenDelimited` : what binds loosely within the text of a node is delimited, as
  far as the parts next to it tell; at the start of the text, the text before the node decides;
* `Links.keepsDelimiters_splice` : the contents of the stores leave delimiters where they are;
* `Placement.SplitsOperator` : the part directly before a place is the equals sign of an operator
  only;
* `Builder.delimited_of_compile` : in a compiled script every function and every awaited template is
  in parentheses of its own, or delimited unless such a part is directly before it;
* `Builder.undelimited_splitExample` : where it does, a function is an operand.
-/

namespace ScriptGraph

/-! ## Places that need delimiters -/

def Graph.IsAwaitedTemplate (g : Graph) (e : NodeId) : Prop :=
  ∃ n parts, g.node? e = some n ∧ n.kind = .template parts ∧ n.flags.awaits = true

/-- A function or an awaited template is written out: next to an operator it is to be put in
parentheses. -/
def Graph.BindsLoosely (g : Graph) : Fragment → Prop
  | .lambda .. => True
  | .expansion e _ _ => g.IsAwaitedTemplate e
  | _ => False

/-- What is before the place opens an expression, as far as the part directly before it tells. -/
def Placement.SeemsOpen (p : Placement) (links : Links) (places : List Placement) : Prop :=
  Opens p.before ∨ ∃ t, IsEqualsPart t.toList ∧ p.Follows links places t

theorem Placement.SeemsOpen.mono {p : Placement} {links : Links} {places places' : List Placement}
    (h : p.SeemsOpen links places) (hsub : places ⊆ places') : p.SeemsOpen links places' :=
  h.imp_right fun ⟨t, ht, hfollows⟩ => ⟨t, ht, hfollows.mono hsub⟩

/-- What binds loosely at one of the places is in parentheses of its own, or what is around it
delimits it as far as the part before it tells. -/
def Graph.Delimits (g : Graph) (links : Links) (places : List Placement) : Prop :=
  ∀ p ∈ places, g.BindsLoosely p.fragment →
    p.fragment.enclosed = true ∨ Closes p.after ∧ p.SeemsOpen links places

section Delimits

variable {g : Graph} {links : Links} {places places' : List Placement}

theorem Graph.delimits_nil : g.Delimits links [] := nofun

theorem Graph.Delimits.append (h : g.Delimits links places) (h' : g.Delimits links places') :
    g.Delimits links (places ++ places') := by
  refine List.forall_mem_append.2 ⟨fun p hp hloose => ?_, fun p hp hloose => ?_⟩
  · exact (h p hp hloose).imp_right fun hp => ⟨hp.1, hp.2.mono (List.subset_append_left ..)⟩
  · exact (h' p hp hloose).imp_right fun hp => ⟨hp.1, hp.2.mono (List.subset_append_right ..)⟩

end Delimits

/-! ## Positions -/

/-- What a neighbouring part tells by a test of its text. The end of a template tells as much as the
position of the template. -/
def Position.Passes (outer : Position) (test : String → Bool) : Option Part → Prop
  | none => outer = .standalone
  | some (.text t) => test t = true
  | some (.node _) => False

theorem positionBetween_eq_standalone {outer : Position} {before after : Option Part} :
    positionBetween outer before after = .standalone ↔
      outer.Passes opensExpression before ∧ outer.Passes closesExpression after := by
  unfold positionBetween
  rcases before with _ | _ | _ <;> rcases after with _ | _ | _ <;> simp [Position.Passes]

/-- No character of a name makes an operator of an equals sign. -/
theorem notMem_operatorChars {c : Char} (h : isIdentifierPart c = true) : c ∉ operatorChars := by
  have hall : operatorChars.all (!isIdentifierPart ·) = true := by decide
  intro hc
  simpa [h] using List.all_eq_true.1 hall c hc

namespace Layout

variable {l : Layout} {links : Links} {e : NodeId} {pos : Position} {before after : List Char}

/-- What binds loosely within what is written for a node is in parentheses of its own or delimited.
A node that stands alone may begin with it. Then the text before the node decides. -/
def WrittenDelimited (l : Layout) (links : Links) (_ : NodeId) (pos : Position) (f : Fragment) :
    Prop :=
  ∀ before after, (pos = .standalone → Closes after) →
    ∀ p ∈ f.placements links before after, l.graph.BindsLoosely p.fragment →
      p.fragment.enclosed = true ∨ Closes p.after ∧
        (pos = .standalone ∧ p.before = before ∨
          p.SeemsOpen links (f.placements links before after))

theorem writtenDelimited_of_use {f : Fragment}
    (hf : l.UseAs (l.WrittenDelimited links) e pos f) : l.WrittenDelimited links e pos f := by
  unfold UseAs at hf
  split at hf
  · obtain ⟨name, _, rfl⟩ := hf
    exact fun _ _ _ => nofun
  · exact hf

theorem WrittenDelimited.delimits {f : Fragment}
    (hf : l.WrittenDelimited links e .standalone f) (hbefore : Opens before)
    (hafter : Closes after) : l.graph.Delimits links (f.placements links before after) := by
  refine fun p hp hloose => (hf before after (fun _ => hafter) p hp hloose).imp_right ?_
  rintro ⟨hcloses, ⟨-, hstart⟩ | hopens⟩
  · exact ⟨hcloses, .inl (hstart.symm ▸ hbefore)⟩
  · exact ⟨hcloses, hopens⟩

/-! ## Parts -/

/-- The text of a part is written as it is. -/
def Transcribes (part : Part) (f : Fragment) : Prop := ∀ t, part = .text t → f = .text t

/-- A fragment is written for a part, and what is around it for the parts around that part. -/
theorem exists_part {P : NodeId → Position → Fragment → Prop} {outer : Position}
    {prev : Option Part} {ps : List Part} {front : List Fragment} {f : Fragment}
    {rest : List Fragment}
    (h : List.Forall₂ (l.PartAs P) (positionedAfter outer prev ps) (front ++ f :: rest)) :
    ∃ ps₁ part ps₂, ps = ps₁ ++ part :: ps₂ ∧ List.Forall₂ Transcribes ps₁ front ∧
      l.PartAs P (part, positionBetween outer (ps₁.getLast?.or prev) ps₂.head?) f ∧
      List.Forall₂ Transcribes ps₂ rest := by
  have htranscribes : ∀ {part pos g}, l.PartAs P (part, pos) g → Transcribes part g := by
    rintro _ _ _ hg t rfl
    exact hg
  induction front generalizing prev ps with
  | nil =>
    obtain _ | ⟨part, ps⟩ := ps
    · cases h
    · obtain ⟨hf, hrest⟩ := List.forall₂_cons.1 h
      refine ⟨[], part, ps, rfl, .nil, hf, ?_⟩
      rw [← map_fst_positionedAfter outer (some part) ps, List.forall₂_map_left_iff]
      exact hrest.imp fun _ _ => htranscribes
  | cons g front ih =>
    obtain _ | ⟨part, ps⟩ := ps
    · cases h
    · obtain ⟨hg, hrest⟩ := List.forall₂_cons.1 h
      obtain ⟨ps₁, part', ps₂, rfl, hfront, hf, hps₂⟩ := ih hrest
      refine ⟨part :: ps₁, part', ps₂, rfl, .cons (htranscribes hg) hfront, ?_, hps₂⟩
      rw [List.getLast?_cons, Option.some_or]
      cases hlast : ps₁.getLast? <;> simpa [hlast] using hf

theorem exists_of_getLast? {ps : List Part} {front : List Fragment} {t : String}
    (h : List.Forall₂ Transcribes ps front) (ht : ps.getLast? = some (.text t)) :
    ∃ front', front = front' ++ [.text t] := by
  induction h with
  | nil => cases ht
  | @cons part f ps fs hf hrest ih =>
    cases hrest with
    | nil =>
      obtain rfl : part = .text t := Option.some.inj ht
      exact ⟨[], by rw [hf t rfl, List.nil_append]⟩
    | cons _ _ =>
      obtain ⟨front, hfront⟩ := ih (by rwa [List.getLast?_cons_cons] at ht)
      exact ⟨f :: front, by rw [hfront, List.cons_append]⟩

/-- A part that seems to be delimited on its left is the first one, or comes after a text that seems
to open an expression. -/
theorem start_or_opens {outer : Position} {ps : List Part} {front : List Fragment}
    (hfront : List.Forall₂ Transcribes ps front)
    (h : outer.Passes opensExpression ps.getLast?) :
    (outer = .standalone ∧ front = []) ∨
      ∃ front' t, front = front' ++ [.text t] ∧ opensExpression t = true := by
  match hlast : ps.getLast?, h with
  | none, houter =>
    obtain rfl : ps = [] := List.getLast?_eq_none_iff.1 hlast
    cases hfront
    exact .inl ⟨houter, rfl⟩
  | some (.text t), hopens =>
    obtain ⟨front', rfl⟩ := exists_of_getLast? hfront hlast
    exact .inr ⟨front', t, rfl, hopens⟩

/-- A part that seems to be delimited on its right is, if it is when it is the last one. -/
theorem closes_of_passes {outer : Position} {ps : List Part} {rest : List Fragment}
    (hrest : List.Forall₂ Transcribes ps rest) (h : outer.Passes closesExpression ps.head?)
    (hend : outer = .standalone → ps = [] → Closes after) :
    Closes (renderAll links rest ++ after) := by
  match ps, hrest, h with
  | [], .nil, houter => exact hend houter rfl
  | .text t :: _, .cons hf _, hcloses =>
    obtain rfl := hf t rfl
    rw [renderAll, List.append_assoc]
    exact closes_of_closesExpression hcloses _

/-! ## Declarations and bodies -/

theorem opens_opening (h : Opens before) (enclosed : Bool) :
    Opens (before ++ opening enclosed) := by
  cases enclosed with
  | false => exact (List.append_nil before).symm ▸ h
  | true => exact opens_append_char before (by decide)

theorem closes_closing (h : Closes after) (enclosed : Bool) :
    Closes (closing enclosed ++ after) := by
  cases enclosed with
  | false => exact h
  | true => exact closes_cons (by decide) after

theorem opens_name {name : String} (h : l.nameOf e = .ok name) (before : List Char) :
    Opens (before ++ name.toList ++ ['=']) := by
  rw [nameOf_eq_ok] at h
  obtain ⟨i, _, rfl⟩ := Option.map_eq_some_iff.1 h
  have hne := base36Chars_ne_nil i
  have hnot := notMem_operatorChars (isIdentifierPart_base36 i _ (List.getLast_mem hne))
  rw [String.toList_append, base36, String.toList_ofList, ← List.dropLast_append_getLast hne,
    ← List.append_assoc, ← List.append_assoc]
  exact opens_append_equals _ hnot

theorem delimits_declaration {d : Declaration}
    (hd : l.DeclarationAs (l.WrittenDelimited links) e d) (hafter : Closes after) :
    l.graph.Delimits links (d.placements links before after) := by
  obtain ⟨name, init, hname, hinit, rfl⟩ := hd
  rw [Declaration.placements]
  split
  · have harrow : Opens (before ++ name.toList ++ "=()=>".toList) := by
      rw [show "=()=>".toList = "=()".toList ++ "=>".toList from rfl, ← List.append_assoc]
      exact opens_append_arrow _
    exact hinit.delimits (opens_opening harrow _) (closes_closing hafter _)
  · exact hinit.delimits (opens_name hname before) hafter

theorem delimits_declarations {es : List NodeId} {ds : List Declaration}
    (hds : List.Forall₂ (l.DeclarationAs (l.WrittenDelimited links)) es ds)
    (hafter : Closes after) :
    l.graph.Delimits links (placementsInDeclarations links before after ds) := by
  induction hds generalizing before with
  | nil => exact Graph.delimits_nil
  | @cons e d es ds hd hds ih =>
    rw [placementsInDeclarations]
    refine (delimits_declaration hd ?_).append ih
    cases ds with
    | nil => exact hafter
    | cons d' ds => exact closes_cons (by decide) _

theorem delimits_statements {roots : List NodeId} {fs : List Fragment}
    (hfs : List.Forall₂ (l.PartAs (l.WrittenDelimited links)) (statementParts roots) fs)
    (hbefore : Opens before) :
    l.graph.Delimits links (placementsInStatements links before after fs) := by
  induction roots generalizing before fs with
  | nil =>
    cases hfs
    exact Graph.delimits_nil
  | cons e roots ih =>
    obtain ⟨f, rest, hf, hrest, rfl⟩ := List.forall₂_cons_left_iff.1 hfs
    rw [placementsInStatements]
    refine ((writtenDelimited_of_use hf).delimits (opens_opening hbefore _)
      (closes_closing (closes_cons (by decide) _) _)).append (ih hrest ?_)
    exact opens_append_char _ (by decide)

theorem opens_let (h : Opens before) (ds : List Declaration) :
    Opens (before ++ renderLet links ds) := by
  cases ds with
  | nil => exact (List.append_nil before).symm ▸ h
  | cons d ds =>
    rw [renderLet_cons, ← List.append_assoc]
    exact opens_append_char _ (by decide)

theorem delimits_block {scope : Scope} {inner : Body} {b : Block}
    (hb : l.BlockAs (l.WrittenDelimited links) scope inner b) (hbefore : Opens before)
    (hafter : Closes after) : l.graph.Delimits links (b.placements links before after) := by
  obtain ⟨ds, hds, hbody⟩ := hb
  cases inner with
  | value root =>
    obtain ⟨result, hresult, rfl⟩ := hbody
    have hresult := writtenDelimited_of_use hresult
    cases ds with
    | nil =>
      rw [Block.placements, if_pos List.isEmpty_nil]
      exact hresult.delimits (opens_opening hbefore _) (closes_closing hafter _)
    | cons d ds =>
      rw [Block.placements, if_neg (by simp)]
      refine (delimits_declarations hds (closes_cons (by decide) _)).append
        (hresult.delimits ?_ (closes_cons (by decide) _))
      have hreturn : Opens (before ++ '\x7b' :: ("let ".toList ++
          joined [','] (d.render links :: renderDeclarations links ds)) ++ ";return".toList) :=
        opens_append_opener _ (by decide)
      have hblank : ∀ c ∈ [' '], isBlank c = true := by simp [isBlank]
      simpa [renderLet_cons] using hreturn.append_blanks hblank
  | statements roots =>
    obtain ⟨list, hlist, rfl⟩ := hbody
    rw [Block.placements]
    refine (delimits_declarations hds (closes_cons (by decide) _)).append
      (delimits_statements hlist ?_)
    rw [← List.singleton_append, ← List.append_assoc]
    exact opens_let (opens_append_char before (by decide)) ds

/-! ## Nodes -/

theorem shape_of_getLast? {n : Node} (h : ∃ x, (l.shape e n).1.getLast? = some (.node x)) :
    (l.shape e n).2 = [] := by
  obtain ⟨x, h⟩ := h
  unfold shape at h ⊢
  split <;> simp_all

theorem encloses_standalone (n : Node) : encloses n .standalone = false := by
  unfold encloses
  split <;> simp

theorem placements_of_shape (l : Layout) (links : Links) (e : NodeId) (n : Node)
    (before after : List Char) : placementsInAll links before after (l.shape e n).2 = [] := by
  unfold shape
  split <;> rfl

/-- What binds loosely within the parts of a node. The parts next to a part tell what is around it,
and at the ends the position of the node does. -/
theorem delimited_parts {n : Node} {pieces : List Fragment}
    (hpieces : List.Forall₂ (l.PartAs (l.WrittenDelimited links))
      (positioned pos (l.shape e n).1) pieces)
    (hafter : pos = .standalone → Closes after) :
    ∀ p ∈ placementsInAll links (before ++ opening (encloses n pos))
        (closing (encloses n pos) ++ after) (pieces ++ (l.shape e n).2),
      l.graph.BindsLoosely p.fragment → p.fragment.enclosed = true ∨ Closes p.after ∧
        (pos = .standalone ∧ p.before = before ∨ p.SeemsOpen links
          ((Fragment.expansion e (encloses n pos) (pieces ++ (l.shape e n).2)).placements links
            before after)) := by
  intro p hp hloose
  have hp' := hp
  rw [placementsInAll_append, placements_of_shape, List.append_nil] at hp'
  obtain ⟨front, f, rest, rfl, hpf⟩ := exists_of_mem_placementsInAll hp'
  obtain ⟨ps₁, part, ps₂, hps, hfront, hf, hrest⟩ := exists_part hpieces
  rw [Option.or_none] at hf
  cases part with
  | text t =>
    cases hf
    cases hpf
  | node x =>
    have hright : positionBetween pos ps₁.getLast? ps₂.head? = .standalone →
        Closes (renderAll links rest ++ (renderAll links (l.shape e n).2 ++
          (closing (encloses n pos) ++ after))) := by
      refine fun hpos => closes_of_passes hrest (positionBetween_eq_standalone.1 hpos).2 ?_
      rintro rfl rfl
      rw [shape_of_getLast? ⟨x, by rw [hps, List.getLast?_concat]⟩, encloses_standalone]
      exact hafter rfl
    refine (writtenDelimited_of_use hf _ _ hright p hpf hloose).imp_right ?_
    rintro ⟨hcloses, ⟨hpos, hbefore⟩ | hopens⟩
    · refine ⟨hcloses, ?_⟩
      obtain ⟨rfl, rfl⟩ | ⟨front, t, rfl, hopens⟩ :=
        start_or_opens hfront (positionBetween_eq_standalone.1 hpos).1
      · refine .inl ⟨rfl, ?_⟩
        rw [hbefore, encloses_standalone]
        simp [opening, renderAll]
      · have htext : p.before = before ++ opening (encloses n pos) ++ renderAll links front ++
            t.toList := by
          rw [hbefore, Layout.renderAll_append]
          simp [renderAll, Fragment.render]
        refine .inr ((opens_of_opensExpression hopens _).imp (htext ▸ ·) fun ht => ⟨t, ht, ?_⟩)
        refine ⟨⟨_, before, after⟩, List.mem_cons_self, e, _, front, f,
          rest ++ (l.shape e n).2, ?_, htext, ?_⟩
        · simp
        · rw [Layout.renderAll_append, hbefore]
          simpa using hpf
    · refine ⟨hcloses, .inr (hopens.mono fun q hq => List.mem_cons_of_mem _ ?_)⟩
      rw [placementsInAll_append]
      exact List.mem_append_left _ (mem_placementsInAll hq)

theorem closed_writtenDelimited : l.Closed (l.WrittenDelimited links) := by
  refine ⟨?_, ?_, ?_⟩
  · rintro e pos name _ _ before after _ p hp
    cases hp
  · rintro f pos params inner b _ _ _ hblock before after h
    rw [Fragment.placements]
    have harrow : Opens (before ++ opening (pos = .operand) ++
        arrow (l.analysis.suspends (some f)) params) := by
      rw [arrow, ← List.append_assoc]
      exact opens_append_arrow _
    have hclosing : Closes (closing (pos = .operand) ++ after) := by
      cases pos with
      | standalone => exact h rfl
      | operand => exact closes_cons (by decide) after
    have hbody := delimits_block hblock harrow hclosing
    refine List.forall_mem_cons.2 ⟨fun _ => ?_, fun p hp hloose => ?_⟩
    · cases pos with
      | standalone => exact .inr ⟨h rfl, .inl ⟨rfl, rfl⟩⟩
      | operand => exact .inl rfl
    · exact (hbody p hp hloose).imp_right fun hp =>
        ⟨hp.1, .inr (hp.2.mono (List.subset_cons_self ..))⟩
  · rintro e n pos pieces hn _ _ _ hpieces before after h
    rw [Fragment.placements]
    refine List.forall_mem_cons.2 ⟨?_, delimited_parts hpieces h⟩
    rintro ⟨n', parts, hn', hkind, hawaits⟩
    obtain rfl : n' = n := Option.some.inj (hn'.symm.trans hn)
    cases pos with
    | standalone => exact .inr ⟨h rfl, .inl ⟨rfl, rfl⟩⟩
    | operand => exact .inl (by simp [Fragment.enclosed, encloses, hkind, hawaits])

/-- In a script every function and every awaited template that is written out is in parentheses or
delimited, as far as the part directly before it tells. -/
theorem delimits_output {mode : CompileMode} {body : Body} {o : Output}
    (ho : l.output mode body = .ok o) (params : List String) :
    l.graph.Delimits links (o.placements links params) := by
  have hout := (closed_writtenDelimited : l.Closed (l.WrittenDelimited links)).of_output ho
  cases mode with
  | statements =>
    obtain ⟨ds, list, ⟨_, hds, _, hlist, heq⟩, rfl⟩ := hout
    cases heq
    have hopens : Opens ([] ++ renderLet links ds) := opens_let (.start rfl) ds
    exact (delimits_declarations hds (closes_cons (by decide) _)).append
      (delimits_statements hlist hopens)
  | evaluation =>
    obtain ⟨root, b, rfl, hb, rfl⟩ := hout
    have harrow : Opens ("(async(".toList ++ joined [','] (params.map (·.toList)) ++
        ")=>".toList) := by
      rw [show ")=>".toList = [')'] ++ "=>".toList from rfl, ← List.append_assoc]
      exact opens_append_arrow _
    exact delimits_block hb harrow (closes_cons (by decide) [])

end Layout

/-! ## Stores and compiled scripts -/

theorem exists_last_of_isIdentifier {name : String} (h : isIdentifier name = true) :
    ∃ last, name.toList.getLast? = some last ∧ last ∉ operatorChars := by
  have hne : name.toList ≠ [] := fun hnil => by simp [isIdentifier, hnil] at h
  exact ⟨_, List.getLast?_eq_some_getLast hne,
    notMem_operatorChars (isIdentifierPart_of_mem h _ (List.getLast_mem hne))⟩

theorem exists_last_append (x : String) {y : String} {c : Char} (hy : y.toList.getLast? = some c)
    (hc : c ∉ operatorChars) :
    ∃ last, (x ++ y).toList.getLast? = some last ∧ last ∉ operatorChars := by
  refine ⟨c, ?_, hc⟩
  rw [String.toList_append, List.getLast?_append, hy]
  rfl

/-- The contents of the resource store end with a bracket or a name. -/
theorem Options.exists_last_resourcesText {o : Options} (h : o.check = .ok ()) (stores : Stores) :
    ∃ last, (o.access.resourcesText stores).toList.getLast? = some last ∧
      last ∉ operatorChars := by
  unfold Access.resourcesText
  split
  · rename_i param _ hparam
    have hname : isIdentifier o.resourceParam = true :=
      isIdentifier_of_check h (by simp [names] : ("resourceParam", _) ∈ o.names)
    obtain rfl : o.resourceParam = param := by
      cases hmode : o.mode <;> simp_all [access]
    exact exists_last_of_isIdentifier hname
  · cases o.access.resourceMode with
    | snapshot =>
      rw [Stores.resourcesText, Stores.bracketed]
      exact exists_last_append _ (rfl : "]".toList.getLast? = some ']') (by decide)
    | runtime =>
      rw [Stores.resourcesText]
      exact exists_last_append _ (rfl : ")".toList.getLast? = some ')') (by decide)

/-- The contents of the stores leave delimiters where they are. -/
theorem Links.keepsDelimiters_splice (links : Links) {o : Options} (h : o.check = .ok ())
    (output : Output) : KeepsDelimiters (links.splice o.access output) := by
  have hmodules : KeepsDelimiters fun text => if output.usesModules then
      replaceAll moduleMark (links.stores.modulesText o.access.moduleParam).toList text
      else text := by
    obtain ⟨last, hlast, hnew⟩ := exists_last_append _
      (rfl : ".map(u=>import(u)))".toList.getLast? = some ')') (by decide)
    cases output.usesModules with
    | false => exact .id
    | true => exact .replaceAll (.inl rfl) hlast hnew
  have hresources : KeepsDelimiters fun text => if output.usesResources then
      replaceAll resourceMark (o.access.resourcesText links.stores).toList text
      else text := by
    obtain ⟨last, hlast, hnew⟩ := Options.exists_last_resourcesText h links.stores
    cases output.usesResources with
    | false => exact .id
    | true => exact .replaceAll (.inr rfl) hlast hnew
  exact hmodules.comp hresources

namespace Placement

variable (p : Placement) (links : Links) (places : List Placement)
  (change : List Char → List Char) (code : List Char)

/-- The part directly before the place is the equals sign of an operator only. The operator's other
characters end the text before that part. -/
def SplitsOperator : Prop :=
  ∃ t x front, p.Follows links places t ∧ IsEqualsPart t.toList ∧ change p.before = x ++ t.toList ∧
    front ++ ['='] ∈ equalsOperators ∧ front <:+ x

/-- The place is found in `code`, which a change of text has made of the text of the script. The
fragment there is in parentheses of its own, or what is after it closes an expression and what is
before it opens one, unless the part directly before it splits an operator. -/
def DelimitedIn : Prop :=
  (p.fragment.enclosed = true ∧ code = change p.before ++
      parenthesized (change (p.fragment.bare.render links)) ++ change p.after) ∨
    (p.fragment.enclosed = false ∧
      code = change p.before ++ change (p.fragment.render links) ++ change p.after ∧
      Closes (change p.after) ∧
      (Opens (change p.before) ↔ ¬p.SplitsOperator links places change))

variable {p links places change}

theorem SplitsOperator.not_opens (h : p.SplitsOperator links places change) :
    ¬Opens (change p.before) := by
  obtain ⟨t, x, front, _, ht, hbefore, hop, hfront⟩ := h
  rw [hbefore, opens_append_equalsPart ht]
  exact fun hno => hno ⟨front, hop, hfront⟩

theorem SeemsOpen.seemsToOpen (h : p.SeemsOpen links places) : SeemsToOpen p.before := by
  refine h.imp_right ?_
  rintro ⟨t, ht, q, _, e, enclosed, front, next, rest, _, hbefore, _⟩
  exact ⟨_, t.toList, ht, hbefore⟩

theorem SeemsOpen.opens_iff (h : p.SeemsOpen links places) (hchange : KeepsDelimiters change) :
    Opens (change p.before) ↔ ¬p.SplitsOperator links places change := by
  refine ⟨fun hopens hsplits => hsplits.not_opens hopens, fun hno => ?_⟩
  obtain hopens | ⟨t, ht, hfollows⟩ := h
  · exact hchange.opens hopens
  · obtain ⟨x, hbefore⟩ : ∃ x, change p.before = x ++ t.toList := by
      obtain ⟨q, _, e, enclosed, front, next, rest, _, hbefore, _⟩ := hfollows
      exact ⟨_, hbefore ▸ hchange.equals ht _⟩
    rw [hbefore, opens_append_equalsPart ht]
    rintro ⟨front, hop, hfront⟩
    exact hno ⟨t, x, front, hfollows, ht, hbefore, hop, hfront⟩

/-- A delimited place of a script stays so when a change of text keeps delimiters. -/
theorem delimitedIn_change (hchange : KeepsDelimiters change)
    (h : p.fragment.enclosed = true ∨ Closes p.after ∧ p.SeemsOpen links places) :
    p.DelimitedIn links places change (change (p.text links)) := by
  cases henclosed : p.fragment.enclosed with
  | true =>
    refine .inl ⟨henclosed, ?_⟩
    rw [Placement.text, Fragment.render_enclosed henclosed, hchange.encloses]
  | false =>
    obtain ⟨hcloses, hopens⟩ := h.resolve_left (by simp [henclosed])
    exact .inr ⟨henclosed, hchange.delimits hopens.seemsToOpen hcloses _, hchange.closes hcloses,
      hopens.opens_iff hchange⟩

end Placement

namespace Builder

variable {σ : Type}

/-- **Functions and awaited templates are delimited**: in a compiled script every place where a
function or an awaited template is written out is in parentheses of its own, or the text after it
begins with what closes an expression and the text before it ends with what opens one. The text
before it does not only where the part directly before the place is the equals sign of an operator,
with the operator's other characters before the part. -/
theorem delimited_of_compile {b c : Builder σ} (hb : b.Reached) {body : Body} {o : Options}
    {stores : Stores} {resolver : Resolver} {outcome : Outcome} {compiled : Compiled}
    (h : b.compile body o stores resolver = (outcome, c)) (hok : outcome.result = .ok compiled) :
    ∃ output links, b.script body o = .ok output ∧ compiled.Presents o output links ∧
      (output.placements links (o.access.params output)).map (·.fragment) = output.written ∧
      ∀ p ∈ output.placements links (o.access.params output),
        c.state.graph.BindsLoosely p.fragment →
          p.DelimitedIn links (output.placements links (o.access.params output))
            (links.splice o.access output) compiled.code.toList := by
  obtain ⟨a, output, ha, houtput, hcheck, hpresents, _⟩ := presents_of_compile hb h hok
  refine ⟨output, _, script_eq_ok.2 ⟨hcheck, a, c, ha, houtput⟩, hpresents,
    output.map_fragment_placements _, fun p hp hloose => ?_⟩
  have hplace := Layout.delimits_output (l := o.layout c.state.graph a) houtput _ p hp hloose
  rw [hpresents.code, String.toList_ofList, ← output.text_of_placement _ p hp]
  exact Placement.delimitedIn_change (Links.keepsDelimiters_splice _ hcheck output) hplace

/-- The call of a function with a function. -/
def calledExample : Builder Unit :=
  (Builder.run (Build.toRecipe do
    let result ← Build.ident "b"
    let argument ← Build.function 0 fun _ _ => .done (.ok (.value result))
    let callee ← Build.function 0 fun _ _ => .done (.ok (.value result))
    let call ← Build.call callee [argument]
    return .ok (.value call)) (.empty ())).2

/-- A function that returns `b`. -/
def constantFunction (f : NodeId) (enclosed : Bool) : Fragment :=
  .lambda f enclosed false [] (.value [] (.expansion 0 false [.text "b"]))

def calledScript : Output :=
  .script [] [.expansion 3 false
    [constantFunction 2 true, .text "(", constantFunction 1 false, .text ")"]]

def placedArgument : Placement := ⟨constantFunction 1 false, "(()=>b)(".toList, ");".toList⟩

def placedCallee : Placement := ⟨constantFunction 2 true, [], "(()=>b);".toList⟩

theorem script_calledExample :
    calledExample.script (.statements [3]) {} = .ok calledScript := by cbv

/-- The function that is called is in parentheses, and its argument needs none. -/
theorem delimited_calledExample : ∃ outcome c compiled links,
    calledExample.compile (.statements [3]) {} {} Resolver.identity = (outcome, c) ∧
    outcome.result = .ok compiled ∧ compiled.Presents {} calledScript links ∧
    compiled.code = "(()=>b)(()=>b);" ∧ ∀ p ∈ [placedCallee, placedArgument],
      p.DelimitedIn links
        (calledScript.placements links (({} : Options).access.params calledScript))
        (links.splice ({} : Options).access calledScript) compiled.code.toList := by
  have hreached : calledExample.Reached := (Builder.run_leads _ _).reached (reached_empty ())
  obtain ⟨hcheck, a, c, ha, ho⟩ := script_eq_ok.1 script_calledExample
  obtain ⟨compiled, hcompiled, _, hcompile⟩ :=
    exists_compiled hreached hcheck ha ho {} Resolver.identity
  obtain ⟨output, links, hscript, hpresents, _, hdelimited⟩ :=
    delimited_of_compile hreached hcompile rfl
  obtain rfl : calledScript = output := Except.ok.inj (script_calledExample.symm.trans hscript)
  have hplaces : calledScript.placements links [] =
      [⟨.expansion 3 false [constantFunction 2 true, .text "(", constantFunction 1 false,
          .text ")"], [], [';']⟩, placedCallee,
        ⟨.expansion 0 false [.text "b"], "(()=>".toList, ")(()=>b);".toList⟩, placedArgument,
        ⟨.expansion 0 false [.text "b"], "(()=>b)(()=>".toList, ");".toList⟩] := by rfl
  refine ⟨_, c, compiled, links, hcompile, rfl, hpresents, ?_, fun p hp => ?_⟩
  · rw [hcompiled.code]
    decide
  · have hparams : ({} : Options).access.params calledScript = [] := by rfl
    rw [hparams, hplaces] at hdelimited
    rcases List.mem_cons.1 hp with rfl | hp
    · exact hdelimited placedCallee (by simp) trivial
    · rw [List.mem_singleton.1 hp]
      exact hdelimited placedArgument (by simp) trivial

/-- An equality, of which the operator is split into two parts, with a function. -/
def splitExample : Builder Unit :=
  (Builder.run (Build.toRecipe do
    let result ← Build.ident "b"
    let f ← Build.function 0 fun _ _ => .done (.ok (.value result))
    let equality ← Build.template [.text "a=", .text "=", .node f]
    return .ok (.value equality)) (.empty ())).2

def splitScript : Output :=
  .script [] [.expansion 2 false [.text "a=", .text "=", constantFunction 1 false]]

def placedOperand : Placement := ⟨constantFunction 1 false, "a==".toList, [';']⟩

theorem script_splitExample :
    splitExample.script (.statements [2]) {} = .ok splitScript := by cbv

/-- The function is the operand of `==`, without parentheses. -/
theorem undelimited_splitExample : ∃ outcome c compiled links,
    splitExample.compile (.statements [2]) {} {} Resolver.identity = (outcome, c) ∧
    outcome.result = .ok compiled ∧ compiled.Presents {} splitScript links ∧
    compiled.code = "a==()=>b;" ∧
    placedOperand ∈ splitScript.placements links (({} : Options).access.params splitScript) ∧
    placedOperand.fragment.enclosed = false ∧
    links.splice ({} : Options).access splitScript placedOperand.before = placedOperand.before ∧
    ¬Opens placedOperand.before := by
  obtain ⟨hcheck, a, c, ha, ho⟩ := script_eq_ok.1 script_splitExample
  have hreached : splitExample.Reached := (Builder.run_leads _ _).reached (reached_empty ())
  obtain ⟨compiled, hpresents, _, hcompile⟩ :=
    exists_compiled hreached hcheck ha ho {} Resolver.identity
  have hplaces : ∀ links, splitScript.placements links [] =
      [⟨.expansion 2 false [.text "a=", .text "=", constantFunction 1 false], [], [';']⟩,
        placedOperand, ⟨.expansion 0 false [.text "b"], "a==()=>".toList, [';']⟩] := fun _ => by rfl
  refine ⟨_, c, compiled, _, hcompile, rfl, hpresents, ?_, ?_, rfl, rfl, fun hopens => ?_⟩
  · rw [hpresents.code]
    decide
  · rw [show ({} : Options).access.params splitScript = [] from rfl, hplaces]
    simp
  · have hsplit : placedOperand.before = "a=".toList ++ ['='] := rfl
    have hpart : IsEqualsPart ['='] := by decide
    rw [hsplit, opens_append_equalsPart hpart] at hopens
    exact hopens ⟨['='], by decide, by decide⟩

end Builder

end ScriptGraph
