import ScriptGraph.Proofs.Compile.Script
import ScriptGraph.Proofs.Emission.Contents
import ScriptGraph.Proofs.Text.Printed

/-!
# The contents of the stores go where the stores are declared

A script is written with marks for the contents of the stores, and the contents are put in the places
of the marks afterwards.

* `replaceAll_eq_self_iff` : what a replacement leaves alone has no occurrence of the replaced text;
* `Links.splice_append` : text that no mark can overlap stays in its place;
* `Links.splice_render` : the code is that of the script with its contents written out, if these are
  spliced once more;
* `Builder.splice_of_compile` : so the code is that script unless a mark is found in it;
* `Builder.splice_markExample` : a mark in a given text is taken for that of a store.
-/

namespace ScriptGraph

/-! ## Replacing -/

section Replace

variable {old new cs : List Char}

theorem replaceFrom_of_length_le {n : Nat} (h : cs.length ≤ n) : replaceFrom old new n cs = [] := by
  induction cs generalizing n with
  | nil => cases n <;> rfl
  | cons c cs ih =>
    obtain ⟨n, rfl⟩ := Nat.exists_eq_succ_of_ne_zero (Nat.ne_zero_of_lt h)
    exact ih (Nat.le_of_succ_le_succ h)

theorem replaceAll_self (h : old ≠ []) : replaceAll old new old = new := by
  obtain ⟨c, old, rfl⟩ := List.exists_cons_of_ne_nil h
  rw [replaceAll, replaceFrom, if_pos (List.isPrefixOf_iff_prefix.2 (List.prefix_refl _)),
    replaceFrom_of_length_le (by simp), List.append_nil]

theorem replaceAll_eq_self (h : ¬old <:+: cs) : replaceAll old new cs = cs := by
  induction cs with
  | nil => rfl
  | cons c cs ih =>
    rw [List.infix_cons_iff, not_or] at h
    rw [replaceAll, replaceFrom, if_neg (by simpa [List.isPrefixOf_iff_prefix] using h.1)]
    exact congrArg (c :: ·) (ih h.2)

theorem count_replaceFrom_le (hnew : '\x00' ∉ new) (n : Nat) (cs : List Char) :
    (replaceFrom old new n cs).count '\x00' ≤ cs.count '\x00' := by
  induction cs generalizing n with
  | nil => cases n <;> exact Nat.le_refl _
  | cons c cs ih =>
    cases n with
    | succ n => exact Nat.le_trans (ih n) (List.count_le_count_cons ..)
    | zero =>
      rw [replaceFrom]
      split
      · rw [List.count_append, List.count_eq_zero_of_not_mem hnew, Nat.zero_add]
        exact Nat.le_trans (ih _) (List.count_le_count_cons ..)
      · rw [List.count_cons, List.count_cons]
        exact Nat.add_le_add_right (ih 0) _

/-- Replacing an occurrence takes out the zero character with which it begins. -/
theorem count_replaceAll_lt (hnew : '\x00' ∉ new) (hhead : old.head? = some '\x00')
    (h : old <:+: cs) : (replaceAll old new cs).count '\x00' < cs.count '\x00' := by
  induction cs with
  | nil =>
    rw [List.infix_nil.1 h] at hhead
    cases hhead
  | cons c cs ih =>
    rw [replaceAll, replaceFrom]
    split
    · rename_i hbegins
      obtain ⟨rest, heq⟩ := List.isPrefixOf_iff_prefix.1 hbegins
      obtain ⟨tail, rfl⟩ := List.head?_eq_some_iff.1 hhead
      obtain rfl : '\x00' = c := (List.cons.inj heq).1
      rw [List.count_append, List.count_eq_zero_of_not_mem hnew, Nat.zero_add,
        List.count_cons_self]
      exact Nat.lt_succ_of_le (count_replaceFrom_le hnew _ cs)
    · rename_i hbegins
      rw [List.isPrefixOf_iff_prefix] at hbegins
      rw [List.count_cons, List.count_cons]
      exact Nat.add_lt_add_right (ih ((List.infix_cons_iff.1 h).resolve_left hbegins)) _

theorem replaceAll_eq_self_iff (hnew : '\x00' ∉ new) (hhead : old.head? = some '\x00') :
    replaceAll old new cs = cs ↔ ¬old <:+: cs := by
  refine ⟨fun heq h => ?_, replaceAll_eq_self⟩
  have hlt := count_replaceAll_lt hnew hhead h
  rw [heq] at hlt
  exact Nat.lt_irrefl _ hlt

end Replace

/-! ## Marks -/

/-- What stands for the contents of a store. -/
def Store.mark : Store → List Char
  | .modules => moduleMark
  | .resources => resourceMark

theorem Store.isMark_mark (s : Store) : Layout.IsMark s.mark := by
  cases s
  · exact Layout.isMark_moduleMark
  · exact Layout.isMark_resourceMark

theorem Store.mark_ne_nil (s : Store) : s.mark ≠ [] := by
  cases s <;> decide

/-- No mark can overlap the text. -/
def Separates (m : List Char) : Prop := ∀ s : Store, Splits s.mark m

/-- No mark can overlap a text without zero characters that has a character no mark has. -/
theorem separates_of_mem {m : List Char} {c : Char} (hnul : '\x00' ∉ m) (hc : c ∈ m)
    (hmark : c ∉ moduleMark ∧ c ∉ resourceMark) : Separates m := by
  intro s
  obtain ⟨hhead, hlast, -⟩ := s.isMark_mark
  refine ⟨fun d hd heq => hnul ?_, fun d hd heq => hnul ?_, c, hc, ?_⟩
  · exact (Option.some.inj (hhead.symm.trans heq)) ▸ hd
  · exact (Option.some.inj (hlast.symm.trans heq)) ▸ hd
  · cases s
    · exact hmark.1
    · exact hmark.2

namespace Links

/-- What the declaration of a store is set to. -/
def contents (links : Links) (a : Access) (s : Store) : String :=
  a.storeText links.stores s.kind

variable {links : Links} {a : Access} {o : Output}

/-- Puts the contents of one store in the places of its mark, if the script has the store. -/
def put (links : Links) (a : Access) (o : Output) (s : Store) (text : List Char) : List Char :=
  if o.uses s then replaceAll s.mark (links.contents a s).toList text else text

theorem splice_eq (links : Links) (a : Access) (o : Output) (text : List Char) :
    links.splice a o text = links.put a o .resources (links.put a o .modules text) := rfl

theorem put_append {m : List Char} (s : Store) (h : Splits s.mark m) (x y : List Char) :
    links.put a o s (x ++ (m ++ y)) = links.put a o s x ++ (m ++ links.put a o s y) := by
  unfold put
  split
  · exact replaceAll_append h s.mark_ne_nil x y
  · rfl

theorem splice_append {m : List Char} (h : Separates m) (x y : List Char) :
    links.splice a o (x ++ (m ++ y)) = links.splice a o x ++ (m ++ links.splice a o y) := by
  simp only [splice_eq, put_append _ (h _)]

theorem splice_joined (texts : List (List Char)) :
    links.splice a o (joined [','] texts) = joined [','] (texts.map (links.splice a o)) := by
  have hcomma : Separates [','] := separates_of_mem (c := ',') (by decide) (by decide) (by decide)
  have hnil : links.splice a o [] = [] := by
    simp only [splice_eq, put]
    split <;> split <;> rfl
  induction texts with
  | nil => exact hnil
  | cons t rest ih =>
    cases rest with
    | nil => rfl
    | cons u rest =>
      rw [joined_cons_cons, splice_append hcomma, ih]
      exact (joined_cons_cons ..).symm

/-! ## Contents -/

/-- The contents of the stores have no zero characters. -/
def Plain (links : Links) (a : Access) : Prop := ∀ s, '\x00' ∉ (links.contents a s).toList

theorem put_of_notMem {text : List Char} (h : '\x00' ∉ text) (s : Store) :
    links.put a o s text = text := by
  unfold put
  split
  · refine replaceAll_eq_self fun hmark => h (hmark.subset ?_)
    exact List.mem_of_head? s.isMark_mark.1
  · rfl

theorem splice_of_notMem {text : List Char} (h : '\x00' ∉ text) :
    links.splice a o text = text := by
  rw [splice_eq, put_of_notMem h, put_of_notMem h]

theorem splice_mark (hplain : links.Plain a) {s : Store} (hs : o.uses s = true) :
    links.splice a o s.mark = (links.contents a s).toList := by
  have hself : links.put a o s s.mark = (links.contents a s).toList := by
    rw [put, if_pos hs, replaceAll_self s.mark_ne_nil]
  rw [splice_eq]
  cases s with
  | modules => rw [hself, put_of_notMem (hplain .modules)]
  | resources =>
    have hother : links.put a o .modules (Store.mark .resources) = Store.mark .resources := by
      unfold put
      split
      · exact replaceAll_eq_self (by decide)
      · rfl
    rw [hother, hself]

theorem put_eq_self_iff (hplain : links.Plain a) {s : Store} {text : List Char} :
    links.put a o s text = text ↔ (o.uses s = true → ¬s.mark <:+: text) := by
  unfold put
  split
  · rename_i hs
    rw [replaceAll_eq_self_iff (hplain s) s.isMark_mark.1]
    exact ⟨fun h _ => h, fun h => h hs⟩
  · rename_i hs
    exact ⟨fun _ h => absurd h hs, fun _ => rfl⟩

theorem count_put_le (hplain : links.Plain a) (s : Store) (text : List Char) :
    (links.put a o s text).count '\x00' ≤ text.count '\x00' := by
  unfold put
  split
  · exact count_replaceFrom_le (hplain s) 0 text
  · exact Nat.le_refl _

/-- Splicing leaves a text alone exactly if it has no mark of a store that the script has. -/
theorem splice_eq_self_iff (hplain : links.Plain a) {text : List Char} :
    links.splice a o text = text ↔ ∀ s, o.uses s = true → ¬s.mark <:+: text := by
  rw [splice_eq]
  constructor
  · intro heq
    have hmodules : links.put a o .modules text = text := by
      rw [put_eq_self_iff hplain]
      intro hs hmark
      have hlt : (links.put a o .modules text).count '\x00' < text.count '\x00' := by
        rw [put, if_pos hs]
        exact count_replaceAll_lt (hplain .modules) (Store.isMark_mark _).1 hmark
      have hle := count_put_le (o := o) hplain .resources (links.put a o .modules text)
      rw [heq] at hle
      omega
    rw [hmodules] at heq
    intro s
    cases s with
    | modules => exact (put_eq_self_iff hplain).1 hmodules
    | resources => exact (put_eq_self_iff hplain).1 heq
  · intro h
    rw [(put_eq_self_iff hplain).2 (h .modules), (put_eq_self_iff hplain).2 (h .resources)]

end Links

/-- The contents of the stores are printed, with options that are accepted. -/
theorem Options.plain_contents {o : Options} (h : o.check = .ok ()) (links : Links) :
    links.Plain o.access := by
  have hname {field name : String} (hmem : (field, name) ∈ o.names) :
      ∀ c ∈ name.toList, Ecma.IsPrinted c :=
    printed_of_isIdentifier (isIdentifier_of_check h hmem)
  have hprinted : ∀ s, ∀ c ∈ (links.contents o.access s).toList, Ecma.IsPrinted c := by
    intro s
    cases s with
    | modules =>
      refine Stores.printed_modulesText _ fun p hp => ?_
      have hparam : o.moduleParam = p := by
        cases hmode : o.mode <;> simp_all [access]
      exact hparam ▸ hname (by simp [names] : ("moduleParam", _) ∈ o.names)
    | resources =>
      have haccessor := hname (by simp [names] : ("resourceAccessor", o.resourceAccessor) ∈ o.names)
      show ∀ c ∈ (o.access.resourcesText links.stores).toList, _
      unfold Access.resourcesText
      split
      · rename_i param _ hp
        have hparam : o.resourceParam = param := by
          cases hmode : o.mode <;> simp_all [access]
        exact Stores.printed_resourcesText _ _ _
          (hparam ▸ hname (by simp [names] : ("resourceParam", _) ∈ o.names))
      · exact Stores.printed_resourcesText _ _ _ haccessor
  exact fun s hmem => absurd (hprinted s _ hmem).1 (by decide)

/-! ## Scripts -/

section Render

variable {links : Links} {a : Access} {o : Output} {ds ds' : List Declaration}

theorem renderDeclarations_eq (links : Links) (ds : List Declaration) :
    renderDeclarations links ds = ds.map (Declaration.render links) := by
  induction ds with
  | nil => rfl
  | cons d ds ih => rw [renderDeclarations, ih, List.map_cons]

theorem renderLet_cons_map (links : Links) (d : Declaration) (ds : List Declaration) :
    renderLet links (d :: ds) =
      "let ".toList ++ (joined [','] ((d :: ds).map (Declaration.render links)) ++ [';']) := by
  rw [renderLet_cons, renderDeclarations_eq, List.append_assoc, List.map_cons]

theorem splice_renderLet_cons (d : Declaration) (ds : List Declaration) (x y : List Char) :
    links.splice a o (x ++ (renderLet links (d :: ds) ++ y)) =
      links.splice a o x ++ ("let ".toList ++ (joined [',']
        ((d :: ds).map (links.splice a o ∘ Declaration.render links)) ++
          ([';'] ++ links.splice a o y))) := by
  have hlet : Separates "let ".toList :=
    separates_of_mem (c := ' ') (by decide) (by decide) (by decide)
  have hend : Separates [';'] := separates_of_mem (c := ';') (by decide) (by decide) (by decide)
  rw [renderLet_cons_map, List.append_assoc, List.append_assoc, Links.splice_append hlet,
    Links.splice_append hend, Links.splice_joined, List.map_map]

/-- Declarations with the same texts after splicing give the same text after splicing. -/
theorem splice_renderLet (h : ds.map (links.splice a o ∘ Declaration.render links) =
      ds'.map (links.splice a o ∘ Declaration.render links)) (x y : List Char) :
    links.splice a o (x ++ (renderLet links ds ++ y)) =
      links.splice a o (x ++ (renderLet links ds' ++ y)) := by
  cases ds with
  | nil =>
    rw [List.map_nil, eq_comm, List.map_eq_nil_iff] at h
    rw [h]
  | cons d ds =>
    cases ds' with
    | nil => cases h
    | cons d' ds' => rw [splice_renderLet_cons, splice_renderLet_cons, h]

theorem Declaration.render_of_holds {d : Declaration} {s : Store} (h : d.holds? = some s)
    (links : Links) (contents : Store → String) :
    ∃ name : String, d.render links = name.toList ++ (['='] ++ s.mark) ∧
      (d.withContents contents).render links = name.toList ++ (['='] ++ (contents s).toList) := by
  obtain ⟨e, name, accessor, init⟩ := d
  cases accessor with
  | true => cases h
  | false =>
    have hinit : init.render links = s.mark := by
      rw [Declaration.holds?, if_neg Bool.false_ne_true] at h
      unfold Fragment.holds? at h
      split at h
      · cases h
        rfl
      · cases h
        rfl
      · cases h
    refine ⟨name, ?_, ?_⟩
    · rw [Declaration.render, if_neg Bool.false_ne_true, hinit]
      rfl
    · rw [Declaration.withContents, h]
      rfl

/-- The contents of a store become the value of its declaration. -/
theorem splice_of_holds (hplain : links.Plain a) {d : Declaration} {s : Store}
    (hd : d.holds? = some s) (hs : o.uses s = true) : ∃ name : String,
    links.splice a o (d.render links) =
      links.splice a o name.toList ++ (['='] ++ (links.contents a s).toList) ∧
    links.splice a o ((d.withContents (links.contents a)).render links) =
      links.splice a o (d.render links) := by
  obtain ⟨name, hmark, hcontents⟩ := Declaration.render_of_holds hd links (links.contents a)
  have hequals : Separates ['='] :=
    separates_of_mem (c := '=') (by decide) (by decide) (by decide)
  refine ⟨name, ?_, ?_⟩
  · rw [hmark, Links.splice_append hequals, Links.splice_mark hplain hs]
  · rw [hmark, hcontents, Links.splice_append hequals, Links.splice_append hequals,
      Links.splice_mark hplain hs, Links.splice_of_notMem (hplain s)]

/-- A declaration reads the same with the contents of the store that it is set to. -/
theorem splice_withContents (hplain : links.Plain a) {d : Declaration}
    (hd : ∀ s, d.holds? = some s → o.uses s = true) :
    links.splice a o ((d.withContents (links.contents a)).render links) =
      links.splice a o (d.render links) := by
  cases hholds : d.holds? with
  | some s => exact (splice_of_holds hplain hholds (hd s hholds)).elim fun _ h => h.2
  | none =>
    obtain ⟨e, name, accessor, init⟩ := d
    rw [Declaration.withContents, hholds]

theorem Output.render_evaluation (links : Links) (params : List String) (b : Block) :
    (Output.evaluation b).render links params = "(async(".toList ++
      joined [','] (params.map (·.toList)) ++ ")=>".toList ++ b.render links ++ [')'] := rfl

/-- What is around the declarations at the top level does not depend on them, if there are some. -/
theorem exists_around_heads (links : Links) (contents : Store → String) (params : List String)
    (hne : o.heads ≠ []) : ∃ x y, o.render links params = x ++ (renderLet links o.heads ++ y) ∧
      (o.withContents contents).render links params =
        x ++ (renderLet links (o.heads.map (Declaration.withContents contents)) ++ y) := by
  match o with
  | .script ds list => exact ⟨[], renderStatements links list, rfl, rfl⟩
  | .evaluation (.value [] result) => exact (hne rfl).elim
  | .evaluation (.value (d :: ds) result) =>
    refine ⟨"(async(".toList ++ joined [','] (params.map (·.toList)) ++ ")=>".toList ++ ['\x7b'],
      "return ".toList ++ result.render links ++ ['\x7d'] ++ [')'], ?_, ?_⟩
    · simp [Output.render_evaluation, Block.render, Output.heads]
    · simp [Output.render_evaluation, Output.withContents, Block.render, Output.heads]
  | .evaluation (.statements ds list) =>
    refine ⟨"(async(".toList ++ joined [','] (params.map (·.toList)) ++ ")=>".toList ++ ['\x7b'],
      renderStatements links list ++ ['\x7d'] ++ [')'], ?_, ?_⟩
    · simp [Output.render_evaluation, Block.render, Output.heads]
    · simp [Output.render_evaluation, Output.withContents, Block.render, Output.heads]

theorem withContents_of_heads_nil (contents : Store → String) (h : o.heads = []) :
    o.withContents contents = o := by
  match o, h with
  | .script _ list, rfl => rfl
  | .evaluation (.value _ result), rfl => rfl
  | .evaluation (.statements _ list), rfl => rfl

/-- **Splicing writes the contents of the stores into their declarations**, and does to the script
with its contents what it does to the script with marks. -/
theorem Links.splice_render (hplain : links.Plain a)
    (ho : ∀ d ∈ o.heads, ∀ s, d.holds? = some s → o.uses s = true) (params : List String) :
    links.splice a o (o.render links params) =
      links.splice a o ((o.withContents (links.contents a)).render links params) := by
  have hmap : o.heads.map (links.splice a o ∘ Declaration.render links) =
      (o.heads.map (Declaration.withContents (links.contents a))).map
        (links.splice a o ∘ Declaration.render links) := by
    rw [List.map_map]
    exact List.map_congr_left fun d hd => (splice_withContents hplain (ho d hd)).symm
  by_cases hne : o.heads = []
  · rw [withContents_of_heads_nil _ hne]
  · obtain ⟨x, y, hmarks, hcontents⟩ :=
      exists_around_heads links (links.contents a) params hne
    rw [hmarks, hcontents]
    exact splice_renderLet hmap x y

theorem infix_splice_render (hplain : links.Plain a) {s : Store} (hs : o.uses s = true)
    (hd : s ∈ o.heads.filterMap Declaration.holds?) (params : List String) :
    (links.contents a s).toList <:+: links.splice a o (o.render links params) := by
  obtain ⟨d, hmem, hholds⟩ := List.mem_filterMap.1 hd
  obtain ⟨name, hsplice, -⟩ := splice_of_holds hplain hholds hs
  obtain ⟨x, y, hrender, -⟩ :=
    exists_around_heads links (links.contents a) params (List.ne_nil_of_mem hmem)
  obtain ⟨d', ds, heq⟩ := List.exists_cons_of_ne_nil (List.ne_nil_of_mem hmem)
  have hdeclared : (links.splice a o ∘ Declaration.render links) d ∈
      o.heads.map (links.splice a o ∘ Declaration.render links) := List.mem_map_of_mem hmem
  rw [hrender, heq, splice_renderLet_cons, ← heq]
  refine List.IsInfix.trans ?_ ((infix_joined [','] hdeclared).trans ?_)
  · rw [Function.comp_apply, hsplice]
    exact (List.suffix_append _ _).isInfix.trans (List.suffix_append _ _).isInfix
  · rw [← List.append_assoc]
    exact List.infix_append' _ _ _

end Render

/-- The text of a script with the contents of the stores written into their declarations. -/
def Output.direct (o : Output) (links : Links) (a : Access) : List Char :=
  (o.withContents (links.contents a)).render links (a.params o)

namespace Builder

variable {σ : Type} {b c : Builder σ} {body : Body}

/-- **The contents of the stores go where the stores are declared**: every store that a compiled
script has is mentioned once, in a declaration of its own at the top level. The code is the script
with the contents in these declarations, if that script has no mark of these stores. If it has one,
the mark is replaced as well, and the code is another text. -/
theorem splice_of_compile (hb : b.Reached) {o : Options} {stores : Stores} {resolver : Resolver}
    {outcome : Outcome} {compiled : Compiled}
    (h : b.compile body o stores resolver = (outcome, c)) (hok : outcome.result = .ok compiled) :
    ∃ output links, b.script body o = .ok output ∧
      links = Links.ofMentions resolver stores output.mentions ∧
      outcome.stores = links.stores ∧ compiled.Presents o output links ∧
      storesIn output.mentions = output.heads.filterMap Declaration.holds? ∧
      (output.heads.filterMap Declaration.holds?).Nodup ∧
      compiled.code.toList = links.splice o.access output (output.direct links o.access) ∧
      (compiled.code.toList = output.direct links o.access ↔
        ∀ s : Store, output.uses s = true → ¬s.mark <:+: output.direct links o.access) := by
  obtain ⟨a, output, ha, houtput, hcheck, hpresents, -⟩ := presents_of_compile hb h hok
  obtain ⟨_, -, -, hcompile⟩ := exists_compiled hb hcheck ha houtput stores resolver
  have houtcome : outcome = _ := congrArg Prod.fst (h.symm.trans hcompile)
  have hc : c.Reached := (ha ▸ b.analyze_leads body o.nameStem).reached hb
  obtain ⟨hstores, hnodup⟩ := Layout.holdsStores_output (l := o.layout c.state.graph a)
    (analyze_resolved hb ha) hc.linked hc.stocked houtput
  generalize hlinks : Links.ofMentions resolver stores output.mentions = links
    at hpresents houtcome
  have hplain := Options.plain_contents hcheck links
  have hcode : compiled.code.toList =
      links.splice o.access output (output.direct links o.access) := by
    rw [hpresents.code, String.toList_ofList]
    refine Links.splice_render hplain (fun d hd s hs => ?_) _
    rw [Output.uses_iff, ← storesIn, hstores]
    exact List.mem_filterMap.2 ⟨d, hd, hs⟩
  exact ⟨output, links, script_eq_ok.2 ⟨hcheck, a, c, ha, houtput⟩, hlinks.symm,
    congrArg Outcome.stores houtcome, hpresents, hstores, hnodup, hcode,
    hcode ▸ Links.splice_eq_self_iff hplain⟩

/-- A module, and a given text. -/
def markedExample (text : String) : Builder Unit :=
  (Builder.run (Build.toRecipe do
    let module ← Build.create (.module "m")
    let given ← Build.create (.raw text)
    return .ok (.statements [module, given])) (.empty ())).2

def markedScript (text : String) : Output :=
  .script [.mk 0 "_0" false (.expansion 0 false [.moduleStore])]
    [.expansion 1 false [.name 0 "_0" false, .text "[", .moduleIndex "m", .text "]"],
      .expansion 2 false [.text text]]

theorem reached_markedExample (text : String) : (markedExample text).Reached :=
  (run_leads _ _).reached (reached_empty ())

theorem script_markedExample (text : String) :
    (markedExample text).script (.statements [1, 2]) {} = .ok (markedScript text) := by cbv

/-- A mark is left alone if the script does not have the store. -/
theorem splice_otherMarkExample : ∃ outcome c compiled links,
    (markedExample "\x00resource-store\x00").compile (.statements [1, 2]) {} {}
      Resolver.identity = (outcome, c) ∧
    outcome.result = .ok compiled ∧
    compiled.Presents {} (markedScript "\x00resource-store\x00") links ∧
    compiled.code.toList =
      (markedScript "\x00resource-store\x00").direct links ({} : Options).access ∧
    compiled.code = "let _0=await Promise.all([\"m\"].map(u=>import(u)));_0[0];" ++
      "\x00resource-store\x00;" := by
  obtain ⟨hcheck, a, c, ha, ho⟩ := script_eq_ok.1 (script_markedExample "\x00resource-store\x00")
  have hreached := reached_markedExample "\x00resource-store\x00"
  obtain ⟨compiled, -, -, hcompile⟩ := exists_compiled hreached hcheck ha ho {} Resolver.identity
  obtain ⟨output, links, hscript, rfl, -, hpresents, -, -, -, hiff⟩ :=
    splice_of_compile hreached hcompile rfl
  obtain rfl : output = markedScript _ :=
    Except.ok.inj (hscript.symm.trans (script_markedExample _))
  refine ⟨_, c, compiled, _, hcompile, rfl, hpresents, hiff.2 fun s hs => ?_, ?_⟩
  · cases s with
    | modules => decide +kernel
    | resources => cases hs
  · rw [hpresents.code]
    decide +kernel

/-- The given text is the mark of a store, and the contents of the store take its place. -/
theorem splice_markExample : ∃ outcome c compiled links,
    (markedExample "\x00module-store\x00").compile (.statements [1, 2]) {} {}
      Resolver.identity = (outcome, c) ∧
    outcome.result = .ok compiled ∧
    compiled.Presents {} (markedScript "\x00module-store\x00") links ∧
    (markedScript "\x00module-store\x00").direct links ({} : Options).access =
      ("let _0=await Promise.all([\"m\"].map(u=>import(u)));_0[0];" ++
        "\x00module-store\x00;").toList ∧
    compiled.code = "let _0=await Promise.all([\"m\"].map(u=>import(u)));_0[0];" ++
      "await Promise.all([\"m\"].map(u=>import(u)));" := by
  obtain ⟨hcheck, a, c, ha, ho⟩ := script_eq_ok.1 (script_markedExample "\x00module-store\x00")
  obtain ⟨compiled, hpresents, -, hcompile⟩ :=
    exists_compiled (reached_markedExample _) hcheck ha ho {} Resolver.identity
  refine ⟨_, c, compiled, _, hcompile, rfl, hpresents, by decide +kernel, ?_⟩
  rw [hpresents.code]
  decide +kernel

end Builder

end ScriptGraph
