import ScriptGraph.Proofs.Compile.History
import ScriptGraph.Proofs.Compile.Splicing
import ScriptGraph.Proofs.Program.Faults
import ScriptGraph.Proofs.Text.Parsing

/-!
# What failed compilations leave behind

Indices are given out in the middle of writing, but nothing fails after the first of them until the
script is verified.

* `Builder.stores_of_failure` : the stores are left alone by every failure before verification, and
  only grow when a script does not pass it;
* `Builder.stores_longStemExample` : a script with long names is not passed for another reason than
  what it says, and stays registered like the others.
-/

namespace ScriptGraph

theorem Stores.Grows.moduleIndex {s t : Stores} {address : String} (h : s.Grows t)
    (hknown : address ∈ s.modules.map (·.1)) : t.moduleIndex address = s.moduleIndex address :=
  indexIn_of_prefix h.modules hknown

theorem Stores.Grows.resourceIndex {s t : Stores} {key : String} (h : s.Grows t)
    (hknown : key ∈ s.keys) : t.resourceIndex key = s.resourceIndex key :=
  indexIn_of_prefix h.resources hknown

namespace Builder

variable {σ : Type}

/-- **A failed compilation leaves the stores alone**, unless it fails in verification: although
indices are given out in the middle of writing, nothing fails after the first of them. No value of a
resource was produced either. A script fails in verification when it does not parse or names what is
not bound, and when the pattern of its names is too large. It stays registered then, and what was
registered before it keeps its index and its value. -/
theorem stores_of_failure {b c : Builder σ} {body : Body} {o : Options} {stores : Stores}
    {resolver : Resolver} {outcome : Outcome} {fault : Fault} (hb : b.Reached)
    (h : b.compile body o stores resolver = (outcome, c)) (hfault : outcome.result = .error fault) :
    (fault.code ≠ "Z-ERR-VERIFY-001" → fault.code ≠ "Z-ERR-VERIFY-002" →
      (o.verify = true → patternLimit < patternSize o.nameStem →
        fault ≠ .stemTooLong o.nameStem patternLimit) →
      outcome.stores = stores ∧ outcome.produced = []) ∧
    stores.Grows outcome.stores ∧
    (∀ address ∈ stores.modules.map (·.1),
      outcome.stores.moduleIndex address = stores.moduleIndex address) ∧
    ∀ key ∈ stores.keys, outcome.stores.resourceIndex key = stores.resourceIndex key := by
  have hgrows : stores.Grows outcome.stores := by
    have := Compilation.grows_run ⟨σ, b, hb, body, o, resolver⟩ stores
    rwa [Compilation.run, h] at this
  refine ⟨fun hparse hbound hstem => ?_, hgrows, fun _ => hgrows.moduleIndex,
    fun _ => hgrows.resourceIndex⟩
  obtain rfl : (b.compile body o stores resolver).1 = outcome := congrArg Prod.fst h
  rcases hb.compile_eq_error hfault with ⟨hfailed, _⟩ | ⟨hverify, code, hverdict⟩
  · rw [hfailed]
    exact ⟨rfl, rfl⟩
  · rcases verifyScript_eq_error hverdict with rfl | ⟨rfl, hsize⟩ | ⟨name, rfl⟩
    · exact absurd rfl hparse
    · exact absurd rfl (hstem hverify hsize)
    · exact absurd rfl hbound

/-- A resource whose value is produced on demand, next to a slot that is never filled, and in text
that does not parse. -/
def tornExample : Builder Unit :=
  (Builder.run (Build.toRecipe do
    let resource ← Build.create (.resource "r" (.deferred .null))
    let slot ← Build.create .slot
    let pair ← Build.template [.node resource, .text "+", .node slot]
    let _ ← Build.template [.text "(", .node resource]
    return .ok (.value pair)) (.empty ())).2

/-- The script in which the text does not parse. -/
def tornScript : Output :=
  .script [.mk 0 "_0" false (.expansion 0 false [.resourceStore])]
    [.expansion 4 false [.text "(",
      .expansion 1 false
        [.name 0 "_0" false, .text "(", .resourceIndex "r" (.deferred .null), .text ")"]]]

theorem script_tornExample :
    tornExample.script (.statements [4]) { verify := true } = .ok tornScript := by cbv

/-- Stores in which something was registered before. -/
def earlierStores : Stores := { modules := [("m", "/m.js")], resources := [("q", .null)] }

/-- The code is `let _0=__resources(["q","r"]);(_0(1);`. -/
theorem unparsable_tornScript (links : Links)
    (h : links = .ofMentions Resolver.identity earlierStores tornScript.mentions) :
    Ecma.Term.ofModule? (links.splice ({ verify := true } : Options).access tornScript
      (tornScript.render links [])) = none := by
  subst h
  decide +kernel

/-- The first failure leaves the stores alone. The second one comes after the resource was
registered, behind the one that was there before. -/
theorem stores_tornExample : ∃ (outcome outcome' : Outcome) (fault fault' : Fault),
    (tornExample.compile (.statements [3]) {} earlierStores Resolver.identity).1 = outcome ∧
    outcome.result = .error fault ∧ fault.code = "Z-ERR-SLOT-001" ∧
    outcome.stores = earlierStores ∧ outcome.produced = [] ∧
    (tornExample.compile (.statements [4]) { verify := true } earlierStores
      Resolver.identity).1 = outcome' ∧
    outcome'.result = .error fault' ∧ fault'.code = "Z-ERR-VERIFY-001" ∧
    outcome'.produced = ["r"] ∧ outcome'.stores.resourceIndex "q" = 0 := by
  have hreached : tornExample.Reached := (run_leads _ _).reached (reached_empty ())
  have hslot : (tornExample.compile (.statements [3]) {} earlierStores Resolver.identity).1 =
      .failed .unfilledSlot earlierStores :=
    compile_of_error hreached (by cbv) earlierStores Resolver.identity
  obtain ⟨hunchanged, _⟩ :=
    stores_of_failure hreached (Prod.ext hslot rfl)
      (rfl : (Outcome.failed .unfilledSlot earlierStores).result = .error .unfilledSlot)
  obtain ⟨hstores, hproduced⟩ := hunchanged (by decide) (by decide) (absurd · (by decide))
  obtain ⟨hcheck, a, c, ha, ho⟩ := script_eq_ok.1 script_tornExample
  obtain ⟨compiled, hpresents, _, hcompile⟩ :=
    exists_compiled hreached hcheck ha ho earlierStores Resolver.identity
  have hverdict : verifyScript compiled.code "_" = .error (.unparsable compiled.code) := by
    have hparse : Ecma.Term.ofModule? compiled.code.toList = none := by
      rw [hpresents.code, String.toList_ofList]
      exact unparsable_tornScript _ rfl
    rw [verifyScript, hparse]
  have hfault : ((if true = true then verifyScript compiled.code "_" else .ok ()).map
      fun _ => compiled) = .error (.unparsable compiled.code) := by
    rw [if_pos rfl, hverdict]
    rfl
  obtain ⟨_, _, _, hindex⟩ := stores_of_failure hreached hcompile hfault
  refine ⟨_, _, .unfilledSlot, .unparsable compiled.code, hslot, rfl, rfl, hstores, hproduced,
    congrArg Prod.fst hcompile, hfault, rfl, rfl, hindex "q" (by decide)⟩

/-! ## Long names -/

/-- A resource that is read in a comment. -/
def commentedExample : Builder Unit :=
  (Builder.run (Build.toRecipe do
    let resource ← Build.create (.resource "r" (.eager (.number (.integer 0))))
    let comment ← Build.template [.text "//", .node resource]
    return .ok (.value comment)) (.empty ())).2

def stemOptions (stem : String) : Options :=
  { resourceMode := some .snapshot, nameStem := stem, verify := true }

/-- With the stem `_`, the code is `let _0=[0];//_0[0];`. -/
def commentedScript (stem : String) : Output :=
  .script [.mk 0 (stem ++ "0") false (.expansion 0 false [.resourceStore])]
    [.expansion 2 false [.text "//",
      .expansion 1 false [.name 0 (stem ++ "0") false, .text "[",
        .resourceIndex "r" (.eager (.number (.integer 0))), .text "]"]]]

variable {stem : String}

theorem check_stemOptions (h : isIdentifier (stem ++ "0") = true) :
    (stemOptions stem).check = .ok () := by
  have hnone : (stemOptions stem).names.find? (fun p => !isIdentifier p.2) = none := by
    simp [Options.names, stemOptions, h]
    decide
  rw [Options.check, hnone]

theorem script_commentedExample (h : (stemOptions stem).check = .ok ()) :
    commentedExample.script (.statements [2]) (stemOptions stem) = .ok (commentedScript stem) := by
  rw [script, h]
  cbv

theorem render_commentedScript {links : Links} (h : links.stores.resourceIndex "r" = 0) :
    (commentedScript stem).render links [] =
      ("let ".toList ++ (stem ++ "0").toList ++ ['=']) ++ (resourceMark ++
        (([';', '/', '/'] ++ (stem ++ "0").toList ++ ['[', '0', ']', ';']) ++ [])) := by
  have hstore : Declaration.render links (.mk 0 (stem ++ "0") false
      (.expansion 0 false [.resourceStore])) = (stem ++ "0").toList ++ '=' :: resourceMark := by
    change (stem ++ "0").toList ++ '=' :: (resourceMark ++ []) = _
    rw [List.append_nil]
  have hcomment : Fragment.render links (.expansion 2 false [.text "//",
      .expansion 1 false [.name 0 (stem ++ "0") false, .text "[",
        .resourceIndex "r" (.eager (.number (.integer 0))), .text "]"]]) =
      '/' :: '/' :: ((stem ++ "0").toList ++ ['[', '0', ']']) := by
    change "//".toList ++ (((stem ++ "0").toList ++ [] ++ ("[".toList ++
      (natText (links.stores.resourceIndex "r") ++ ("]".toList ++ [])))) ++ []) = _
    rw [h]
    simp only [List.append_nil]
    rfl
  change "let ".toList ++ Declaration.render links _ ++ [';'] ++
    (guardBlock (Fragment.render links _) ++ ';' :: []) = _
  rw [hstore, hcomment, show ∀ cs, guardBlock ('/' :: cs) = '/' :: cs from fun _ => rfl]
  simp only [List.append_assoc, List.cons_append, List.nil_append, List.append_nil]

/-- Nothing but the contents of the store is put into the code. -/
theorem splice_commentedScript (h : isIdentifier (stem ++ "0") = true) {links : Links}
    (hlinks : links = .ofMentions Resolver.identity {} (commentedScript stem).mentions) :
    links.splice (stemOptions stem).access (commentedScript stem)
        ((commentedScript stem).render links []) =
      Ecma.declaration (stem ++ "0").toList ((stem ++ "0").toList ++ ['[', '0', ']', ';']) := by
  have hplain := Options.plain_contents (check_stemOptions h) links
  have hmark : links.splice (stemOptions stem).access (commentedScript stem) resourceMark =
      ['[', '0', ']'] := by
    refine (Links.splice_mark (s := .resources) hplain rfl).trans ?_
    rw [hlinks]
    change (Stores.resourcesText { resources := [("r", .number (.integer 0))] } .snapshot
      "__resources" true).toList = _
    decide
  have hnul : '\x00' ∉ (stem ++ "0").toList := fun hmem => by
    cases isIdentifierPart_of_mem h _ hmem
  rw [render_commentedScript (hlinks ▸ rfl)]
  generalize (stem ++ "0").toList = name at hnul
  have hlet : Separates ("let ".toList ++ name ++ ['=']) :=
    separates_of_mem (c := '=') (by simp [hnul]) (by simp) (by decide)
  have hcomment : Separates ([';', '/', '/'] ++ name ++ ['[', '0', ']', ';']) :=
    separates_of_mem (c := ';') (by simp [hnul]) (by simp) (by decide)
  have hnil : links.splice (stemOptions stem).access (commentedScript stem) [] = [] :=
    Links.splice_of_notMem nofun
  rw [← List.nil_append (("let ".toList ++ name ++ ['=']) ++ _), Links.splice_append hlet,
    Links.splice_append hcomment, hmark, hnil]
  simp [Ecma.declaration]

/-- No word with a meaning of its own ends with a digit. -/
theorem admits_generated (stem : String) : Ecma.Context.top.admits (stem ++ "0") = true := by
  have hlast : ∀ w ∈ Ecma.reserved, w.toList.getLast? ≠ some '0' := by decide
  have hne : stem ++ "0" ∉ Ecma.reserved := fun hmem => hlast _ hmem (by simp)
  simp [Ecma.Context.admits, hne]

theorem compile_commentedExample (h : isIdentifier (stem ++ "0") = true)
    (hsize : patternLimit < patternSize stem) : ∃ outcome,
    (commentedExample.compile (.statements [2]) (stemOptions stem) {} Resolver.identity).1 = outcome ∧
    outcome.result = .error (.stemTooLong stem patternLimit) ∧ outcome.stores.keys = ["r"] := by
  have hreached : commentedExample.Reached := (run_leads _ _).reached (reached_empty ())
  obtain ⟨hcheck, a, c, ha, ho⟩ := script_eq_ok.1 (script_commentedExample (check_stemOptions h))
  obtain ⟨compiled, hpresents, _, hcompile⟩ :=
    exists_compiled hreached hcheck ha ho {} Resolver.identity
  have hverdict : verifyScript compiled.code stem = .error (.stemTooLong stem patternLimit) := by
    have hparse : (Ecma.Term.ofModule? compiled.code.toList).isSome = true := by
      rw [hpresents.code, String.toList_ofList, show (stemOptions stem).access.params
        (commentedScript stem) = [] from rfl, splice_commentedScript h rfl]
      refine Ecma.isSome_ofModule? h (admits_generated stem) (List.forall_mem_append.2 ⟨?_, ?_⟩)
      · exact fun c hc => Ecma.isLineEnd_of_isIdentifierPart (isIdentifierPart_of_mem h c hc)
      · simp [Ecma.isLineEnd]
    obtain ⟨t, ht⟩ := Option.isSome_iff_exists.1 hparse
    rw [verifyScript, ht]
    exact if_pos hsize
  refine ⟨_, congrArg Prod.fst hcompile, ?_, rfl⟩
  change (verifyScript compiled.code stem).map _ = _
  rw [hverdict]
  rfl

/-- A stem of `n` characters. -/
def longStem (n : Nat) : String := String.ofList (List.replicate n 'a')

theorem isIdentifier_longStem (n : Nat) : isIdentifier (longStem (n + 1) ++ "0") = true := by
  refine isIdentifier_iff.2 ⟨'a', List.replicate n 'a' ++ ['0'],
    by simp [longStem, List.replicate_succ], by decide,
    List.forall_mem_append.2 ⟨fun c hc => ?_, List.forall_mem_singleton.2 (by decide)⟩⟩
  rw [List.eq_of_mem_replicate hc]
  decide

theorem patternSize_longStem (n : Nat) : patternSize (longStem n) = 32 * (n + 9) + 24 := by
  have hlength : String.utf8Len (List.replicate n 'a') = n := by
    induction n with
    | zero => rfl
    | succ n ih =>
      rw [List.replicate_succ, String.utf8Len_cons, ih]
      rfl
  rw [patternSize, longStem, String.utf8ByteSize_ofList, hlength]

/-- The code is a script that binds its names, and the resource stays registered. -/
theorem stores_longStemExample : ∃ (outcome : Outcome) (fault : Fault),
    (commentedExample.compile (.statements [2]) (stemOptions (longStem 450000)) {}
      Resolver.identity).1 = outcome ∧
    outcome.result = .error fault ∧ fault.code = "Z-ERR-IR-002" ∧ outcome.stores.keys = ["r"] := by
  have hsize : patternLimit < patternSize (longStem 450000) := by
    rw [patternSize_longStem, patternLimit]
    norm_num
  obtain ⟨outcome, houtcome, hfault, hkeys⟩ :=
    compile_commentedExample (isIdentifier_longStem 449999) hsize
  exact ⟨outcome, _, houtcome, hfault, rfl, hkeys⟩

end Builder

end ScriptGraph
