import ScriptGraph.Proofs.Builder.Endings
import ScriptGraph.Proofs.Compile.Script
import ScriptGraph.Proofs.Host.Instances

/-!
# Scripts of host values

* `HostValue.Plain.toNode_succeeds` : plain host values are converted;
* `Builder.toScript_of_value` : the script of a plain host value is written exactly if each instance
  is used inside the scope it was first converted in;
* `Builder.toScript_sharedExample` : it is not if two functions return an instance.
-/

namespace ScriptGraph

variable {σ α : Type} {b : Builder σ}

/-- A computation answers what has a property. -/
abbrev TryBuild.Succeeds (x : TryBuild σ α) (b : Builder σ) (P : Builder σ → α → Prop) : Prop :=
  x.Ends (fun _ => False) b P

/-- Nodes that are offered where the builder is. -/
def Builder.OffersAll (b : Builder σ) (es : List NodeId) : Prop :=
  b.Hosts ∧ ∀ e ∈ es, b.state.Offers b.state.scope e

theorem Builder.OffersAll.leads {c : Builder σ} {es es' : List NodeId} (h : b.OffersAll es)
    (hc : b.Leads c) (h' : c.OffersAll es') : c.OffersAll (es ++ es') := by
  refine ⟨h'.1, List.forall_mem_append.2 ⟨fun e he => ?_, h'.2⟩⟩
  rw [show c.state.scope = b.state.scope from congrArg List.head? hc.2]
  exact (h.2 e he).grow (hc.extends h.1.sound) hc.memo_subset

namespace HostValue

open TryBuild

theorem recordParts_nodes (entries : List (String × NodeId)) :
    (recordParts entries).filterMap Part.node? = entries.map (·.2) := by
  cases entries with
  | nil => rfl
  | cons entry rest =>
    refine congrArg (entry.2 :: ·) ?_
    induction rest with
    | nil => rfl
    | cons entry rest ih => exact congrArg (entry.2 :: ·) ih

theorem mapParts_nodes (entries : List (NodeId × NodeId)) :
    (mapParts entries).filterMap Part.node? = entries.flatMap fun p => [p.1, p.2] := by
  cases entries with
  | nil => rfl
  | cons entry rest =>
    refine congrArg (entry.1 :: entry.2 :: ·) ?_
    induction rest with
    | nil => rfl
    | cons entry rest ih => exact congrArg (entry.1 :: entry.2 :: ·) ih

theorem literal_succeeds (hb : b.Hosts) (code : String) :
    (literal code).Succeeds b fun c e => c.OffersAll [e] := by
  refine .lift (Builder.run_create _ · b) (.create b (.literal code)) ⟨?_, ?_⟩
  · exact hb.make rfl nofun nofun (fun _ => rfl) nofun
  · exact List.forall_mem_singleton.2 (b.offers_make rfl).1

/-- The node of an instance: it is offered, and may be recorded. -/
def MakesInstance (c : Builder σ) (e : NodeId) : Prop :=
  c.OffersAll [e] ∧ (c.state.graph.flagsOf e).inert = false

theorem template_succeeds {parts : List Part} {es : List NodeId} (h : b.OffersAll es)
    (hparts : parts.filterMap Part.node? = es) : (template parts).Succeeds b MakesInstance := by
  have hdraft : b.state.create (.template parts false false false) = b.state.make
      { readsResource := b.state.anyReadsResource (parts.filterMap Part.node?) }
      (.template parts) := rfl
  obtain ⟨hoffers, hflags⟩ := b.offers_make hdraft
  refine .lift (Builder.run_create _ · b) (.create b _) ⟨⟨?_, ?_⟩, ?_⟩
  · exact h.1.make hdraft nofun nofun nofun fun c hc => h.2 c (hparts ▸ hc)
  · exact List.forall_mem_singleton.2 hoffers
  · exact congrArg Flags.inert hflags

theorem enclosed_nodes (opening closing : String) (parts : List Part) :
    (.text opening :: parts ++ [Part.text closing] : List Part).filterMap Part.node? =
      parts.filterMap Part.node? := by
  rw [List.filterMap_append]
  exact List.append_nil _

theorem items_nodes (opening closing : String) (es : List NodeId) :
    (.text opening :: commaSeparated (es.map .node) ++ [Part.text closing] : List Part).filterMap
      Part.node? = es := by
  rw [enclosed_nodes, filterMap_node?_commaSeparated, filterMap_node?_map]

theorem once_succeeds (hb : b.Hosts) (i : Nat) {x : TryBuild σ NodeId}
    (hx : x.Succeeds b MakesInstance) : (once i x).Succeeds b fun c e => c.OffersAll [e] := by
  have hlook : Succeeds (ExceptT.lift Build.look) b fun c s => c.state = s ∧ c = b :=
    .lift (Builder.run_look · b) (.refl b) ⟨rfl, rfl⟩
  refine hlook.bind fun s c _ ⟨hs, hc⟩ => ?_
  subst hs hc
  cases hmemo : c.state.memo.lookup i with
  | some e =>
    obtain ⟨before, after, heq, _⟩ := List.lookup_eq_some_iff.1 hmemo
    have hmem : (i, e) ∈ c.state.memo := by simp [heq]
    exact .pure ⟨hb, List.forall_mem_singleton.2 ⟨(hb.recorded _ hmem).1, .inr ⟨i, hmem⟩⟩⟩
  | none =>
    refine hx.bind fun e d _ ⟨⟨hd, hoffers⟩, hinert⟩ => ?_
    have hleads : d.Leads (d.perform (.memoize i e)) := .single _ rfl
    have hmade := hd.memoize i (hoffers e (List.mem_singleton_self e)).1 hinert
    refine Ends.bind (P := fun c _ => c.OffersAll [e])
      (.lift (fun next => Builder.run_memoize i e (next ()) d) hleads ⟨hmade, ?_⟩) fun _ _ _ h => .pure h
    exact List.forall_mem_singleton.2
      ((hoffers e (List.mem_singleton_self e)).grow (.refl _) hleads.memo_subset)

theorem function_succeeds (hb : b.Hosts) (arity : Nat) {body : NodeId → List NodeId → Recipe σ}
    (hbody : ∀ f args, Builder.ReturnsPlain (body f args)) :
    Succeeds (ExceptT.lift (Build.function arity body)) b MakesInstance := by
  have hf := b.node?_function arity body
  refine .lift (Builder.run_function arity body · b) (.function b arity body)
    ⟨⟨hb.function arity hbody, ?_⟩, ?_⟩
  · exact List.forall_mem_singleton.2 ⟨Graph.lt_size hf, .inl (Graph.scopeOf_of_node hf)⟩
  · exact congrArg Flags.inert (Graph.flagsOf_of_node hf)

theorem itemsToNodes_succeeds {items : List (HostValue σ)}
    (hitems : ∀ v ∈ items, ∀ {b : Builder σ}, b.Hosts → v.toNode.Succeeds b fun c e =>
      c.OffersAll [e]) (hb : b.Hosts) : (itemsToNodes items).Succeeds b Builder.OffersAll := by
  induction items generalizing b with
  | nil => exact .pure ⟨hb, nofun⟩
  | cons v rest ih =>
    obtain ⟨hv, hrest⟩ := List.forall_mem_cons.1 hitems
    refine (hv hb).bind fun e c _ he => ?_
    exact (ih hrest he.1).bind fun es d hd hes => .pure (he.leads hd hes)

theorem recordToNodes_succeeds {entries : List (String × HostValue σ)}
    (hentries : ∀ p ∈ entries, ∀ {b : Builder σ}, b.Hosts → p.2.toNode.Succeeds b fun c e =>
      c.OffersAll [e]) (hb : b.Hosts) :
    (recordToNodes entries).Succeeds b fun c es => c.OffersAll (es.map (·.2)) := by
  induction entries generalizing b with
  | nil => exact .pure ⟨hb, nofun⟩
  | cons entry rest ih =>
    obtain ⟨hv, hrest⟩ := List.forall_mem_cons.1 hentries
    refine (hv hb).bind fun e c _ he => ?_
    exact (ih hrest he.1).bind fun es d hd hes => .pure (he.leads hd hes)

theorem mapToNodes_succeeds {entries : List (HostValue σ × HostValue σ)}
    (hkeys : ∀ p ∈ entries, ∀ {b : Builder σ}, b.Hosts → p.1.toNode.Succeeds b fun c e =>
      c.OffersAll [e])
    (hentries : ∀ p ∈ entries, ∀ {b : Builder σ}, b.Hosts → p.2.toNode.Succeeds b fun c e =>
      c.OffersAll [e]) (hb : b.Hosts) :
    (mapToNodes entries).Succeeds b fun c es => c.OffersAll (es.flatMap fun p => [p.1, p.2]) := by
  induction entries generalizing b with
  | nil => exact .pure ⟨hb, nofun⟩
  | cons entry rest ih =>
    obtain ⟨hkey, hkeys⟩ := List.forall_mem_cons.1 hkeys
    obtain ⟨hv, hrest⟩ := List.forall_mem_cons.1 hentries
    refine (hkey hb).bind fun k c _ hk => ?_
    refine (hv hk.1).bind fun e d hd he => ?_
    exact (ih hkeys hrest he.1).bind fun es d' hd' hes => .pure ((hk.leads hd he).leads hd' hes)

theorem Plain.toNode_succeeds {v : HostValue σ} (hv : v.Plain) {b : Builder σ} (hb : b.Hosts) :
    v.toNode.Succeeds b fun c e => c.OffersAll [e] := by
  induction hv generalizing b with
  | json v =>
    rw [toNode]
    split
    · refine .lift (Builder.run_create _ · b) (.create b (.raw v.literal)) ⟨?_, ?_⟩
      · exact hb.make rfl nofun nofun (fun _ => rfl) nofun
      · exact List.forall_mem_singleton.2 (b.offers_make rfl).1
    · exact literal_succeeds hb _
  | array i _ ih =>
    refine once_succeeds hb i ((itemsToNodes_succeeds ih hb).bind fun es c _ hes => ?_)
    exact template_succeeds hes (items_nodes _ _ es)
  | set i _ ih =>
    refine once_succeeds hb i ((itemsToNodes_succeeds ih hb).bind fun es c _ hes => ?_)
    exact template_succeeds hes (items_nodes _ _ es)
  | record i _ ih =>
    refine once_succeeds hb i ((recordToNodes_succeeds ih hb).bind fun es c _ hes => ?_)
    exact template_succeeds hes ((enclosed_nodes _ _ _).trans (recordParts_nodes es))
  | map i _ _ ihkeys ih =>
    refine once_succeeds hb i ((mapToNodes_succeeds ihkeys ih hb).bind fun es c _ hes => ?_)
    exact template_succeeds hes ((enclosed_nodes _ _ _).trans (mapParts_nodes es))
  | callable i arity hw _ =>
    exact once_succeeds hb i (function_succeeds hb arity fun _ _ => ⟨_, hw, rfl⟩)
  | _ => exact literal_succeeds hb _

end HostValue

namespace Builder

variable {f : NodeId}

theorem Hosts.run_returning (hb : b.Hosts) {v : HostValue σ} (hv : v.Plain) :
    ∃ e c, run (HostValue.returning (pure v)) b = (.ok (.value e), c) ∧ b.Leads c ∧
      c.OffersAll [e] := by
  rcases hv.toNode_succeeds hb with ⟨_, _, hfalse, _⟩ | ⟨e, c, hyields, hc, he⟩
  · exact hfalse.elim
  · refine ⟨e, c, ?_, hc, he⟩
    rw [show run (HostValue.returning (pure v)) b = run (.done (.ok (.value e))) c from hyields _,
      run_done]

/-- Between constructions, a body that is asked for is there or is constructed. -/
theorem Hosts.force (hb : b.Hosts) (hscopes : b.state.scopes = [])
    (hf : b.state.graph.isFunction f = true) :
    (∃ body, (b.force f).1 = .ok body) ∧ (b.force f).2.Hosts := by
  rcases hb.bodies.request hscopes hf with ⟨body, hbody, hreq⟩ | ⟨recipe, c, hreq⟩
  · rw [force_answer hreq]
    exact ⟨⟨body, rfl⟩, hb⟩
  · obtain ⟨hc, v, hv, rfl⟩ := hb.enter hreq
    obtain ⟨e, d, hrun, hd, he⟩ := hc.run_returning hv
    rw [force_construct hreq, hrun]
    exact ⟨⟨.value e, rfl⟩, he.1.leave (hd.2.trans (request_scopes hreq)) he.2⟩

theorem surveyable_hosts : Surveyable fun b : Builder σ => b.Hosts ∧ b.state.scopes = [] where
  sound b h := h.1.sound
  filled b e h := by
    rw [← Bool.not_eq_true, Graph.isUnfilledSlot_iff, Graph.kindOf?_eq_some]
    rintro ⟨n, hn, hkind⟩
    exact (h.1.nodes e n hn).filled hkind
  children b e h c hc := Nat.lt_trans (h.1.layered.older e c hc) (Graph.lt_size_of_children hc)
  force b f body h hf hbody := by
    have hforce := (h.1.force h.2 hf).2
    exact ⟨⟨hforce, (b.force_leads f).2.trans h.2⟩, fun r hr =>
      (hforce.roots f body (force_ok h.1.sound hbody) r hr).1⟩

theorem Hosts.survey (hb : b.Hosts) (hscopes : b.state.scopes = []) {roots : List NodeId}
    (hroots : ∀ e ∈ roots, e < b.state.graph.size) :
    ∃ order c, b.survey [] roots = (.ok order, c) ∧ c.Hosts := by
  rcases surveyable_hosts.survey ⟨hb, hscopes⟩ (.start _ roots) hroots with
    ⟨⟨order, horder⟩, hc, _⟩ | ⟨c, f, fault, ⟨hc, hcscopes⟩, _, hf, herror, _⟩
  · exact ⟨order, _, Prod.ext horder rfl, hc⟩
  · obtain ⟨⟨body, hbody⟩, _⟩ := hc.force hcscopes hf
    exact nomatch herror.symm.trans hbody

/-- **A plain host value is converted, and compiled as far as its instances are used where they were
first converted.** The script is written if each instance is used only inside the function, or the
top level, in which its node was made. Otherwise compiling fails, for an instance that is used
elsewhere. -/
theorem toScript_of_value (shared : σ) {v : HostValue σ} (hv : v.Plain) (stores : Stores)
    (resolver : Resolver) :
    ∃ e b outcome c, run (HostValue.returning (pure v)) (empty shared) = (.ok (.value e), b) ∧
      b.toScript [e] {} stores resolver = (outcome, c) ∧
      ((∃ compiled, outcome.result = .ok compiled) ∧
        (∀ i x t, (i, x) ∈ c.state.memo → c.state.graph.Uses [e] t x →
          c.state.graph.isWithin t (c.state.graph.scopeOf x) = true) ∨
      ∃ i x t, (i, x) ∈ c.state.memo ∧ c.state.graph.Uses [e] t x ∧
        c.state.graph.isWithin t (c.state.graph.scopeOf x) = false ∧
        outcome.result =
          .error (.scopeLeak (c.state.graph.label x) x (c.state.graph.scopeOf x) t)) := by
  obtain ⟨e, b, hrun, hb, hhosts, hoffers⟩ := (hosts_empty shared).run_returning hv
  have hcheck : ({} : Options).check = .ok () := by cbv
  have hroot := List.forall_mem_singleton.1 hoffers
  obtain ⟨order, c, hsurvey, hc⟩ := hhosts.survey hb.2 (List.forall_mem_singleton.2 hroot.1)
  have hleads : b.Leads c := by
    have := b.survey_leads [] [e]
    rwa [hsurvey] at this
  have hscope : b.state.scope = none := congrArg List.head? hb.2
  have hcroots : ∀ r ∈ [e], c.state.Offers none r := List.forall_mem_singleton.2
    ((hscope ▸ hroot).grow (hleads.extends hhosts.sound) hleads.memo_subset)
  cases hsettle : c.state.graph.settle [e] order with
  | error fault =>
    have ha : b.analyze (.statements [e]) "_" = (.error fault, c) := by
      simp only [analyze, Body.roots, hsurvey, Graph.analysis, hsettle]
      rfl
    have hcompile : b.toScript [e] {} stores resolver = (.failed fault stores, c) := by
      rw [toScript, compile, hcheck]
      simp only [ha]
    obtain ⟨x, t, hu, hout, rfl⟩ :=
      (survey_surveyed hhosts.reached hsurvey).settle_eq_error hc.layered hsettle
    refine ⟨e, b, _, c, hrun, hcompile, .inr ?_⟩
    rcases (hc.offers_of_uses hcroots hu).2 with hown | ⟨i, hi⟩
    · rw [hown, hc.sound.graph.isWithin_refl] at hout
      cases hout
    · exact ⟨i, x, t, hi, hu, hout, rfl⟩
  | ok settled =>
    have ha : b.analyze (.statements [e]) "_" =
        (.ok (c.state.graph.analysisOf order settled "_"),
          c.warn ((c.state.graph.idleSlots order).map .slotNeverFilled)) := by
      simp only [analyze, Body.roots, hsurvey, Graph.analysis, hsettle]
      rfl
    obtain ⟨_, outcome, compiled, _, hcompile, hok⟩ :=
      exists_compile hhosts.reached (o := {}) ha hcheck rfl (by simp) stores resolver
    have hresolved := analyze_resolved hhosts.reached ha
    refine ⟨e, b, outcome, _, hrun, hcompile, .inl ⟨⟨compiled, hok⟩, fun i x t hi hu => ?_⟩⟩
    exact hresolved.within_of_usedIn hc.layered (hc.recorded (i, x) hi).2 hu

/-- An empty array, and a function that returns it. -/
def capturedExample : HostValue Unit :=
  .array 0 [.array 3 [], .callable 1 0 fun _ => pure (.array 3 [])]

theorem plain_capturedExample : capturedExample.Plain := by
  have harray : (HostValue.array 3 [] : HostValue Unit).Plain := .array 3 nofun
  refine .array 0 fun v hv => ?_
  rcases List.mem_cons.1 hv with rfl | hv
  · exact harray
  · exact List.mem_singleton.1 hv ▸ .callable 1 0 harray

/-- The array belongs to the top level, and may be returned by the function. -/
theorem toScript_capturedExample : ∃ e b outcome c,
    run (HostValue.returning (pure capturedExample)) (empty ()) = (.ok (.value e), b) ∧
      b.toScript [e] {} {} Resolver.identity = (outcome, c) ∧
      (∃ compiled, outcome.result = .ok compiled) ∧
      ∀ i x t, (i, x) ∈ c.state.memo → c.state.graph.Uses [e] t x →
        c.state.graph.isWithin t (c.state.graph.scopeOf x) = true := by
  obtain ⟨e, b, outcome, c, hrun, hcompile, hok | ⟨i, x, t, _, _, _, herror⟩⟩ :=
    toScript_of_value () plain_capturedExample {} Resolver.identity
  · exact ⟨e, b, outcome, c, hrun, hcompile, hok⟩
  · exfalso
    have he : (run (HostValue.returning (pure capturedExample)) (empty ())).1 = .ok (.value 2) := by
      cbv
    have hb : b = (run (HostValue.returning (pure capturedExample)) (empty ())).2 := by rw [hrun]
    rw [hrun] at he
    cases he
    have hsurvey : (b.survey [] [2]).1 = .ok [2, 0, 1] := by
      rw [hb]
      cbv
    obtain ⟨a, d, ha, _⟩ := exists_analysis (.statements [2]) "_" hsurvey (by rw [hb]; cbv)
    have hreached : b.Reached := hb ▸ (run_leads _ _).reached (reached_empty ())
    obtain ⟨_, outcome', compiled, _, hcompile', hok⟩ :=
      exists_compile hreached (o := {}) ha (by cbv) rfl (by simp) {} Resolver.identity
    have : outcome = outcome' := congrArg Prod.fst (hcompile.symm.trans hcompile')
    rw [this, hok] at herror
    cases herror

/-- Two functions that return one and the same empty array. -/
def sharedExample : HostValue Unit :=
  .array 0 [.callable 1 0 fun _ => pure (.array 3 []), .callable 2 0 fun _ => pure (.array 3 [])]

theorem plain_sharedExample : sharedExample.Plain := by
  have hshared : ∀ i, (HostValue.callable i 0 fun _ => pure (.array 3 []) : HostValue Unit).Plain :=
    fun i => .callable i 0 (.array 3 nofun)
  refine .array 0 fun v hv => ?_
  rcases List.mem_cons.1 hv with rfl | hv
  · exact hshared 1
  · exact List.mem_singleton.1 hv ▸ hshared 2

/-- The array belongs to the first function, so the second one cannot return it. -/
theorem toScript_sharedExample : sharedExample.Plain ∧ ∃ b,
    run (HostValue.returning (pure sharedExample)) (empty ()) = (.ok (.value 2), b) ∧
      (b.toScript [2] {} {} Resolver.identity).1.result =
        .error (.scopeLeak .template 3 (some 0) (some 1)) := by
  refine ⟨plain_sharedExample, _, Prod.ext ?_ rfl, ?_⟩
  · cbv
  · cbv

end Builder

end ScriptGraph
