import ScriptGraph.Proofs.Compile.Copies
import ScriptGraph.Proofs.Compile.Repetition
import ScriptGraph.Proofs.Program.Faults
import ScriptGraph.Proofs.Program.Mirroring

/-!
# Similar programs are built in lockstep

* `Builder.Keyed` : every function has one recipe at most;
* `CoreFunction.Similar.run` : the body of a similar function is lowered if that of the function is;
* `Builder.Mirrors.enter`, `Builder.Mirrors.leave`, `Builder.Mirrors.force` : a body is built on
  both sides;
* `Builder.Mirrors.survey` : the nodes that a survey finds have their partners found on the other
  side, in the same order;
* `Program.compile_of_similar` : so a program that is similar to one that compiles compiles to the
  same script.
-/

namespace ScriptGraph

variable {σ : Type} {V : Variation} {φ ψ : Pairing}

/-! ## Pending recipes -/

namespace Builder

variable {a b c : Builder σ} {f f' : NodeId} {r : Recipe σ}

theorem take_eq {l l' : List (NodeId × Recipe σ)} (h : take f l = some (r, l')) :
    ∃ before after, l = before ++ (f, r) :: after ∧ l' = before ++ after := by
  induction l generalizing l' with
  | nil => cases h
  | cons x l ih =>
    obtain ⟨e, s⟩ := x
    rw [take] at h
    split at h
    · rename_i he
      cases h
      exact ⟨[], l, he ▸ rfl, rfl⟩
    · obtain ⟨⟨t, m⟩, ht, heq⟩ := Option.map_eq_some_iff.1 h
      cases heq
      obtain ⟨before, after, rfl, rfl⟩ := ih ht
      exact ⟨(e, s) :: before, after, rfl, rfl⟩

theorem request_eq_construct : b.request f = .construct r c ↔
    ∃ arity rest, b.state.graph.kindOf? f = some (.function arity .pending) ∧
      take f b.pending = some (r, rest) ∧ c = { state := b.state.enter f, pending := rest } := by
  constructor
  · intro h
    unfold request at h
    split at h <;> try cases h
    rename_i arity hk
    split at h <;> cases h
    rename_i rest htake
    exact ⟨arity, rest, hk, htake, rfl⟩
  · rintro ⟨arity, rest, hk, htake, rfl⟩
    rw [request, hk]
    simp only [htake]

/-- Every function has one recipe at most. They are in the order in which functions are made. -/
structure Keyed (b : Builder σ) : Prop where
  increasing : b.pending.Pairwise fun p q => p.1 < q.1
  old : ∀ p ∈ b.pending, p.1 < b.state.graph.size

namespace Keyed

theorem of_sublist (h : b.Keyed) (hpending : c.pending.Sublist b.pending)
    (hsize : b.state.graph.size ≤ c.state.graph.size) : c.Keyed where
  increasing := h.increasing.sublist hpending
  old p hp := Nat.lt_of_lt_of_le (h.old p (hpending.subset hp)) hsize

theorem perform (h : b.Keyed) (hb : b.state.Sound) (op : Operation σ) : (b.perform op).Keyed := by
  have hsize := (perform_sound_extends hb op).2.size_le
  cases op with
  | function arity body =>
    have hnew : b.state.graph.size < (b.perform (.function arity body)).state.graph.size :=
      Graph.lt_size (b.node?_function arity body)
    refine ⟨List.pairwise_append.2 ⟨h.increasing, List.pairwise_singleton _ _, ?_⟩, fun p hp => ?_⟩
    · intro p hp q hq
      rw [List.mem_singleton.1 hq]
      exact h.old p hp
    · rcases List.mem_append.1 hp with hp | hp
      · exact Nat.lt_of_lt_of_le (h.old p hp) hsize
      · rw [List.mem_singleton.1 hp]
        exact hnew
  | enter f =>
    cases hreq : b.request f with
    | answer result => simpa only [Builder.perform, hreq] using h
    | construct r c =>
      rw [perform_enter hreq] at hsize ⊢
      obtain ⟨_, rest, _, htake, rfl⟩ := request_eq_construct.1 hreq
      obtain ⟨before, after, hpending, rfl⟩ := take_eq htake
      refine h.of_sublist ?_ hsize
      rw [hpending]
      exact (List.sublist_cons_self _ _).append_left before
  | leave outcome =>
    refine h.of_sublist ?_ hsize
    rw [Builder.perform]
    split <;> exact List.Sublist.refl _
  | _ => exact h.of_sublist (List.Sublist.refl _) hsize

theorem take (h : b.Keyed) {rest : List (NodeId × Recipe σ)}
    (htake : Builder.take f b.pending = some (r, rest)) :
    (∀ p ∈ rest, p.1 ≠ f) ∧ ∀ s, (f, s) ∈ b.pending → s = r := by
  obtain ⟨before, after, hpending, rfl⟩ := take_eq htake
  have hincreasing := h.increasing
  rw [hpending, List.pairwise_append, List.pairwise_cons] at hincreasing
  obtain ⟨_, ⟨hafter, _⟩, hbefore⟩ := hincreasing
  have hrest : ∀ p ∈ before ++ after, p.1 ≠ f := by
    intro p hp
    rcases List.mem_append.1 hp with hp | hp
    · exact Nat.ne_of_lt (hbefore p hp _ List.mem_cons_self)
    · exact Nat.ne_of_gt (hafter p hp)
  refine ⟨hrest, fun s hs => ?_⟩
  rw [hpending, List.mem_append, List.mem_cons] at hs
  rcases hs with hs | hs | hs
  · exact absurd rfl (hrest _ (List.mem_append_left _ hs))
  · exact congrArg Prod.snd hs
  · exact absurd rfl (hrest _ (List.mem_append_right _ hs))

end Keyed

theorem Reached.keyed (h : b.Reached) : b.Keyed := by
  obtain ⟨shared, ops, rfl⟩ := h
  induction ops using List.reverseRecOn with
  | nil => exact ⟨.nil, nofun⟩
  | append_singleton ops op ih =>
    rw [performAll, List.foldl_append]
    exact ih.perform (Reached.sound ⟨shared, ops, rfl⟩) op

end Builder

/-! ## Lowering on both sides -/

/-- **The body of a similar function is lowered** if that of the function is, and makes at least what
it makes. -/
theorem CoreFunction.Similar.run {s : V.Scope} {f f' : CoreFunction} (hsim : f.Similar V s f')
    {a b c : Builder σ} (ha : a.Reached) (hm : b.Mirrors V φ a)
    {bodies bodies' : List (Binders NodeId)} (hrel : Related V s φ bodies bodies')
    {me me' : NodeId} (hme : f.name = none ∨ φ me me') {args args' : List NodeId}
    (hargs : List.Forall₂ φ args args') (hlength : args.length = f.params.length) {body : Body}
    (hrun : Builder.run (TryBuild.recipe (f.lower bodies me args)) b = (.ok body, c)) :
    ∃ ψ body' d, Builder.run (TryBuild.recipe (f'.lower bodies' me' args')) a = (.ok body', d) ∧
      a.Leads d ∧ φ ≤ ψ ∧ c.Mirrors V ψ d ∧ body.Mirrors ψ body' := by
  have hright : φ ≤ φ.below a.state.graph.size := fun e e' he => ⟨he, hm.graph.right he⟩
  rw [TryBuild.recipe] at hrun ⊢
  rcases (f.lower_places me args b).run with
    ⟨fault, _, herror⟩ | ⟨body₁, c₁, hrun₁, _, hbound, hplaces⟩
  · rw [hrun] at herror
    cases herror
  rw [hrun] at hrun₁
  cases hrun₁
  rcases (f'.lower_places me' args' a).run with
    ⟨fault, ⟨name', hname', hfree⟩, herror⟩ | ⟨body', d, hrun', hleads, _, hplaces'⟩
  · -- So all names are bound on the second side.
    cases hsim with
    | mk henter hreturns hdefinitions hadded hroots =>
      refine absurd hfree (CoreFunction.Similar.bound (φ := fun _ _ => True) hdefinitions hadded
        hroots ?_ hbound name' hname')
      exact (hrel.mono fun _ _ _ => trivial).enter henter (.inr trivial)
        (forall₂_mono (fun _ _ _ => trivial) hargs) hlength List.length_range' List.length_range'
        fun _ _ _ _ _ => trivial
  · obtain ⟨ψ, hpairs, hmirrors, hbody⟩ := hsim.catches hplaces hplaces' (.refl d)
      (hleads.reached ha).linked (hm.retain hplaces'.retains) (hrel.mono hright)
      (fun e e' he hle _ => absurd (hm.graph.right he) (Nat.not_lt.2 hle))
      (hme.imp_right (hright _ _)) (forall₂_mono hright hargs) hlength
    exact ⟨ψ, body', d, hrun', hleads, hpairs.grows, hmirrors, hbody⟩

/-- The recipe of a function is run, and that of its twin. -/
theorem Twin.run {a b c : Builder σ} {p q : NodeId × Recipe σ} (h : Twin V φ p q) (ha : a.Reached)
    (hm : b.Mirrors V φ a) {body : Body} (hrun : Builder.run p.2 b = (.ok body, c)) :
    ∃ ψ body' d, Builder.run q.2 a = (.ok body', d) ∧ a.Leads d ∧ φ ≤ ψ ∧ c.Mirrors V ψ d ∧
      body.Mirrors ψ body' := by
  obtain ⟨s, f, f', bodies, bodies', hsim, hrel, hpairs, hp, hq⟩ := h
  rw [hp] at hrun
  rw [hq]
  refine hsim.run ha hm hrel (.inr (hpairs 0 (Nat.succ_pos _))) ?_ List.length_range' hrun
  have hparams : f'.params.length = f.params.length := by
    cases hsim with
    | mk henter => exact V.params_length henter
  rw [hparams, List.range'_eq_map_range, List.range'_eq_map_range, List.forall₂_map_left_iff,
    List.forall₂_map_right_iff, List.forall₂_same]
  intro i hi
  rw [Nat.add_assoc, Nat.add_assoc, Nat.add_comm 1 i]
  exact hpairs (i + 1) (Nat.succ_lt_succ (List.mem_range.1 hi))

/-! ## Bodies on both sides -/

namespace Builder

variable {a b c : Builder σ} {f f' : NodeId}

theorem Mirrors.enter (h : b.Mirrors V φ a) (hb : b.Reached) (ha : a.Reached) (hf : φ f f')
    {r : Recipe σ} (hreq : b.request f = .construct r c) :
    ∃ r' d, a.request f' = .construct r' d ∧ Twin V φ (f, r) (f', r') ∧ c.Mirrors V φ d := by
  obtain ⟨arity, rest, hk, htake, rfl⟩ := request_eq_construct.1 hreq
  obtain ⟨hmem, hsub, _⟩ := mem_of_take htake
  obtain ⟨⟨f₁, r'⟩, hq, htwin⟩ := h.pending _ hmem
  obtain rfl : f' = f₁ := by
    obtain ⟨_, _, _, _, _, _, _, hpairs, _, _⟩ := htwin
    exact h.graph.unique.right hf (hpairs 0 (Nat.succ_pos _))
  obtain ⟨state', hk', hstate⟩ := h.graph.function_of hf hk
  cases hstate
  obtain ⟨r₁, rest', htake'⟩ := exists_take hq
  obtain rfl := (ha.keyed.take htake').2 r' hq
  refine ⟨r', _, request_eq_construct.2 ⟨arity, rest', hk', htake', rfl⟩, htwin,
    h.graph.setBodyState hf hk .building, .cons hf h.scopes, fun p hp => ?_⟩
  obtain ⟨q, hq, htwin'⟩ := h.pending p (hsub hp)
  refine ⟨q, (mem_of_take htake').2.2 q hq fun heq => ?_, htwin'⟩
  obtain ⟨_, _, _, _, _, _, _, hpairs, _, _⟩ := htwin'
  have hp₁ : φ p.1 f' := heq ▸ hpairs 0 (Nat.succ_pos _)
  exact (hb.keyed.take htake).1 p hp (h.graph.unique.left hp₁ hf)

theorem Mirrors.leave (h : b.Mirrors V φ a) (hb : b.state.Sound) (hf : φ f f')
    (hscope : f ∈ b.state.scopes) {body body' : Body} (hbody : body.Mirrors φ body') :
    (b.leave f (.ok body)).Mirrors V φ (a.leave f' (.ok body')) where
  graph := by
    obtain ⟨arity, hk⟩ := hb.building f hscope
    exact h.graph.setBodyState hf hk (.ready hbody)
  scopes := by
    show List.Forall₂ φ b.state.scopes.tail a.state.scopes.tail
    have hscopes := h.scopes
    generalize b.state.scopes = l, a.state.scopes = l' at hscopes
    cases hscopes with
    | nil => exact .nil
    | cons _ hrest => exact hrest
  pending := h.pending

/-- A body that is there, or can be built, is there or can be built on the other side. -/
theorem Mirrors.force (h : b.Mirrors V φ a) (hb : b.Reached) (ha : a.Reached) (hf : φ f f')
    {body : Body} (hok : (b.force f).1 = .ok body) :
    ∃ ψ body', (a.force f').1 = .ok body' ∧ φ ≤ ψ ∧ (b.force f).2.Mirrors V ψ (a.force f').2 ∧
      body.Mirrors ψ body' := by
  cases hreq : b.request f with
  | answer result =>
    have hforce := force_answer hreq
    rw [hforce] at hok ⊢
    have hbody := force_ok hb.sound ((congrArg Prod.fst hforce).trans hok)
    rw [hforce] at hbody
    obtain ⟨arity, hk⟩ := Graph.body?_eq_some.1 hbody
    obtain ⟨state', hk', hstate⟩ := h.graph.function_of hf hk
    cases hstate with
    | ready hmirrors =>
      rw [force_of_body? (Graph.body?_eq_some.2 ⟨arity, hk'⟩)]
      exact ⟨φ, _, rfl, fun _ _ h => h, h, hmirrors⟩
  | construct r c =>
    obtain ⟨r', d, hreq', htwin, henter⟩ := h.enter hb ha hf hreq
    have hc := hb.enter hreq
    have hd := ha.enter hreq'
    rw [force_construct hreq] at hok ⊢
    rw [force_construct hreq']
    rcases hrun : Builder.run r c with ⟨result, c₁⟩
    rw [hrun] at hok
    cases hok
    obtain ⟨ψ, body', d₁, hrun', _, hφ, hmirrors, hbody⟩ := htwin.run hd henter hrun
    have hleads := run_leads r c
    rw [hrun] at hleads
    rw [hrun']
    refine ⟨ψ, body', rfl, hφ, hmirrors.leave (hleads.reached hc).sound (hφ _ _ hf) ?_ hbody, hbody⟩
    rw [hleads.2, request_scopes hreq]
    exact List.mem_cons_self

/-! ## Surveys on both sides -/

/-- **A survey finds the partners of what it finds on the other side**, in the same order. -/
theorem Mirrors.survey {b : Builder σ} {order queue found : List NodeId} (hb : b.Reached)
    (hok : (Builder.survey b order queue).1 = .ok found) :
    ∀ {φ : Pairing} {a : Builder σ} {order' queue' : List NodeId}, b.Mirrors V φ a → a.Reached →
      List.Forall₂ φ order order' → List.Forall₂ φ queue queue' →
      ∃ ψ found', (a.survey order' queue').1 = .ok found' ∧ φ ≤ ψ ∧
        (b.survey order queue).2.Mirrors V ψ (a.survey order' queue').2 ∧
        List.Forall₂ ψ found found' := by
  fun_induction Builder.survey b order queue with
  | case1 b order =>
    intro φ a order' queue' h _ horder hqueue
    cases hqueue
    cases hok
    rw [Builder.survey]
    exact ⟨φ, order', rfl, fun _ _ h => h, h, horder⟩
  | case2 b order e rest hskip ih =>
    intro φ a order' queue' h ha horder hqueue
    cases hqueue with
    | cons he hrest =>
      rw [Builder.survey, dif_pos ((List.rel_mem h.graph.unique he horder).1 hskip)]
      exact ih hb hok h ha horder hrest
  | case3 => cases hok
  | case4 => cases hok
  | case5 => cases hok
  | case6 b order e rest hskip hin hslot hfun body hbody ih =>
    intro φ a order' queue' h ha horder hqueue
    cases hqueue with
    | @cons _ e' _ rest' he hrest =>
      have hfun' : a.state.graph.isFunction e' = true := h.graph.isFunction_eq he ▸ hfun
      obtain ⟨ψ, body', hbody', hφ, hmirrors, hroots⟩ := h.force hb ha he hbody
      rw [Builder.survey, dif_neg (mt (List.rel_mem h.graph.unique he horder).2 hskip),
        dif_neg (Nat.not_le.2 (h.graph.right he)), if_neg (h.graph.filled he hslot),
        if_pos hfun', hbody']
      obtain ⟨χ, found', hfound', hψ, hrec⟩ := ih ((b.force_leads e).reached hb) hok hmirrors
        ((a.force_leads e').reached ha)
        (List.rel_append (forall₂_mono hφ horder) (.cons (hφ _ _ he) .nil))
        (List.rel_append (forall₂_mono hφ hrest) hroots.roots)
      exact ⟨χ, found', hfound', fun x x' hx => hψ x x' (hφ x x' hx), hrec⟩
  | case7 b order e rest hskip hin hslot hfun ih =>
    intro φ a order' queue' h ha horder hqueue
    cases hqueue with
    | @cons _ e' _ rest' he hrest =>
      have hfun' : ¬a.state.graph.isFunction e' = true := h.graph.isFunction_eq he ▸ hfun
      rw [Builder.survey, dif_neg (mt (List.rel_mem h.graph.unique he horder).2 hskip),
        dif_neg (Nat.not_le.2 (h.graph.right he)), if_neg (h.graph.filled he hslot), if_neg hfun']
      exact ih hb hok h ha (List.rel_append horder (.cons he .nil))
        (List.rel_append hrest (h.graph.children he hslot))

end Builder

/-! ## Compilations -/

namespace Builder

variable {a b : Builder σ} {body body' : Body}

/-- What compiles on one side compiles to the same script on the other side. -/
theorem Mirrors.compile (h : b.Mirrors V φ a) (hb : b.Lexical []) (hscopes : b.state.scopes = [])
    (hroots : ∀ e ∈ body.roots, b.Sees e) (ha : a.Reached) (hbody : body.Mirrors φ body')
    {o : Options} {stores : Stores} {resolver : Resolver} {compiled : Compiled}
    (hok : (b.compile body o stores resolver).1.result = .ok compiled) :
    (a.compile body' o stores resolver).1 = (b.compile body o stores resolver).1 := by
  obtain ⟨analysis, output, hanalyze, houtput, hcheck, _⟩ := presents_of_compile hb.reached rfl hok
  obtain ⟨c, hsurvey, hanalysis, hc⟩ := analyze_eq_ok.1 hanalyze
  have hfound := congrArg Prod.fst hsurvey
  obtain ⟨ψ, order', hfound', hφ, hmirrors, horder⟩ :=
    Mirrors.survey hb.reached hfound h ha .nil hbody.roots
  have hlexical : c.Lexical [] := by
    rcases hb.survey hscopes fun e he => (hroots e he).1 with ⟨_, herror⟩ | ⟨_, hlexical⟩
    · exact nomatch herror.symm.trans hfound
    · rwa [hsurvey] at hlexical
  rcases hsurvey' : a.survey [] body'.roots with ⟨result, d⟩
  have hd := a.survey_leads [] body'.roots
  rw [hsurvey'] at hfound' hmirrors hd
  rw [hsurvey] at hmirrors
  cases hfound'
  dsimp only at hmirrors hd
  have hcopies := hmirrors.graph.copies hlexical.sound.graph (hd.sound ha.sound).graph fun e he =>
    List.not_mem_nil ((hlexical.slots e).1 he)
  have hpartner : ∀ e e', ψ e e' → ψ.partner d.state.graph.size e = e' := fun _ _ =>
    Pairing.partner_eq hmirrors.graph.unique _
  obtain rfl := eq_map_of_forall₂ hpartner horder
  obtain rfl := (hbody.mono hφ).eq_map hpartner
  have hanalyze' := (analyze_eq_ok (a := analysis.map (ψ.partner d.state.graph.size))).2
    ⟨d, hsurvey', hcopies.analysis hanalysis, rfl⟩
  rw [compile_of_analyze hcheck hanalyze, compile_of_analyze hcheck hanalyze']
  have hresolved := analyze_resolved hb.reached hanalyze
  have hlinked := (hb.reached.of_analyze hanalyze).linked
  have hresolved' := analyze_resolved ha hanalyze'
  have hlinked' := (ha.of_analyze hanalyze').linked
  rw [hc] at houtput hresolved hlinked ⊢
  exact hcopies.compile hresolved hlinked hresolved' hlinked' houtput stores resolver

end Builder

namespace Program

/-- **A program that is similar to one that compiles compiles to the same script.** -/
theorem compile_of_similar {p q : Program} (h : p.core.Similar V V.top q.core) {o : Options}
    {compiled : Compiled} (hok : (p.compile o).1 = .ok compiled) :
    (q.compile o).1 = .ok compiled := by
  have hempty : (Builder.empty ()).Mirrors V (fun _ _ => False) (Builder.empty ()) :=
    ⟨Graph.mirrors_empty _, .nil, nofun⟩
  have hrel : Related V V.top (fun _ _ => False) [] [] :=
    ⟨nofun, fun name hname => absurd hname (V.not_bound_top name)⟩
  unfold compile at hok ⊢
  rcases p.run_recipe with ⟨name, herror⟩ | ⟨body, c, hrun, hlexical, hscopes, hroots⟩
  · rcases hrun : (Builder.empty ()).run p.recipe with ⟨fault | body, c⟩
    · rw [hrun] at hok
      cases hok
    · rw [hrun] at herror
      cases herror
  rw [hrun] at hok
  rw [p.recipe_eq_core] at hrun
  obtain ⟨φ, body', d, hrun', hd, _, hmirrors, hbody⟩ := h.run (Builder.reached_empty ()) hempty
    hrel (.inl rfl) .nil rfl hrun
  rw [q.recipe_eq_core, CoreFunction.recipe, hrun']
  exact (congrArg Outcome.result (hmirrors.compile hlexical hscopes hroots
    (hd.reached (Builder.reached_empty ())) hbody hok)).trans hok

end Program

end ScriptGraph
