import ScriptGraph.Compile.Basic
import ScriptGraph.Proofs.Builder.Drafts
import ScriptGraph.Proofs.Host.Harmless
import ScriptGraph.Proofs.Host.Recording

/-!
# Histories of recipes that convert values

The host has no other way to record the node of an instance than to convert a value.

* `Recipe.Hosted` : a recipe of this sort;
* `HostValue.hosted_returning` : the bodies of functions that return values are;
* `Builder.Carries` : a history of operations and conversions goes on from one builder to another;
* `Builder.Carries.run`, `Builder.Carries.compile` : running such a recipe carries it on, and so does
  compiling a body;
* `Builder.exists_converted` : what such recipes leave behind has a history.
-/

namespace ScriptGraph

variable {σ : Type} {b c d : Builder σ}

/-! ## Recipes -/

/-- The recipe records nodes of instances by converting values only, and so do the bodies of the
functions that it makes and of those in the values. -/
inductive Recipe.Hosted : Recipe σ → Prop
  | done (result : Except Fault Body) : Hosted (.done result)
  | look {next : BuilderState σ → Recipe σ} (h : ∀ s, Hosted (next s)) : Hosted (.look next)
  | share {update : σ → σ} {next : Recipe σ} (h : Hosted next) : Hosted (.share update next)
  | create {draft : Draft} {next : NodeId → Recipe σ} (h : ∀ e, Hosted (next e)) :
    Hosted (.create draft next)
  | function {arity : Nat} {body : NodeId → List NodeId → Recipe σ} {next : NodeId → Recipe σ}
    (hbody : ∀ f args, Hosted (body f args)) (h : ∀ e, Hosted (next e)) :
    Hosted (.function arity body next)
  | body {f : NodeId} {next : Except Fault Body → Recipe σ} (h : ∀ r, Hosted (next r)) :
    Hosted (.body f next)
  | fill {slot target : NodeId} {next : Except Fault Unit → Recipe σ} (h : ∀ r, Hosted (next r)) :
    Hosted (.fill slot target next)
  | warn {ws : List Warning} {next : Recipe σ} (h : Hosted next) : Hosted (.warn ws next)
  | survey {roots : List NodeId} {next : Except Fault (List NodeId) → Recipe σ}
    (h : ∀ r, Hosted (next r)) : Hosted (.survey roots next)
  | convert {v : HostValue σ} {next : Except Fault NodeId → Recipe σ} (hv : v.Coherent)
    (hbodies : ∀ body ∈ v.bodies, ∀ args, Hosted (body args)) (h : ∀ r, Hosted (next r)) :
    Hosted (v.toNode.run next)

/-- All bodies that are still to be built are of this sort. -/
def Builder.Hosted (b : Builder σ) : Prop := ∀ q ∈ b.pending, q.2.Hosted

/-- The body of a function returns a value of the host, if the computation that makes the value goes
on with coherent values of which all functions have such bodies. -/
theorem HostValue.hosted_returning {x : Build σ (HostValue σ)}
    (hx : ∀ next : HostValue σ → Recipe σ,
      (∀ v, v.Coherent → (∀ body ∈ v.bodies, ∀ args, (body args).Hosted) → (next v).Hosted) →
        (x next).Hosted) : (returning x).Hosted :=
  hx _ fun _ hv hbodies => .convert hv hbodies fun _ => .done _

/-! ## Pending bodies -/

namespace HostValue

theorem bodiesOfRecord_eq (entries : List (String × HostValue σ)) :
    bodiesOfRecord entries = bodiesOfAll (entries.map (·.2)) := by
  induction entries with
  | nil => simp [bodiesOfRecord, bodiesOfAll]
  | cons entry rest ih => simp [bodiesOfRecord, bodiesOfAll, ih]

theorem bodiesOfMap_eq (entries : List (HostValue σ × HostValue σ)) :
    bodiesOfMap entries = bodiesOfAll (entries.flatMap fun p => [p.1, p.2]) := by
  induction entries with
  | nil => simp [bodiesOfMap, bodiesOfAll]
  | cons entry rest ih => simp [bodiesOfMap, bodiesOfAll, ih]

theorem bodiesOfAll_elements (v : HostValue σ) : bodiesOfAll v.elements ⊆ v.bodies := by
  cases v with
  | array | set => simp [elements, bodies]
  | record => simp [elements, bodies, bodiesOfRecord_eq]
  | map => simp [elements, bodies, bodiesOfMap_eq]
  | _ => simp [elements, bodiesOfAll]

/-- A conversion leaves the bodies of the functions among the values for later, and no others. -/
theorem ConvertsAll.pending {P : Recipe σ → Prop} {vs : List (HostValue σ)}
    {J : List (Nat × NodeId)} {r : Except Fault (List NodeId)} (h : ConvertsAll vs b J r c)
    (hvs : ∀ body ∈ bodiesOfAll vs, ∀ args, P (body args)) (hb : ∀ q ∈ b.pending, P q.2) :
    ∀ q ∈ c.pending, P q.2 := by
  induction h with
  | nil => exact hb
  | plain hv hx _ ih =>
    obtain ⟨-, hrest⟩ := List.forall_mem_append.1 hvs
    refine ih hrest ?_
    rcases plain_cases hv hx with ⟨rfl, rfl⟩ | ⟨draft, -, -, rfl⟩
    · exact hb
    · exact hb
  | foreign => exact hb
  | known _ _ _ ih => exact ih (List.forall_mem_append.1 hvs).2 hb
  | @made v _ _ i _ es c _ _ _ hv _ _ _ ihes ih =>
    obtain ⟨hbodies, hrest⟩ := List.forall_mem_append.1 hvs
    have hc : ∀ q ∈ c.pending, P q.2 :=
      ihes (fun body hbody => hbodies body (v.bodiesOfAll_elements hbody)) hb
    refine ih hrest ?_
    cases v with
    | function _ arity body =>
      have hbody : ∀ args, P (body args) := hbodies body List.mem_cons_self
      exact List.forall_mem_append.2 ⟨hc, List.forall_mem_singleton.2 (hbody _)⟩
    | array | record | map | set => exact hc
    | _ => cases hv
  | @failed v _ _ _ _ _ _ _ _ _ ihes =>
    obtain ⟨hbodies, -⟩ := List.forall_mem_append.1 hvs
    exact ihes (fun body hbody => hbodies body (v.bodiesOfAll_elements hbody)) hb

end HostValue

theorem Pool.Smaller.below {p q r : Pool σ} (h : p.Smaller q)
    (h' : Relation.ReflTransGen Pool.Smaller q r) : p.Smaller r := by
  induction h' with
  | refl => exact h
  | tail _ hr ih => exact ih.trans hr

namespace Builder

/-- A history that leads to `b` goes on to `c`, if the bodies that are still to be built convert
values. -/
def Carries (b c : Builder σ) : Prop :=
  b.Hosted → c.Hosted ∧ ∀ J, Converted J b → ∃ J', Converted (J ++ J') c

namespace Carries

theorem refl (b : Builder σ) : b.Carries b := fun hb =>
  ⟨hb, fun J h => ⟨[], (List.append_nil J).symm ▸ h⟩⟩

theorem trans (h : b.Carries c) (h' : c.Carries d) : b.Carries d := by
  intro hb
  obtain ⟨hc, hbc⟩ := h hb
  obtain ⟨hd, hcd⟩ := h' hc
  refine ⟨hd, fun J hJ => ?_⟩
  obtain ⟨J', hJ'⟩ := hbc J hJ
  obtain ⟨J'', hJ''⟩ := hcd _ hJ'
  exact ⟨J' ++ J'', List.append_assoc J J' J'' ▸ hJ''⟩

theorem perform (op : Operation σ) (hop : ∀ i e, op ≠ .memoize i e)
    (hpending : b.Hosted → (b.perform op).Hosted) : b.Carries (b.perform op) := fun hb =>
  ⟨hpending hb, fun J h => ⟨[], (List.append_nil J).symm ▸ h.operate hop⟩⟩

theorem convert {v : HostValue σ} {J' : List (Nat × NodeId)} {r : Except Fault NodeId}
    (hv : v.Coherent) (hbodies : ∀ body ∈ v.bodies, ∀ args, (body args).Hosted)
    (hc : v.Converts b J' r c) : b.Carries c := by
  have hall : ∀ body ∈ HostValue.bodiesOfAll [v], ∀ args, (body args).Hosted := by
    simpa [HostValue.bodiesOfAll] using hbodies
  exact fun hb => ⟨HostValue.ConvertsAll.pending hc hall hb, fun J h => ⟨J', h.convert hv hc⟩⟩

theorem construct {f : NodeId} {recipe : Recipe σ} (hreq : b.request f = .construct recipe c)
    (hrun : recipe.Hosted → c.Carries (run recipe c).2) (outcome : Except Fault Body) :
    b.Carries ((run recipe c).2.leave f outcome) := by
  intro hb
  obtain ⟨hmem, hsub⟩ := mem_of_request hreq
  have henter := perform_enter hreq
  have hscopes : (run recipe c).2.state.scopes = f :: b.state.scopes :=
    (run_leads recipe c).2.trans (request_scopes hreq)
  have hleave := perform_leave hscopes outcome
  have hbegin : b.Carries c :=
    henter ▸ perform (.enter f) (fun _ _ heq => by cases heq) fun _ q hq =>
      hb q (hsub (henter ▸ hq))
  have hend : (run recipe c).2.Carries ((run recipe c).2.leave f outcome) := by
    rw [← hleave]
    exact perform (.leave outcome) (fun _ _ heq => by cases heq) fun hd => hleave.symm ▸ hd
  exact (hbegin.trans ((hrun (hb _ hmem)).trans hend)) hb

theorem force_of {f : NodeId}
    (hrun : ∀ recipe c, b.request f = .construct recipe c → recipe.Hosted →
      c.Carries (run recipe c).2) : b.Carries (b.force f).2 := by
  cases hreq : b.request f with
  | answer result =>
    rw [force_answer hreq]
    exact refl b
  | construct recipe c =>
    rw [force_construct hreq]
    exact construct hreq (hrun recipe c hreq) _

/-- A survey carries a history on if the recipes do that may run meanwhile. -/
theorem survey_of {q : Pool σ}
    (hrun : ∀ recipe (c : Builder σ), Pool.Smaller ⟨recipe :: c.recipes⟩ q → recipe.Hosted →
      c.Carries (run recipe c).2)
    (b : Builder σ) (order queue : List NodeId) (hb : Pool.Smaller ⟨b.recipes⟩ q) :
    b.Carries (b.survey order queue).2 := by
  have hforce : ∀ (b : Builder σ) (e : NodeId), Pool.Smaller ⟨b.recipes⟩ q →
      b.Carries (b.force e).2 := fun b e hb =>
    force_of fun recipe c hreq => hrun recipe c (hb.perm_left (request_perm hreq))
  fun_induction Builder.survey b order queue with
  | case1 | case3 | case4 => exact refl _
  | case2 b order e rest _ ih => exact ih hb
  | case5 b order e rest _ _ _ _ fault _ => exact hforce b e hb
  | case6 b order e rest _ _ _ _ body _ ih =>
    exact (hforce b e hb).trans (ih (force_smaller_of hb e))
  | case7 b order e rest _ _ _ _ ih => exact ih hb

/-- Running a recipe that converts values carries a history on. -/
theorem run {r : Recipe σ} (hr : r.Hosted) (b : Builder σ) : b.Carries (Builder.run r b).2 := by
  suffices hpool : ∀ (q : Pool σ) (r : Recipe σ) (b : Builder σ),
      Relation.ReflTransGen Pool.Smaller ⟨r :: b.recipes⟩ q → r.Hosted →
        b.Carries (Builder.run r b).2 from hpool _ r b .refl hr
  intro q
  induction q using WellFounded.induction (WellFoundedRelation.wf (α := Pool σ)) with
  | _ q ih =>
  intro r b hq hr
  -- A conversion may make nothing, so what runs after it need not be smaller as a pool.
  induction hr generalizing b with
  | done result =>
    rw [run_done]
    exact refl b
  | @look next _ ih' =>
    rw [run_look]
    exact ih' _ b (.head (.step (.look ..)) hq)
  | @share update next _ ih' =>
    rw [run_share]
    exact (perform (.share update) nofun id).trans (ih' _ (.head (.step (.share ..)) hq))
  | @create draft next _ ih' =>
    rw [run_create]
    exact (perform (.create draft) nofun id).trans
      (ih' _ _ (.head (.step (.create ..)) hq))
  | @function arity body next hbody _ _ ih' =>
    rw [run_function]
    have hmake : b.Carries (b.makeFunction arity body).2 :=
      perform (.function arity body) nofun fun hb =>
        List.forall_mem_append.2 ⟨hb, List.forall_mem_singleton.2 (hbody _ _)⟩
    exact hmake.trans (ih' _ _ (.head (b.makeFunction_smaller arity body next) hq))
  | @body f next _ ih' =>
    rw [run_body]
    have hforce : b.Carries (b.force f).2 := force_of fun recipe c hreq =>
      ih _ ((Pool.Smaller.drop.perm_left (request_perm hreq)).below hq) recipe c .refl
    exact hforce.trans (ih' _ _ (.head (b.afterForce_smaller f next) hq))
  | @fill slot target next _ ih' =>
    rw [run_fill]
    exact (perform (.fill slot target) nofun id).trans
      (ih' _ _ (.head (.step (.fill ..)) hq))
  | @warn ws next _ ih' =>
    rw [run_warn]
    exact (perform (.warn ws) nofun id).trans (ih' _ (.head (.step (.warn ..)) hq))
  | @survey roots next _ ih' =>
    rw [run_survey]
    have hsurvey : b.Carries (b.survey [] roots).2 :=
      survey_of (fun recipe c hlt => ih _ (hlt.below hq) recipe c .refl) b [] roots .drop
    exact hsurvey.trans (ih' _ _ (.head (b.afterSurvey_smaller roots next) hq))
  | @convert v next hv hbodies _ _ ih' =>
    obtain ⟨J, r, c, hc⟩ := v.exists_converts b
    rw [hc.yields next]
    exact (convert hv hbodies hc).trans (ih' r c ((hc.passes.smaller next).trans hq))

theorem survey (b : Builder σ) (order queue : List NodeId) :
    b.Carries (b.survey order queue).2 :=
  survey_of (q := ⟨.done (.ok (.statements [])) :: b.recipes⟩) (fun _ c _ hr => run hr c) b order
    queue .drop

theorem analyze (b : Builder σ) (body : Body) (stem : String) :
    b.Carries (b.analyze body stem).2 := by
  have hsurvey := survey b [] body.roots
  unfold Builder.analyze
  split
  · rename_i heq
    rwa [heq] at hsurvey
  · rename_i order c heq
    rw [heq] at hsurvey
    split
    · exact hsurvey
    · exact hsurvey.trans (perform (.warn _) nofun id)

theorem compile (b : Builder σ) (body : Body) (o : Options) (stores : Stores)
    (resolver : Resolver) : b.Carries (b.compile body o stores resolver).2 := by
  have hanalyze := analyze b body o.nameStem
  unfold Builder.compile
  split
  · exact refl b
  · split <;> (rename_i heq; rwa [heq] at hanalyze)

end Carries

/-- **A builder in which recipes that convert values were run has a history** of operations and
conversions. -/
theorem exists_converted {r : Recipe σ} (hr : r.Hosted) (shared : σ) :
    ∃ J, Converted J (run r (empty shared)).2 := by
  obtain ⟨-, hlead⟩ := Carries.run hr (empty shared) nofun
  obtain ⟨J, h⟩ := hlead [] (.start shared)
  exact ⟨_, h⟩

end Builder

end ScriptGraph
