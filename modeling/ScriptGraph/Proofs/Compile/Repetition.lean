import ScriptGraph.Proofs.Analysis.Visits
import ScriptGraph.Proofs.Compile.Script

/-!
# Compiling again

The first compilation builds the bodies that it meets, and may make nodes and fill slots on the way.
A second one finds all of them built.

* `Builder.analyze_again` : an analysis finds again what it has found, and leaves warnings only;
* `Builder.compile_again` : a compilation gives its outcome again, and leaves warnings only.
-/

namespace ScriptGraph.Builder

variable {σ : Type} {b c : Builder σ} {body : Body}

/-- What was analysed is analysed again with the same result. Nothing is built a second time. -/
theorem analyze_again (hb : b.Reached) {stem : String} {a : Analysis}
    (h : b.analyze body stem = (.ok a, c)) :
    c.analyze body stem = (.ok a, c.warn ((c.state.graph.idleSlots a.order).map .slotNeverFilled)) := by
  have hbuilt := (analyze_resolved hb h).surveyed.built
  obtain ⟨d, hsurvey, ha, rfl⟩ := analyze_eq_ok.1 h
  have hvisits := visits_of_survey hb.sound hsurvey
  exact analyze_eq_ok.2 ⟨_, survey_of_visits hvisits hbuilt, ha, rfl⟩

/-- A compilation writes the graph that a successful analysis leaves behind. -/
theorem compile_of_analyze {o : Options} {a : Analysis} (hcheck : o.check = .ok ())
    (ha : b.analyze body o.nameStem = (.ok a, c)) (stores : Stores) (resolver : Resolver) :
    b.compile body o stores resolver = (c.state.graph.compile a body o stores resolver, c) := by
  rw [compile, hcheck, ha]

/-- **A compilation that succeeds can be repeated**: on the builder that it leaves behind, and with
the stores as they were before, it has the same outcome. The second time no node is made, no body is
built and no slot is filled; only warnings are given again. -/
theorem compile_again (hb : b.Reached) {o : Options} {stores : Stores} {resolver : Resolver}
    {outcome : Outcome} {compiled : Compiled}
    (h : b.compile body o stores resolver = (outcome, c)) (hok : outcome.result = .ok compiled) :
    ∃ ws, c.compile body o stores resolver = (outcome, c.warn ws) := by
  obtain ⟨a, _, ha, _, hcheck, _, _⟩ := presents_of_compile hb h hok
  have hfirst := h.symm.trans (compile_of_analyze hcheck ha stores resolver)
  rw [Prod.mk.injEq] at hfirst
  exact ⟨_, (compile_of_analyze hcheck (analyze_again hb ha) stores resolver).trans
    (Prod.ext hfirst.1.symm rfl)⟩

/-- The first compilation builds the body of the function, so nothing is pending afterwards. -/
theorem compile_again_recursiveExample : ∃ outcome c compiled ws,
    recursiveExample.compile (.value 6) {} {} Resolver.identity = (outcome, c) ∧
    outcome.result = .ok compiled ∧
    recursiveExample.pending.map (·.1) = [1] ∧ c.pending.map (·.1) = [] ∧
    c.compile (.value 6) {} {} Resolver.identity = (outcome, c.warn ws) := by
  obtain ⟨a, c, ha, _⟩ := analyze_recursiveExample "_"
  obtain ⟨output, outcome, compiled, _, h, hok⟩ := exists_compile reached_recursiveExample
    (o := {}) ha (by cbv) rfl nofun {} Resolver.identity
  obtain ⟨ws, hagain⟩ := compile_again reached_recursiveExample h hok
  obtain ⟨d, hsurvey, _, rfl⟩ := analyze_eq_ok.1 ha
  have hpending : (recursiveExample.survey [] [6]).2.pending.map (·.1) = [] := by cbv
  rw [show recursiveExample.survey [] [6] = _ from hsurvey] at hpending
  exact ⟨outcome, _, compiled, ws, h, hok, by cbv, hpending, hagain⟩

end ScriptGraph.Builder
