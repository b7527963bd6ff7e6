import ScriptGraph.Proofs.Emission.Completion

/-!
# What a compilation writes

* `Builder.script` : the tree of the script that a compilation writes, whatever the stores are;
* `Builder.script_eq_ok` : when there is one;
* `Compiled.Presents` : a compiled script is the text of a tree, with the stores it is linked with;
* `Builder.compile_of_error`, `Builder.exists_compiled`, `Builder.exists_compile` : what a compilation
  makes of its tree.
-/

namespace ScriptGraph

/-- The compiled script is the text of a tree, and comes with the stores that the tree's indices
refer to. -/
structure Compiled.Presents (x : Compiled) (o : Options) (output : Output) (links : Links) :
    Prop where
  code : x.code = String.ofList
    (links.splice o.access output (output.render links (o.access.params output)))
  modules : x.modules = links.stores.addresses
  resources : x.resources = links.stores.resources
  placeholders : x.placeholders = links.placeholders.length

namespace Builder

variable {σ : Type} {b c : Builder σ} {body : Body} {o : Options} {output : Output}

/-- The tree of the script that a compilation writes. -/
def script (b : Builder σ) (body : Body) (o : Options) : Except Fault Output :=
  match o.check with
  | .error fault => .error fault
  | .ok () =>
    match b.analyze body o.nameStem with
    | (.error fault, _) => .error fault
    | (.ok a, c) => (o.layout c.state.graph a).output o.mode body

theorem script_eq_ok : b.script body o = .ok output ↔ o.check = .ok () ∧
    ∃ a c, b.analyze body o.nameStem = (.ok a, c) ∧
      (o.layout c.state.graph a).output o.mode body = .ok output := by
  unfold script
  cases hcheck : o.check with
  | error fault => simp
  | ok v =>
    rcases ha : b.analyze body o.nameStem with ⟨fault | a, c⟩
    · simp
    · simp

/-- A compilation without a script leaves the stores alone. -/
theorem compile_of_error {fault : Fault} (hb : b.Reached) (h : b.script body o = .error fault)
    (stores : Stores) (resolver : Resolver) :
    (b.compile body o stores resolver).1 = .failed fault stores := by
  unfold script at h
  unfold compile
  cases hcheck : o.check with
  | error fault' =>
    rw [hcheck] at h
    cases h
    rfl
  | ok v =>
    rw [hcheck] at h
    rcases ha : b.analyze body o.nameStem with ⟨fault' | a, c⟩
    · rw [ha] at h
      cases h
      rfl
    · rw [ha] at h
      exact Graph.compile_of_error (analyze_resolved hb ha) h stores resolver

/-- A script that is written is linked with the stores, verified if the options ask for it, and
returned if it passes. -/
theorem exists_compiled {a : Analysis} (hb : b.Reached) (hcheck : o.check = .ok ())
    (ha : b.analyze body o.nameStem = (.ok a, c))
    (h : (o.layout c.state.graph a).output o.mode body = .ok output) (stores : Stores)
    (resolver : Resolver) :
    ∃ compiled : Compiled,
      compiled.Presents o output (Links.ofMentions resolver stores output.mentions) ∧
      compiled.topLevelAwait = (o.mode = .statements && a.suspends none) ∧
      b.compile body o stores resolver =
        ({ result := (if o.verify then verifyScript compiled.code o.nameStem else .ok ()).map
              fun _ => compiled
           stores := (Links.ofMentions resolver stores output.mentions).stores
           produced := producedKeys stores.keys output.mentions }, c) := by
  unfold compile
  rw [hcheck, ha]
  dsimp only
  rw [Graph.compile_of_output (analyze_resolved hb ha) (hb.of_analyze ha).linked h]
  exact ⟨_, ⟨rfl, rfl, rfl, rfl⟩, rfl, rfl⟩

/-- A compiled script was written after a successful analysis. -/
theorem presents_of_compile {stores : Stores} {resolver : Resolver} {outcome : Outcome}
    {compiled : Compiled} (hb : b.Reached) (h : b.compile body o stores resolver = (outcome, c))
    (hok : outcome.result = .ok compiled) :
    ∃ a output, b.analyze body o.nameStem = (.ok a, c) ∧
      (o.layout c.state.graph a).output o.mode body = .ok output ∧ o.check = .ok () ∧
      compiled.Presents o output (Links.ofMentions resolver stores output.mentions) ∧
      compiled.topLevelAwait = (o.mode = .statements && a.suspends none) := by
  cases hs : b.script body o with
  | error fault =>
    rw [show outcome = _ from (congrArg Prod.fst h).symm, compile_of_error hb hs] at hok
    cases hok
  | ok output =>
    obtain ⟨hcheck, a, d, ha, houtput⟩ := script_eq_ok.1 hs
    obtain ⟨compiled', hpresents, htop, hcompile⟩ :=
      exists_compiled hb hcheck ha houtput stores resolver
    rw [h, Prod.mk.injEq] at hcompile
    obtain ⟨rfl, rfl⟩ := hcompile
    obtain ⟨_, _, rfl⟩ := map_eq_ok.1 hok
    exact ⟨a, output, ha, houtput, hcheck, hpresents, htop⟩

/-- An analysis that succeeds is followed by a script, if it is not to be verified. -/
theorem exists_compile {b c : Builder σ} (hb : b.Reached) {body : Body} {o : Options} {a : Analysis}
    (ha : b.analyze body o.nameStem = (.ok a, c)) (hcheck : o.check = .ok ())
    (hverify : o.verify = false) (hmode : o.mode = .evaluation → ∃ root, body = .value root)
    (stores : Stores) (resolver : Resolver) :
    ∃ output outcome compiled, b.script body o = .ok output ∧
      b.compile body o stores resolver = (outcome, c) ∧ outcome.result = .ok compiled := by
  obtain ⟨output, houtput⟩ :=
    Layout.exists_output (l := o.layout c.state.graph a) (analyze_resolved hb ha) hmode
  obtain ⟨compiled, _, _, hcompile⟩ := exists_compiled hb hcheck ha houtput stores resolver
  refine ⟨output, _, compiled, script_eq_ok.2 ⟨hcheck, a, c, ha, houtput⟩, hcompile, ?_⟩
  rw [hverify]
  rfl

end Builder

end ScriptGraph
