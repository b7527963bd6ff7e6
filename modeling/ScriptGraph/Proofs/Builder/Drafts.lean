import ScriptGraph.Host.Value
import ScriptGraph.Proofs.Builder.Creation

/-!
# What recipes make

Whatever a builder answers to a recipe, the nodes that the recipe makes may all be of one sort.

* `Build.Drafts`, `TryBuild.Drafts` : computations that make nodes of one sort;
* `Builder.follows_of_perform` : what the operations on such drafts keep is kept by recipes.
-/

namespace ScriptGraph

variable {σ α β : Type} {p : Draft → Prop}

/-! ## Computations -/

/-- A computation makes nodes of one sort, apart from what it goes on with. -/
def Build.Drafts (p : Draft → Prop) (x : Build σ α) : Prop :=
  ∀ next : α → Recipe σ, (∀ a, (next a).Drafts p) → (x next).Drafts p

namespace Build.Drafts

theorem pure (a : α) : Build.Drafts p (pure a : Build σ α) := fun _ h => h a

theorem bind {x : Build σ α} {f : α → Build σ β} (hx : Build.Drafts p x)
    (hf : ∀ a, Build.Drafts p (f a)) : Build.Drafts p (x >>= f) := fun next h =>
  hx _ fun a => hf a next h

theorem create {draft : Draft} (h : p draft) : Build.Drafts p (Build.create draft : Build σ NodeId) :=
  fun _ hnext => ⟨h, hnext⟩

theorem function (arity : Nat) {body : NodeId → List NodeId → Recipe σ}
    (h : ∀ f args, (body f args).Drafts p) : Build.Drafts p (Build.function arity body) :=
  fun _ hnext => ⟨h, hnext⟩

theorem look : Build.Drafts p (Build.look : Build σ (BuilderState σ)) := fun _ h => h

theorem memoize (i : Nat) (e : NodeId) : Build.Drafts p (Build.memoize i e : Build σ Unit) :=
  fun _ h => h ()

theorem fill (slot target : NodeId) :
    Build.Drafts p (Build.fill slot target : Build σ (Except Fault Unit)) := fun _ h => h

end Build.Drafts

/-- A computation that can fail makes nodes of one sort. -/
def TryBuild.Drafts (p : Draft → Prop) (x : TryBuild σ α) : Prop := Build.Drafts p x.run

namespace TryBuild.Drafts

theorem pure (a : α) : TryBuild.Drafts p (pure a : TryBuild σ α) := Build.Drafts.pure _

theorem throw (fault : Fault) : TryBuild.Drafts p (throw fault : TryBuild σ α) :=
  Build.Drafts.pure _

theorem lift {x : Build σ α} (h : Build.Drafts p x) : TryBuild.Drafts p (ExceptT.lift x) :=
  fun _ hnext => h _ fun a => hnext (.ok a)

theorem bind {x : TryBuild σ α} {f : α → TryBuild σ β} (hx : x.Drafts p)
    (hf : ∀ a, (f a).Drafts p) : TryBuild.Drafts p (x >>= f) := by
  intro next hnext
  refine hx _ fun r => ?_
  cases r with
  | ok a => exact hf a next hnext
  | error fault => exact hnext (.error fault)

theorem create {draft : Draft} (h : p draft) :
    TryBuild.Drafts p (ExceptT.lift (Build.create draft) : TryBuild σ NodeId) :=
  lift (.create h)

end TryBuild.Drafts

/-! ## Running -/

namespace Builder

theorem mem_of_request {b c : Builder σ} {f : NodeId} {recipe : Recipe σ}
    (h : b.request f = .construct recipe c) : (f, recipe) ∈ b.pending ∧ c.pending ⊆ b.pending := by
  unfold request at h
  split at h <;> try cases h
  split at h <;> cases h
  rename_i htake
  exact ⟨(mem_of_take htake).1, (mem_of_take htake).2.1⟩

/-- What is kept by the operations that make nodes of one sort is kept by recipes that do. -/
theorem follows_of_perform {I : Builder σ → Prop}
    (hpending : ∀ b, I b → ∀ q ∈ b.pending, q.2.Drafts p)
    (hperform : ∀ b op, I b → op.Drafts p → I (b.perform op)) :
    Follows p fun b c => I b → c.state.scopes = b.state.scopes ∧ I c where
  refl _ hb := ⟨rfl, hb⟩
  trans hbc hcd hb := by
    obtain ⟨hscopes, hc⟩ := hbc hb
    obtain ⟨hscopes', hd⟩ := hcd hc
    exact ⟨hscopes'.trans hscopes, hd⟩
  perform b op hflat hop hb := ⟨b.perform_scopes hflat, hperform b op hb hop⟩
  construct := by
    intro b c d f recipe hreq hrun outcome hb
    have hc : I c := perform_enter hreq ▸ hperform b (.enter f) hb trivial
    obtain ⟨hscopes, hd⟩ := hrun (hpending b hb _ (mem_of_request hreq).1) hc
    rw [request_scopes hreq] at hscopes
    refine ⟨?_, perform_leave hscopes outcome ▸ hperform d (.leave outcome) hd trivial⟩
    show d.state.scopes.tail = b.state.scopes
    rw [hscopes]
    rfl

end Builder

end ScriptGraph
