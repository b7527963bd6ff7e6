import ScriptGraph.Proofs.Compile.Script
import ScriptGraph.Proofs.Store.Registration

/-!
# Compilations that share their stores

* `Compilation` : a compilation with all that it is given except the stores;
* `history` : the outcomes of compilations, each with the stores that the ones before left;
* `Compilation.run_eq` : what a compilation registers, whether or not it succeeds;
* `nodup_produced` : lazy values are produced once;
* `pairwise_history` : modules and resources of a result stay in the later ones.
-/

namespace ScriptGraph

/-! ## Histories -/

/-- A compilation with all that it is given except the stores. -/
structure Compilation where
  Shared : Type
  builder : Builder Shared
  reached : builder.Reached
  body : Body
  options : Options
  resolver : Resolver

namespace Compilation

variable (x : Compilation) (stores : Stores)

def run : Outcome := (x.builder.compile x.body x.options stores x.resolver).1

/-- What the script mentions that the compilation writes. -/
def mentions : List Mention :=
  match x.builder.script x.body x.options with
  | .error _ => []
  | .ok output => output.mentions

def registrations : List Registration := x.mentions.map fun m => (x.resolver, m)

/-- A compilation registers what its script mentions, whether or not the script passes the checks,
and nothing if there is no script. -/
theorem run_eq : (x.run stores).stores = x.registrations.foldl Stores.accept stores ∧
    (x.run stores).produced = producedKeys stores.keys x.mentions := by
  unfold run registrations mentions
  cases hs : x.builder.script x.body x.options with
  | error fault =>
    rw [Builder.compile_of_error x.reached hs]
    exact ⟨rfl, rfl⟩
  | ok output =>
    obtain ⟨hcheck, a, c, ha, ho⟩ := Builder.script_eq_ok.1 hs
    obtain ⟨_, _, _, hcompile⟩ := Builder.exists_compiled x.reached hcheck ha ho stores x.resolver
    rw [hcompile]
    exact ⟨(Links.ofMentions_eq x.resolver stores output.mentions).1, rfl⟩

end Compilation

/-- The outcomes of compilations, each with the stores that the ones before left. -/
def history (stores : Stores) : List Compilation → List Outcome
  | [] => []
  | x :: rest => x.run stores :: history (x.run stores).stores rest

/-- The stores that compilations leave. -/
def storesAfter (stores : Stores) : List Compilation → Stores
  | [] => stores
  | x :: rest => storesAfter (x.run stores).stores rest

theorem getElem?_history (stores : Stores) (xs : List Compilation) (i : Nat) :
    (history stores xs)[i]? = xs[i]?.map fun x => x.run (storesAfter stores (xs.take i)) := by
  induction xs generalizing stores i with
  | nil => rfl
  | cons x xs ih =>
    cases i with
    | zero => rfl
    | succ i => exact ih _ i

/-- What compilations register, in order. -/
def allRegistrations (xs : List Compilation) : List Registration := xs.flatMap (·.registrations)

theorem storesAfter_eq (stores : Stores) (xs : List Compilation) :
    storesAfter stores xs = (allRegistrations xs).foldl Stores.accept stores := by
  induction xs generalizing stores with
  | nil => rfl
  | cons x xs ih =>
    rw [storesAfter, ih, (x.run_eq stores).1, allRegistrations, allRegistrations, List.flatMap_cons,
      List.foldl_append]

theorem storesAfter_empty (xs : List Compilation) :
    storesAfter {} xs = Stores.ofRegistrations (allRegistrations xs) :=
  storesAfter_eq {} xs

theorem allRegistrations_append (xs ys : List Compilation) :
    allRegistrations (xs ++ ys) = allRegistrations xs ++ allRegistrations ys :=
  List.flatMap_append

/-! ## Lazy values -/

theorem mem_producedKeys {known : List String} {ms : List Mention} {key : String}
    (h : key ∈ producedKeys known ms) : key ∉ known ∧ key ∈ ms.filterMap Mention.key? := by
  induction ms generalizing known with
  | nil => cases h
  | cons m ms ih =>
    cases m with
    | resource k value =>
      simp only [producedKeys] at h
      rw [show (Mention.resource k value :: ms).filterMap Mention.key? =
        k :: ms.filterMap Mention.key? from rfl, List.mem_cons]
      split at h
      · exact (ih h).imp_right .inr
      · rename_i hnew
        have hrest : key ∈ producedKeys (k :: known) ms →
            key ∉ known ∧ (key = k ∨ key ∈ ms.filterMap Mention.key?) := fun h => by
          obtain ⟨hknown, hkey⟩ := ih h
          exact ⟨fun hk => hknown (List.mem_cons_of_mem _ hk), .inr hkey⟩
        cases value with
        | eager v => exact hrest h
        | deferred v =>
          rcases List.mem_cons.1 h with rfl | h
          · exact ⟨fun hk => hnew (List.contains_iff_mem.2 hk), .inl rfl⟩
          · exact hrest h
    | _ => exact ih h

theorem nodup_producedKeys (known : List String) (ms : List Mention) :
    (producedKeys known ms).Nodup := by
  induction ms generalizing known with
  | nil => exact .nil
  | cons m ms ih =>
    cases m with
    | resource k value =>
      simp only [producedKeys]
      split
      · exact ih known
      · cases value with
        | eager v => exact ih _
        | deferred v =>
          exact List.nodup_cons.2 ⟨fun h => (mem_producedKeys h).1 List.mem_cons_self, ih _⟩
    | _ => exact ih known

/-- After a compilation the stores hold its keys and those from before. -/
theorem Compilation.mem_keys_run (x : Compilation) {stores : Stores} {key : String}
    (h : key ∈ stores.keys ∨ key ∈ x.mentions.filterMap Mention.key?) :
    key ∈ (x.run stores).stores.keys := by
  rw [(x.run_eq stores).1, Stores.keys, (Stores.foldl_accept stores _).2,
    Stores.mem_keys_registerAll]
  refine h.imp_right fun hkey => ?_
  obtain ⟨m, hm, hmkey⟩ := List.mem_filterMap.1 hkey
  cases m with
  | resource key value =>
    cases hmkey
    exact List.mem_map.2 ⟨(_, value.snapshot), List.mem_filterMap.2
      ⟨_, List.mem_map.2 ⟨_, hm, rfl⟩, rfl⟩, rfl⟩
  | _ => cases hmkey

theorem nodup_produced (stores : Stores) (xs : List Compilation) :
    ((history stores xs).flatMap (·.produced)).Nodup ∧
      ∀ key ∈ (history stores xs).flatMap (·.produced), key ∉ stores.keys := by
  induction xs generalizing stores with
  | nil => exact ⟨.nil, fun key h => nomatch h⟩
  | cons x xs ih =>
    obtain ⟨hnodup, hnew⟩ := ih (x.run stores).stores
    rw [history, List.flatMap_cons, (x.run_eq stores).2]
    refine ⟨List.nodup_append.2 ⟨nodup_producedKeys .., hnodup, ?_⟩, fun key hkey => ?_⟩
    · rintro key hkey _ hlater rfl
      exact hnew key hlater (x.mem_keys_run (.inr (mem_producedKeys hkey).2))
    · rcases List.mem_append.1 hkey with hkey | hkey
      · exact (mem_producedKeys hkey).1
      · exact fun hold => hnew key hkey (x.mem_keys_run (.inl hold))

/-! ## Stores that grow -/

/-- A compiled script comes with the stores as it leaves them. -/
theorem Compilation.compiled_stores {x : Compilation} {stores : Stores} {compiled : Compiled}
    (h : (x.run stores).result = .ok compiled) :
    compiled.modules = (x.run stores).stores.addresses ∧
      compiled.resources = (x.run stores).stores.resources := by
  obtain ⟨outcome, c, hcompile⟩ : ∃ outcome c,
      x.builder.compile x.body x.options stores x.resolver = (outcome, c) := ⟨_, _, rfl⟩
  have hrun : x.run stores = outcome := congrArg Prod.fst hcompile
  rw [hrun] at h
  obtain ⟨a, output, ha, ho, hcheck, hpresents, _⟩ := Builder.presents_of_compile x.reached hcompile h
  obtain ⟨_, _, _, hcompile'⟩ := Builder.exists_compiled x.reached hcheck ha ho stores x.resolver
  rw [run, hcompile']
  exact ⟨hpresents.modules, hpresents.resources⟩

namespace Stores

/-- Entries stay where they are, and new ones come after them. -/
structure Grows (s t : Stores) : Prop where
  modules : s.modules <+: t.modules
  resources : s.resources <+: t.resources

theorem Grows.trans {s t u : Stores} (h : s.Grows t) (h' : t.Grows u) : s.Grows u :=
  ⟨h.modules.trans h'.modules, h.resources.trans h'.resources⟩

theorem grows_foldl (s : Stores) (rs : List Registration) : s.Grows (rs.foldl accept s) := by
  obtain ⟨hmodules, hresources⟩ := foldl_accept s rs
  exact ⟨hmodules ▸ registerAll_prefix _, hresources ▸ registerAll_prefix _⟩

end Stores

theorem Compilation.grows_run (x : Compilation) (stores : Stores) :
    stores.Grows (x.run stores).stores :=
  (x.run_eq stores).1 ▸ Stores.grows_foldl _ _

theorem grows_history {stores : Stores} {xs : List Compilation} :
    ∀ p ∈ history stores xs, stores.Grows p.stores := by
  induction xs generalizing stores with
  | nil => exact fun p hp => nomatch hp
  | cons x xs ih =>
    exact List.forall_mem_cons.2 ⟨x.grows_run stores, fun p hp => (x.grows_run stores).trans (ih p hp)⟩

theorem exists_run {stores : Stores} {xs : List Compilation} {q : Outcome}
    (h : q ∈ history stores xs) : ∃ x ∈ xs, ∃ s, q = x.run s := by
  induction xs generalizing stores with
  | nil => cases h
  | cons x xs ih =>
    rcases List.mem_cons.1 h with rfl | h
    · exact ⟨x, List.mem_cons_self, stores, rfl⟩
    · obtain ⟨y, hy, s, rfl⟩ := ih h
      exact ⟨y, List.mem_cons_of_mem _ hy, s, rfl⟩

/-- The modules and resources of a result are the first ones of every later result. -/
theorem pairwise_history (stores : Stores) (xs : List Compilation) :
    (history stores xs).Pairwise fun p q => ∀ c d, p.result = .ok c → q.result = .ok d →
      c.modules <+: d.modules ∧ c.resources <+: d.resources := by
  induction xs generalizing stores with
  | nil => exact .nil
  | cons x xs ih =>
    refine List.pairwise_cons.2 ⟨fun q hq c d hc hd => ?_, ih _⟩
    have hgrows := grows_history q hq
    obtain ⟨y, _, s, rfl⟩ := exists_run hq
    obtain ⟨hcmodules, hcresources⟩ := Compilation.compiled_stores hc
    obtain ⟨hdmodules, hdresources⟩ := Compilation.compiled_stores hd
    rw [hcmodules, hcresources, hdmodules, hdresources]
    exact ⟨hgrows.modules.map _, hgrows.resources⟩

end ScriptGraph
