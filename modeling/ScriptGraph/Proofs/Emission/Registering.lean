import ScriptGraph.Proofs.Emission.Pieces
import ScriptGraph.Proofs.Store.Registration

/-!
# Registering while a script is written

Indices are given out in the middle of writing, where a module or a resource is met.

* `Ledger.foldl_register` : what is registered one by one is registered as if all at once;
* `Registering.Emits` : a computation succeeds and registers certain mentions;
* `Layout.writeOutput_emits` : a script that can be written is written while registering too, and what
  is registered on the way is what the script mentions.
-/

namespace ScriptGraph

theorem producedKeys_congr {known known' : List String} (h : ∀ key, key ∈ known ↔ key ∈ known')
    (ms : List Mention) : producedKeys known ms = producedKeys known' ms := by
  induction ms generalizing known known' with
  | nil => rfl
  | cons m ms ih =>
    cases m with
    | resource key value =>
      have hcontains : known.contains key = known'.contains key := by
        rw [Bool.eq_iff_iff, List.contains_iff_mem, List.contains_iff_mem, h]
      have hcons : ∀ k, k ∈ key :: known ↔ k ∈ key :: known' := fun k => by
        rw [List.mem_cons, List.mem_cons, h]
      simp only [producedKeys, hcontains, ih h, ih hcons]
    | _ => exact ih h

theorem producedKeys_cons (resolver : Resolver) (links : Links) (m : Mention) (ms : List Mention) :
    producedKeys links.stores.keys (m :: ms) =
      producedKeys links.stores.keys [m] ++
        producedKeys (links.register resolver m).stores.keys ms := by
  cases m with
  | resource key value =>
    have hkeys : ∀ k, k ∈ (links.register resolver (.resource key value)).stores.keys ↔
        k ∈ key :: links.stores.keys := fun k => by
      have hiff : k ∈ (Stores.registerAll links.stores.resources
          [(key, value.snapshot)]).map (·.1) ↔ _ := Stores.mem_keys_registerAll
      rw [List.map_singleton, List.mem_singleton] at hiff
      rw [List.mem_cons, or_comm]
      exact hiff
    rw [producedKeys_congr hkeys ms]
    by_cases hknown : key ∈ links.stores.keys
    · have hsame : ∀ k, k ∈ key :: links.stores.keys ↔ k ∈ links.stores.keys := fun k => by
        rw [List.mem_cons, or_iff_right_of_imp]
        rintro rfl
        exact hknown
      simp [producedKeys, hknown, producedKeys_congr hsame ms]
    · cases value <;> simp [producedKeys, hknown]
  | placeholder e =>
    simp only [producedKeys, List.nil_append, Links.register]
    split <;> rfl
  | _ => rfl

/-- What is registered one by one is registered as if all at once. -/
theorem Ledger.foldl_register (resolver : Resolver) (t : Ledger) (ms : List Mention) :
    ms.foldl (Ledger.register resolver) t =
      ⟨ms.foldl (Links.register resolver) t.links,
        t.produced ++ producedKeys t.links.stores.keys ms⟩ := by
  induction ms generalizing t with
  | nil => rw [List.foldl_nil, List.foldl_nil, producedKeys, List.append_nil]
  | cons m ms ih =>
    rw [List.foldl_cons, ih, List.foldl_cons, producedKeys_cons resolver t.links, register,
      List.append_assoc]

namespace Registering

variable {α β : Type}

/-- The computation succeeds, and registers the mentions in order. -/
def Emits (resolver : Resolver) (x : Registering α) (v : α) (ms : List Mention) : Prop :=
  ∀ t, x t = (.ok v, ms.foldl (Ledger.register resolver) t)

variable {resolver : Resolver} {x : Registering α} {f : α → Registering β} {v : α} {w : β}
  {g : α → β} {ms ms' : List Mention}

theorem emits_pure (v : α) : Emits resolver (pure v) v [] := fun _ => rfl

theorem emits_ofExcept {y : Except Fault α} (h : y = .ok v) :
    Emits resolver (MonadExcept.ofExcept y) v [] := by
  rw [h]
  exact fun _ => rfl

theorem emits_mention (m : Mention) : Emits resolver (mention resolver m) () [m] := fun _ => rfl

theorem Emits.bind (h : Emits resolver x v ms) (h' : Emits resolver (f v) w ms') :
    Emits resolver (x >>= f) w (ms ++ ms') := by
  intro t
  have hstep : (x >>= f) t = f v (ms.foldl (Ledger.register resolver) t) := by
    simp only [Bind.bind, ExceptT.bind, ExceptT.mk, ExceptT.bindCont, StateT.bind, h t]
  rw [hstep, h', List.foldl_append]

theorem Emits.map (h : Emits resolver x v ms) :
    Emits resolver (x >>= fun v => pure (g v)) (g v) ms := by
  have := h.bind (f := fun v => pure (g v)) (emits_pure (g v))
  rwa [List.append_nil] at this

end Registering

open Registering

namespace Layout

/-! ## What is written is registered on the way -/

variable {l : Layout} {resolver : Resolver} {within : List NodeId} {e : NodeId} {pos : Position}

/-- The nodes refer to stores by name. -/
def NamesStores (l : Layout) (within : List NodeId) : Prop :=
  ∀ e ∈ within, ∀ k s n, l.graph.kindOf? e = some k → k.store? = some (s, n) →
    l.analysis.isDeclared s = true

/-- The name of a store mentions nothing, so it does not matter what is registered first. -/
theorem mentionsOfAll_store {store : NodeId} {text : String} {pieces : List Fragment}
    (hd : l.analysis.isDeclared store = true)
    (h : l.parts within (positioned pos [.node store, .text text]) = .ok pieces) :
    mentionsOfAll pieces = [] := by
  rw [parts_eq_ok, positioned, positionedAfter, positionedAfter, positionedAfter,
    List.forall₂_cons_left_iff] at h
  obtain ⟨f, fs, hf, hfs, rfl⟩ := h
  rw [List.forall₂_cons_left_iff] at hfs
  obtain ⟨f', fs', hf', hfs', rfl⟩ := hfs
  rw [List.forall₂_nil_left_iff] at hfs'
  subst hfs'
  have hname : l.use within store _ = .ok f := hf
  rw [use_declared hd, map_eq_ok] at hname
  obtain ⟨name, _, rfl⟩ := hname
  have htext : f' = .text text := hf'
  rw [htext]
  rfl

section Emits

-- The nodes of `within` are registered as they are written.
variable (hexp : ∀ e pos frag, l.expansion within e pos = .ok frag →
  Emits resolver (l.writeExpansion (mention resolver) within e pos) frag frag.mentions)

include hexp

theorem writeUse_emits_of {frag : Fragment} (h : l.use within e pos = .ok frag) :
    Emits resolver (l.writeUse (mention resolver) within e pos) frag frag.mentions := by
  rw [writeUse]
  cases hd : l.analysis.isDeclared e with
  | true =>
    rw [use_declared hd] at h
    rw [if_pos rfl]
    obtain ⟨name, hname, rfl⟩ := map_eq_ok.1 h
    exact (emits_ofExcept hname).map
  | false =>
    rw [use_undeclared hd] at h
    exact hexp _ _ _ h

theorem writeParts_emits_of {ps : List (Part × Position)} {fs : List Fragment}
    (h : l.parts within ps = .ok fs) :
    Emits resolver (l.writeParts (mention resolver) within ps) fs (mentionsOfAll fs) := by
  rw [parts_eq_ok] at h
  induction h with
  | nil =>
    rw [writeParts]
    exact emits_pure []
  | @cons p f ps fs hp _ ih =>
    obtain ⟨part, pos⟩ := p
    cases part with
    | text t =>
      obtain rfl : f = .text t := hp
      rw [writeParts]
      exact ih.map
    | node e =>
      have huse : l.use within e pos = .ok f := hp
      rw [writeParts]
      exact (writeUse_emits_of hexp huse).bind (ih.map)

theorem writeDeclarations_emits_of {es : List NodeId} {ds : List Declaration}
    (h : l.declarations within es = .ok ds) :
    Emits resolver (l.writeDeclarations (mention resolver) within es) ds (mentionsOfDeclarations ds) := by
  rw [declarations_eq_ok] at h
  induction h with
  | nil =>
    rw [writeDeclarations]
    exact emits_pure []
  | @cons e d es ds hd _ ih =>
    obtain ⟨name, init, hname, hinit, rfl⟩ := hd
    rw [writeDeclarations]
    exact (emits_ofExcept hname).bind
      ((hexp _ _ _ hinit).bind (ih.map))

theorem writeBlock_emits_of {scope : Scope} {body : Body} {b : Block}
    (h : l.block within scope body = .ok b) :
    Emits resolver (l.writeBlock (mention resolver) within scope body) b b.mentions := by
  obtain ⟨ds, hds, hbody⟩ := block_eq_ok.1 h
  have hdecls := writeDeclarations_emits_of hexp hds
  cases body with
  | value root =>
    obtain ⟨result, hresult, rfl⟩ := hbody
    rw [writeBlock]
    exact hdecls.bind (writeUse_emits_of hexp hresult).map
  | statements roots =>
    obtain ⟨list, hlist, rfl⟩ := hbody
    rw [writeBlock]
    exact hdecls.bind (writeParts_emits_of hexp hlist).map

end Emits

/-- A node that is no function and no parameter: its parts, and what it mentions itself. -/
theorem writeExpansion_emits_inline {n : Node} {frag : Fragment} (he : e ∈ within)
    (hn : l.graph.node? e = some n) (hf : l.graph.isFunction e = false)
    (hp : l.graph.isParameter e = false) (hs : l.graph.isUnfilledSlot e = false)
    (hstores : l.NamesStores within)
    (hexp : ∀ e' pos frag, l.expansion (within.erase e) e' pos = .ok frag →
      Emits resolver (l.writeExpansion (mention resolver) (within.erase e) e' pos) frag frag.mentions)
    (h : l.expansion within e pos = .ok frag) :
    Emits resolver (l.writeExpansion (mention resolver) within e pos) frag frag.mentions := by
  rw [expansion_inline he hn hf hp hs, map_eq_ok] at h
  obtain ⟨pieces, hpieces, rfl⟩ := h
  have hk := Graph.kindOf?_of_node hn
  have hwritten := writeParts_emits_of hexp hpieces
  have hmentions : (Fragment.expansion e (encloses n pos) (pieces ++ (l.shape e n).2)).mentions =
      mentionsOfAll pieces ++ mentionsOfAll (l.shape e n).2 := mentionsOfAll_append ..
  have plain : ∀ enclosed, Emits resolver (l.writeParts (mention resolver) (within.erase e)
        (positioned pos n.template)) pieces (mentionsOfAll pieces) →
      Emits resolver (l.writeParts (mention resolver) (within.erase e) (positioned pos n.template) >>=
          fun pieces => pure (Fragment.expansion e enclosed pieces))
        (.expansion e enclosed (pieces ++ [])) (mentionsOfAll pieces ++ []) := fun enclosed h => by
    rw [List.append_nil, List.append_nil]
    exact h.map
  rw [hmentions, writeExpansion, dif_pos he, hn]
  obtain ⟨scope, flags, kind⟩ := n
  cases kind with
  | function arity state => simp [Graph.isFunction, hk] at hf
  | parameter i => simp [Graph.isParameter, hk] at hp
  | moduleRef store address =>
    have hd := hstores e he _ store .modules hk rfl
    rw [mentionsOfAll_store hd hpieces] at hwritten ⊢
    exact (emits_mention _).bind hwritten.map
  | resourceRef store key value =>
    have hd := hstores e he _ store .resources hk rfl
    rw [mentionsOfAll_store hd hpieces] at hwritten ⊢
    exact (emits_mention _).bind hwritten.map
  | placeholder | moduleStore | resourceStore =>
    rw [shape, positioned, positionedAfter, parts_nil] at hpieces
    obtain rfl : pieces = [] := (Except.ok.inj hpieces).symm
    exact (emits_mention _).bind (emits_pure _)
  | slot target =>
    cases target with
    | none => simp [Graph.isUnfilledSlot, hk] at hs
    | some target => exact plain _ hwritten
  | _ => exact plain _ hwritten

/-- What can be written out is written out while registering too. -/
theorem writeExpansion_emits {frag : Fragment} (hstores : l.NamesStores within)
    (h : l.expansion within e pos = .ok frag) :
    Emits resolver (l.writeExpansion (mention resolver) within e pos) frag frag.mentions := by
  induction hlen : within.length using Nat.strongRecOn generalizing within e pos frag with
  | _ n ih =>
    obtain ⟨he, hin, hs⟩ := expansion_ok_built h
    have hinner : l.NamesStores (within.erase e) := fun x hx => hstores x (List.mem_of_mem_erase hx)
    have hexp : ∀ x p f, l.expansion (within.erase e) x p = .ok f →
        Emits resolver (l.writeExpansion (mention resolver) (within.erase e) x p) f f.mentions :=
      fun x p f hx => ih _ (hlen ▸ length_erase_lt he) hinner hx rfl
    obtain ⟨m, hm⟩ := Graph.exists_node hin
    cases hf : l.graph.isFunction e with
    | true =>
      obtain ⟨arity, state, hk⟩ := Graph.isFunction_iff.1 hf
      rw [expansion_function he hf] at h
      simp only [bind_eq_ok, pure, Except.pure, Except.ok.injEq] at h
      obtain ⟨params, hparams, body, hbody, b, hb, rfl⟩ := h
      rw [writeExpansion, dif_pos he, hm]
      rw [Graph.kindOf?_of_node hm, Option.some.injEq] at hk
      simp only [hk]
      exact (emits_ofExcept hparams).bind
        ((emits_ofExcept hbody).bind (writeBlock_emits_of hexp hb).map)
    | false =>
      cases hp : l.graph.isParameter e with
      | true =>
        obtain ⟨i, hk⟩ := Graph.isParameter_iff.1 hp
        rw [expansion_parameter he hp] at h
        obtain ⟨name, hname, rfl⟩ := map_eq_ok.1 h
        rw [writeExpansion, dif_pos he, hm]
        rw [Graph.kindOf?_of_node hm, Option.some.injEq] at hk
        simp only [hk]
        exact (emits_ofExcept hname).map
      | false => exact writeExpansion_emits_inline he hm hf hp hs hstores hexp h

/-- **A script that can be written is written while registering too**, and on the way it registers
what it mentions. -/
theorem writeOutput_emits {mode : CompileMode} {body : Body} {o : Output}
    (hstores : l.NamesStores l.analysis.order) (h : l.output mode body = .ok o) :
    Emits resolver (l.writeOutput (mention resolver) mode body) o o.mentions := by
  have hexp : ∀ x p f, l.expansion l.analysis.order x p = .ok f →
      Emits resolver (l.writeExpansion (mention resolver) l.analysis.order x p) f f.mentions :=
    fun x p f => writeExpansion_emits hstores
  cases mode with
  | statements =>
    have h' : l.script body.roots = .ok o := h
    obtain ⟨ds, hds, list, hlist, rfl⟩ := script_eq_ok.1 h'
    exact (writeDeclarations_emits_of hexp hds).bind (writeParts_emits_of hexp hlist).map
  | evaluation =>
    cases body with
    | value root =>
      have h' : l.evaluation root = .ok o := h
      obtain ⟨b, hb, rfl⟩ := evaluation_eq_ok.1 h'
      exact (writeBlock_emits_of hexp hb).map
    | statements roots => cases h

end Layout

end ScriptGraph
