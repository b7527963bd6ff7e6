import ScriptGraph.Proofs.Compile.History
import ScriptGraph.Proofs.Emission.Splicing

/-!
# What indices lead to

* `Piece.keyed` : what the references of one sort refer to, with their indices;
* `Compiled.Indexed` : the references of a compiled script, with what their indices lead to;
* `indices_of_history` : indices mean the same in all compilations that share their stores.
-/

namespace ScriptGraph

/-! ## What references refer to -/

namespace Graph

def address? (g : Graph) (e : NodeId) : Option String :=
  match g.kindOf? e with
  | some (.moduleRef _ address) => some address
  | _ => none

def key? (g : Graph) (e : NodeId) : Option String :=
  match g.kindOf? e with
  | some (.resourceRef _ key _) => some key
  | _ => none

def placeholder? (g : Graph) (e : NodeId) : Option NodeId :=
  match g.kindOf? e with
  | some .placeholder => some e
  | _ => none

/-- What a script mentions of one sort is what its references of this sort refer to. -/
theorem filterMap_mentions {κ : Type} {g : Graph} {mentioned? : Mention → Option κ}
    {key? : NodeId → Option κ} (hindexed : ∀ m, m.isIndexed = false → mentioned? m = none)
    (hown : ∀ e, (g.ownMentions e).filterMap mentioned? = (key? e).toList) {ms : List Mention}
    {es : List NodeId} (h : ms.filter Mention.isIndexed = es.flatMap g.ownMentions) :
    ms.filterMap mentioned? = es.filterMap key? := by
  have hfilter : ms.filterMap mentioned? = (ms.filter Mention.isIndexed).filterMap mentioned? := by
    rw [List.filterMap_filter]
    refine List.filterMap_congr fun m _ => ?_
    cases hm : m.isIndexed with
    | true => rfl
    | false => exact hindexed m hm
  rw [hfilter, h, List.filterMap_flatMap, List.filterMap_eq_flatMap_toList]
  exact congrArg (es.flatMap ·) (funext hown)

variable {g : Graph} {ms : List Mention} {es : List NodeId}
  (h : ms.filter Mention.isIndexed = es.flatMap g.ownMentions)

include h

theorem filterMap_address? : ms.filterMap Mention.address? = es.filterMap g.address? := by
  refine filterMap_mentions (fun m hm => by cases m <;> trivial) (fun e => ?_) h
  rw [ownMentions, address?]
  cases g.kindOf? e with
  | none => rfl
  | some k => cases k <;> rfl

theorem filterMap_key? : ms.filterMap Mention.key? = es.filterMap g.key? := by
  refine filterMap_mentions (fun m hm => by cases m <;> trivial) (fun e => ?_) h
  rw [ownMentions, key?]
  cases g.kindOf? e with
  | none => rfl
  | some k => cases k <;> rfl

theorem filterMap_placeholder? :
    ms.filterMap Mention.placeholder? = es.filterMap g.placeholder? := by
  refine filterMap_mentions (fun m hm => by cases m <;> trivial) (fun e => ?_) h
  rw [ownMentions, placeholder?]
  cases g.kindOf? e with
  | none => rfl
  | some k => cases k <;> rfl

end Graph

namespace Graph

variable {g : Graph} {e : NodeId}

theorem address?_eq_some {address : String} :
    g.address? e = some address ↔ ∃ store, g.kindOf? e = some (.moduleRef store address) := by
  unfold address?
  split
  · rename_i h
    simp [h]
  · rename_i h
    exact ⟨(nomatch ·), fun ⟨store, h'⟩ => absurd h' (h store address)⟩

theorem key?_eq_some {key : String} :
    g.key? e = some key ↔ ∃ store value, g.kindOf? e = some (.resourceRef store key value) := by
  unfold key?
  split
  · rename_i h
    simp [h]
  · rename_i h
    exact ⟨(nomatch ·), fun ⟨store, value, h'⟩ => absurd h' (h store key value)⟩

theorem placeholder?_eq_some {p : NodeId} :
    g.placeholder? e = some p ↔ e = p ∧ g.kindOf? e = some .placeholder := by
  unfold placeholder?
  split
  · rename_i h
    simp [h]
  · rename_i h
    exact ⟨(nomatch ·), fun ⟨_, h'⟩ => absurd h' h⟩

end Graph

namespace Piece

/-- What the references of one sort refer to, with their indices, in the order of the text. -/
def keyed {κ : Type} (key? : NodeId → Option κ) (ps : List Piece) : List (κ × Nat) :=
  ps.filterMap fun
    | .text _ => none
    | .reference e _ _ index => (key? e).map (·, index)

theorem keyed_eq {κ : Type} {key? : NodeId → Option κ} {index : κ → Nat} {ps : List Piece}
    (h : ∀ e array brackets i, .reference e array brackets i ∈ ps → ∀ k, key? e = some k →
      i = index k) :
    keyed key? ps = ((ps.filterMap Piece.node?).filterMap key?).map fun k => (k, index k) := by
  induction ps with
  | nil => rfl
  | cons p ps ih =>
    have hrest := ih fun e array brackets i hp => h e array brackets i (List.mem_cons_of_mem _ hp)
    cases p with
    | text cs => exact hrest
    | reference e array brackets i =>
      have hhead := h e array brackets i List.mem_cons_self
      simp only [keyed, List.filterMap_cons, Piece.node?] at hrest ⊢
      cases hk : key? e with
      | none => exact hrest
      | some k =>
        rw [hhead k hk]
        exact congrArg _ hrest

end Piece

/-! ## Indices -/

/-- How the references of a compiled script stand in its text, and what their indices lead to: the
stores were `before` when it was compiled, and hold the registrations `rs` afterwards. -/
structure Compiled.Indexed (compiled : Compiled) (l : Layout) (output : Output) (before : Stores)
    (rs : List Registration) (moduleIndex resourceIndex : String → Nat) (ps : List Piece) :
    Prop where
  /-- The text is made of pieces. -/
  text : compiled.code.toList = ps.flatMap Piece.render
  /-- The references among them are those that are written out, in order. -/
  references : ps.filterMap Piece.node? =
    (marked Mark.written? output.sites).filter l.graph.isReference
  /-- A module is reached through the module store, where its first resolver has put its address. -/
  modules : ∀ e array brackets index, .reference e array brackets index ∈ ps →
    ∀ store address, l.graph.kindOf? e = some (.moduleRef store address) →
      l.graph.kindOf? store = some .moduleStore ∧ l.nameOf store = .ok array ∧
      brackets = ("[", "]") ∧ index = moduleIndex address ∧
      ∃ resolver, IsFirst rs (· = .module address) (resolver, .module address) ∧
        compiled.modules[index]? = some (resolver address)
  /-- A resource is reached through the resource store, with the value it was first given. -/
  resources : ∀ e array brackets index, .reference e array brackets index ∈ ps →
    ∀ store key value, l.graph.kindOf? e = some (.resourceRef store key value) →
      l.graph.kindOf? store = some .resourceStore ∧ l.nameOf store = .ok array ∧
      brackets = Layout.resourceBrackets l.resourceMode ∧ index = resourceIndex key ∧
      ∃ resolver first, IsFirst rs (fun m => ∃ v, m = .resource key v)
          (resolver, .resource key first) ∧
        compiled.resources[index]? = some (key, first.snapshot)
  placeholders : ∀ e array brackets index, .reference e array brackets index ∈ ps →
    l.graph.kindOf? e = some .placeholder → array = l.placeholderArray ∧ brackets = ("[", "]")
  /-- Different placeholders have different indices. -/
  distinct : (Piece.keyed l.graph.placeholder? ps).Pairwise fun p q => p.2 = q.2 ↔ p.1 = q.1
  /-- Their indices come up in increasing order, without gaps. -/
  ordered : ((Piece.keyed l.graph.placeholder? ps).map (·.2)).eraseDups =
    List.range compiled.placeholders
  /-- So do those of modules and resources, if the stores were empty before. -/
  ordered_modules : before.modules = [] →
    ((Piece.keyed l.graph.address? ps).map (·.2)).eraseDups = List.range compiled.modules.length
  ordered_resources : before.resources = [] →
    ((Piece.keyed l.graph.key? ps).map (·.2)).eraseDups = List.range compiled.resources.length

/-- Indices by first occurrence, as they stand in a text. -/
theorem Piece.ordered_keyed {κ : Type} [BEq κ] [LawfulBEq κ] {key? : NodeId → Option κ}
    {ps : List Piece} {ms : List κ} (hms : ms = (ps.filterMap Piece.node?).filterMap key?)
    (h : ∀ e array brackets i, .reference e array brackets i ∈ ps → ∀ k, key? e = some k →
      i = ms.eraseDups.idxOf k) :
    ((Piece.keyed key? ps).map (·.2)).eraseDups = List.range ms.eraseDups.length ∧
      (Piece.keyed key? ps).Pairwise fun p q => p.2 = q.2 ↔ p.1 = q.1 := by
  rw [keyed_eq h, ← hms]
  constructor
  · rw [List.map_map]
    exact eraseDups_map_idxOf ms
  · rw [List.pairwise_map]
    refine List.pairwise_of_forall_mem_list fun k hk k' _ => ?_
    exact List.idxOf_inj (List.mem_eraseDups.2 hk)

section Ordered

variable {l : Layout} {links : Links} {ps : List Piece} (hps : ∀ p ∈ ps, l.Spelled links p)
  {ms : List Mention} (hindexed : ms.filter Mention.isIndexed =
    (ps.filterMap Piece.node?).flatMap l.graph.ownMentions)

include hps hindexed

theorem ordered_placeholders
    (h : links.placeholders = (ms.filterMap Mention.placeholder?).eraseDups) :
    ((Piece.keyed l.graph.placeholder? ps).map (·.2)).eraseDups =
        List.range links.placeholders.length ∧
      (Piece.keyed l.graph.placeholder? ps).Pairwise fun p q => p.2 = q.2 ↔ p.1 = q.1 := by
  rw [h]
  refine Piece.ordered_keyed (Graph.filterMap_placeholder? hindexed)
    fun e array brackets index hp p hk => ?_
  obtain ⟨rfl, hkind⟩ := Graph.placeholder?_eq_some.1 hk
  have hspelled := hps _ hp
  rw [Layout.Spelled, hkind] at hspelled
  rw [← h]
  exact hspelled.2.2

theorem ordered_modules
    (h : links.stores.modules.map (·.1) = (ms.filterMap Mention.address?).eraseDups) :
    ((Piece.keyed l.graph.address? ps).map (·.2)).eraseDups =
      List.range links.stores.addresses.length := by
  rw [Stores.addresses, List.length_map, ← List.length_map (·.1), h]
  refine (Piece.ordered_keyed (Graph.filterMap_address? hindexed)
    fun e array brackets index hp address hk => ?_).1
  obtain ⟨store, hk⟩ := Graph.address?_eq_some.1 hk
  have hspelled := hps _ hp
  rw [Layout.Spelled, hk] at hspelled
  rw [← h, ← Stores.indexIn_eq]
  exact hspelled.2.2

theorem ordered_resources
    (h : links.stores.resources.map (·.1) = (ms.filterMap Mention.key?).eraseDups) :
    ((Piece.keyed l.graph.key? ps).map (·.2)).eraseDups =
      List.range links.stores.resources.length := by
  rw [← List.length_map (·.1), h]
  refine (Piece.ordered_keyed (Graph.filterMap_key? hindexed)
    fun e array brackets index hp key hk => ?_).1
  obtain ⟨store, value, hk⟩ := Graph.key?_eq_some.1 hk
  have hspelled := hps _ hp
  rw [Layout.Spelled, hk] at hspelled
  rw [← h, ← Stores.indexIn_eq]
  exact hspelled.2.2

end Ordered

section Indexed

variable {l : Layout} {links : Links} {output : Output} {ps : List Piece}
  {rs : List Registration} (rs' : List Registration)
  (hlinked : l.graph.Linked) (hps : ∀ p ∈ ps, l.Spelled links p)
  (hstores : links.stores = Stores.ofRegistrations rs)
  (hindexed : output.mentions.filter Mention.isIndexed =
    (ps.filterMap Piece.node?).flatMap l.graph.ownMentions)
  (hrs : ∀ m ∈ output.mentions, m ∈ rs.map (·.2))
  {e store : NodeId} {array : String} {brackets : String × String} {index : Nat}
  (hp : .reference e array brackets index ∈ ps)

include hindexed hrs hp

theorem mention_of_reference {m : Mention} (hm : m ∈ l.graph.ownMentions e) :
    m ∈ rs.map (·.2) := by
  have hnode : e ∈ ps.filterMap Piece.node? := List.mem_filterMap.2 ⟨_, hp, rfl⟩
  have hmem : m ∈ output.mentions.filter Mention.isIndexed :=
    hindexed ▸ List.mem_flatMap.2 ⟨e, hnode, hm⟩
  exact hrs m (List.mem_filter.1 hmem).1

include hlinked hps hstores

theorem module_of_reference {address : String}
    (hk : l.graph.kindOf? e = some (.moduleRef store address)) :
    l.graph.kindOf? store = some .moduleStore ∧ l.nameOf store = .ok array ∧
      brackets = ("[", "]") ∧ index = (Stores.ofRegistrations (rs ++ rs')).moduleIndex address ∧
      ∃ resolver, IsFirst rs (· = .module address) (resolver, .module address) ∧
        links.stores.addresses[index]? = some (resolver address) := by
  have hspelled := hps _ hp
  rw [Layout.Spelled, hk] at hspelled
  obtain ⟨hname, hbrackets, rfl⟩ := hspelled
  have hmention := mention_of_reference hindexed hrs hp (m := .module address)
    (by rw [Graph.ownMentions, hk]; exact List.mem_singleton_self _)
  rw [hstores]
  exact ⟨Graph.kindOf?_of_node (hlinked.reference e _ store _ hk rfl), hname, hbrackets,
    (Stores.moduleIndex_append hmention).symm, Stores.getElem?_moduleIndex hmention⟩

theorem resource_of_reference {key : String} {value : ResourceValue}
    (hk : l.graph.kindOf? e = some (.resourceRef store key value)) :
    l.graph.kindOf? store = some .resourceStore ∧ l.nameOf store = .ok array ∧
      brackets = Layout.resourceBrackets l.resourceMode ∧
      index = (Stores.ofRegistrations (rs ++ rs')).resourceIndex key ∧
      ∃ resolver first, IsFirst rs (fun m => ∃ v, m = .resource key v)
          (resolver, .resource key first) ∧
        links.stores.resources[index]? = some (key, first.snapshot) := by
  have hspelled := hps _ hp
  rw [Layout.Spelled, hk] at hspelled
  obtain ⟨hname, hbrackets, rfl⟩ := hspelled
  have hmention := mention_of_reference hindexed hrs hp (m := .resource key value)
    (by rw [Graph.ownMentions, hk]; exact List.mem_singleton_self _)
  rw [hstores]
  exact ⟨Graph.kindOf?_of_node (hlinked.reference e _ store _ hk rfl), hname, hbrackets,
    (Stores.resourceIndex_append hmention).symm, Stores.getElem?_resourceIndex hmention⟩

end Indexed

/-- The keys that a compilation enters into empty stores are those it mentions. -/
theorem Stores.keys_of_fresh (resolver : Resolver) (stores : Stores) (ms : List Mention) :
    (stores.modules = [] → (Links.ofMentions resolver stores ms).stores.modules.map (·.1) =
      (ms.filterMap Mention.address?).eraseDups) ∧
    (stores.resources = [] → (Links.ofMentions resolver stores ms).stores.resources.map (·.1) =
      (ms.filterMap Mention.key?).eraseDups) := by
  have haddress : ((ms.map fun m => (resolver, m)).filterMap Registration.module?).map (·.1) =
      ms.filterMap Mention.address? := by
    rw [List.filterMap_map, List.map_filterMap]
    refine List.filterMap_congr fun m _ => ?_
    cases m <;> rfl
  have hkey : ((ms.map fun m => (resolver, m)).filterMap Registration.resource?).map (·.1) =
      ms.filterMap Mention.key? := by
    rw [List.filterMap_map, List.map_filterMap]
    refine List.filterMap_congr fun m _ => ?_
    cases m <;> rfl
  rw [(Links.ofMentions_eq resolver stores ms).1, (foldl_accept _ _).1, (foldl_accept _ _).2]
  refine ⟨fun h => ?_, fun h => ?_⟩
  · rw [h, map_fst_registerAll, haddress]
  · rw [h, map_fst_registerAll, hkey]

namespace Compilation

variable {x : Compilation} {earlier : List Compilation} {compiled : Compiled}

theorem registrations_of_script {output : Output}
    (h : x.builder.script x.body x.options = .ok output) :
    x.registrations = output.mentions.map fun m => (x.resolver, m) := by
  rw [registrations, mentions, h]

theorem allRegistrations_concat (earlier : List Compilation) (x : Compilation) :
    allRegistrations (earlier ++ [x]) = allRegistrations earlier ++ x.registrations := by
  simp [allRegistrations]

/-- The stores after a script are those of all registrations so far. -/
theorem stores_of_script (earlier : List Compilation) {output : Output}
    (h : x.builder.script x.body x.options = .ok output) :
    (Links.ofMentions x.resolver (storesAfter {} earlier) output.mentions).stores =
      Stores.ofRegistrations (allRegistrations (earlier ++ [x])) := by
  rw [allRegistrations_concat, Stores.ofRegistrations_append, ← storesAfter_empty,
    registrations_of_script h]
  exact (Links.ofMentions_eq ..).1

theorem storesAfter_split (earlier later : List Compilation) (x : Compilation) :
    storesAfter {} (earlier ++ x :: later) = Stores.ofRegistrations
      (allRegistrations (earlier ++ [x]) ++ allRegistrations later) := by
  rw [storesAfter_empty, ← allRegistrations_append, List.append_assoc]
  rfl

/-- Every script that is compiled in the course of a history has its references indexed, and they
keep their indices. -/
theorem exists_indexed (h : (x.run (storesAfter {} earlier)).result = .ok compiled)
    (later : List Compilation) :
    ∃ a c output ps, x.builder.analyze x.body x.options.nameStem = (.ok a, c) ∧
      (x.options.layout c.state.graph a).output x.options.mode x.body = .ok output ∧
      compiled.Indexed (x.options.layout c.state.graph a) output (storesAfter {} earlier)
        (allRegistrations (earlier ++ [x]))
        (storesAfter {} (earlier ++ x :: later)).moduleIndex
        (storesAfter {} (earlier ++ x :: later)).resourceIndex ps := by
  obtain ⟨outcome, c, hcompile⟩ : ∃ outcome c, x.builder.compile x.body x.options
      (storesAfter {} earlier) x.resolver = (outcome, c) := ⟨_, _, rfl⟩
  have hrun : x.run (storesAfter {} earlier) = outcome := congrArg Prod.fst hcompile
  rw [hrun] at h
  obtain ⟨a, output, ha, ho, hcheck, hpresents, _⟩ := Builder.presents_of_compile x.reached hcompile h
  have hresolved := Builder.analyze_resolved x.reached ha
  have hlinked : c.state.graph.Linked := by
    have hleads := Builder.analyze_leads x.builder x.body x.options.nameStem
    rw [ha] at hleads
    exact (hleads.reached x.reached).linked
  have hscript := Builder.script_eq_ok.2 ⟨hcheck, a, c, ha, ho⟩
  have hstores := stores_of_script earlier hscript
  have hrs : ∀ m ∈ output.mentions, m ∈ (allRegistrations (earlier ++ [x])).map (·.2) :=
    fun m hm => by
      rw [allRegistrations_concat, registrations_of_script hscript, List.map_append, List.map_map]
      exact List.mem_append_right _ (List.mem_map.2 ⟨m, hm, rfl⟩)
  generalize hlinks : Links.ofMentions x.resolver (storesAfter {} earlier) output.mentions = links
    at hpresents hstores
  have hspells : (x.options.layout c.state.graph a).Spells links _ _ _ :=
    Layout.spells_output hresolved hlinked ho (x.options.access.params output)
  obtain ⟨ps, hcode, hnodes, hindexed, hps⟩ :=
    hspells.splice (Layout.identifies_of_check hcheck _ (Builder.stem_of_analyze ha)) links
      x.options.access output
  have hfresh := Stores.keys_of_fresh x.resolver (storesAfter {} earlier) output.mentions
  obtain ⟨hordered, hdistinct⟩ := ordered_placeholders hps hindexed
    (hlinks ▸ (Links.ofMentions_eq ..).2)
  refine ⟨a, c, output, ps, ha, ho, ?_, hnodes, ?_, ?_, ?_, hdistinct,
    hpresents.placeholders ▸ hordered, fun hempty => ?_, fun hempty => ?_⟩
  · rw [hpresents.code, String.toList_ofList, hcode]
  · intro e array brackets index hp store address hk
    rw [storesAfter_split, hpresents.modules]
    exact module_of_reference _ hlinked hps hstores hindexed hrs hp hk
  · intro e array brackets index hp store key value hk
    rw [storesAfter_split, hpresents.resources]
    exact resource_of_reference _ hlinked hps hstores hindexed hrs hp hk
  · intro e array brackets index hp hk
    have hspelled := hps _ hp
    rw [Layout.Spelled, hk] at hspelled
    exact ⟨hspelled.1, hspelled.2.1⟩
  · rw [hpresents.modules]
    exact ordered_modules hps hindexed (hlinks ▸ hfresh.1 hempty)
  · rw [hpresents.resources]
    exact ordered_resources hps hindexed (hlinks ▸ hfresh.2 hempty)

end Compilation

/-- **Indices mean the same in all compilations that share their stores**, whatever they compile,
with which options and resolvers, and whether they succeed or fail. There is one index for each
address and each key. In every script that is compiled, references are written with these indices,
which lead to what was first registered; placeholders are numbered as they occur, and so are modules
and resources where the stores were empty. Modules and resources of a result are the first ones of
all later results, and no value of a resource is produced twice. -/
theorem indices_of_history (xs : List Compilation) : ∃ moduleIndex resourceIndex : String → Nat,
    Set.InjOn moduleIndex {address | .module address ∈ (allRegistrations xs).map (·.2)} ∧
    Set.InjOn resourceIndex {key | ∃ value, .resource key value ∈ (allRegistrations xs).map (·.2)} ∧
    (∀ (i : Nat) (x : Compilation) (outcome : Outcome) (compiled : Compiled), xs[i]? = some x →
      (history {} xs)[i]? = some outcome → outcome.result = .ok compiled →
      ∃ a c output ps, x.builder.analyze x.body x.options.nameStem = (.ok a, c) ∧
        (x.options.layout c.state.graph a).output x.options.mode x.body = .ok output ∧
        compiled.Indexed (x.options.layout c.state.graph a) output (storesAfter {} (xs.take i))
          (allRegistrations (xs.take (i + 1))) moduleIndex resourceIndex ps) ∧
    ((history {} xs).Pairwise fun p q => ∀ c d, p.result = .ok c → q.result = .ok d →
      c.modules <+: d.modules ∧ c.resources <+: d.resources) ∧
    ((history {} xs).flatMap (·.produced)).Nodup := by
  refine ⟨(storesAfter {} xs).moduleIndex, (storesAfter {} xs).resourceIndex, ?_, ?_, ?_,
    pairwise_history {} xs, (nodup_produced {} xs).1⟩
  · intro address haddress address' _ heq
    rw [storesAfter_empty] at heq
    exact Stores.indexIn_inj (Stores.mem_modules_iff.2 haddress) heq
  · intro key hkey key' _ heq
    rw [storesAfter_empty] at heq
    exact Stores.indexIn_inj (Stores.mem_resources_iff.2 hkey) heq
  · intro i x outcome compiled hx houtcome hok
    rw [getElem?_history, hx, Option.map_some, Option.some.injEq] at houtcome
    subst houtcome
    have htake : xs.take (i + 1) = xs.take i ++ [x] := by rw [List.take_add_one, hx]; rfl
    have hsplit : xs = xs.take i ++ x :: xs.drop (i + 1) := by
      conv_lhs => rw [← List.take_append_drop (i + 1) xs, htake, List.append_assoc]
      rfl
    have hindexed := Compilation.exists_indexed hok (xs.drop (i + 1))
    rwa [← hsplit, ← htake] at hindexed

/-- The namespace of a module. -/
def Builder.moduleExample : Builder Unit :=
  (Builder.run (Build.toRecipe do
    let module ← Build.create (.module "m")
    return .ok (.value module)) (.empty ())).2

def Compilation.moduleExample (resolver : Resolver) : Compilation where
  Shared := Unit
  builder := Builder.moduleExample
  reached := (Builder.run_leads _ _).reached (Builder.reached_empty ())
  body := .value 1
  options := { mode := .evaluation }
  resolver

theorem script_moduleExample (resolver : Resolver) :
    ∃ output a c, Builder.moduleExample.analyze (.value 1) "_" = (.ok a, c) ∧
      (({ mode := .evaluation } : Options).layout c.state.graph a).output .evaluation (.value 1) =
        .ok output ∧
      marked Mark.written? output.sites = [0, 1] ∧
      (Compilation.moduleExample resolver).mentions = [.moduleStore, .module "m"] := by
  have hscript : (Builder.moduleExample.script (.value 1) { mode := .evaluation }).map
      (fun o => (o.mentions, marked Mark.written? o.sites)) =
      .ok ([.moduleStore, .module "m"], [0, 1]) := by cbv
  obtain ⟨output, houtput, heq⟩ := map_eq_ok.1 hscript
  rw [Prod.mk.injEq] at heq
  obtain ⟨_, a, c, ha, ho⟩ := Builder.script_eq_ok.1 houtput
  refine ⟨output, a, c, ha, ho, heq.2, ?_⟩
  rw [← heq.1, Compilation.mentions, Compilation.moduleExample, houtput]

/-- The second compilation reaches the module where the first one's resolver has put it. -/
theorem indices_moduleExample : ∃ (outcome : Outcome) (compiled : Compiled) (ps : List Piece)
    (array : String) (index : Nat),
    (history {} [.moduleExample Resolver.identity, .moduleExample (Resolver.prepend "/")])[1]? =
      some outcome ∧ outcome.result = .ok compiled ∧
    compiled.code.toList = ps.flatMap Piece.render ∧
    .reference 1 array ("[", "]") index ∈ ps ∧ compiled.modules[index]? = some "m" := by
  obtain ⟨_, _, _, _, hindexed, _⟩ := indices_of_history
    [.moduleExample Resolver.identity, .moduleExample (Resolver.prepend "/")]
  obtain ⟨output, a, c, ha, ho, hwritten, _⟩ := script_moduleExample Resolver.identity
  have hreached : Builder.moduleExample.Reached :=
    (Compilation.moduleExample Resolver.identity).reached
  obtain ⟨compiled, _, _, hcompile⟩ := Builder.exists_compiled hreached (by cbv) ha ho
    ((Compilation.moduleExample Resolver.identity).run {}).stores (Resolver.prepend "/")
  have hok : ((Compilation.moduleExample (Resolver.prepend "/")).run
      ((Compilation.moduleExample Resolver.identity).run {}).stores).result = .ok compiled :=
    congrArg (·.1.result) hcompile
  obtain ⟨a', c', output', ps, ha', ho', hi⟩ := hindexed 1 _ _ compiled rfl rfl hok
  obtain ⟨⟨⟩, rfl⟩ := Prod.mk.injEq .. ▸ ha.symm.trans ha'
  obtain rfl : output = output' := Except.ok.inj (ho.symm.trans ho')
  have hk : c.state.graph.kindOf? 1 = some (.moduleRef 0 "m") := by
    rw [← show (Builder.moduleExample.analyze (.value 1) "_").2 = c from congrArg Prod.snd ha]
    cbv
  have hnode : 1 ∈ ps.filterMap Piece.node? := by
    rw [hi.references, hwritten]
    exact List.mem_filter.2 ⟨by simp, by simp [Graph.isReference, Options.layout, hk]⟩
  obtain ⟨p, hp, hpn⟩ := List.mem_filterMap.1 hnode
  cases p with
  | text cs => cases hpn
  | reference e array brackets index =>
    cases hpn
    obtain ⟨_, _, rfl, _, resolver, hfirst, hmodule⟩ := hi.modules 1 array brackets index hp 0 "m" hk
    have hidentity : IsFirst (allRegistrations ([.moduleExample Resolver.identity,
        .moduleExample (Resolver.prepend "/")].take 2)) (· = .module "m")
        (Resolver.identity, .module "m") := by
      obtain ⟨_, _, _, _, _, _, hmentions⟩ := script_moduleExample Resolver.identity
      refine ⟨rfl, [(Resolver.identity, .moduleStore)],
        (Compilation.moduleExample (Resolver.prepend "/")).registrations, ?_, by simp⟩
      simp [allRegistrations, Compilation.registrations, hmentions]
      rfl
    obtain ⟨rfl, _⟩ := Prod.mk.injEq .. ▸ hfirst.unique hidentity
    exact ⟨_, compiled, ps, array, index, rfl, hok, hi.text, hp, hmodule⟩

end ScriptGraph
