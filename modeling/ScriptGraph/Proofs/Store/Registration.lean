import ScriptGraph.Emission.Rendering
import ScriptGraph.Proofs.Order.FirstOccurrences

/-!
# Stores after many registrations

* `Registration` : a mention, and the resolver it is registered with;
* `Stores.ofRegistrations` : the stores after a list of registrations;
* `IsFirst` : the first registration of some kind in a list;
* `Stores.getElem?_moduleIndex`, `Stores.getElem?_resourceIndex` : an index leads to what the first
  registration of its key gave;
* `Stores.indexIn_inj`, `Stores.moduleIndex_append`, `Stores.resourceIndex_append` : keys have
  indices of their own, which stay;
* `Links.ofMentions_eq` : what a compilation registers.
-/

namespace ScriptGraph

/-! ## Entries under keys -/

namespace Stores

variable {α : Type} {entries : List (String × α)} {key : String} {value : α}

theorem indexIn_eq (key : String) (entries : List (String × α)) :
    indexIn key entries = (entries.map (·.1)).idxOf key := by
  rw [indexIn, List.idxOf, List.findIdx_map]
  rfl

/-- Registers entries in order. -/
def registerAll (entries : List (String × α)) (items : List (String × α)) : List (String × α) :=
  items.foldl (fun entries item => register item.1 item.2 entries) entries

theorem registerAll_append (entries items items' : List (String × α)) :
    registerAll entries (items ++ items') = registerAll (registerAll entries items) items' :=
  List.foldl_append

theorem register_prefix : entries <+: register key value entries := by
  unfold register
  split
  · exact List.prefix_refl _
  · exact List.prefix_append ..

theorem registerAll_prefix (items : List (String × α)) : entries <+: registerAll entries items := by
  induction items generalizing entries with
  | nil => exact List.prefix_refl _
  | cons item items ih => exact register_prefix.trans ih

theorem contains_keys : (entries.map (·.1)).contains key = entries.any (·.1 == key) := by
  rw [Bool.eq_iff_iff, List.contains_iff_mem, List.mem_map, List.any_eq_true]
  simp only [beq_iff_eq]

theorem mem_keys_registerAll {items : List (String × α)} :
    key ∈ (registerAll entries items).map (·.1) ↔
      key ∈ entries.map (·.1) ∨ key ∈ items.map (·.1) := by
  induction items generalizing entries with
  | nil => simp [registerAll]
  | cons item items ih =>
    have hstep : key ∈ (register item.1 item.2 entries).map (·.1) ↔
        key ∈ entries.map (·.1) ∨ key = item.1 := by
      unfold register
      split
      · rename_i hknown
        rw [← contains_keys, List.contains_iff_mem] at hknown
        exact (or_iff_left_of_imp fun heq => heq ▸ hknown).symm
      · simp
    rw [show registerAll entries (item :: items) =
      registerAll (register item.1 item.2 entries) items from rfl, ih, hstep, List.map_cons,
      List.mem_cons, or_assoc]

theorem map_fst_registerAll (items : List (String × α)) :
    (registerAll [] items).map (·.1) = (items.map (·.1)).eraseDups := by
  induction items using List.reverseRecOn with
  | nil => rfl
  | append_singleton items item ih =>
    rw [registerAll_append, List.map_append, List.map_singleton, eraseDups_concat, ← ih]
    change (register item.1 item.2 _).map (·.1) = _
    have hkeys : (items.map (·.1)).contains item.1 =
        (registerAll [] items).any (·.1 == item.1) := by
      rw [← contains_keys, ih, Bool.eq_iff_iff, List.contains_iff_mem, List.contains_iff_mem,
        List.mem_eraseDups]
    rw [hkeys, register]
    split <;> simp

theorem find?_of_mem_registerAll {items : List (String × α)}
    (h : (key, value) ∈ registerAll [] items) : items.find? (·.1 == key) = some (key, value) := by
  induction items using List.reverseRecOn with
  | nil => cases h
  | append_singleton items item ih =>
    rw [registerAll_append] at h
    change (key, value) ∈ register item.1 item.2 _ at h
    rw [List.find?_append]
    unfold register at h
    split at h
    · rw [ih h]
      rfl
    · rename_i hnew
      rcases List.mem_append.1 h with h | h
      · rw [ih h]
        rfl
      · obtain rfl : (key, value) = item := List.mem_singleton.1 h
        have hnone : items.find? (·.1 == key) = none := by
          rw [List.find?_eq_none]
          intro x hx hkey
          rw [← contains_keys, map_fst_registerAll, List.contains_iff_mem,
            List.mem_eraseDups] at hnew
          exact hnew (List.mem_map.2 ⟨x, hx, beq_iff_eq.1 hkey⟩)
        rw [hnone]
        simp

theorem getElem?_indexIn {items : List (String × α)} (h : key ∈ items.map (·.1)) :
    ∃ value, (registerAll [] items)[indexIn key (registerAll [] items)]? = some (key, value) ∧
      items.find? (·.1 == key) = some (key, value) := by
  have hkey : key ∈ (registerAll [] items).map (·.1) := by
    rwa [map_fst_registerAll, List.mem_eraseDups]
  have hlt := List.idxOf_lt_length_of_mem hkey
  have hget := List.getElem_idxOf hlt
  rw [List.getElem_map] at hget
  rw [List.length_map, ← indexIn_eq] at hlt
  simp only [← indexIn_eq] at hget
  refine ⟨(registerAll [] items)[indexIn key (registerAll [] items)].2, ?_, ?_⟩
  · rw [List.getElem?_eq_getElem hlt]
    exact congrArg some (Prod.ext hget rfl)
  · apply find?_of_mem_registerAll
    rw [← show _ = (key, _) from Prod.ext hget rfl]
    exact List.getElem_mem hlt

theorem indexIn_of_prefix {entries' : List (String × α)} (h : entries <+: entries')
    (hkey : key ∈ entries.map (·.1)) : indexIn key entries' = indexIn key entries := by
  obtain ⟨rest, rfl⟩ := h
  rw [indexIn_eq, indexIn_eq, List.map_append, List.idxOf_append_of_mem hkey]

theorem indexIn_inj {key' : String} (hkey : key ∈ entries.map (·.1))
    (h : indexIn key entries = indexIn key' entries) : key = key' := by
  rw [indexIn_eq, indexIn_eq] at h
  exact (List.idxOf_inj hkey).1 h

end Stores

/-! ## Registrations -/

/-- A mention, and the resolver it is registered with. -/
abbrev Registration := Resolver × Mention

/-- `x` is the first registration of a certain kind. -/
def IsFirst (rs : List Registration) (kind : Mention → Prop) (x : Registration) : Prop :=
  kind x.2 ∧ ∃ before after, rs = before ++ x :: after ∧ ∀ y ∈ before, ¬kind y.2

theorem IsFirst.unique {rs : List Registration} {kind : Mention → Prop} {x y : Registration}
    (hx : IsFirst rs kind x) (hy : IsFirst rs kind y) : x = y := by
  obtain ⟨hkx, before, after, rfl, hbefore⟩ := hx
  obtain ⟨hky, before', after', heq, hbefore'⟩ := hy
  rcases List.append_eq_append_iff.1 heq with ⟨skipped, rfl, hrest⟩ | ⟨skipped, rfl, hrest⟩
  · cases skipped with
    | nil => exact List.head_eq_of_cons_eq hrest
    | cons z skipped =>
      obtain rfl : x = z := List.head_eq_of_cons_eq hrest
      exact absurd hkx (hbefore' x (by simp))
  · cases skipped with
    | nil => exact (List.head_eq_of_cons_eq hrest).symm
    | cons z skipped =>
      obtain rfl : y = z := List.head_eq_of_cons_eq hrest
      exact absurd hky (hbefore y (by simp))

namespace Registration

/-- The entry of a module's registration. -/
def module? : Registration → Option (String × String)
  | (resolver, .module address) => some (address, resolver address)
  | _ => none

/-- The entry of a resource's registration. -/
def resource? : Registration → Option (String × Json)
  | (_, .resource key value) => some (key, value.snapshot)
  | _ => none

theorem isFirst_of_find? {α : Type} {rs : List Registration}
    {read? : Registration → Option (String × α)}
    {key : String} {value : α} (h : (rs.filterMap read?).find? (·.1 == key) = some (key, value)) :
    ∃ x, read? x = some (key, value) ∧
      ∃ before after, rs = before ++ x :: after ∧ ∀ y ∈ before, ∀ v, read? y ≠ some (key, v) := by
  obtain ⟨_, before, after, hsplit, hbefore⟩ := List.find?_eq_some_iff_append.1 h
  obtain ⟨rs₁, rs₂, rfl, rfl, h₂⟩ := List.filterMap_eq_append_iff.1 hsplit
  obtain ⟨skipped, x, rest, rfl, hskipped, hx, rfl⟩ := List.filterMap_eq_cons_iff.1 h₂
  refine ⟨x, hx, rs₁ ++ skipped, rest, (List.append_assoc ..).symm, fun y hy v hv => ?_⟩
  rcases List.mem_append.1 hy with hy | hy
  · have := hbefore (key, v) (List.mem_filterMap.2 ⟨y, hy, hv⟩)
    simp at this
  · rw [hskipped y hy] at hv
    cases hv

end Registration

namespace Stores

variable {rs rs' : List Registration} {address key : String}

def accept (s : Stores) : Registration → Stores
  | (resolver, .module address) => s.registerModule resolver address
  | (_, .resource key value) => s.registerResource key value
  | (_, .placeholder _) => s
  | (_, .moduleStore) => s
  | (_, .resourceStore) => s

/-- The stores after a list of registrations. -/
def ofRegistrations (rs : List Registration) : Stores := rs.foldl accept {}

theorem foldl_accept (s : Stores) (rs : List Registration) :
    (rs.foldl accept s).modules = registerAll s.modules (rs.filterMap Registration.module?) ∧
      (rs.foldl accept s).resources =
        registerAll s.resources (rs.filterMap Registration.resource?) := by
  induction rs generalizing s with
  | nil => exact ⟨rfl, rfl⟩
  | cons x rs ih =>
    obtain ⟨resolver, m⟩ := x
    cases m <;> exact ih _

theorem ofRegistrations_append (rs rs' : List Registration) :
    ofRegistrations (rs ++ rs') = rs'.foldl accept (ofRegistrations rs) :=
  List.foldl_append

theorem modules_eq (rs : List Registration) :
    (ofRegistrations rs).modules = registerAll [] (rs.filterMap Registration.module?) :=
  (foldl_accept {} rs).1

theorem resources_eq (rs : List Registration) :
    (ofRegistrations rs).resources = registerAll [] (rs.filterMap Registration.resource?) :=
  (foldl_accept {} rs).2

theorem modules_take (rs rs' : List Registration) :
    (ofRegistrations rs).modules <+: (ofRegistrations (rs ++ rs')).modules := by
  rw [ofRegistrations_append, (foldl_accept _ rs').1]
  exact registerAll_prefix _

theorem resources_take (rs rs' : List Registration) :
    (ofRegistrations rs).resources <+: (ofRegistrations (rs ++ rs')).resources := by
  rw [ofRegistrations_append, (foldl_accept _ rs').2]
  exact registerAll_prefix _

theorem mem_modules_iff :
    address ∈ (ofRegistrations rs).modules.map (·.1) ↔ .module address ∈ rs.map (·.2) := by
  rw [modules_eq, map_fst_registerAll, List.mem_eraseDups, List.mem_map, List.mem_map]
  constructor
  · rintro ⟨⟨_, _⟩, h, rfl⟩
    obtain ⟨⟨r, m⟩, hx, hm⟩ := List.mem_filterMap.1 h
    cases m with
    | module address =>
      cases hm
      exact ⟨_, hx, rfl⟩
    | _ => cases hm
  · rintro ⟨⟨r, m⟩, hx, rfl⟩
    exact ⟨_, List.mem_filterMap.2 ⟨_, hx, rfl⟩, rfl⟩

theorem mem_resources_iff :
    key ∈ (ofRegistrations rs).resources.map (·.1) ↔ ∃ v, .resource key v ∈ rs.map (·.2) := by
  rw [resources_eq, map_fst_registerAll, List.mem_eraseDups, List.mem_map]
  constructor
  · rintro ⟨⟨_, _⟩, h, rfl⟩
    obtain ⟨⟨r, m⟩, hx, hm⟩ := List.mem_filterMap.1 h
    cases m with
    | resource key v =>
      cases hm
      exact ⟨v, List.mem_map.2 ⟨_, hx, rfl⟩⟩
    | _ => cases hm
  · rintro ⟨v, hv⟩
    obtain ⟨⟨r, m⟩, hx, rfl⟩ := List.mem_map.1 hv
    exact ⟨_, List.mem_filterMap.2 ⟨_, hx, rfl⟩, rfl⟩

theorem moduleIndex_append (h : .module address ∈ rs.map (·.2)) :
    (ofRegistrations (rs ++ rs')).moduleIndex address = (ofRegistrations rs).moduleIndex address :=
  indexIn_of_prefix (modules_take rs rs') (mem_modules_iff.2 h)

theorem resourceIndex_append {v : ResourceValue} (h : .resource key v ∈ rs.map (·.2)) :
    (ofRegistrations (rs ++ rs')).resourceIndex key = (ofRegistrations rs).resourceIndex key :=
  indexIn_of_prefix (resources_take rs rs') (mem_resources_iff.2 ⟨v, h⟩)

/-- A module's index leads to what its first resolver made of its address. -/
theorem getElem?_moduleIndex (h : .module address ∈ rs.map (·.2)) :
    ∃ resolver, IsFirst rs (· = .module address) (resolver, .module address) ∧
      (ofRegistrations rs).addresses[(ofRegistrations rs).moduleIndex address]? =
        some (resolver address) := by
  rw [← mem_modules_iff, modules_eq, map_fst_registerAll, List.mem_eraseDups] at h
  obtain ⟨value, hget, hfind⟩ := getElem?_indexIn h
  obtain ⟨⟨resolver, m⟩, hx, before, after, rfl, hbefore⟩ := Registration.isFirst_of_find? hfind
  cases m with
  | module address =>
    cases hx
    refine ⟨resolver, ⟨rfl, before, after, rfl, ?_⟩, ?_⟩
    · rintro ⟨r, _⟩ hy rfl
      exact hbefore _ hy _ rfl
    · rw [addresses, List.getElem?_map, moduleIndex, modules_eq, hget]
      rfl
  | _ => cases hx

/-- A resource's index leads to its key and the value it was first registered with. -/
theorem getElem?_resourceIndex {v : ResourceValue} (h : .resource key v ∈ rs.map (·.2)) :
    ∃ resolver value, IsFirst rs (fun m => ∃ w, m = .resource key w)
        (resolver, .resource key value) ∧
      (ofRegistrations rs).resources[(ofRegistrations rs).resourceIndex key]? =
        some (key, value.snapshot) := by
  have h' := mem_resources_iff.2 ⟨v, h⟩
  rw [resources_eq, map_fst_registerAll, List.mem_eraseDups] at h'
  obtain ⟨value, hget, hfind⟩ := getElem?_indexIn h'
  obtain ⟨⟨resolver, m⟩, hx, before, after, rfl, hbefore⟩ := Registration.isFirst_of_find? hfind
  cases m with
  | resource key value =>
    cases hx
    refine ⟨resolver, value, ⟨⟨value, rfl⟩, before, after, rfl, ?_⟩, ?_⟩
    · rintro ⟨r, _⟩ hy ⟨w, rfl⟩
      exact hbefore _ hy _ rfl
    · rw [resourceIndex, resources_eq, hget]
  | _ => cases hx

end Stores

/-! ## What a compilation registers -/

namespace Mention

def address? : Mention → Option String
  | .module address => some address
  | _ => none

def key? : Mention → Option String
  | .resource key _ => some key
  | _ => none

def placeholder? : Mention → Option NodeId
  | .placeholder e => some e
  | _ => none

end Mention

theorem Links.ofMentions_eq (resolver : Resolver) (stores : Stores) (ms : List Mention) :
    (Links.ofMentions resolver stores ms).stores =
        (ms.map fun m => (resolver, m)).foldl Stores.accept stores ∧
      (Links.ofMentions resolver stores ms).placeholders =
        (ms.filterMap Mention.placeholder?).eraseDups := by
  induction ms using List.reverseRecOn with
  | nil => exact ⟨rfl, rfl⟩
  | append_singleton ms m ih =>
    obtain ⟨hstores, hplaceholders⟩ := ih
    have hstep : Links.ofMentions resolver stores (ms ++ [m]) =
        Links.register resolver (Links.ofMentions resolver stores ms) m := List.foldl_append
    rw [hstep, List.map_append, List.foldl_append, ← hstores, List.filterMap_append]
    cases m with
    | placeholder e =>
      have hcontains : (Links.ofMentions resolver stores ms).placeholders.contains e =
          (ms.filterMap Mention.placeholder?).contains e := by
        rw [hplaceholders, Bool.eq_iff_iff, List.contains_iff_mem, List.contains_iff_mem,
          List.mem_eraseDups]
      have hsingle : [Mention.placeholder e].filterMap Mention.placeholder? = [e] := rfl
      rw [hsingle, eraseDups_concat, ← hplaceholders, Links.register, hcontains]
      split <;> exact ⟨rfl, rfl⟩
    | _ => exact ⟨rfl, hplaceholders.trans (congrArg List.eraseDups (List.append_nil _).symm)⟩

end ScriptGraph
