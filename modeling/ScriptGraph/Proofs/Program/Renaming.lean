import ScriptGraph.Proofs.Program.Varied

/-!
# Programs with other names

* `binder` : what binds a name in the bodies around;
* `Variation.renaming` : programs that differ in their names, where each name has the same binder;
* `Routine.Varied.rename`, `Variation.keeps_renaming` : how functions differ so, and what may stay;
* `Program.varied_refl`, `Program.Varied.symm` : this goes both ways;
* `Program.compile_renamed` : such programs compile to the same script.
-/

namespace ScriptGraph

/-- The binder of a name: how many bodies out it is, and what it is in that body. Inside a body,
definitions come before parameters, and these before the name of the function; of equal names the
last one counts. -/
def binder : List Heading → String → Option (Nat × Place)
  | [], _ => none
  | h :: outer, name =>
    match h.places.find name with
    | some place => some (0, place)
    | none => (binder outer name).map fun (depth, place) => (depth + 1, place)

/-- Functions, parameters and definitions may have other names. There are as many of them, in the
same order. Names are used for each other that have the same binder in the bodies around. -/
def Variation.renaming : Variation where
  Scope := List Heading × List Heading
  top := ([], [])
  use s name name' := binder s.1 name = binder s.2 name'
  bound _ _ := False
  enter s h h' m t := h'.params.length = h.params.length ∧
    h'.definitions.length = h.definitions.length ∧ m = id ∧ t = (h :: s.1, h' :: s.2)
  not_bound_top _ h := h
  params_length h := h.1
  injective := by
    rintro s h h' _ t ⟨_, _, rfl, _⟩ i _ j _ heq
    exact heq
  use_enter := by
    rintro s h h' _ _ name name' ⟨_, _, rfl, rfl⟩ huse
    simp only [binder] at huse
    cases hp : h.places.find name with
    | some place =>
      cases hp' : h'.places.find name' with
      | some place' =>
        rw [hp, hp'] at huse
        cases huse
        exact .inl ⟨place, rfl, by rw [Place.move_id]⟩
      | none =>
        rw [hp, hp'] at huse
        cases hb : binder s.2 name' <;> rw [hb] at huse <;> cases huse
    | none =>
      cases hp' : h'.places.find name' with
      | some place' =>
        rw [hp, hp'] at huse
        cases hb : binder s.1 name <;> rw [hb] at huse <;> cases huse
      | none =>
        rw [hp, hp'] at huse
        refine .inr ⟨rfl, rfl, Option.map_injective ?_ huse⟩
        rintro ⟨d, place⟩ ⟨d', place'⟩ heq
        cases heq
        rfl
  bound_enter _ h := h.elim

/-- Names with the same binder are used for each other. -/
theorem Expression.Varied.rename {s : List Heading × List Heading} {name name' : String}
    (h : binder s.1 name = binder s.2 name') :
    (Expression.use name).Varied .renaming s (Expression.use name') :=
  .use h

/-- Functions, or programs, that differ in their names. -/
theorem Routine.Varied.rename {s : List Heading × List Heading} {r r' : Routine}
    (hparams : r'.params.length = r.params.length)
    (hdefinitions : List.Forall₂ (fun d d' => d.value.Varied .renaming
      (r.heading :: s.1, r'.heading :: s.2) d'.value) r.definitions r'.definitions)
    (hbody : VariedForm .renaming (r.heading :: s.1, r'.heading :: s.2) r.body r'.body) :
    r.Varied .renaming s r' := by
  have hlength := hdefinitions.length_eq
  refine .mk ⟨hparams, by simp [Routine.heading, hlength], rfl, rfl⟩ (.of_forall fun k d hd => ?_)
    (fun j d hd hne => ?_) hbody
  · obtain ⟨hk, rfl⟩ := List.getElem?_eq_some_iff.1 hd
    rw [id, Nat.zero_add]
    exact ⟨_, List.getElem?_eq_getElem (hlength ▸ hk),
      (List.forall₂_iff_get.1 hdefinitions).2 k hk _⟩
  · exact absurd rfl (hne j (hlength ▸ (List.getElem?_eq_some_iff.1 hd).1))

/-- What uses names with the same binder only may stay as it is. -/
theorem Variation.keeps_renaming :
    Variation.renaming.Keeps fun s name => binder s.1 name = binder s.2 name where
  use _ _ h := h
  enter s h := by
    refine ⟨(h :: s.1, h :: s.2), ⟨rfl, rfl, rfl, rfl⟩, fun name hname => ?_⟩
    simp only [binder, hname]

/-! ## Both ways -/

mutual

theorem Expression.Varied.symm : ∀ {s : List Heading × List Heading} {x x' : Expression},
    x.Varied .renaming s x' → x'.Varied .renaming s.swap x
  | _, _, _, .plain s h => .plain (V := .renaming) s.swap h
  | _, _, _, .template h => .template h.symm
  | _, _, _, .member h property optional => .member h.symm property optional
  | _, _, _, .index h hk => .index h.symm hk.symm
  | _, _, _, .call h hs optional pure => .call h.symm hs.symm optional pure
  | _, _, _, .construct h hs => .construct h.symm hs.symm
  | _, _, _, .function h => .function h.symm
  | _, _, _, .await h => .await h.symm
  | _, _, _, .assign ht h => .assign ht.symm h.symm
  | _, _, _, .use h => .use (V := .renaming) (Eq.symm h)

theorem VariedAll.symm : ∀ {s : List Heading × List Heading} {xs xs' : List Expression},
    VariedAll .renaming s xs xs' → VariedAll .renaming s.swap xs' xs
  | _, _, _, .nil s => .nil (V := .renaming) s.swap
  | _, _, _, .cons h hs => .cons h.symm hs.symm

theorem VariedParts.symm : ∀ {s : List Heading × List Heading} {ps ps' : List TemplatePart},
    VariedParts .renaming s ps ps' → VariedParts .renaming s.swap ps' ps
  | _, _, _, .nil s => .nil (V := .renaming) s.swap
  | _, _, _, .text t hs => .text t hs.symm
  | _, _, _, .expression h hs => .expression h.symm hs.symm

theorem VariedForm.symm : ∀ {s : List Heading × List Heading} {body body' : Option Form},
    VariedForm .renaming s body body' → VariedForm .renaming s.swap body' body
  | _, _, _, .none s => .none (V := .renaming) s.swap
  | _, _, _, .statements h => .statements h.symm
  | _, _, _, .value h => .value h.symm

theorem VariedDefinitions.exists_symm : ∀ {s : List Heading × List Heading} {m : Nat → Nat}
    {ds' : List Definition} {i : Nat} {ds : List Definition},
    VariedDefinitions .renaming s m ds' i ds → ∀ k d, ds[k]? = some d →
      ∃ d', ds'[m (i + k)]? = some d' ∧ d'.value.Varied .renaming s.swap d.value
  | _, _, _, _, _, .cons hd h hs, k, d, hk => by
    cases k with
    | zero =>
      cases hk
      exact ⟨_, hd, h.symm⟩
    | succ k =>
      obtain ⟨d', hd', hx⟩ := hs.exists_symm k d hk
      exact ⟨d', by rwa [Nat.add_right_comm] at hd', hx⟩

theorem Routine.Varied.symm : ∀ {s : List Heading × List Heading} {r r' : Routine},
    r.Varied .renaming s r' → r'.Varied .renaming s.swap r
  | _, r, r', .mk ⟨hparams, hlength, hm, ht⟩ hdefinitions _ hbody => by
    have hsymm := hdefinitions.exists_symm
    have hbody := hbody.symm
    subst hm ht
    have hlength : r'.definitions.length = r.definitions.length := by
      simpa only [Routine.heading, List.length_map] using hlength
    refine .rename hparams.symm (List.forall₂_iff_get.2 ⟨hlength, fun k hk' hk => ?_⟩) hbody
    obtain ⟨d', hd', hx⟩ := hsymm k _ (List.getElem?_eq_getElem hk)
    rw [id, Nat.zero_add, List.getElem?_eq_getElem hk'] at hd'
    cases hd'
    exact hx

end

theorem Program.varied_refl (p : Program) : p.Varied .renaming p :=
  p.routine.varied_self Variation.keeps_renaming _ fun _ _ => rfl

theorem Program.Varied.symm {p q : Program} (h : p.Varied .renaming q) : q.Varied .renaming p :=
  Routine.Varied.symm h

/-- **Names are for lookup only.** Two programs that differ in the names of their functions,
parameters and definitions, where each name that is used has the same binder in both, compile to the
same script, with the same stores and the same digest, or both fail. -/
theorem Program.compile_renamed {p q : Program} (h : p.Varied .renaming q) (o : Options)
    (compiled : Compiled) :
    (p.compile o).1 = .ok compiled ↔ (q.compile o).1 = .ok compiled :=
  ⟨compile_of_varied h, compile_of_varied h.symm⟩

/-- A function that calls itself with its parameters the other way round. -/
def swappingExample : Program where
  definitions := [.mk "a" (.function (some "f") ["x", "y"] []
    (some (.value (.call (.use "f") [.use "y", .use "x"] false false))))]
  body := some (.statements [.call (.use "a") [.raw "1", .raw "2"] false false])

/-- The same with other names. The function has the name of its definition now, and the parameters
have changed theirs. -/
def renamedExample : Program where
  definitions := [.mk "b" (.function (some "b") ["y", "x"] []
    (some (.value (.call (.use "b") [.use "x", .use "y"] false false))))]
  body := some (.statements [.call (.use "b") [.raw "1", .raw "2"] false false])

theorem varied_renamedExample : swappingExample.Varied .renaming renamedExample := by
  refine .rename rfl (.cons (.function (.rename rfl .nil (.value ?_))) .nil) (.statements ?_)
  · refine .call (.rename (by decide)) ?_ false false
    exact .cons (.rename (by decide)) (.cons (.rename (by decide)) (.nil _))
  · refine .cons (.call (.rename (by decide)) ?_ false false) (.nil _)
    exact .cons (.plain _ trivial) (.cons (.plain _ trivial) (.nil _))

theorem compile_renamedExample : ∃ compiled,
    (swappingExample.compile {}).1 = .ok compiled ∧
    (renamedExample.compile {}).1 = .ok compiled := by
  have hrun : ((Builder.empty ()).run swappingExample.recipe).1 = .ok (.statements [6]) := by cbv
  have hsurvey : (((Builder.empty ()).run swappingExample.recipe).2.survey [] [6]).1 =
      .ok [6, 0, 4, 5, 1, 7, 3, 2] := by cbv
  obtain ⟨compiled, hok⟩ :=
    Program.exists_compiled (o := {}) hrun hsurvey (by cbv) (by cbv) rfl (by simp)
  exact ⟨compiled, hok, (Program.compile_renamed varied_renamedExample {} compiled).1 hok⟩

end ScriptGraph
