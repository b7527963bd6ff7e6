import ScriptGraph.Proofs.Emission.Pieces
import ScriptGraph.Proofs.Emission.WrittenOut

/-!
# The text around what is written out

* `Placement` : a fragment in which a node is written out, with all of the text around it;
* `Output.placements` : the placements of a script; `Output.map_fragment_placements` : they are all
  places where a node is written out;
* `Output.text_of_placement` : what is before, at and after a placement is the text of the script;
* `Placement.Follows` : a part of a template is written directly before a placement;
* `Fragment.enclosed`, `Fragment.bare` : parentheses of a fragment's own.
-/

namespace ScriptGraph

/-- A fragment in which a node is written out, between the text before and after it. -/
structure Placement where
  fragment : Fragment
  before : List Char
  after : List Char

/-! ## Parentheses -/

def opening (enclosed : Bool) : List Char := if enclosed then ['('] else []

def closing (enclosed : Bool) : List Char := if enclosed then [')'] else []

theorem parenthesized_if (enclosed : Bool) (cs : List Char) :
    (if enclosed then parenthesized cs else cs) = opening enclosed ++ cs ++ closing enclosed := by
  cases enclosed
  · exact (List.append_nil cs).symm
  · rfl

theorem guardBlock_eq (cs : List Char) :
    guardBlock cs = opening (startsLikeBlock cs) ++ cs ++ closing (startsLikeBlock cs) := by
  rw [← parenthesized_if]
  rfl

/-- Whether a fragment is put in parentheses of its own. -/
def Fragment.enclosed : Fragment → Bool
  | .expansion _ enclosed _ => enclosed
  | .lambda _ enclosed _ _ _ => enclosed
  | _ => false

/-- A fragment without parentheses of its own. -/
def Fragment.bare : Fragment → Fragment
  | .expansion e _ pieces => .expansion e false pieces
  | .lambda f _ suspends params body => .lambda f false suspends params body
  | f => f

theorem Fragment.render_enclosed {f : Fragment} (h : f.enclosed = true) (links : Links) :
    f.render links = parenthesized (f.bare.render links) := by
  cases f with
  | expansion e enclosed pieces =>
    obtain rfl : enclosed = true := h
    rfl
  | lambda f enclosed suspends params body =>
    obtain rfl : enclosed = true := h
    rfl
  | _ => cases h

/-! ## Placements -/

/-- What a function has before its body. -/
def arrow (suspends : Bool) (params : List (NodeId × String)) : List Char :=
  (if suspends then "async".toList else []) ++
    parenthesized (joined [','] (params.map (·.2.toList))) ++ ['=', '>']

/-- What follows a declaration within its `let`. -/
def renderFollowing (links : Links) (ds : List Declaration) : List Char :=
  if ds.isEmpty then [] else ',' :: joined [','] (renderDeclarations links ds)

section Placements

variable (links : Links)

mutual

/-- The placements within a fragment, from the outside to the inside. -/
def Fragment.placements (before after : List Char) : Fragment → List Placement
  | .expansion e enclosed pieces =>
    ⟨.expansion e enclosed pieces, before, after⟩ ::
      placementsInAll (before ++ opening enclosed) (closing enclosed ++ after) pieces
  | .lambda f enclosed suspends params body =>
    ⟨.lambda f enclosed suspends params body, before, after⟩ ::
      body.placements (before ++ opening enclosed ++ arrow suspends params)
        (closing enclosed ++ after)
  | .name .. => []
  | .text _ => []
  | .moduleIndex _ => []
  | .resourceIndex .. => []
  | .placeholderIndex _ => []
  | .moduleStore => []
  | .resourceStore => []

def placementsInAll (before after : List Char) : List Fragment → List Placement
  | [] => []
  | f :: rest =>
    f.placements before (renderAll links rest ++ after) ++
      placementsInAll (before ++ f.render links) after rest

def placementsInStatements (before after : List Char) : List Fragment → List Placement
  | [] => []
  | f :: rest =>
    f.placements (before ++ opening (startsLikeBlock (f.render links)))
        (closing (startsLikeBlock (f.render links)) ++
          ';' :: (renderStatements links rest ++ after)) ++
      placementsInStatements (before ++ guardBlock (f.render links) ++ [';']) after rest

def Declaration.placements (before after : List Char) : Declaration → List Placement
  | .mk _ name accessor init =>
    if accessor then
      init.placements (before ++ name.toList ++ "=()=>".toList ++
          opening (startsLikeBlock (init.render links)))
        (closing (startsLikeBlock (init.render links)) ++ after)
    else init.placements (before ++ name.toList ++ ['=']) after

def placementsInDeclarations (before after : List Char) : List Declaration → List Placement
  | [] => []
  | d :: rest =>
    d.placements before (renderFollowing links rest ++ after) ++
      placementsInDeclarations (before ++ d.render links ++ [',']) after rest

def Block.placements (before after : List Char) : Block → List Placement
  | .value ds result =>
    if ds.isEmpty then
      result.placements (before ++ opening (startsLikeBlock (result.render links)))
        (closing (startsLikeBlock (result.render links)) ++ after)
    else
      placementsInDeclarations (before ++ '\x7b' :: "let ".toList)
          (';' :: "return ".toList ++ result.render links ++ '\x7d' :: after) ds ++
        result.placements (before ++ '\x7b' :: renderLet links ds ++ "return ".toList)
          ('\x7d' :: after)
  | .statements ds list =>
    placementsInDeclarations (before ++ '\x7b' :: "let ".toList)
        (';' :: renderStatements links list ++ '\x7d' :: after) ds ++
      placementsInStatements (before ++ '\x7b' :: renderLet links ds) ('\x7d' :: after) list

end

/-- The placements of a script, whose evaluation takes the given parameters. -/
def Output.placements (params : List String) : Output → List Placement
  | .script ds list =>
    placementsInDeclarations links "let ".toList (';' :: renderStatements links list) ds ++
      placementsInStatements links (renderLet links ds) [] list
  | .evaluation body =>
    body.placements links ("(async(".toList ++ joined [','] (params.map (·.toList)) ++ ")=>".toList)
      [')']

variable {links}

/-! ## Nothing is left out -/

mutual

theorem Fragment.map_fragment_placements (before after : List Char) :
    (f : Fragment) → (f.placements links before after).map (·.fragment) = f.written
  | .text _ => rfl
  | .moduleIndex _ => rfl
  | .resourceIndex _ _ => rfl
  | .placeholderIndex _ => rfl
  | .moduleStore => rfl
  | .resourceStore => rfl
  | .name _ _ _ => rfl
  | .expansion e enclosed pieces => by
    rw [Fragment.placements, Fragment.written, List.map_cons, map_fragment_placementsInAll]
  | .lambda f enclosed suspends params body => by
    rw [Fragment.placements, Fragment.written, List.map_cons, body.map_fragment_placements]

theorem map_fragment_placementsInAll (before after : List Char) :
    (fs : List Fragment) →
      (placementsInAll links before after fs).map (·.fragment) = writtenInAll fs
  | [] => rfl
  | f :: rest => by
    rw [placementsInAll, writtenInAll, List.map_append, f.map_fragment_placements,
      map_fragment_placementsInAll _ _ rest]

theorem map_fragment_placementsInStatements (before after : List Char) :
    (fs : List Fragment) →
      (placementsInStatements links before after fs).map (·.fragment) = writtenInAll fs
  | [] => rfl
  | f :: rest => by
    rw [placementsInStatements, writtenInAll, List.map_append, f.map_fragment_placements,
      map_fragment_placementsInStatements _ _ rest]

theorem Declaration.map_fragment_placements (before after : List Char) :
    (d : Declaration) → (d.placements links before after).map (·.fragment) = d.written
  | .mk e name accessor init => by
    rw [Declaration.placements, Declaration.written]
    split <;> exact init.map_fragment_placements _ _

theorem map_fragment_placementsInDeclarations (before after : List Char) :
    (ds : List Declaration) →
      (placementsInDeclarations links before after ds).map (·.fragment) = writtenInDeclarations ds
  | [] => rfl
  | d :: rest => by
    rw [placementsInDeclarations, writtenInDeclarations, List.map_append, d.map_fragment_placements,
      map_fragment_placementsInDeclarations _ _ rest]

theorem Block.map_fragment_placements (before after : List Char) :
    (b : Block) → (b.placements links before after).map (·.fragment) = b.written
  | .value [] result => result.map_fragment_placements _ _
  | .value (d :: ds) result => by
    rw [Block.placements, Block.written, if_neg (by simp), List.map_append,
      map_fragment_placementsInDeclarations, result.map_fragment_placements]
  | .statements ds list => by
    rw [Block.placements, Block.written, List.map_append, map_fragment_placementsInDeclarations,
      map_fragment_placementsInStatements]

end

/-- The placements of a script are all places where a node is written out. -/
theorem Output.map_fragment_placements (params : List String) :
    (o : Output) → (o.placements links params).map (·.fragment) = o.written
  | .script ds list => by
    rw [Output.placements, Output.written, List.map_append, map_fragment_placementsInDeclarations,
      map_fragment_placementsInStatements]
  | .evaluation body => body.map_fragment_placements _ _

theorem Output.fragment_mem_written (o : Output) {params : List String} {p : Placement}
    (hp : p ∈ o.placements links params) : p.fragment ∈ o.written :=
  o.map_fragment_placements params ▸ List.mem_map_of_mem hp

/-! ## The text of a placement -/

/-- The text before, at and after a placement. -/
def Placement.text (links : Links) (p : Placement) : List Char :=
  p.before ++ p.fragment.render links ++ p.after

theorem Fragment.render_lambda (f : NodeId) (enclosed suspends : Bool)
    (params : List (NodeId × String)) (body : Block) :
    (Fragment.lambda f enclosed suspends params body).render links =
      opening enclosed ++ arrow suspends params ++ body.render links ++ closing enclosed := by
  rw [Fragment.render, parenthesized_if]
  simp [arrow, -String.reduceToList]

theorem joined_declarations (d : Declaration) (ds : List Declaration) :
    joined [','] (renderDeclarations links (d :: ds)) =
      d.render links ++ renderFollowing links ds := by
  cases ds with
  | nil => exact (List.append_nil _).symm
  | cons d' ds => exact List.append_assoc ..

theorem renderLet_of_mem {ds : List Declaration} {before after : List Char} {p : Placement}
    (hp : p ∈ placementsInDeclarations links before after ds) :
    renderLet links ds = "let ".toList ++ joined [','] (renderDeclarations links ds) ++ [';'] := by
  cases ds with
  | nil => cases hp
  | cons d ds => rfl

mutual

theorem Fragment.text_of_placement (before after : List Char) : (f : Fragment) →
    ∀ p ∈ f.placements links before after, p.text links = before ++ f.render links ++ after
  | .text _ => nofun
  | .moduleIndex _ => nofun
  | .resourceIndex _ _ => nofun
  | .placeholderIndex _ => nofun
  | .moduleStore => nofun
  | .resourceStore => nofun
  | .name _ _ _ => nofun
  | .expansion e enclosed pieces => by
    rw [Fragment.placements]
    refine List.forall_mem_cons.2 ⟨rfl, fun p hp => ?_⟩
    rw [text_of_placementInAll _ _ pieces p hp, Fragment.render, parenthesized_if]
    simp
  | .lambda f enclosed suspends params body => by
    rw [Fragment.placements]
    refine List.forall_mem_cons.2 ⟨rfl, fun p hp => ?_⟩
    rw [body.text_of_placement _ _ p hp, Fragment.render_lambda]
    simp

theorem text_of_placementInAll (before after : List Char) : (fs : List Fragment) →
    ∀ p ∈ placementsInAll links before after fs,
      p.text links = before ++ renderAll links fs ++ after
  | [] => nofun
  | f :: rest => by
    rw [placementsInAll]
    refine List.forall_mem_append.2 ⟨fun p hp => ?_, fun p hp => ?_⟩
    · rw [f.text_of_placement _ _ p hp, renderAll]
      simp
    · rw [text_of_placementInAll _ _ rest p hp, renderAll]
      simp

theorem text_of_placementInStatements (before after : List Char) : (fs : List Fragment) →
    ∀ p ∈ placementsInStatements links before after fs,
      p.text links = before ++ renderStatements links fs ++ after
  | [] => nofun
  | f :: rest => by
    rw [placementsInStatements]
    refine List.forall_mem_append.2 ⟨fun p hp => ?_, fun p hp => ?_⟩
    · rw [f.text_of_placement _ _ p hp, renderStatements, guardBlock_eq]
      simp
    · rw [text_of_placementInStatements _ _ rest p hp, renderStatements]
      simp

theorem Declaration.text_of_placement (before after : List Char) : (d : Declaration) →
    ∀ p ∈ d.placements links before after, p.text links = before ++ d.render links ++ after
  | .mk e name accessor init => by
    rw [Declaration.placements, Declaration.render]
    cases accessor with
    | false =>
      intro p hp
      rw [init.text_of_placement _ _ p hp]
      simp
    | true =>
      intro p hp
      rw [init.text_of_placement _ _ p hp, guardBlock_eq]
      simp

theorem text_of_placementInDeclarations (before after : List Char) : (ds : List Declaration) →
    ∀ p ∈ placementsInDeclarations links before after ds,
      p.text links = before ++ joined [','] (renderDeclarations links ds) ++ after
  | [] => nofun
  | d :: rest => by
    rw [placementsInDeclarations, joined_declarations]
    refine List.forall_mem_append.2 ⟨fun p hp => ?_, fun p hp => ?_⟩
    · rw [d.text_of_placement _ _ p hp]
      simp
    · rw [text_of_placementInDeclarations _ _ rest p hp]
      cases rest with
      | nil => cases hp
      | cons d' rest => simp [renderFollowing]

theorem Block.text_of_placement (before after : List Char) : (b : Block) →
    ∀ p ∈ b.placements links before after, p.text links = before ++ b.render links ++ after
  | .value [] result => by
    intro p hp
    rw [result.text_of_placement _ _ p hp, Block.render, guardBlock_eq]
    simp
  | .value (d :: ds) result => by
    rw [Block.placements, Block.render, if_neg (by simp), if_neg (by simp)]
    refine List.forall_mem_append.2 ⟨fun p hp => ?_, fun p hp => ?_⟩
    · rw [text_of_placementInDeclarations _ _ (d :: ds) p hp, renderLet_of_mem hp]
      simp
    · rw [result.text_of_placement _ _ p hp]
      simp
  | .statements ds list => by
    rw [Block.placements, Block.render]
    refine List.forall_mem_append.2 ⟨fun p hp => ?_, fun p hp => ?_⟩
    · rw [text_of_placementInDeclarations _ _ ds p hp, renderLet_of_mem hp]
      simp
    · rw [text_of_placementInStatements _ _ list p hp]
      simp

end

/-- The text before, at and after a placement is the text of the script. -/
theorem Output.text_of_placement (params : List String) : (o : Output) →
    ∀ p ∈ o.placements links params, p.text links = o.render links params
  | .script ds list => by
    show ∀ p ∈ placementsInDeclarations links _ _ ds ++ _,
      p.text links = renderLet links ds ++ renderStatements links list
    refine List.forall_mem_append.2 ⟨fun p hp => ?_, fun p hp => ?_⟩
    · rw [text_of_placementInDeclarations _ _ ds p hp, renderLet_of_mem hp]
      simp
    · rw [text_of_placementInStatements _ _ list p hp]
      simp
  | .evaluation body => fun p hp => body.text_of_placement _ _ p hp

theorem placementsInAll_append (before after : List Char) (fs fs' : List Fragment) :
    placementsInAll links before after (fs ++ fs') =
      placementsInAll links before (renderAll links fs' ++ after) fs ++
        placementsInAll links (before ++ renderAll links fs) after fs' := by
  induction fs generalizing before with
  | nil => simp [placementsInAll, renderAll]
  | cons f fs ih => simp [placementsInAll, renderAll, Layout.renderAll_append, ih]

theorem exists_of_mem_placementsInAll {before after : List Char} {fs : List Fragment}
    {p : Placement} (hp : p ∈ placementsInAll links before after fs) :
    ∃ front f rest, fs = front ++ f :: rest ∧
      p ∈ f.placements links (before ++ renderAll links front) (renderAll links rest ++ after) := by
  induction fs generalizing before with
  | nil => cases hp
  | cons f fs ih =>
    rw [placementsInAll] at hp
    obtain hp | hp := List.mem_append.1 hp
    · exact ⟨[], f, fs, rfl, by rwa [renderAll, List.append_nil]⟩
    · obtain ⟨front, g, rest, rfl, hp⟩ := ih hp
      exact ⟨f :: front, g, rest, rfl, by rwa [renderAll, ← List.append_assoc]⟩

theorem mem_placementsInAll {before after : List Char} {front rest : List Fragment} {f : Fragment}
    {p : Placement}
    (hp : p ∈ f.placements links (before ++ renderAll links front)
      (renderAll links rest ++ after)) :
    p ∈ placementsInAll links before after (front ++ f :: rest) := by
  rw [placementsInAll_append, placementsInAll]
  exact List.mem_append_right _ (List.mem_append_left _ hp)

/-- The text part `t` of a node, which is at one of the places, is written directly before the place
`p` : there begins what is written after the part. -/
def Placement.Follows (p : Placement) (links : Links) (places : List Placement) (t : String) :
    Prop :=
  ∃ q ∈ places, ∃ e enclosed front next rest,
    q.fragment = .expansion e enclosed (front ++ .text t :: next :: rest) ∧
    p.before = q.before ++ opening enclosed ++ renderAll links front ++ t.toList ∧
    p ∈ next.placements links p.before (renderAll links rest ++ closing enclosed ++ q.after)

theorem Placement.Follows.mono {p : Placement} {places places' : List Placement} {t : String}
    (h : p.Follows links places t) (hsub : places ⊆ places') : p.Follows links places' t := by
  obtain ⟨q, hq, h⟩ := h
  exact ⟨q, hsub hq, h⟩

end Placements

end ScriptGraph
