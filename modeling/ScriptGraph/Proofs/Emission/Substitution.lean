import ScriptGraph.Proofs.Emission.Recursion

/-!
# Replacing names by what they are set to

* `Style`, `Output.print` : the text of a script, with or without what the layout adds;
* `Output.print_full` : with all of it, this is the text of the script;
* `Output.declarations` : all declarations of a script;
* `Output.replaceNames` : each name is replaced by what a declaration sets it to;
* `Fragment.iterate_expansion`, `Fragment.iterate_lambda`, … : what becomes of a script when this is
  done several times.
-/

namespace ScriptGraph

/-! ## Printing -/

/-- What is printed besides the expressions themselves. -/
structure Style where
  /-- Parentheses around expressions, where the text around them asks for some. -/
  parentheses : Bool
  /-- Declarations. A body with declarations that returns a value takes the form of a block. -/
  declarations : Bool

namespace Style

def full : Style := ⟨true, true⟩

def bare : Style := ⟨false, false⟩

def enclose (style : Style) (enclosed : Bool) (cs : List Char) : List Char :=
  if style.parentheses && enclosed then parenthesized cs else cs

def guardBlock (style : Style) (cs : List Char) : List Char :=
  if style.parentheses then ScriptGraph.guardBlock cs else cs

end Style

mutual

def Fragment.print (style : Style) (links : Links) : Fragment → List Char
  | .text code => code.toList
  | .moduleIndex address => natText (links.stores.moduleIndex address)
  | .resourceIndex key _ => natText (links.stores.resourceIndex key)
  | .placeholderIndex e => natText (links.placeholders.idxOf e)
  | .moduleStore => moduleMark
  | .resourceStore => resourceMark
  | .name _ name accessor => name.toList ++ if accessor then ['(', ')'] else []
  | .expansion _ enclosed pieces => style.enclose enclosed (printAll style links pieces)
  | .lambda _ enclosed suspends params body => style.enclose enclosed <|
    (if suspends then "async".toList else []) ++
      parenthesized (joined [','] (params.map (·.2.toList))) ++ '=' :: '>' :: body.print style links

def printAll (style : Style) (links : Links) : List Fragment → List Char
  | [] => []
  | f :: rest => f.print style links ++ printAll style links rest

def printStatements (style : Style) (links : Links) : List Fragment → List Char
  | [] => []
  | f :: rest => style.guardBlock (f.print style links) ++ ';' :: printStatements style links rest

def Declaration.print (style : Style) (links : Links) : Declaration → List Char
  | .mk _ name accessor initializer =>
    name.toList ++ '=' ::
      if accessor then '(' :: ')' :: '=' :: '>' :: style.guardBlock (initializer.print style links)
      else initializer.print style links

def printDeclarations (style : Style) (links : Links) : List Declaration → List (List Char)
  | [] => []
  | d :: rest => d.print style links :: printDeclarations style links rest

def printLet (style : Style) (links : Links) : List Declaration → List Char
  | [] => []
  | d :: ds =>
    if style.declarations then
      "let ".toList ++
        joined [','] (d.print style links :: printDeclarations style links ds) ++ [';']
    else []

def Block.print (style : Style) (links : Links) : Block → List Char
  | .value ds result =>
    if style.declarations && !ds.isEmpty then
      '\x7b' :: printLet style links ds ++ "return ".toList ++ result.print style links ++ ['\x7d']
    else style.guardBlock (result.print style links)
  | .statements ds list =>
    '\x7b' :: printLet style links ds ++ printStatements style links list ++ ['\x7d']

end

/-- The text of a script, before the contents of the stores are put in their places. -/
def Output.print (style : Style) (links : Links) (params : List String) : Output → List Char
  | .script ds list => printLet style links ds ++ printStatements style links list
  | .evaluation body =>
    "(async(".toList ++ joined [','] (params.map (·.toList)) ++ ")=>".toList ++
      body.print style links ++ [')']

section Print

variable (style : Style) (links : Links)

theorem printAll_append (fs fs' : List Fragment) :
    printAll style links (fs ++ fs') = printAll style links fs ++ printAll style links fs' := by
  induction fs with
  | nil => rfl
  | cons f fs ih => rw [List.cons_append, printAll, ih, printAll, List.append_assoc]

theorem printLet_bare (ds : List Declaration) : printLet .bare links ds = [] := by
  cases ds <;> rfl

end Print

/-! ## The text of the script -/

section Full

variable (links : Links)

mutual

theorem Fragment.print_full : ∀ f : Fragment, f.print .full links = f.render links
  | .text code => rfl
  | .moduleIndex address => rfl
  | .resourceIndex key value => rfl
  | .placeholderIndex e => rfl
  | .moduleStore => rfl
  | .resourceStore => rfl
  | .name e name accessor => rfl
  | .expansion e enclosed pieces => by
    rw [Fragment.print, Fragment.render, printAll_full pieces]
    rfl
  | .lambda e enclosed suspends params body => by
    rw [Fragment.print, Fragment.render, body.print_full]
    rfl

theorem printAll_full : ∀ fs : List Fragment, printAll .full links fs = renderAll links fs
  | [] => rfl
  | f :: rest => by rw [printAll, renderAll, f.print_full, printAll_full rest]

theorem printStatements_full :
    ∀ fs : List Fragment, printStatements .full links fs = renderStatements links fs
  | [] => rfl
  | f :: rest => by
    rw [printStatements, renderStatements, f.print_full, printStatements_full rest]
    rfl

theorem Declaration.print_full : ∀ d : Declaration, d.print .full links = d.render links
  | .mk e name accessor initializer => by
    rw [Declaration.print, Declaration.render, initializer.print_full]
    rfl

theorem printDeclarations_full :
    ∀ ds : List Declaration, printDeclarations .full links ds = renderDeclarations links ds
  | [] => rfl
  | d :: rest => by
    rw [printDeclarations, renderDeclarations, d.print_full, printDeclarations_full rest]

theorem printLet_full : ∀ ds : List Declaration, printLet .full links ds = renderLet links ds
  | [] => rfl
  | d :: rest => by
    rw [printLet, renderLet_cons, d.print_full, printDeclarations_full rest]
    rfl

theorem Block.print_full : ∀ b : Block, b.print .full links = b.render links
  | .value ds result => by
    rw [Block.print, Block.render, printLet_full ds, result.print_full]
    cases ds <;> rfl
  | .statements ds list => by
    rw [Block.print, Block.render, printLet_full ds, printStatements_full list]

end

/-- With parentheses and declarations, the text is that of the script. -/
theorem Output.print_full (params : List String) (o : Output) :
    o.print .full links params = o.render links params := by
  cases o with
  | script ds list =>
    show printLet .full links ds ++ printStatements .full links list =
      renderLet links ds ++ renderStatements links list
    rw [printLet_full, printStatements_full]
  | evaluation body =>
    show _ ++ _ ++ _ ++ body.print .full links ++ _ = _ ++ _ ++ _ ++ body.render links ++ _
    rw [body.print_full]

end Full

/-! ## Declarations -/

mutual

/-- All declarations of what is written, also those of the functions in it. -/
def Fragment.declarations : Fragment → List Declaration
  | .expansion _ _ pieces => declarationsOfAll pieces
  | .lambda _ _ _ _ body => body.declarations
  | _ => []

def declarationsOfAll : List Fragment → List Declaration
  | [] => []
  | f :: rest => f.declarations ++ declarationsOfAll rest

def Block.declarations : Block → List Declaration
  | .value ds result => declarationsWithin ds ++ result.declarations
  | .statements ds list => declarationsWithin ds ++ declarationsOfAll list

def Declaration.declarations : Declaration → List Declaration
  | .mk e name accessor initializer => .mk e name accessor initializer :: initializer.declarations

def declarationsWithin : List Declaration → List Declaration
  | [] => []
  | d :: rest => d.declarations ++ declarationsWithin rest

end

def Output.declarations : Output → List Declaration
  | .script ds list => declarationsWithin ds ++ declarationsOfAll list
  | .evaluation body => body.declarations

/-- What the name in front of a call or without one is set to. -/
def Declaration.initializer? (name : String) (accessor : Bool) : Declaration → Option Fragment
  | .mk _ name' accessor' initializer =>
    if name' = name ∧ accessor' = accessor then some initializer else none

/-! ## Replacing names -/

section Replacing

variable (ds : List Declaration)

mutual

/-- Each name is replaced by what one of the declarations sets it to; for an accessor, its call is
replaced. Names that are not declared stay. -/
def Fragment.replaceNames : Fragment → Fragment
  | .name e name accessor =>
    (ds.findSome? (Declaration.initializer? name accessor)).getD (.name e name accessor)
  | .expansion e enclosed pieces => .expansion e enclosed (replaceNamesAll pieces)
  | .lambda e enclosed suspends params body =>
    .lambda e enclosed suspends params body.replaceNames
  | .text code => .text code
  | .moduleIndex address => .moduleIndex address
  | .resourceIndex key value => .resourceIndex key value
  | .placeholderIndex e => .placeholderIndex e
  | .moduleStore => .moduleStore
  | .resourceStore => .resourceStore

def replaceNamesAll : List Fragment → List Fragment
  | [] => []
  | f :: rest => f.replaceNames :: replaceNamesAll rest

def Block.replaceNames : Block → Block
  | .value inner result => .value (replaceNamesWithin inner) result.replaceNames
  | .statements inner list => .statements (replaceNamesWithin inner) (replaceNamesAll list)

def Declaration.replaceNames : Declaration → Declaration
  | .mk e name accessor initializer => .mk e name accessor initializer.replaceNames

def replaceNamesWithin : List Declaration → List Declaration
  | [] => []
  | d :: rest => d.replaceNames :: replaceNamesWithin rest

end

def Output.replaceNames : Output → Output
  | .script inner list => .script (replaceNamesWithin ds inner) (replaceNamesAll ds list)
  | .evaluation body => .evaluation (body.replaceNames ds)

/-- What a script becomes when names are replaced `k` times by what it sets them to. -/
def Output.unfold (o : Output) (k : Nat) : Output := (Output.replaceNames o.declarations)^[k] o

theorem replaceNamesAll_eq (fs : List Fragment) :
    replaceNamesAll ds fs = fs.map (Fragment.replaceNames ds) := by
  induction fs with
  | nil => rfl
  | cons f fs ih => rw [replaceNamesAll, ih, List.map_cons]

variable (k : Nat)

theorem Fragment.iterate_text (code : String) :
    (Fragment.replaceNames ds)^[k] (.text code) = .text code :=
  Function.iterate_fixed (by rw [Fragment.replaceNames]) k

theorem Fragment.iterate_expansion (e : NodeId) (enclosed : Bool) (pieces : List Fragment) :
    (Fragment.replaceNames ds)^[k] (.expansion e enclosed pieces) =
      .expansion e enclosed (pieces.map (Fragment.replaceNames ds)^[k]) := by
  induction k generalizing pieces with
  | zero => simp
  | succ k ih =>
    rw [Function.iterate_succ_apply, Fragment.replaceNames, ih, replaceNamesAll_eq, List.map_map]
    rfl

theorem Fragment.iterate_lambda (f : NodeId) (enclosed suspends : Bool)
    (params : List (NodeId × String)) (body : Block) :
    (Fragment.replaceNames ds)^[k] (.lambda f enclosed suspends params body) =
      .lambda f enclosed suspends params ((Block.replaceNames ds)^[k] body) := by
  induction k generalizing body with
  | zero => rfl
  | succ k ih =>
    rw [Function.iterate_succ_apply, Fragment.replaceNames, ih]
    rfl

theorem Block.iterate_value (inner : List Declaration) (result : Fragment) :
    (Block.replaceNames ds)^[k] (.value inner result) =
      .value ((replaceNamesWithin ds)^[k] inner) ((Fragment.replaceNames ds)^[k] result) := by
  induction k generalizing inner result with
  | zero => rfl
  | succ k ih =>
    rw [Function.iterate_succ_apply, Block.replaceNames, ih]
    rfl

theorem Block.iterate_statements (inner : List Declaration) (list : List Fragment) :
    (Block.replaceNames ds)^[k] (.statements inner list) =
      .statements ((replaceNamesWithin ds)^[k] inner)
        (list.map (Fragment.replaceNames ds)^[k]) := by
  induction k generalizing inner list with
  | zero => simp
  | succ k ih =>
    rw [Function.iterate_succ_apply, Block.replaceNames, ih, replaceNamesAll_eq, List.map_map]
    rfl

theorem Output.iterate_script (inner : List Declaration) (list : List Fragment) :
    (Output.replaceNames ds)^[k] (.script inner list) =
      .script ((replaceNamesWithin ds)^[k] inner) (list.map (Fragment.replaceNames ds)^[k]) := by
  induction k generalizing inner list with
  | zero => simp [Function.iterate_zero]
  | succ k ih =>
    rw [Function.iterate_succ_apply, Output.replaceNames, ih, replaceNamesAll_eq, List.map_map]
    rfl

theorem Output.iterate_evaluation (body : Block) :
    (Output.replaceNames ds)^[k] (.evaluation body) =
      .evaluation ((Block.replaceNames ds)^[k] body) := by
  induction k generalizing body with
  | zero => rfl
  | succ k ih =>
    rw [Function.iterate_succ_apply, Output.replaceNames, ih]
    rfl

end Replacing

end ScriptGraph
