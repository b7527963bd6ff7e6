import ScriptGraph.Emission.Fragment
import ScriptGraph.Emission.Position
import ScriptGraph.Store.Basic

/-!
# The text of a script

* `Links` : the stores and placeholders after everything a script mentions was registered
  (`Links.ofMentions`);
* `Output.render` : the text of a script, in which marks stand for the contents of the stores;
* `Links.splice` : the text with the marks replaced by the contents of the stores;
* `producedKeys` : the resources whose values were produced on registration.
-/

namespace ScriptGraph

/-- What indices in a script refer to. -/
structure Links where
  stores : Stores
  /-- The placeholders in the order of their indices. -/
  placeholders : List NodeId

namespace Links

/-- Registers one mention. -/
def register (resolver : Resolver) (links : Links) : Mention → Links
  | .module address => { links with stores := links.stores.registerModule resolver address }
  | .resource key value => { links with stores := links.stores.registerResource key value }
  | .placeholder e =>
    if links.placeholders.contains e then links
    else { links with placeholders := links.placeholders ++ [e] }
  | .moduleStore => links
  | .resourceStore => links

/-- Registers what a script mentions, in order. -/
def ofMentions (resolver : Resolver) (stores : Stores) (mentions : List Mention) : Links :=
  mentions.foldl (register resolver) ⟨stores, []⟩

end Links

/-- The keys, not in the stores before, whose first mention produces a value. -/
def producedKeys (known : List String) : List Mention → List String
  | [] => []
  | .resource key value :: rest =>
    if known.contains key then producedKeys known rest
    else
      match value with
      | .deferred _ => key :: producedKeys (key :: known) rest
      | .eager _ => producedKeys (key :: known) rest
  | _ :: rest => producedKeys known rest

/-- Texts with `separator` between any two. -/
def joined (separator : List Char) : List (List Char) → List Char
  | [] => []
  | [t] => t
  | t :: rest => t ++ separator ++ joined separator rest

/-! ## Marks -/

/-- Stands for the contents of the module store. -/
def moduleMark : List Char := "\x00module-store\x00".toList

/-- Stands for the contents of the resource store. -/
def resourceMark : List Char := "\x00resource-store\x00".toList

/-- Replaces the occurrences of a text, from the left; the first `skip` characters are dropped. -/
def replaceFrom (old new : List Char) : Nat → List Char → List Char
  | _, [] => []
  | skip + 1, _ :: rest => replaceFrom old new skip rest
  | 0, c :: rest =>
    if old.isPrefixOf (c :: rest) then new ++ replaceFrom old new (old.length - 1) rest
    else c :: replaceFrom old new 0 rest

/-- Replaces the occurrences of a text that is not empty. -/
def replaceAll (old new text : List Char) : List Char := replaceFrom old new 0 text

/-! ## Rendering -/

mutual

def Fragment.render (links : Links) : Fragment → List Char
  | .text code => code.toList
  | .moduleIndex address => natText (links.stores.moduleIndex address)
  | .resourceIndex key _ => natText (links.stores.resourceIndex key)
  | .placeholderIndex e => natText (links.placeholders.idxOf e)
  | .moduleStore => moduleMark
  | .resourceStore => resourceMark
  | .name _ name accessor => name.toList ++ if accessor then ['(', ')'] else []
  | .expansion _ enclosed pieces =>
    let text := renderAll links pieces
    if enclosed then parenthesized text else text
  | .lambda _ enclosed suspends params body =>
    let text := (if suspends then "async".toList else []) ++
      parenthesized (joined [','] (params.map (·.2.toList))) ++ '=' :: '>' :: body.render links
    if enclosed then parenthesized text else text

def renderAll (links : Links) : List Fragment → List Char
  | [] => []
  | f :: rest => f.render links ++ renderAll links rest

/-- Expressions as statements. -/
def renderStatements (links : Links) : List Fragment → List Char
  | [] => []
  | f :: rest => guardBlock (f.render links) ++ ';' :: renderStatements links rest

def Declaration.render (links : Links) : Declaration → List Char
  | .mk _ name accessor initializer =>
    name.toList ++ '=' ::
      if accessor then '(' :: ')' :: '=' :: '>' :: guardBlock (initializer.render links)
      else initializer.render links

def renderDeclarations (links : Links) : List Declaration → List (List Char)
  | [] => []
  | d :: rest => d.render links :: renderDeclarations links rest

/-- The declarations of a scope: nothing if there are none. -/
def renderLet (links : Links) : List Declaration → List Char
  | [] => []
  | d :: ds => "let ".toList ++ joined [','] (d.render links :: renderDeclarations links ds) ++ [';']

def Block.render (links : Links) : Block → List Char
  | .value ds result =>
    if ds.isEmpty then guardBlock (result.render links)
    else '\x7b' :: renderLet links ds ++ "return ".toList ++ result.render links ++ ['\x7d']
  | .statements ds list => '\x7b' :: renderLet links ds ++ renderStatements links list ++ ['\x7d']

end

theorem renderLet_cons (links : Links) (d : Declaration) (ds : List Declaration) :
    renderLet links (d :: ds) =
      "let ".toList ++ joined [','] (d.render links :: renderDeclarations links ds) ++ [';'] := rfl

/-- The text of a script. The parameters of an evaluation name what its caller passes. -/
def Output.render (links : Links) (params : List String) : Output → List Char
  | .script ds list => renderLet links ds ++ renderStatements links list
  | .evaluation body =>
    "(async(".toList ++ joined [','] (params.map (·.toList)) ++ ")=>".toList ++
      body.render links ++ [')']

/-! ## Contents of the stores -/

/-- How a script gets at the contents of the stores. -/
structure Access where
  resourceMode : ResourceMode
  /-- The function that makes a reader of resources from their keys. -/
  resourceAccessor : String
  /-- The parameter that holds the addresses of the modules, if there is one. -/
  moduleParam : Option String
  /-- The parameter that is the reader of resources, if there is one. -/
  resourceParam : Option String

/-- What the declaration of the resource store is set to. -/
def Access.resourcesText (a : Access) (stores : Stores) : String :=
  match a.resourceMode, a.resourceParam with
  | .runtime, some param => stores.resourcesText .runtime param false
  | mode, _ => stores.resourcesText mode a.resourceAccessor true

/-- The parameters that a script needs. -/
def Access.params (a : Access) (o : Output) : List String :=
  (if o.usesModules then a.moduleParam.toList else []) ++
    if o.usesResources && a.resourceMode = .runtime then a.resourceParam.toList else []

/-- Puts the contents of the stores in the places of their marks, modules first. -/
def Links.splice (links : Links) (a : Access) (o : Output) (text : List Char) : List Char :=
  let text :=
    if o.usesModules then
      replaceAll moduleMark (links.stores.modulesText a.moduleParam).toList text
    else text
  if o.usesResources then
    replaceAll resourceMark (a.resourcesText links.stores).toList text
  else text

end ScriptGraph
