import ScriptGraph.Graph.Basic
import ScriptGraph.Json.Literal

/-!
# Stores of modules and resources

A script reaches modules and resources by index. The stores list them in the order in which they
were first met; several compilations may share them.

* `Resolver` : maps the address under which a module is referred to, to the address it is loaded
  from; `Resolver.base` serves relative and bare addresses from a fixed place;
* `Stores` : the modules, each with its resolved address, and the resources, each with its value;
* `Stores.registerModule`, `Stores.registerResource` : add an entry unless its key is known;
* `Stores.moduleIndex`, `Stores.resourceIndex` : the place of a key;
* `Stores.modulesText`, `Stores.resourcesText` : what the two store declarations are set to.
-/

namespace ScriptGraph

abbrev Resolver := String → String

namespace Resolver

def identity : Resolver := id

/-- Whether `part` occurs in the text. -/
def occursIn (part : List Char) : List Char → Bool
  | [] => part.isEmpty
  | c :: rest => part.isPrefixOf (c :: rest) || occursIn part rest

/-- Without the `./` at the front, however often it stands there. -/
def dropHere : List Char → List Char
  | '.' :: '/' :: rest => dropHere rest
  | cs => cs

def dropTrailingSlashes (cs : List Char) : List Char :=
  (cs.reverse.dropWhile (· == '/')).reverse

/-- An address from the root or with a scheme stays; any other is served from `place`. -/
def base (place : String) : Resolver := fun address =>
  let cs := address.toList
  if cs.head? = some '/' ∨ occursIn [':', '/', '/'] cs then address
  else String.ofList (dropTrailingSlashes place.toList ++ '/' :: dropHere cs)

/-- Puts `start` in front of every address. -/
def prepend (start : String) : Resolver := fun address => start ++ address

end Resolver

/-- How a script reaches the values of resources. -/
inductive ResourceMode
  /-- The values are written into the script. -/
  | snapshot
  /-- The values are read while the script runs. -/
  | runtime
deriving DecidableEq

structure Stores where
  /-- Addresses as referred to, with the addresses to load from. -/
  modules : List (String × String) := []
  /-- Keys with their values. -/
  resources : List (String × Json) := []

namespace Stores

/-- Adds an entry at the end unless its key is present. -/
def register {α : Type} (key : String) (value : α) (entries : List (String × α)) :
    List (String × α) :=
  if entries.any (·.1 == key) then entries else entries ++ [(key, value)]

/-- The place of a key. -/
def indexIn {α : Type} (key : String) (entries : List (String × α)) : Nat :=
  entries.findIdx (·.1 == key)

def registerModule (s : Stores) (resolver : Resolver) (address : String) : Stores :=
  { s with modules := register address (resolver address) s.modules }

def registerResource (s : Stores) (key : String) (value : ResourceValue) : Stores :=
  { s with resources := register key value.snapshot s.resources }

def moduleIndex (s : Stores) (address : String) : Nat := indexIn address s.modules

def resourceIndex (s : Stores) (key : String) : Nat := indexIn key s.resources

/-- The addresses to load from, in the order of their indices. -/
def addresses (s : Stores) : List String := s.modules.map (·.2)

def keys (s : Stores) : List String := s.resources.map (·.1)

def bracketed (items : List String) : String := "[" ++ ",".intercalate items ++ "]"

/-- Loads all modules at once; `param` names an array that holds the addresses. -/
def modulesText (s : Stores) (param : Option String) : String :=
  "await Promise.all(" ++ param.getD (bracketed (s.addresses.map quoted)) ++
    ".map(u=>import(u)))"

/-- The values themselves, or a reader for the keys: `accessor` makes it from the keys when
`keysInline` holds, and is the reader otherwise. -/
def resourcesText (s : Stores) (mode : ResourceMode) (accessor : String) (keysInline : Bool) :
    String :=
  match mode, keysInline with
  | .snapshot, _ => bracketed (s.resources.map (·.2.literal))
  | .runtime, true => accessor ++ "(" ++ bracketed (s.keys.map quoted) ++ ")"
  | .runtime, false => accessor

end Stores

end ScriptGraph
