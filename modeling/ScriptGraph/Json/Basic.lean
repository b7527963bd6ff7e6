import ScriptGraph.Number.Notation

/-!
# JSON values

* `Json` : a JSON value; the entries of an object are kept in the order in which they are written;
* `Json.Number` : an integer of 64 bits, signed or unsigned, or a binary64 number;
* `Json.sortedInsert` : adds an entry to a list sorted by key, replacing an entry of the same key;
* `Json.beq` : equality as a computation.
-/

namespace ScriptGraph

inductive Json.Number
  | integer (i : Int)
  | real (x : Finite64)
deriving DecidableEq

inductive Json
  | null
  | bool (b : Bool)
  | number (n : Json.Number)
  | string (s : String)
  | array (items : List Json)
  | object (entries : List (String × Json))

namespace Json

/-- Keys are ordered by code points. An entry of the same key gives way to the new one. -/
def sortedInsert (key : String) (value : Json) : List (String × Json) → List (String × Json)
  | [] => [(key, value)]
  | (k, v) :: rest =>
    if key = k then (key, value) :: rest
    else if key < k then (key, value) :: (k, v) :: rest
    else (k, v) :: sortedInsert key value rest

/-- Sorted by key; of equal keys the last entry stays. -/
def sortedEntries (entries : List (String × Json)) : List (String × Json) :=
  entries.foldl (fun sorted (k, v) => sortedInsert k v sorted) []

mutual

def beq : Json → Json → Bool
  | .null, .null => true
  | .bool a, .bool b => a == b
  | .number a, .number b => a == b
  | .string a, .string b => a == b
  | .array a, .array b => beqItems a b
  | .object a, .object b => beqEntries a b
  | _, _ => false

def beqItems : List Json → List Json → Bool
  | [], [] => true
  | a :: as, b :: bs => a.beq b && beqItems as bs
  | _, _ => false

def beqEntries : List (String × Json) → List (String × Json) → Bool
  | [], [] => true
  | (k, a) :: as, (l, b) :: bs => k == l && a.beq b && beqEntries as bs
  | _, _ => false

end

instance : BEq Json := ⟨beq⟩

end Json

end ScriptGraph
