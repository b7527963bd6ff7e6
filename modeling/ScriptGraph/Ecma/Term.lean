/-!
# Names in the phrases of a script

* `Term` : a phrase, reduced to the names in it and to what decides whether it can be assigned to;
* `Term.toTarget?`, `Term.toBinding?` : a phrase that was read as an expression, as the left side of
  an assignment or as a declaration;
* `Term.isExpression` : whether what is left is an expression;
* `Term.names` : the names, in the order of the text.
-/

namespace ScriptGraph.Ecma

inductive Term
  /-- A place between commas where nothing stands. -/
  | hole
  | reference (name : String)
  | binding (name : String)
  /-- A phrase that cannot be assigned to. -/
  | phrase (parts : List Term)
  /-- An access to a member. -/
  | member (parts : List Term)
  | parenthesized (items : List Term)
  /-- A call of what is named `async`, or the parameters of an arrow function. -/
  | asyncCall (items : List Term)
  | assign (target value : Term)
  | array (elements : List Term)
  | object (properties : List Term)
  | property (key : List Term) (value : Term)
  /-- A property named like the variable it is read from or assigned to. -/
  | shorthand (name : String)
  /-- A shorthand with a default, which only a target can have. -/
  | defaulted (name : String) (value : Term)
  | spread (t : Term)

/-- How a name is used. -/
inductive Name
  | reference (name : String)
  | binding (name : String)
deriving DecidableEq

namespace Term

def isHole : Term → Bool
  | .hole => true
  | _ => false

def isSpread : Term → Bool
  | .spread _ => true
  | _ => false

def isAssign : Term → Bool
  | .assign .. => true
  | _ => false

/-- Whether the item of an object is a rest that is more than a name. -/
def isNestedRest : Term → Bool
  | .spread (.reference _) => false
  | .spread _ => true
  | _ => false

/-- A variable or a member, in any number of parentheses. -/
def isSimpleTarget : Term → Bool
  | .reference _ => true
  | .member _ => true
  | .parenthesized [t] => t.isSimpleTarget
  | _ => false

mutual

/-- What a phrase is on the left of `=`. -/
def toTarget? : Term → Option Term
  | .reference x => some (.reference x)
  | .member ts => some (.member ts)
  | .parenthesized [t] => if t.isSimpleTarget then some (.parenthesized [t]) else none
  | .assign t v => some (.assign t v)
  | .array ts => (toTargets? ts).map .array
  | .object ts => (toTargets? ts).map .object
  | .property key v => v.toTarget?.map (.property key)
  | .shorthand x => some (.reference x)
  | .defaulted x v => some (.assign (.reference x) v)
  | _ => none

/-- The same of the items of a list. A spread takes the rest and so comes last. -/
def toTargets? : List Term → Option (List Term)
  | [] => some []
  | [.spread t] =>
    match t with
    | .assign .. => none
    | t => t.toTarget?.map fun t => [.spread t]
  | .hole :: rest => (toTargets? rest).map (.hole :: ·)
  | t :: rest => do
    let t ← t.toTarget?
    let ts ← toTargets? rest
    some (t :: ts)

end

mutual

/-- What a phrase declares. -/
def toBinding? : Term → Option Term
  | .reference x => some (.binding x)
  | .assign t v => t.toBinding?.map (.assign · v)
  | .array ts => (toBindings? ts).map .array
  | .object ts => if ts.any isNestedRest then none else (toBindings? ts).map .object
  | .property key v => v.toBinding?.map (.property key)
  | .shorthand x => some (.binding x)
  | .defaulted x v => some (.assign (.binding x) v)
  | _ => none

/-- The same of the items of a list. A spread takes the rest and so comes last. -/
def toBindings? : List Term → Option (List Term)
  | [] => some []
  | [.spread t] =>
    match t with
    | .assign .. => none
    | t => t.toBinding?.map fun t => [.spread t]
  | .hole :: rest => (toBindings? rest).map (.hole :: ·)
  | t :: rest => do
    let t ← t.toBinding?
    let ts ← toBindings? rest
    some (t :: ts)

end

mutual

/-- Whether nothing is left in a phrase that only a target or a parameter list can hold. -/
def isExpression : Term → Bool
  | .hole => true
  | .reference _ => true
  | .binding _ => true
  | .phrase ts => areExpressions ts
  | .member ts => areExpressions ts
  | .parenthesized ts => !ts.isEmpty && areOperands ts
  | .asyncCall ts => areExpressions ts
  | .assign t v => t.isExpression && v.isExpression
  | .array ts => areExpressions ts
  | .object ts => areExpressions ts
  | .property key v => areExpressions key && v.isExpression
  | .shorthand _ => true
  | .defaulted .. => false
  | .spread t => t.isExpression

def areExpressions : List Term → Bool
  | [] => true
  | t :: rest => t.isExpression && areExpressions rest

/-- Neither a hole nor a spread stands in parentheses. -/
def areOperands : List Term → Bool
  | [] => true
  | .hole :: _ => false
  | .spread _ :: _ => false
  | t :: rest => t.isExpression && areOperands rest

end

mutual

/-- The names in a phrase, in the order of the text. -/
def names : Term → List Name
  | .hole => []
  | .reference x => [.reference x]
  | .binding x => [.binding x]
  | .phrase ts => namesOf ts
  | .member ts => namesOf ts
  | .parenthesized ts => namesOf ts
  | .asyncCall ts => .reference "async" :: namesOf ts
  | .assign t v => t.names ++ v.names
  | .array ts => namesOf ts
  | .object ts => namesOf ts
  | .property key v => namesOf key ++ v.names
  | .shorthand x => [.reference x]
  | .defaulted x v => .reference x :: v.names
  | .spread t => t.names

def namesOf : List Term → List Name
  | [] => []
  | t :: rest => t.names ++ namesOf rest

end

end Term

end ScriptGraph.Ecma
