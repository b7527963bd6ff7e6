import ScriptGraph.Ecma.Expression

/-!
# Statements of scripts

* `statement` : statements, except declarations that stand only in lists of statements;
* `item` : statements and declarations.

Labels are not names: they are neither references nor bindings.
-/

namespace ScriptGraph.Ecma

open Parse

section Grammar

variable (r : Rules)

/-! ## Declarations -/

/-- What a declaration binds: a name, or a pattern. The flag tells that it is a pattern. -/
def bindingTarget (ctx : Context) : Parse (Term × Bool) := do
  if ← accept "[" then return (← fromOption (← array r ctx).toBinding?, true)
  if ← accept "\x7b" then return (← fromOption (← object r ctx).toBinding?, true)
  return (← declared ctx, false)

/-- A declared target with its value. A pattern has one, and so does a constant. -/
def initialized (ctx : Context) (constant : Bool) (target : Term × Bool) : Parse Term := do
  if ← accept "=" then return .assign target.1 (← r.assignment ctx)
  require !(target.2 || constant)
  return target.1

/-- The declarations that follow the first target. -/
def declarations (ctx : Context) (constant : Bool) (target : Term × Bool) : Parse Term := do
  let first ← initialized r ctx constant target
  let rest ← many do
    if ← accept "," then return some (← initialized r ctx constant (← bindingTarget r ctx))
    else return none
  return .phrase (first :: rest)

/-- A declaration of variables, from behind its word. -/
def variableDeclaration (ctx : Context) (constant : Bool) : Parse Term := do
  let t ← declarations r ctx constant (← bindingTarget r ctx)
  semicolon
  return t

def classDeclaration (ctx : Context) : Parse Term := do
  let name ← declared ctx
  return .phrase (name :: (← classRest r ctx))

/-- Whether the words `async function` come next. -/
def atAsyncFunction : Parse Bool := do
  let c ← get
  let next := c.next
  return c.token == .name "async" false && next.token == .name "function" false && !next.fresh

/-- The word of a declaration that comes next, unless it begins with `async`. -/
def declarationWord : Parse (Option String) := do
  match (← get).token with
  | .name w false => return if ["let", "const", "function", "class"].contains w then some w else none
  | _ => return none

/-- A declaration that stands in a list of statements, if one comes next. -/
def declaration? (ctx : Context) : Parse (Option Term) := do
  if ← atAsyncFunction then
    advance
    advance
    return some (← functionRest r ctx true true)
  match ← declarationWord with
  | some w =>
    advance
    match w with
    | "function" => some <$> functionRest r ctx false true
    | "class" => some <$> classDeclaration r ctx
    | w => some <$> variableDeclaration r ctx (w == "const")
  | none => return none

/-! ## Statements -/

/-- A condition in parentheses. -/
def condition (ctx : Context) : Parse Term := do
  expect "("
  let e ← expression r ctx.inside
  expect ")"
  return e

def blockStatement (ctx : Context) : Parse Term := return .phrase (← block r ctx)

def ifStatement (ctx : Context) : Parse Term := do
  let test ← condition r ctx
  let yes ← r.statement ctx
  if ← acceptWord "else" then return .phrase [test, yes, ← r.statement ctx]
  return .phrase [test, yes]

def doStatement (ctx : Context) : Parse Term := do
  let body ← r.statement ctx
  expectWord "while"
  let test ← condition r ctx
  let _ ← accept ";"
  return .phrase [body, test]

/-- The rest of a loop over the items of a value, from behind `of` or `in`. -/
def overRest (ctx : Context) (target value : Term) : Parse Term := do
  expect ")"
  return .phrase [target, value, ← r.statement ctx]

/-- The rest of a loop with a test and a step, from behind its first part. -/
def stepRest (ctx : Context) (start : List Term) : Parse Term := do
  expect ";"
  let test ← if ← at? ";" then pure [] else List.singleton <$> expression r ctx
  expect ";"
  let step ← if ← at? ")" then pure [] else List.singleton <$> expression r ctx
  expect ")"
  return .phrase (start ++ test ++ step ++ [← r.statement ctx])

/-- The target of a loop over items, which has no default. -/
def loopTarget (t : Term) : Parse Term := do
  require !t.isAssign
  fromOption t.toTarget?

def forStatement (ctx : Context) : Parse Term := do
  let isAwaited ← if ctx.awaits then acceptWord "await" else pure false
  expect "("
  if ← at? ";" then
    require !isAwaited
    return ← stepRest r ctx []
  let constant ← atWord "const"
  let word := constant || (← atWord "let") || (← atWord "var")
  if word then
    advance
    let target ← bindingTarget r ctx
    if ← acceptWord "of" then return ← overRest r ctx target.1 (← r.assignment ctx)
    require !isAwaited
    if ← acceptWord "in" then return ← overRest r ctx target.1 (← expression r ctx)
    let start ← declarations r { ctx with membership := false } constant target
    return ← stepRest r ctx [start]
  let start ← expression r { ctx with membership := false }
  if ← acceptWord "of" then
    return ← overRest r ctx (← loopTarget start) (← r.assignment ctx)
  require !isAwaited
  if ← acceptWord "in" then
    return ← overRest r ctx (← loopTarget start) (← expression r ctx)
  stepRest r ctx [start]

/-- A jump, which may name a label. -/
def jump (ctx : Context) : Parse Term := do
  unless ← atFresh do
    let _ ← identifier? ctx
  semicolon
  return .phrase []

def returnStatement (ctx : Context) : Parse Term := do
  require ctx.returns
  let c ← get
  let ended := c.fresh || c.token == .finish || c.token == .punctuator ";" ||
    c.token == .punctuator "\x7d"
  let value ← if ended then pure [] else List.singleton <$> expression r ctx
  semicolon
  return .phrase value

def throwStatement (ctx : Context) : Parse Term := do
  require !(← atFresh)
  let e ← expression r ctx
  semicolon
  return e

/-- A case of a `switch`; the flag tells that it is the default. -/
def switchCase (ctx : Context) : Parse (Bool × List Term) := do
  let isDefault ← acceptWord "default"
  let test ← if isDefault then pure [] else do
    expectWord "case"
    List.singleton <$> expression r ctx
  expect ":"
  let items ← many do
    if (← at? "\x7d") || (← atWord "case") || (← atWord "default") then return none
    else return some (← r.item ctx)
  return (isDefault, test ++ items)

def switchStatement (ctx : Context) : Parse Term := do
  let value ← condition r ctx
  expect "\x7b"
  let cases ← many do
    if ← accept "\x7d" then return none else return some (← switchCase r ctx)
  require ((cases.filter (·.1)).length ≤ 1)
  return .phrase (value :: cases.flatMap (·.2))

def tryStatement (ctx : Context) : Parse Term := do
  let body ← block r ctx
  let handler ← if ← acceptWord "catch" then do
      let parameter ← if ← accept "(" then do
          let t ← bindingTarget r ctx
          expect ")"
          pure [t.1]
        else pure []
      pure (some (parameter ++ (← block r ctx)))
    else pure none
  let final ← if ← acceptWord "finally" then some <$> block r ctx else pure none
  require (handler.isSome || final.isSome)
  return .phrase (body ++ handler.getD [] ++ final.getD [])

/-- An expression as a statement, or a labelled statement. -/
def expressionStatement (ctx : Context) : Parse Term := do
  let c ← get
  match c.token with
  | .name x _ =>
    if ctx.admits x ∧ c.next.token = .punctuator ":" then
      advance
      advance
      return ← r.statement ctx
  | _ => pure ()
  require !(← atAsyncFunction)
  let e ← expression r ctx
  semicolon
  return e

def statementWord (ctx : Context) (w : String) : Option (Parse Term) :=
  match w with
  | "var" => some (variableDeclaration r ctx false)
  | "if" => some (ifStatement r ctx)
  | "for" => some (forStatement r ctx)
  | "while" => some do
    let test ← condition r ctx
    return .phrase [test, ← r.statement ctx]
  | "with" => some do
    let value ← condition r ctx
    return .phrase [value, ← r.statement ctx]
  | "do" => some (doStatement r ctx)
  | "continue" | "break" => some (jump ctx)
  | "return" => some (returnStatement r ctx)
  | "throw" => some (throwStatement r ctx)
  | "switch" => some (switchStatement r ctx)
  | "try" => some (tryStatement r ctx)
  | "debugger" => some do
    semicolon
    return .phrase []
  | "function" | "class" => some failure
  | _ => none

def statement (ctx : Context) : Parse Term := do
  match (← get).token with
  | .punctuator "\x7b" => blockStatement r ctx
  | .punctuator ";" =>
    advance
    return .phrase []
  | .name w false =>
    match statementWord r ctx w with
    | some rule =>
      advance
      rule
    | none => expressionStatement r ctx
  | _ => expressionStatement r ctx

def item (ctx : Context) : Parse Term := do
  match ← declaration? r ctx with
  | some t => return t
  | none => statement r ctx

end Grammar

end ScriptGraph.Ecma
