import ScriptGraph.Ecma.Statement

/-!
# Whole scripts

A script is read as the code of a module: it may import and export, and it may await at the top
level.

* `rules` : the rules that contain themselves, to a given depth;
* `Term.ofModule?` : the phrase of a script, unless the text is none.
-/

namespace ScriptGraph.Ecma

open Parse

/-! ## Imports and exports -/

section Grammar

variable (r : Rules)

def stringLiteral : Parse Unit := do
  match (← get).token with
  | .string _ => advance
  | _ => failure

/-- Where a module comes from, with its attributes. -/
def source : Parse Unit := do
  stringLiteral
  if ← acceptWord "with" then
    expect "\x7b"
    let _ ← list "\x7d" do
      match (← get).token with
      | .name .. | .string _ => advance
      | _ => failure
      expect ":"
      stringLiteral
      return .phrase []

/-- A name of what is exported: any word, or a string. The word is returned. -/
def exportedName : Parse (Option String) := do
  match (← get).token with
  | .name x _ =>
    advance
    return some x
  | .string _ =>
    advance
    return none
  | _ => failure

/-- An import of one name. -/
def importSpecifier (ctx : Context) : Parse Term := do
  let name ← exportedName
  if ← acceptWord "as" then return ← declared ctx
  let x ← fromOption name
  require (ctx.admits x)
  return .binding x

/-- Imports by name, or of the namespace, if they come next. -/
def importNames? (ctx : Context) : Parse (Option (List Term)) := do
  if ← accept "*" then
    expectWord "as"
    return some [← declared ctx]
  if ← accept "\x7b" then return some (← list "\x7d" (importSpecifier ctx))
  return none

/-- An import declaration, from behind its word. -/
def importRest (ctx : Context) : Parse Term := do
  let isBare := match (← get).token with
    | .string _ => true
    | _ => false
  let names ← if isBare then pure [] else do
    match ← importNames? ctx with
    | some names => expectWord "from" *> pure names
    | none =>
      let name ← declared ctx
      let others ← if ← accept "," then (do fromOption (← importNames? ctx)) else pure []
      expectWord "from"
      pure (name :: others)
  source
  semicolon
  return .phrase names

/-- An export of a variable. A string names no variable, and leaves what is no expression. -/
def exportSpecifier : Parse Term := do
  let name ← exportedName
  if ← acceptWord "as" then
    let _ ← exportedName
  return match name with
  | some x => .reference x
  | none => .parenthesized []

def exportDefault (ctx : Context) : Parse Term := do
  if ← atAsyncFunction then
    advance
    advance
    return ← functionRest r ctx true false
  if ← acceptWord "function" then return ← functionRest r ctx false false
  if ← acceptWord "class" then
    let name ← identifier? ctx
    return .phrase ((name.map Term.binding).toList ++ (← classRest r ctx))
  let e ← r.assignment ctx
  semicolon
  return e

/-- An export declaration, from behind its word. -/
def exportRest (ctx : Context) : Parse Term := do
  if ← accept "*" then
    if ← acceptWord "as" then
      let _ ← exportedName
    expectWord "from"
    source
    semicolon
    return .phrase []
  if ← accept "\x7b" then
    let names ← list "\x7d" exportSpecifier
    let isForwarded ← acceptWord "from"
    if isForwarded then source
    semicolon
    return .phrase (if isForwarded then [] else names)
  if ← acceptWord "default" then return ← exportDefault r ctx
  if ← acceptWord "var" then return ← variableDeclaration r ctx false
  fromOption (← declaration? r ctx)

/-- An item of a module. -/
def moduleItem (ctx : Context) : Parse Term := do
  let next := (← get).next.token
  if (← atWord "import") && next != .punctuator "(" && next != .punctuator "." then
    advance
    return ← importRest ctx
  if ← acceptWord "export" then return ← exportRest r ctx
  item r ctx

end Grammar

/-! ## Scripts -/

/-- The rules that contain themselves, to a given depth. -/
def rules : Nat → Rules
  | 0 => ⟨fun _ => failure, fun _ => failure, fun _ => failure, fun _ => failure, fun _ => failure⟩
  | depth + 1 => {
      assignment := fun ctx => assignment (rules depth) ctx
      unary := fun ctx => (·.1) <$> unary (rules depth) ctx
      leftHandSide := fun ctx => leftHandSide (rules depth) ctx
      statement := fun ctx => statement (rules depth) ctx
      item := fun ctx => item (rules depth) ctx }

/-- The items of a module up to the end of the text. -/
def module (r : Rules) : Parse Term := do
  let items ← many do
    if (← get).token == .finish then return none
    else return some (← moduleItem r { awaits := true })
  return .phrase items

/-- Without a first line that names an interpreter. -/
def dropHashbang : List Char → List Char
  | '#' :: '!' :: rest => rest.dropWhile (!isLineEnd ·)
  | text => text

/-- The phrase of a script. Two levels of rules take at least one character, so the depth suffices. -/
def Term.ofModule? (text : List Char) : Option Term := do
  let (t, _) ← (module (rules (2 * text.length + 2))).run (Cursor.start (dropHashbang text))
  if t.isExpression then some t else none

end ScriptGraph.Ecma
