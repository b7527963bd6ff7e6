import ScriptGraph.Ecma.Cursor

/-!
# Expressions of scripts

The grammar of expressions, functions and classes.

* `Context` : which words have a meaning at a place;
* `Rules` : the rules that contain themselves, over which the others are defined;
* `primary`, `leftHandSide`, `unary`, `chain`, `assignment`, `expression` : expressions;
* `functionRest`, `arrow`, `classRest` : functions and classes.

Early errors are looked for where they concern the shape of a phrase, such as the left side of an
assignment. Words that are reserved only in strict code are names here; `await` is none, since the
script is a module.
-/

namespace ScriptGraph.Ecma

open Parse

/-- Which words have a meaning at a place. -/
structure Context where
  awaits : Bool := false
  yields : Bool := false
  returns : Bool := false
  /-- Whether `in` is an operator. -/
  membership : Bool := true

/-- Inside brackets, where `in` is an operator again. -/
def Context.inside (ctx : Context) : Context := { ctx with membership := true }

/-- The rules that contain themselves. -/
structure Rules where
  assignment : Context → Parse Term
  unary : Context → Parse Term
  leftHandSide : Context → Parse Term
  /-- A statement, but not a declaration. -/
  statement : Context → Parse Term
  /-- A statement or a declaration. -/
  item : Context → Parse Term

def reserved : List String :=
  ["await", "break", "case", "catch", "class", "const", "continue", "debugger", "default", "delete",
    "do", "else", "enum", "export", "extends", "false", "finally", "for", "function", "if", "import",
    "in", "instanceof", "let", "new", "null", "return", "super", "switch", "this", "throw", "true",
    "try", "typeof", "var", "void", "while", "with"]

/-- Whether a word can be the name of a variable. -/
def Context.admits (ctx : Context) (word : String) : Bool :=
  !reserved.contains word && !(ctx.yields && word == "yield")

/-- The name of a variable, if one comes next. -/
def identifier? (ctx : Context) : Parse (Option String) := do
  match (← get).token with
  | .name x _ =>
    if ctx.admits x then
      advance
      return some x
    else return none
  | _ => return none

def identifier (ctx : Context) : Parse String := do
  match ← identifier? ctx with
  | some x => return x
  | none => failure

/-- The name of a declaration. -/
def declared (ctx : Context) : Parse Term := return .binding (← identifier ctx)

/-- The word `w` in front of the key of a property or of a member. -/
def modifier (w : String) : Parse Bool := do
  let c ← get
  let next := c.next
  let hasKey : Bool := match next.token with
    | .name .. | .privateName | .number | .string _ => true
    | .punctuator p => p == "[" || (p == "*" && (w == "async" || w == "static"))
    | _ => false
  if c.token = .name w false ∧ hasKey ∧ !(w == "async" && next.fresh) then
    advance
    return true
  else return false

/-- The kinds of methods. -/
inductive Method
  | plain
  | getter
  | setter
deriving DecidableEq

/-- Whether a method of a kind can have some parameters, of which a hole is none. -/
def Method.takes (kind : Method) (params : List Term) : Bool :=
  match kind, params.filter (!·.isHole) with
  | .plain, _ => true
  | .getter, params => params.isEmpty
  | .setter, [t] => !t.isSpread
  | .setter, _ => false

/-- What stands before the key of a method. -/
structure Heading where
  kind : Method := .plain
  isAsync : Bool := false
  isGenerator : Bool := false

/-- Whether a heading says more than that a key follows. -/
def Heading.isMarked (h : Heading) : Bool := h.kind != .plain || h.isAsync || h.isGenerator

def heading : Parse Heading := do
  if ← modifier "get" then return { kind := .getter }
  if ← modifier "set" then return { kind := .setter }
  let isAsync ← modifier "async"
  return { isAsync, isGenerator := ← accept "*" }

def binaryOperators : List String :=
  ["**", "*", "/", "%", "+", "-", "<<", ">>", ">>>", "<", ">", "<=", ">=", "==", "!=", "===", "!==",
    "&", "^", "|", "&&", "||", "??"]

def assignmentOperators : List String :=
  ["+=", "-=", "*=", "/=", "%=", "**=", "<<=", ">>=", ">>>=", "&=", "^=", "|=", "&&=", "||=", "??="]

/-- The binary operator that comes next. -/
def operator? (ctx : Context) : Parse (Option String) := do
  let found := match (← get).token with
    | .punctuator p => if binaryOperators.contains p then some p else none
    | .name w false =>
      if w == "instanceof" || (w == "in" && ctx.membership) then some w else none
    | _ => none
  if found.isSome then advance
  return found

/-- The operators of a chain. Unless there are parentheses, `??` does not go with `&&` and `||`. -/
def compatible (operators : List String) : Bool :=
  !(operators.contains "??" && (operators.contains "&&" || operators.contains "||"))

section Grammar

variable (r : Rules)

def expression (ctx : Context) : Parse Term := do
  let first ← r.assignment ctx
  let rest ← many do
    if ← accept "," then return some (← r.assignment ctx) else return none
  return if rest.isEmpty then first else .phrase (first :: rest)

/-! ## Lists and literals -/

def spreadOrAssignment (ctx : Context) : Parse Term := do
  if ← accept "..." then return .spread (← r.assignment ctx.inside)
  r.assignment ctx.inside

/-- Arguments, from behind the opening parenthesis. -/
def arguments (ctx : Context) : Parse (List Term) := list ")" (spreadOrAssignment r ctx)

/-- An array, from behind its bracket. A hole after a spread tells that a comma stands there. -/
def array (ctx : Context) : Parse Term := do
  let elements ← repeated (fun l => do
    if ← accept "]" then return none
    if ← accept "," then return some (.hole :: l)
    let t ← spreadOrAssignment r ctx
    if ← at? "]" then return some (t :: l)
    expect ","
    return some (if t.isSpread then .hole :: t :: l else t :: l)) []
  return .array elements.reverse

/-- The pieces of a template with the expressions between them. -/
def template (tagged : Bool) (ctx : Context) : Parse Term := do
  let piece : Parse TemplatePiece := do
    let p ← fromOption (readTemplate true (← get).rest)
    require (tagged || p.sound)
    moveTo p.rest
    return p
  let (_, parts) ← repeated (fun (p, parts) => do
    if p.last then return none
    let e ← expression r ctx.inside
    require (← at? "\x7d")
    return some (← piece, e :: parts)) (← piece, [])
  return .phrase parts.reverse

/-- A regular expression, at its first slash. -/
def pattern : Parse Term := do
  moveTo (← fromOption (readPattern ((← get).text.drop 1)))
  return .phrase []

/-- A key: the expressions in it, and its name if it could be that of a variable. -/
def key (ctx : Context) : Parse (List Term × Option String) := do
  let c ← get
  advance
  match c.token with
  | .name x _ => return ([], some x)
  | .string _ | .number => return ([], none)
  | .punctuator "[" =>
    let e ← r.assignment ctx.inside
    expect "]"
    return ([e], none)
  | _ => failure

/-! ## Functions -/

/-- Parameters, from their parenthesis on. -/
def parameters (ctx : Context) : Parse (List Term) := do
  expect "("
  fromOption (Term.toBindings? (← arguments r ctx))

/-- The items between braces. -/
def block (ctx : Context) : Parse (List Term) := do
  expect "\x7b"
  let items ← many do
    if ← at? "\x7d" then return none else return some (← r.item ctx)
  expect "\x7d"
  return items

def functionContext (isAsync isGenerator : Bool) : Context :=
  { awaits := isAsync, yields := isGenerator, returns := true }

/-- Parameters and body of a method. -/
def method (h : Heading) : Parse (List Term) := do
  let ctx := functionContext h.isAsync h.isGenerator
  let params ← parameters r ctx
  require (h.kind.takes params)
  return params ++ (← block r ctx)

/-- A function from behind the word `function`. In an expression the name belongs to the inside. -/
def functionRest (ctx : Context) (isAsync named : Bool) : Parse Term := do
  let isGenerator ← accept "*"
  let inner := functionContext isAsync isGenerator
  let name ← if named then some <$> identifier ctx else identifier? inner
  let params ← parameters r inner
  let body ← block r inner
  return .phrase ((name.map Term.binding).toList ++ params ++ body)

/-- An arrow function, from its arrow on. -/
def arrow (ctx : Context) (isAsync : Bool) (params : List Term) : Parse Term := do
  expect "=>"
  let inner := functionContext isAsync false
  if ← at? "\x7b" then return .phrase (params ++ (← block r inner))
  let e ← r.assignment { inner with membership := ctx.membership }
  return .phrase (params ++ [e])

/-- The parameter of an arrow function that begins with `async` and has no parentheses. -/
def asyncParameter? (ctx : Context) : Parse (Option Term) := do
  unless ← atWord "async" do return none
  let next := (← get).next
  match next.token with
  | .name x _ =>
    let arrow := next.next
    if !next.fresh ∧ ctx.admits x ∧ arrow.token = .punctuator "=>" ∧ !arrow.fresh then
      advance
      advance
      return some (.binding x)
    else return none
  | _ => return none

/-! ## Classes -/

/-- A key of a member. -/
def memberKey (ctx : Context) : Parse (List Term) := do
  if (← get).token = .privateName then
    advance
    return []
  return (← key r ctx).1

/-- A member of a class. -/
def classMember (ctx : Context) : Parse Term := do
  if ← accept ";" then return .phrase []
  let c ← get
  if c.token = .name "static" false ∧ c.next.token = .punctuator "\x7b" then
    advance
    return .phrase (← block r {})
  let _ ← modifier "static"
  let h ← heading
  let key ← memberKey r ctx
  if h.isMarked || (← at? "(") then return .phrase (key ++ (← method r h))
  let value ← if ← accept "=" then some <$> r.assignment {} else pure none
  semicolon
  return .phrase (key ++ value.toList)

/-- A class from behind its name. -/
def classRest (ctx : Context) : Parse (List Term) := do
  let heritage ← if ← acceptWord "extends" then some <$> r.leftHandSide ctx else pure none
  expect "\x7b"
  let members ← many do
    if ← accept "\x7d" then return none else return some (← classMember r ctx)
  return heritage.toList ++ members

/-! ## Objects -/

def property (ctx : Context) : Parse Term := do
  if ← accept "..." then return .spread (← r.assignment ctx.inside)
  let h ← heading
  let (key, name) ← key r ctx
  if h.isMarked || (← at? "(") then return .phrase (key ++ (← method r h))
  if ← accept ":" then return .property key (← r.assignment ctx.inside)
  let x ← fromOption name
  require (ctx.admits x)
  if ← accept "=" then return .defaulted x (← r.assignment ctx.inside)
  return .shorthand x

/-- An object, from behind its brace. A hole after a spread tells that a comma stands there. -/
def object (ctx : Context) : Parse Term := do
  let properties ← repeated (fun l => do
    if ← accept "\x7d" then return none
    let t ← property r ctx
    if ← at? "\x7d" then return some (t :: l)
    expect ","
    return some (if t.isSpread then .hole :: t :: l else t :: l)) []
  return .object properties.reverse

/-! ## Operands -/

def variableReference (ctx : Context) : Parse Term := return .reference (← identifier ctx)

/-- An import as a call, or what is known about the module. -/
def importExpression (ctx : Context) : Parse Term := do
  advance
  if ← accept "." then
    expectWord "meta"
    return .phrase []
  expect "("
  let items := (← arguments r ctx).filter (!·.isHole)
  require (!items.isEmpty && items.length ≤ 2 && items.all (!·.isSpread))
  return .phrase items

/-- Whether an import as a call comes next. -/
def atImportCall : Parse Bool := do
  return (← atWord "import") && (← get).next.token == .punctuator "("

def word (ctx : Context) : String → Parse Term
  | "this" | "null" | "true" | "false" => do
    advance
    return .phrase []
  | "super" => do
    advance
    require ((← at? "(") || (← at? ".") || (← at? "["))
    return .phrase []
  | "function" => do
    advance
    functionRest r ctx false false
  | "class" => do
    advance
    let name ← identifier? ctx
    return .phrase ((name.map Term.binding).toList ++ (← classRest r ctx))
  | "import" => importExpression r ctx
  | "async" => do
    let next := (← get).next
    if next.token = .name "function" false ∧ !next.fresh then
      advance
      advance
      functionRest r ctx true false
    else variableReference ctx
  | _ => variableReference ctx

def primary (ctx : Context) : Parse Term := do
  match (← get).token with
  | .name w false => word r ctx w
  | .name _ true => variableReference ctx
  | .number | .string _ =>
    advance
    return .phrase []
  | .template => template r false ctx
  | .punctuator "(" =>
    advance
    return .parenthesized (← arguments r ctx)
  | .punctuator "[" =>
    advance
    array r ctx
  | .punctuator "\x7b" =>
    advance
    object r ctx
  | .punctuator "/" | .punctuator "/=" => pattern
  | _ => failure

/-- An operand with what is done to it so far. -/
structure Operand where
  term : Term
  /-- Whether an optional access is part of it. -/
  optional : Bool := false

/-- The name of a member, of any spelling. -/
def memberName : Parse Unit := do
  match (← get).token with
  | .name .. | .privateName => advance
  | _ => failure

def Operand.member (o : Operand) (inner : List Term) : Operand :=
  { o with term := if o.optional then .phrase (o.term :: inner) else .member (o.term :: inner) }

def indexed (ctx : Context) : Parse Term := do
  let e ← expression r ctx.inside
  expect "]"
  return e

/-- An access or a call after an operand. The operand of `new` takes neither calls nor optional
accesses. -/
def suffix? (constructing : Bool) (ctx : Context) (o : Operand) : Parse (Option Operand) := do
  match (← get).token with
  | .punctuator "." =>
    advance
    memberName
    return some (o.member [])
  | .punctuator "[" =>
    advance
    return some (o.member [← indexed r ctx])
  | .template =>
    require (!o.optional)
    return some { o with term := .phrase [o.term, ← template r true ctx] }
  | .punctuator "(" =>
    if constructing then return none
    advance
    return some { o with term := .phrase (o.term :: (← arguments r ctx)) }
  | .punctuator "?." =>
    require (!constructing)
    advance
    if ← accept "(" then return some ⟨.phrase (o.term :: (← arguments r ctx)), true⟩
    if ← accept "[" then return some ⟨.phrase [o.term, ← indexed r ctx], true⟩
    memberName
    return some ⟨.phrase [o.term], true⟩
  | _ => return none

/-- What comes after some words `new`: each of them takes the next arguments, if there are any. -/
def construction (ctx : Context) : Nat → Operand → Parse Operand
  | 0, o => return o
  | n + 1, o => do
    let isGiven ← accept "("
    let args ← if isGiven then arguments r ctx else pure []
    let o ← repeated (suffix? r (n != 0 || !isGiven) ctx) { term := .phrase (o.term :: args) }
    construction ctx n o

/-- The word `async` with parentheses on the same line, if they come next. -/
def asyncCall? (ctx : Context) : Parse (Option Term) := do
  unless ← atWord "async" do return none
  let next := (← get).next
  if next.token = .punctuator "(" ∧ !next.fresh then
    advance
    advance
    return some (.asyncCall (← arguments r ctx))
  else return none

def leftHandSide (ctx : Context) : Parse Term := do
  if let some t ← asyncCall? r ctx then
    return (← repeated (suffix? r false ctx) { term := t }).term
  let news ← many (do if ← acceptWord "new" then return some () else return none)
  require (news.isEmpty || !(← atImportCall))
  if (← at? ".") && !news.isEmpty then
    advance
    expectWord "target"
    return ← constructed (news.length - 1) { term := .phrase [] }
  constructed news.length { term := ← primary r ctx }
where
  /-- An operand with its suffixes, in front of which some words `new` stand. -/
  constructed (news : Nat) (o : Operand) : Parse Term := do
    let first ← repeated (suffix? r (news != 0) ctx) o
    let o ← construction r ctx news first
    return (← repeated (suffix? r false ctx) o).term

/-! ## Operators -/

/-- Whether one of some punctuators or words comes next; it is taken. -/
def acceptOperator (punctuators words : List String) : Parse Bool := do
  let found := match (← get).token with
    | .punctuator p => punctuators.contains p
    | .name w false => words.contains w
    | _ => false
  if found then advance
  return found

/-- An operand with the operators in front of it or behind it; the flag tells that there are any in
front. -/
def unary (ctx : Context) : Parse (Term × Bool) := do
  if ← acceptOperator ["+", "-", "!", "~"] (["typeof", "void", "delete"] ++
      if ctx.awaits then ["await"] else []) then
    return (.phrase [← r.unary ctx], true)
  if ← acceptOperator ["++", "--"] [] then
    let t ← r.unary ctx
    require t.isSimpleTarget
    return (.phrase [t], false)
  let t ← leftHandSide r ctx
  if ← atFresh then return (t, false)
  if ← acceptOperator ["++", "--"] [] then
    require t.isSimpleTarget
    return (.phrase [t], false)
  return (t, false)

/-- An operand of a chain; a private name is one in front of `in`. -/
def chainOperand (ctx : Context) : Parse (Term × Bool) := do
  if (← get).token = .privateName then
    advance
    require (← atWord "in")
    return (.phrase [], false)
  unary r ctx

/-- A chain of binary operators. -/
structure Chain where
  /-- Last operand first. -/
  operands : List Term
  operators : List String := []
  /-- Whether an operator stands in front of the last operand. -/
  marked : Bool

def chain (ctx : Context) : Parse Term := do
  let (first, marked) ← chainOperand r ctx
  let c ← repeated (fun (c : Chain) => do
    match ← operator? ctx with
    | none => return none
    | some op =>
      require !(op == "**" && c.marked)
      let (t, marked) ← chainOperand r ctx
      return some { operands := t :: c.operands, operators := op :: c.operators, marked })
    { operands := [first], marked }
  require (compatible c.operators)
  match c.operands with
  | [t] => return t
  | ts => return .phrase ts.reverse

/-- What comes after the word `yield`. -/
def yieldRest (ctx : Context) : Parse Term := do
  if ← atFresh then return .phrase []
  if ← accept "*" then return .phrase [← r.assignment ctx]
  let ended := match (← get).token with
    | .punctuator p => [")", "]", "\x7d", ",", ";", ":"].contains p
    | .name w false => w == "in" || w == "of"
    | .finish => true
    | _ => false
  if ended then return .phrase [] else return .phrase [← r.assignment ctx]

/-- The parameters that stand before an arrow; the flag tells that `async` stands before them. -/
def arrowParameters? : Term → Option (Bool × List Term)
  | .reference x => some (false, [.binding x])
  | .parenthesized ts => (Term.toBindings? ts).map (false, ·)
  | .asyncCall ts => (Term.toBindings? ts).map (true, ·)
  | _ => none

def assignment (ctx : Context) : Parse Term := do
  if ctx.yields then
    if ← acceptWord "yield" then return ← yieldRest r ctx
  if let some param ← asyncParameter? ctx then return ← arrow r ctx true [param]
  let t ← chain r ctx
  if (← at? "=>") && !(← atFresh) then
    let (isAsync, params) ← fromOption (arrowParameters? t)
    return ← arrow r ctx isAsync params
  if ← accept "?" then
    let yes ← r.assignment ctx.inside
    expect ":"
    return .phrase [t, yes, ← r.assignment ctx]
  if ← accept "=" then
    let target ← fromOption t.toTarget?
    return .assign target (← r.assignment ctx)
  if ← acceptOperator assignmentOperators [] then
    require t.isSimpleTarget
    return .phrase [t, ← r.assignment ctx]
  return t

end Grammar

end ScriptGraph.Ecma
