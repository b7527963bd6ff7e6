import ScriptGraph.Ecma.Term
import ScriptGraph.Ecma.Token

/-!
# A place in a script

* `Cursor` : the next token of a text, and where it begins and ends;
* `Parse` : a step that reads from a cursor, or fails;
* `Parse.many` : a step taken again and again, as often as it has an answer;
* `Parse.list` : items with commas between them.
-/

namespace ScriptGraph.Ecma

structure Cursor where
  token : Token
  /-- Whether a line ends before the token. -/
  fresh : Bool
  /-- The text from the token on. -/
  text : List Char
  /-- The text after the token. -/
  rest : List Char
  /-- More than the number of tokens of the script. -/
  bound : Nat

/-- The place of the first token of a text. -/
def Cursor.ofText (bound : Nat) (text : List Char) : Cursor :=
  match skipTrivia .between false text with
  | none => ⟨.broken, false, [], [], bound⟩
  | some (fresh, text) =>
    match readToken text with
    | some (token, rest) => ⟨token, fresh, text, rest, bound⟩
    | none => ⟨.broken, fresh, text, [], bound⟩

/-- The place of the first token of a script. -/
def Cursor.start (script : List Char) : Cursor := Cursor.ofText (script.length + 2) script

def Cursor.next (c : Cursor) : Cursor := Cursor.ofText c.bound c.rest

/-- A step that reads from a cursor, or fails. -/
abbrev Parse := StateT Cursor Option

namespace Parse

def advance : Parse Unit := modify Cursor.next

/-- Goes on behind what the caller read from the text itself. -/
def moveTo (rest : List Char) : Parse Unit := modify fun c => Cursor.ofText c.bound rest

def fromOption {α : Type} (a : Option α) : Parse α := fun c => a.map (·, c)

def require (b : Bool) : Parse Unit := if b then pure () else failure

/-- Whether a punctuator comes next. -/
def at? (p : String) : Parse Bool := return (← get).token = .punctuator p

/-- Whether a word comes next; a word that is spelled with an escape is none. -/
def atWord (w : String) : Parse Bool := return (← get).token = .name w false

def accept (p : String) : Parse Bool := do
  let found ← at? p
  if found then advance
  return found

def acceptWord (w : String) : Parse Bool := do
  let found ← atWord w
  if found then advance
  return found

def expect (p : String) : Parse Unit := do require (← accept p)

def expectWord (w : String) : Parse Unit := do require (← acceptWord w)

/-- Whether the next token begins a line. -/
def atFresh : Parse Bool := return (← get).fresh

/-- The end of a statement: a semicolon, or a place where one can be left out. -/
def semicolon : Parse Unit := do
  unless ← accept ";" do
    let c ← get
    require (c.fresh || c.token == .finish || c.token == .punctuator "\x7d")

/-- Takes a step until it has no answer, `bound` times at most. -/
def iterate {α : Type} (step : α → Parse (Option α)) : Nat → α → Parse α
  | 0, _ => failure
  | bound + 1, a => do
    match ← step a with
    | some a => iterate step bound a
    | none => return a

/-- Takes a step until it has no answer. Every answer takes a token, so there are not more answers
than tokens. -/
def repeated {α : Type} (step : α → Parse (Option α)) (a : α) : Parse α := do
  iterate step (← get).bound a

/-- The answers of a step, as long as it has one. -/
def many {α : Type} (step : Parse (Option α)) : Parse (List α) := do
  let answers ← repeated (fun l => return (← step).map (· :: l)) []
  return answers.reverse

/-- Items with commas between them, up to `closing`. A comma at the end leaves a hole. -/
def list (closing : String) (item : Parse Term) : Parse (List Term) := do
  if ← accept closing then return []
  let first ← item
  let items ← repeated (fun l => do
    if ← accept closing then return none
    expect ","
    if ← at? closing then return some (.hole :: l) else return some ((← item) :: l)) [first]
  return items.reverse

end Parse

end ScriptGraph.Ecma
