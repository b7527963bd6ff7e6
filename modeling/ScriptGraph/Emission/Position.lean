import ScriptGraph.Graph.Basic
import ScriptGraph.Text.Basic

/-!
# Where an expression stands

* `Position` : whether the surrounding text delimits an expression;
* `positioned` : the parts of a template with their positions;
* `guardBlock` : keeps text that starts with a brace from being read as a block.
-/

namespace ScriptGraph

/-- Where an expression stands. -/
inductive Position
  /-- Delimited on both sides. -/
  | standalone
  /-- Next to an operator. -/
  | operand
deriving DecidableEq

/-- The characters that turn a following equals sign into an operator that takes operands. -/
def operatorChars : List Char :=
  ['=', '!', '<', '>', '+', '-', '*', '/', '%', '&', '|', '^', '?']

/-- Whether an expression after `text` is delimited on its left. -/
def opensExpression (text : String) : Bool :=
  match (trimEnd text.toList).reverse with
  | '>' :: '=' :: _ => true
  | '=' :: before => !(before.head?.any operatorChars.contains)
  | c :: _ => ['(', '[', ',', '\x7b', ':', ';'].contains c
  | [] => false

/-- Whether an expression before `text` is delimited on its right. -/
def closesExpression (text : String) : Bool :=
  (trimStart text.toList).head?.any [')', ']', ',', '\x7d', ';', ':'].contains

/-- The position between two parts of a template that itself stands at `outer`. -/
def positionBetween (outer : Position) (before after : Option Part) : Position :=
  let delimited (part : Option Part) (test : String → Bool) : Bool :=
    match part with
    | none => outer = .standalone
    | some (.text t) => test t
    | some (.node _) => false
  if delimited before opensExpression && delimited after closesExpression then .standalone
  else .operand

/-- Parts with the positions they have after `before`. -/
def positionedAfter (outer : Position) : Option Part → List Part → List (Part × Position)
  | _, [] => []
  | before, p :: rest =>
    (p, positionBetween outer before rest.head?) :: positionedAfter outer (some p) rest

/-- The parts of a template that stands at `outer`, with their positions. -/
def positioned (outer : Position) (parts : List Part) : List (Part × Position) :=
  positionedAfter outer none parts

/-- Whether text would be read as a block at the start of a statement or an arrow's body. -/
def startsLikeBlock (cs : List Char) : Bool := (trimStart cs).head? = some '\x7b'

def guardBlock (cs : List Char) : List Char :=
  if startsLikeBlock cs then parenthesized cs else cs

end ScriptGraph
