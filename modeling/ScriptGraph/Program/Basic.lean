import ScriptGraph.Json.Basic

/-!
# Programs

A program is a body with definitions. Names are lexical: the definitions of a body are visible to
each other and to everything inside the body; a function's name is visible inside the function.

* `Expression`, `TemplatePart`, `Form`, `Definition` : the parts of a program;
* `Program.beq` : equality as a computation.
-/

namespace ScriptGraph

mutual

inductive Expression
  | value (v : Json)
  | raw (code : String)
  | ident (name : String)
  | template (parts : List TemplatePart)
  | member (object : Expression) (property : String) (optional : Bool)
  | index (object key : Expression)
  | call (callee : Expression) (args : List Expression) (optional pure : Bool)
  | construct (callee : Expression) (args : List Expression)
  | function (name : Option String) (params : List String) (definitions : List Definition)
      (body : Option Form)
  | await (value : Expression)
  | assign (target value : Expression)
  | module (address : String) (exported : Option String)
  | resource (key : String) (value : Json)
  | placeholder
  | use (name : String)

inductive TemplatePart
  | text (t : String)
  | expression (e : Expression)

/-- A body: statements, or an expression whose value is returned. -/
inductive Form
  | statements (list : List Expression)
  | value (e : Expression)

inductive Definition
  | mk (name : String) (value : Expression)

end

def Definition.name : Definition → String
  | .mk name _ => name

structure Program where
  definitions : List Definition := []
  body : Option Form := none

mutual

def Expression.beq : Expression → Expression → Bool
  | .value v, .value w => v == w
  | .raw a, .raw b => a == b
  | .ident a, .ident b => a == b
  | .template ps, .template qs => beqParts ps qs
  | .member e p o, .member f q n => e.beq f && p == q && o == n
  | .index e k, .index f l => e.beq f && k.beq l
  | .call e as o p, .call f bs n q => e.beq f && beqExpressions as bs && o == n && p == q
  | .construct e as, .construct f bs => e.beq f && beqExpressions as bs
  | .function m ps ds b, .function n qs es c =>
    m == n && ps == qs && beqDefinitions ds es && beqForm b c
  | .await e, .await f => e.beq f
  | .assign t e, .assign u f => t.beq u && e.beq f
  | .module a e, .module b f => a == b && e == f
  | .resource k v, .resource l w => k == l && v == w
  | .placeholder, .placeholder => true
  | .use a, .use b => a == b
  | _, _ => false

def beqExpressions : List Expression → List Expression → Bool
  | [], [] => true
  | e :: es, f :: fs => e.beq f && beqExpressions es fs
  | _, _ => false

def TemplatePart.beq : TemplatePart → TemplatePart → Bool
  | .text t, .text u => t == u
  | .expression e, .expression f => e.beq f
  | _, _ => false

def beqParts : List TemplatePart → List TemplatePart → Bool
  | [], [] => true
  | p :: ps, q :: qs => p.beq q && beqParts ps qs
  | _, _ => false

def Form.beq : Form → Form → Bool
  | .statements es, .statements fs => beqExpressions es fs
  | .value e, .value f => e.beq f
  | _, _ => false

def beqForm : Option Form → Option Form → Bool
  | none, none => true
  | some b, some c => b.beq c
  | _, _ => false

def Definition.beq : Definition → Definition → Bool
  | .mk a e, .mk b f => a == b && e.beq f

def beqDefinitions : List Definition → List Definition → Bool
  | [], [] => true
  | d :: ds, e :: es => d.beq e && beqDefinitions ds es
  | _, _ => false

end

def Program.beq (p q : Program) : Bool :=
  beqDefinitions p.definitions q.definitions && beqForm p.body q.body

end ScriptGraph
