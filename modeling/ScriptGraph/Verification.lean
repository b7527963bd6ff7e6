import ScriptGraph.Ecma.Module
import ScriptGraph.Report
import ScriptGraph.Text.Basic

/-!
# Verification of written scripts

* `Ecma.unbound?` : the first reference to a generated name that nothing in the script binds;
* `patternSize` : how much space the pattern takes by which generated names are recognised;
* `verifyScript` : whether a script parses and binds the generated names it refers to.

Scopes are not looked at: a name that is bound anywhere counts as bound.
-/

namespace ScriptGraph

namespace Ecma

def Name.reference? : Name → Option String
  | .reference x => some x
  | .binding _ => none

def Name.binding? : Name → Option String
  | .reference _ => none
  | .binding x => some x

/-- The first reference that has the form of a generated name and no binding. -/
def unbound? (stem : String) (names : List Name) : Option String :=
  let bound := names.filterMap Name.binding?
  (names.filterMap Name.reference?).find? fun x => isGenerated stem x && !bound.contains x

end Ecma

/-- The bytes that the pattern of the generated names may take. -/
def patternLimit : Nat := 10 * 1024 * 1024

/-- The bytes that the pattern of the names with a stem takes: 32 for each state of its automaton,
which has one for each byte of the stem and nine more, and 24 for the branches of two of them. -/
def patternSize (stem : String) : Nat := 32 * (stem.utf8ByteSize + 9) + 24

/-- Whether a script parses and binds the names with a stem that it refers to. These are recognised
by a pattern, which is made when the script has been parsed. -/
def verifyScript (code stem : String) : Except Fault Unit :=
  match Ecma.Term.ofModule? code.toList with
  | none => .error (.unparsable code)
  | some t =>
    if patternLimit < patternSize stem then .error (.stemTooLong stem patternLimit)
    else
      match Ecma.unbound? stem t.names with
      | some name => .error (.unboundName name code)
      | none => .ok ()

end ScriptGraph
