import ScriptGraph.Number.Shortest

/-!
# How numbers are written

* `Decimal.plain` : positional notation, without an exponent;
* `natText`, `intText` : whole numbers;
* `Finite64.jsonChars` : a number of a JSON text, positional from `0.00001` to below `10 ^ 16`;
* `Binary64.literal` : a number in a script, with parentheses around negative ones, so it can stand
  beside any operator;
* `bigIntegerLiteral` : a big integer in a script.
-/

namespace ScriptGraph

def natText (n : Nat) : List Char := Nat.toDigits 10 n

def intText (i : Int) : List Char :=
  if i < 0 then '-' :: natText i.natAbs else natText i.natAbs

def parenthesized (cs : List Char) : List Char := '(' :: cs ++ [')']

namespace Decimal

/-- The place of the point: the value is `0.d₁d₂… · 10 ^ point`. -/
def point (d : Decimal) : Int := (natText d.coefficient).length + d.exponent

/-- Positional notation; `whole` is written after an integer. -/
def plain (d : Decimal) (whole : List Char) : List Char :=
  let digits := natText d.coefficient
  if d.exponent ≥ 0 then digits ++ List.replicate d.exponent.toNat '0' ++ whole
  else if d.point > 0 then digits.take d.point.toNat ++ '.' :: digits.drop d.point.toNat
  else '0' :: '.' :: List.replicate (-d.point).toNat '0' ++ digits

/-- One digit before the point, then the rest, then a signed exponent. -/
def scientific (d : Decimal) : List Char :=
  let digits := natText d.coefficient
  let exponent := d.point - 1
  digits.take 1 ++ (if digits.length > 1 then '.' :: digits.drop 1 else []) ++
    'e' :: (if exponent < 0 then '-' else '+') :: natText exponent.natAbs

end Decimal

namespace Finite64

/-- A number other than an integer in a JSON text. -/
def jsonChars (x : Finite64) : List Char :=
  let unsigned :=
    if x.significand = 0 then ['0', '.', '0']
    else
      let d := x.shortest .toEven
      if -5 < d.point ∧ d.point ≤ 16 then d.plain ['.', '0'] else d.scientific
  if x.negative then '-' :: unsigned else unsigned

def plainChars (x : Finite64) : List Char :=
  let unsigned := if x.significand = 0 then ['0'] else (x.shortest .outward).plain []
  if x.negative then parenthesized ('-' :: unsigned) else unsigned

end Finite64

/-- A number in a script. -/
def Binary64.literal : Binary64 → String
  | .nan => "NaN"
  | .infinite false => "Infinity"
  | .infinite true => "(-Infinity)"
  | .finite x => String.ofList x.plainChars

/-- A big integer in a script, marked by the suffix `n`. -/
def bigIntegerLiteral (i : Int) : String :=
  let text := intText i ++ ['n']
  String.ofList (if i < 0 then parenthesized text else text)

end ScriptGraph
