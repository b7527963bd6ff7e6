/-!
# Binary floating point numbers, exactly

* `Finite64` : a finite binary64 number, `± significand · 2 ^ exponent`;
* `Binary64` : these, the infinities and the absence of a number;
* `Finite64.nearest` : the binary64 number nearest to a fraction, ties to the even significand;
* `Finite64.ofDecimal` : the binary64 number nearest to a decimal.
-/

namespace ScriptGraph

/-- The number `± significand · 2 ^ exponent`. Either the significand has 53 bits, or the exponent
is `-1074` and it has fewer. -/
structure Finite64 where
  negative : Bool
  significand : Nat
  exponent : Int
deriving DecidableEq

inductive Binary64
  | nan
  | infinite (negative : Bool)
  | finite (x : Finite64)
deriving DecidableEq

/-- The natural number nearest to `n / d`, ties to even. -/
def roundHalfEven (n d : Nat) : Nat :=
  let low := n / d
  let rest := 2 * (n % d)
  if rest < d then low
  else if d < rest then low + 1
  else if low % 2 = 0 then low else low + 1

namespace Finite64

/-- The exponent of the smallest numbers. -/
def minExponent : Int := -1074

/-- The exponent of the largest numbers. -/
def maxExponent : Int := 971

/-- The least significand of 53 bits. -/
def leastSignificand : Nat := Nat.pow 2 52

def zero (negative : Bool) : Finite64 := ⟨negative, 0, minExponent⟩

/-- `n / d / 2 ^ q` as a fraction of natural numbers. -/
def scale (n d : Nat) (q : Int) : Nat × Nat :=
  if q ≥ 0 then (n, d * Nat.pow 2 q.toNat) else (n * Nat.pow 2 (-q).toNat, d)

/-- The exponent at which `n / d` has a significand of 53 bits, or the smallest one. -/
def exponentOf (n d : Nat) : Int :=
  let q := max ((n.log2 : Int) - d.log2 - 52) minExponent
  let (a, b) := scale n d q
  if a / b < leastSignificand ∧ q > minExponent then q - 1 else q

/-- The number nearest to `n / d`, or `none` when that is too large. -/
def nearest (negative : Bool) (n d : Nat) : Option Finite64 :=
  if n = 0 then some (zero negative)
  else
    let q := exponentOf n d
    let (a, b) := scale n d q
    let m := roundHalfEven a b
    let x := if m = 2 * leastSignificand then (⟨negative, leastSignificand, q + 1⟩ : Finite64)
      else ⟨negative, m, q⟩
    if x.exponent > maxExponent then none else some x

/-- The number nearest to `± coefficient · 10 ^ exponent`, or `none` when that is too large. Beyond
400 places either way the answer does not depend on the digits. -/
def ofDecimal (negative : Bool) (coefficient : Nat) (exponent : Int) : Option Finite64 :=
  let magnitude := ((Nat.toDigits 10 coefficient).length : Int) + exponent
  if coefficient = 0 ∨ magnitude < -400 then some (zero negative)
  else if magnitude > 400 then none
  else if exponent ≥ 0 then nearest negative (coefficient * Nat.pow 10 exponent.toNat) 1
  else nearest negative coefficient (Nat.pow 10 (-exponent).toNat)

end Finite64

end ScriptGraph
