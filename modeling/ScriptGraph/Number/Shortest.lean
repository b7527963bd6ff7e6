import ScriptGraph.Number.Binary64

/-!
# The fewest digits that read back

A binary64 number stands for every real number that rounds to it. `Finite64.shortest` finds the
coarsest decimal grid with a point among those, and of two such points the nearer one. Where both
are equally near, a `Tie` decides.
-/

namespace ScriptGraph

/-- The decimal `coefficient · 10 ^ exponent`. -/
structure Decimal where
  coefficient : Nat
  exponent : Int
deriving DecidableEq

/-- Which of two neighbours on a grid stands for the number halfway between them. -/
inductive Tie
  | toEven
  /-- Away from zero. -/
  | outward
deriving DecidableEq

/-- Whether the lower of two neighbours stands for the number between them; `twice` compares twice
that number with their sum. -/
def Tie.takesLower (tie : Tie) (lower : Nat) (twice : Ordering) : Bool :=
  match twice, tie with
  | .lt, _ => true
  | .gt, _ => false
  | .eq, .toEven => lower % 2 == 0
  | .eq, .outward => false

namespace Finite64

/-- The reals that round to `x`, with the ends when `closed`, are those between
`low · 2 ^ (exponent - 2)` and `high · 2 ^ (exponent - 2)`. Below a power of two they reach half
as far. -/
structure Interval where
  low : Nat
  middle : Nat
  high : Nat
  closed : Bool

def interval (x : Finite64) : Interval where
  low := 4 * x.significand -
    (if x.significand = leastSignificand ∧ x.exponent > minExponent then 1 else 2)
  middle := 4 * x.significand
  high := 4 * x.significand + 2
  closed := x.significand % 2 = 0

/-- Factors `(a, b)` such that `u · 10 ^ k` compares with `v · 2 ^ p` as `u · a` does with `v · b`. -/
def commonFactors (k p : Int) : Nat × Nat :=
  (Nat.pow 10 k.toNat * Nat.pow 2 (-p).toNat, Nat.pow 2 p.toNat * Nat.pow 10 (-k).toNat)

/-- The point of the grid of step `10 ^ k` that rounds to `x` and is nearest to it. -/
def gridPoint (tie : Tie) (x : Finite64) (k : Int) : Option Nat :=
  let i := x.interval
  let (a, b) := commonFactors k (x.exponent - 2)
  let below := i.middle * b / a
  let inside (d : Nat) : Bool :=
    if i.closed then i.low * b ≤ d * a && d * a ≤ i.high * b
    else i.low * b < d * a && d * a < i.high * b
  match inside below, inside (below + 1) with
  | true, true =>
    let twice := compare (2 * (i.middle * b)) ((2 * below + 1) * a)
    some (if tie.takesLower below twice then below else below + 1)
  | true, false => some below
  | false, true => some (below + 1)
  | false, false => none

/-- The first grid with a point, out of `steps` grids from step `10 ^ k` downwards. -/
def firstGrid (tie : Tie) (x : Finite64) : Nat → Int → Decimal
  | 0, k => ⟨0, k⟩
  | steps + 1, k =>
    match x.gridPoint tie k with
    | some d => ⟨d, k⟩
    | none => firstGrid tie x steps (k - 1)

/-- The decimal with the fewest digits that reads back as a number other than zero. The search
starts above the number's leading digit, and 17 digits always suffice. -/
def shortest (tie : Tie) (x : Finite64) : Decimal :=
  let leading := ((x.significand.log2 : Int) + x.exponent) * 30103 / 100000
  firstGrid tie x 21 (leading + 2)

end Finite64

end ScriptGraph
