import MiniPascal.Binary64.Rounding

/-!
# Shortest decimals of a double

Among the decimal numbers that round to a given finite double, the ones with the fewest significant
digits are the shortest; `Binary64.shortest` picks the one nearest to the exact value, and the
larger one when two are equally near. The search goes over the decimal grids from coarse to fine.
On each grid only the two neighbours of the exact value matter, and it ends at the latest with the
exact value itself.
-/

namespace MiniPascal

/-- The decimal number `coefficient / 10 ^ places`. -/
structure Decimal where
  coefficient : Nat
  places : Nat
  deriving DecidableEq

namespace Binary64

/-- The exact value of a finite magnitude; every double has a finite decimal expansion. -/
def exactDecimal (magnitude : Nat) : Decimal :=
  let scale := scale magnitude
  if 1074 ≤ scale then ⟨significand magnitude * Nat.pow 2 (scale - 1074), 0⟩
  else ⟨significand magnitude * Nat.pow 5 (1074 - scale), 1074 - scale⟩

/-- Whether a decimal number rounds to the given magnitude. -/
def readsAs (magnitude : Nat) (decimal : Decimal) : Bool :=
  nearestMagnitude decimal.coefficient (Nat.pow 10 decimal.places) == magnitude

/-- The nearer one of the two multiples of `grid` around the coefficient of `exact`, or else the
other one, if it still rounds to the magnitude. -/
def onGrid? (magnitude : Nat) (exact : Decimal) (grid : Nat) : Option Decimal :=
  let below := exact.coefficient / grid * grid
  let above := below + grid
  let lower : Decimal := ⟨below, exact.places⟩
  let upper : Decimal := ⟨above, exact.places⟩
  let nearerFirst :=
    if above - exact.coefficient ≤ exact.coefficient - below then [upper, lower]
    else [lower, upper]
  nearerFirst.find? (readsAs magnitude)

/-- The shortest decimal number that rounds to the given finite magnitude. -/
def shortest (magnitude : Nat) : Decimal :=
  let exact := exactDecimal magnitude
  let size := (Text.digits exact.coefficient).length
  let grids := (List.range size).map fun kept => Nat.pow 10 (size - 1 - kept)
  (grids.findSome? (onGrid? magnitude exact)).getD exact

end Binary64

end MiniPascal
