import SlotScript.Decimal.Binary64

/-!
# The shortest decimal that reads back

Of the decimals that round to a given double, `shortest` finds the one with the fewest digits.
The reals that round to `m · 2 ^ q` form an interval around it, whose ends belong to it when `m`
is even. A decimal grid is the set of multiples of a power of ten. If any point of a grid lies
in the interval, one of the two grid points around the number does, so the coarsest grid with
such a point gives the fewest digits.
-/

namespace SlotScript.Decimal

/-- A decimal number `digits · 10 ^ exponent`. -/
structure Digits where
  /-- The digits as one whole number. -/
  digits : Nat
  /-- The power of ten that the last digit stands for. -/
  exponent : Int
deriving DecidableEq, Repr

/-- The numbers that round to one double, times `4 / 2 ^ q`. -/
structure Interval where
  /-- The least bound. -/
  low : Nat
  /-- The double itself. -/
  mid : Nat
  /-- The greatest bound. -/
  high : Nat
  /-- Whether the bounds round to the double too. -/
  closed : Bool

/-- The interval of `m · 2 ^ q`. Below a power of two the doubles are twice as dense. -/
def Interval.around (m : Nat) (q : Int) : Interval where
  low := if m = twoPow 52 ∧ minExponent < q then 4 * m - 1 else 4 * m - 2
  mid := 4 * m
  high := 4 * m + 2
  closed := m % 2 = 0

/-- Whether `n / d` lies in the interval. -/
def Interval.contains (i : Interval) (n d : Nat) : Bool :=
  if i.closed then i.low * d ≤ n && n ≤ i.high * d else i.low * d < n && n < i.high * d

/-- The point of the grid `10 ^ p` that stands for the double `m · 2 ^ q`, if one of the two grid
points around it rounds to it. Of two such points the nearer is taken, at equal distance the
greater. -/
def gridPoint (m : Nat) (q p : Int) : Option Digits :=
  let interval := Interval.around m q
  -- a multiple `k` of the grid is `k * unit / scale` in the units of the interval
  let unit := tenPow p.toNat * twoPow (2 - q).toNat
  let scale := tenPow (-p).toNat * twoPow (q - 2).toNat
  let below := interval.mid * scale / unit
  let above := below + 1
  let hitBelow := interval.contains (below * unit) scale
  let hitAbove := interval.contains (above * unit) scale
  let aboveIsNearer :=
    above * unit - interval.mid * scale ≤ interval.mid * scale - below * unit
  if hitAbove && (!hitBelow || aboveIsNearer) then some ⟨above, p⟩
  else if hitBelow then some ⟨below, p⟩
  else none

/-- The exponents of the grids, coarsest first. The greatest double is below `10 ^ 309`, and the
gaps between the least doubles exceed `10 ^ (-324)`. -/
def gridExponents : List Int :=
  (List.range 640).map fun (i : Nat) => (309 : Int) - i

/-- All the decimal digits of `m · 2 ^ q`. -/
def exactDigits (m : Nat) (q : Int) : Digits :=
  ⟨m * twoPow q.toNat * Nat.pow 5 (-q).toNat, min q 0⟩

/-- The shortest decimal that rounds to the double `m · 2 ^ q`. The digits of the number itself
always round to it. -/
def shortest (m : Nat) (q : Int) : Digits :=
  if m = 0 then ⟨0, 0⟩ else (gridExponents.findSome? (gridPoint m q)).getD (exactDigits m q)

end SlotScript.Decimal
