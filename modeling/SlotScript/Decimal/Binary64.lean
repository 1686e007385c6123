/-!
# Binary floating point numbers

The 64 bits of a double, read as an exact number and written as the double nearest to an exact
number. A finite double is `± m · 2 ^ q` with `m < 2 ^ 53`; the fields of the format fix `m` and
`q`. `nearest` goes the other way for any quotient of natural numbers and rounds to nearest, a
tie to the even neighbour.
-/

namespace SlotScript.Decimal

/-- The powers of two. -/
def twoPow (n : Nat) : Nat := Nat.pow 2 n

/-- The powers of ten. -/
def tenPow (n : Nat) : Nat := Nat.pow 10 n

/-- What the bits of a double stand for. -/
inductive Binary64 where
  /-- No number. -/
  | nan
  /-- Infinity, negative or positive. -/
  | infinite (negative : Bool)
  /-- The number `mantissa · 2 ^ exponent`, negated if `negative`. -/
  | finite (negative : Bool) (mantissa : Nat) (exponent : Int)
deriving DecidableEq, Repr

/-- The least exponent of a finite double. -/
def minExponent : Int := -1074

/-- The bits of positive infinity. -/
def infinityBits : Nat := 2047 * twoPow 52

/-- The bit that makes a double negative. -/
def signBit : Nat := twoPow 63

/-- The bits that every result without a number has. -/
def nanBits : Nat := 4095 * twoPow 51

namespace Binary64

/-- Reads the sign, exponent and fraction fields. -/
def ofBits (bits : UInt64) : Binary64 :=
  let n := bits.toNat
  let negative := signBit ≤ n
  let field := n / twoPow 52 % 2048
  let fraction := n % twoPow 52
  if field = 2047 then
    if fraction = 0 then .infinite negative else .nan
  else if field = 0 then .finite negative fraction minExponent
  else .finite negative (twoPow 52 + fraction) (minExponent + (field - 1 : Nat))

end Binary64

/-- `num / den` rounded to a whole number, a half to the even neighbour. -/
def roundQuotient (num den : Nat) : Nat :=
  let quotient := num / den
  let twice := 2 * (num % den)
  if den < twice ∨ (twice = den ∧ quotient % 2 = 1) then quotient + 1 else quotient

/-- The quotient `num / den / 2 ^ e` as a fraction of natural numbers. -/
def scaleDown (num den : Nat) (e : Int) : Nat × Nat :=
  (num * twoPow (-e).toNat, den * twoPow e.toNat)

/-- The exponent of the doubles around `num / den`: the one at which the quotient has 53 bits,
but never below the least exponent. -/
def exponentOf (num den : Nat) : Int :=
  let low : Int := (Nat.log2 num : Int) - Nat.log2 den - 53
  let (n, d) := scaleDown num den low
  max minExponent (if twoPow 53 ≤ n / d then low + 1 else low)

/-- The bits of the double nearest to `num / den`, without a sign. A mantissa that rounds up to
`2 ^ 53` carries into the exponent field, and a number too great becomes infinity. -/
def nearestBits (num den : Nat) : Nat :=
  if num = 0 then 0
  else
    let e := exponentOf num den
    let (n, d) := scaleDown num den e
    min infinityBits ((e - minExponent).toNat * twoPow 52 + roundQuotient n d)

/-- The double nearest to the decimal number `digits / 10 ^ places`. -/
def ofDecimal (digits places : Nat) : UInt64 :=
  (nearestBits digits (tenPow places)).toUInt64

/-- The remainder of the division of two doubles, with the quotient cut off toward zero. It has
the sign of the dividend and is exact. -/
def remainder (dividend divisor : UInt64) : UInt64 :=
  match Binary64.ofBits dividend, Binary64.ofBits divisor with
  | .finite .., .infinite _ => dividend
  | .finite negative m q, .finite _ m' q' =>
    if m' = 0 then nanBits.toUInt64
    else
      let e := min q q'
      let r := (m * twoPow (q - e).toNat) % (m' * twoPow (q' - e).toNat)
      let bits := nearestBits (r * twoPow e.toNat) (twoPow (-e).toNat)
      (if negative then signBit + bits else bits).toUInt64
  | _, _ => nanBits.toUInt64

end SlotScript.Decimal
