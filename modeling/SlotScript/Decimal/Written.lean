import SlotScript.Decimal.Shortest

/-!
# Doubles as text

Two ways to write a double. `plain` is for the values that a program computes: a number without
a fraction has all its digits, any other the shortest digits that read back, and no exponent is
ever written. `exact` is for literals in listings of tokens and trees: always the shortest
digits, with an exponent for very great and very small numbers. Both write at least one digit
after the point.
-/

namespace SlotScript.Decimal

/-- A text of `count` zeros. -/
def zeros (count : Nat) : String := String.ofList (List.replicate count '0')

/-- A decimal in positional form, with at least one digit on each side of the point. -/
def Digits.positional (d : Digits) : String :=
  let text := (toString d.digits).toList
  let point := (text.length : Int) + d.exponent
  if 0 ≤ d.exponent then String.ofList text ++ zeros d.exponent.toNat ++ ".0"
  else if 0 < point then
    String.ofList (text.take point.toNat) ++ "." ++ String.ofList (text.drop point.toNat)
  else "0." ++ zeros (-point).toNat ++ String.ofList text

/-- A decimal with one digit before the point and a power of ten after an `e`. -/
def Digits.scientific (d : Digits) : String :=
  let text := (toString d.digits).toList
  let power := (text.length : Int) - 1 + d.exponent
  let mantissa :=
    match text with
    | first :: rest@(_ :: _) => String.ofList (first :: '.' :: rest)
    | _ => String.ofList text
  mantissa ++ "e" ++ toString power

/-- Whether `m · 2 ^ q` is a whole number. -/
def isWhole (m : Nat) (q : Int) : Bool := m % twoPow (-q).toNat == 0

/-- The whole number `m · 2 ^ q`, cut off toward zero. -/
def wholePart (m : Nat) (q : Int) : Nat := m * twoPow q.toNat / twoPow (-q).toNat

/-- Whether `m · 2 ^ q` is written without an exponent in listings: zero, or from `1 / 10 ^ 4`
up to but not including `10 ^ 16`. -/
def isModerate (m : Nat) (q : Int) : Bool :=
  let num := m * twoPow q.toNat
  let den := twoPow (-q).toNat
  m == 0 || (den ≤ num * tenPow 4 && num < den * tenPow 16)

/-- A sign in front of a text. -/
def signed (negative : Bool) (text : String) : String :=
  if negative then "-" ++ text else text

/-- A double as a program shows it. -/
def plain (bits : UInt64) : String :=
  match Binary64.ofBits bits with
  | .nan => "NaN"
  | .infinite negative => signed negative "inf"
  | .finite negative m q =>
    signed negative
      (if isWhole m q then toString (wholePart m q) ++ ".0" else (shortest m q).positional)

/-- A double as listings show it. -/
def exact (bits : UInt64) : String :=
  match Binary64.ofBits bits with
  | .nan => "NaN"
  | .infinite negative => signed negative "inf"
  | .finite negative m q =>
    signed negative
      (if isModerate m q then (shortest m q).positional else (shortest m q).scientific)

end SlotScript.Decimal
