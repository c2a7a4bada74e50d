/-
  Series catalog — rounding to the nearest number.

  Numbers have 53 significant binary digits.  `Number.nearest` takes a
  rational to the number nearest to it: of two that are equally near it takes
  the one whose last binary digit is zero, and beyond the greatest finite
  number it takes infinity.  The spacing of the numbers near zero is
  `2 ^ (-1074)`.
-/
import SeriesCatalog.Number.Basic

namespace SeriesCatalog.Number

/-- The integer nearest to `q`, the even one of two that are equally near. -/
def roundEven (q : Rat) : Int :=
  let below := q.floor
  let part := 2 * (q - below)
  if part < 1 then below
  else if 1 < part then below + 1
  else if below % 2 = 0 then below else below + 1

/-- The exponent of the leading binary digit of a positive rational `q`: the greatest `e` with
    `2 ^ e ≤ q`. -/
def leadingExponent (q : Rat) : Int :=
  let e : Int := (q.num.natAbs.log2 : Int) - (q.den.log2 : Int)
  if (2 : Rat) ^ e ≤ q then e else e - 1

/-- The distance between neighbouring numbers about the rational `q`. -/
def spacing (q : Rat) : Rat :=
  (2 : Rat) ^ max (leadingExponent q.abs - 52) (-1074)

/-- The number nearest to the rational `q`. -/
def nearest (q : Rat) : Number :=
  if q = 0 then 0
  else
    let rounded := roundEven (q / spacing q) * spacing q
    if (2 : Rat) ^ (1024 : Nat) ≤ rounded.abs then .infinite (q < 0) else .finite rounded

/-- The number that a decimal `digits · 10 ^ (-places)` stands for. -/
def ofDecimal (digits : Int) (places : Nat) : Number :=
  nearest (digits / (10 : Rat) ^ places)

/-- The number one past `x`.  Whole numbers step exactly, a fraction to the number nearest to the
    sum, and what is not finite stays. -/
def next : Number → Number
  | .finite value => if value.isInt then .finite (value + 1) else nearest (value + 1)
  | x => x

end SeriesCatalog.Number
