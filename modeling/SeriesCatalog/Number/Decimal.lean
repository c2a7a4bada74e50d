/-
  Series catalog — numbers in decimal.

  A number is written with the fewest decimal digits that still lead back to
  it, and of those the ones nearest to it.

  * `Decimal.shortest` chooses the digits, by trying one digit, two digits and
    so on, each time the two decimals next to the value;
  * `Number.text` lays them out: positionally while the point stands at most 6
    places before or 21 places behind the first digit, otherwise with an
    exponent.
-/
import SeriesCatalog.Text.Basic
import SeriesCatalog.Number.Nearest

namespace SeriesCatalog

/-- A positive decimal, `digits · 10 ^ exponent`. -/
structure Decimal where
  digits : Nat
  exponent : Int
deriving DecidableEq

namespace Decimal

/-- The rational that a decimal denotes. -/
def value (d : Decimal) : Rat :=
  d.digits * (10 : Rat) ^ d.exponent

/-- The number of decimal digits of `n`. -/
def digitCount (n : Nat) : Nat :=
  (Nat.toDigits 10 n).length

/-- The place of the decimal point of a positive rational `q`, counted from its first digit:
    `10 ^ (place - 1) ≤ q < 10 ^ place`. -/
def pointPlace (q : Rat) : Int :=
  if 1 ≤ q then digitCount q.floor.toNat
  else 1 - (digitCount ((1 / q).ceil.toNat - 1) : Int)

/-- Whether the decimal leads back to `q`. -/
def leadsTo (d : Decimal) (q : Rat) : Bool :=
  Number.nearest d.value = .finite q

/-- Of two neighbouring decimals about `q` the nearer one, and of two equally near ones the one
    with even digits. -/
def nearer (q : Rat) (below above : Decimal) : Decimal :=
  let twice := below.value + above.value
  if 2 * q < twice then below
  else if twice < 2 * q then above
  else if below.digits % 2 = 0 then below else above

/-- The decimal of at most `count` digits that leads back to the positive rational `q` and is
    nearest to it. -/
def ofDigitCount? (q : Rat) (count : Nat) : Option Decimal :=
  let exponent := pointPlace q - count
  let digits := (q / (10 : Rat) ^ exponent).floor.toNat
  let below : Decimal := ⟨digits, exponent⟩
  let above : Decimal := ⟨digits + 1, exponent⟩
  match below.leadsTo q, above.leadsTo q with
  | true, true => some (nearer q below above)
  | true, false => some below
  | false, true => some above
  | false, false => none

/-- The number of digits that is enough for every number. -/
def maxDigits : Nat := 17

/-- The shortest decimal that leads back to the positive rational `q`; cut off after `maxDigits`
    digits if none does. -/
def shortest (q : Rat) : Decimal :=
  let exponent := pointPlace q - maxDigits
  ((List.range' 1 maxDigits).findSome? (ofDigitCount? q)).getD
    ⟨(q / (10 : Rat) ^ exponent).floor.toNat, exponent⟩

/-- The digits without the zeros at their end. -/
def trimmed (d : Decimal) : List Char :=
  ((Nat.toDigits 10 d.digits).reverse.dropWhile (· = '0')).reverse

/-- The text of a decimal. -/
def text (d : Decimal) : Text :=
  let digits := d.trimmed
  let point : Int := digitCount d.digits + d.exponent
  let zeros (n : Int) : List Char := List.replicate n.toNat '0'
  let written : List Char :=
    if 0 < point ∧ point ≤ 21 then
      if digits.length ≤ point then digits ++ zeros (point - digits.length)
      else digits.take point.toNat ++ '.' :: digits.drop point.toNat
    else if -6 < point ∧ point ≤ 0 then '0' :: '.' :: zeros (-point) ++ digits
    else
      let exponent := point - 1
      let lead := match digits with
        | first :: next :: rest => first :: '.' :: next :: rest
        | few => few
      lead ++ 'e' :: (if exponent < 0 then '-' else '+') :: Nat.toDigits 10 exponent.natAbs
  written.flatMap Text.ofChar

end Decimal

/-- The text of a number. -/
def Number.text : Number → Text
  | .nan => "NaN"
  | .infinite negative => if negative then "-Infinity" else "Infinity"
  | .finite value =>
    if value = 0 then "0"
    else if value < 0 then "-" ++ (Decimal.shortest (-value)).text
    else (Decimal.shortest value).text

end SeriesCatalog
