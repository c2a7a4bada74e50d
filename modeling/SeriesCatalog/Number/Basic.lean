/-
  Series catalog — numbers.

  Limits, degrees, bytes and offsets come from outside as numbers that need
  not be whole, nor even finite.  A finite number is kept exactly, as a
  rational; the two zeros are one number.

  * `Number.toInt?` and `Number.toNat?` read whole numbers;
  * `Number.isNegative` and `Number.exceeds` are false of what is not a number.
-/

namespace SeriesCatalog

/-- A number, which may also be infinite or no number at all. -/
inductive Number where
  /-- What is left where no number makes sense. -/
  | nan
  /-- Beyond every finite number, on either side. -/
  | infinite (negative : Bool)
  /-- A finite number. -/
  | finite (value : Rat)
deriving DecidableEq

namespace Number

/-- A whole number. -/
def ofInt (n : Int) : Number := .finite n

/-- A count. -/
def ofNat (n : Nat) : Number := ofInt n

instance (n : Nat) : OfNat Number n := ⟨ofNat n⟩

/-- The whole number that `x` is. -/
def toInt? : Number → Option Int
  | .finite value => if value.isInt then some value.num else none
  | .nan | .infinite _ => none

/-- The count that `x` is. -/
def toNat? (x : Number) : Option Nat :=
  x.toInt?.bind Int.toNat?

/-- Whether `x` lies below zero. -/
def isNegative : Number → Bool
  | .nan => false
  | .infinite negative => negative
  | .finite value => value < 0

/-- Whether `x` lies above the count `n`. -/
def exceeds (x : Number) (n : Nat) : Bool :=
  match x with
  | .nan => false
  | .infinite negative => !negative
  | .finite value => (n : Rat) < value

end Number

end SeriesCatalog
