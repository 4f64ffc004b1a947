import IlsCompiler.Text.Basic

namespace IlsCompiler.Text

/-!
# Measured numbers

A measured quotient is held with 53 significant bits, as binary floating point
holds it, and written with a fixed number of decimal places. Both steps round to
the nearest value and, between two nearest ones, to the even one. All arithmetic
is exact.
-/

/-- The whole number nearest to a quotient; of two nearest ones the even one. -/
def roundQuotient (numerator denominator : Nat) : Nat :=
  let quotient := numerator / denominator
  let double := 2 * (numerator % denominator)
  if double < denominator then
    quotient
  else if denominator < double then
    quotient + 1
  else if quotient % 2 = 0 then
    quotient
  else
    quotient + 1

/-- The number `mantissa * 2 ^ exponent`. -/
structure Binary where
  mantissa : Nat
  exponent : Int
deriving DecidableEq, Repr, Inhabited

namespace Binary

/-- The significant bits of a number. -/
def precision : Nat := 53

/-- A quotient scaled by a power of two, as a numerator and a denominator. -/
def scaled (numerator denominator : Nat) (exponent : Int) : Nat × Nat :=
  if 0 ≤ exponent then
    (numerator * Nat.pow 2 exponent.toNat, denominator)
  else
    (numerator, denominator * Nat.pow 2 (-exponent).toNat)

/-- The number nearest to a quotient with a positive denominator. -/
def ofQuotient (numerator denominator : Nat) : Binary :=
  if numerator = 0 then
    ⟨0, 0⟩
  else
    let guess : Int := (Nat.log2 numerator : Int) - Nat.log2 denominator - (precision - 1 : Nat)
    let (upper, lower) := scaled numerator denominator (-guess)
    let exponent := if upper / lower < Nat.pow 2 (precision - 1) then guess - 1 else guess
    let (rounded, unit) := scaled numerator denominator (-exponent)
    ⟨roundQuotient rounded unit, exponent⟩

/-- The quotient of a whole number, itself held with limited precision, by another. -/
def quotient (numerator denominator : Nat) : Binary :=
  let held := ofQuotient numerator 1
  let (upper, lower) := scaled held.mantissa denominator held.exponent
  ofQuotient upper lower

/-- A number in units of its last decimal place, rounded to a whole count of them. -/
def units (places : Nat) (value : Binary) : Nat :=
  let (upper, lower) := scaled (value.mantissa * Nat.pow 10 places) 1 value.exponent
  roundQuotient upper lower

/-- A number with a fixed count of decimal places. -/
def fixed (places : Nat) (value : Binary) : String :=
  let count := value.units places
  let whole := toString (count / Nat.pow 10 places)
  if places = 0 then
    whole
  else
    whole ++ "." ++ zeroPadded places (count % Nat.pow 10 places)

/-- Whether a number is the nearest one to what is written of it with some decimal places. -/
def readsBack (places : Nat) (value : Binary) : Bool :=
  ofQuotient (value.units places) (Nat.pow 10 places) = value

/-- A number with the fewest decimal places that read back, at most the given count. -/
def shortest (most : Nat) (value : Binary) : String :=
  value.fixed (((List.range most).find? fun places => value.readsBack places).getD most)

end Binary

/-- A quotient of a signed number with a fixed count of decimal places. -/
def fixedQuotient (places : Nat) (numerator : Int) (denominator : Nat) : String :=
  let size := (Binary.quotient numerator.natAbs denominator).fixed places
  if numerator < 0 then
    "-" ++ size
  else
    size

/-- Thousandths of a number in the fewest digits. -/
def thousandths (value : Int) : String :=
  let size := (Binary.quotient value.natAbs 1000).shortest 3
  if value < 0 then
    "-" ++ size
  else
    size

end IlsCompiler.Text
