namespace IlsCompiler.Text

/-!
# Decimal numbers in text

Reading of whole numbers written in decimal with an optional sign, and of their
value in a word of limited width.
-/

/-- The value of a decimal digit. -/
def digitValue? (digit : Char) : Option Nat :=
  if '0' ≤ digit && digit ≤ '9' then
    some (digit.toNat - 48)
  else
    none

/-- Read digits onto a number that was read before them. -/
def readDigits? : Nat → List Char → Option Nat
  | value, [] => some value
  | value, digit :: rest => do
      let digitValue ← digitValue? digit
      readDigits? (value * 10 + digitValue) rest

/-- Read at least one digit and nothing else. -/
def readNatural? (digits : List Char) : Option Nat :=
  match digits with
  | [] => none
  | _ => readDigits? 0 digits

/-- Read digits with an optional sign in front of them. -/
def readSigned? (characters : List Char) : Option Int :=
  match characters with
  | '-' :: digits => (readNatural? digits).map fun value => -(value : Int)
  | '+' :: digits => (readNatural? digits).map fun value => (value : Int)
  | digits => (readNatural? digits).map fun value => (value : Int)

/-- Whether a number fits in a two's-complement word of the given number of bits. -/
def fits (bits : Nat) (value : Int) : Bool :=
  let bound : Int := Nat.pow 2 (bits - 1)
  (-bound ≤ value) && value < bound

/-- The decimal number a text holds, if it fits in the given number of bits. -/
def integer? (bits : Nat) (text : String) : Option Int :=
  match readSigned? text.toList with
  | some value => if fits bits value then some value else none
  | none => none

/-- A number modulo 2^64, taken between -2^63 and 2^63. -/
def wrap64 (value : Int) : Int :=
  value.bmod (Nat.pow 2 64)

end IlsCompiler.Text
