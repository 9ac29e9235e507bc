/-!
# Decimal text of integers

Integers are written without leading zeros and with a minus sign when negative.
Reading takes one optional sign of either kind and at least one ASCII digit,
leading zeros included; digits of other scripts, separators and blanks are
refused. Ranges are the callers' affair.
-/

namespace ContractScript.Decimal

/-- The text of a natural number. -/
def natural (number : Nat) : String :=
  String.ofList (Nat.toDigits 10 number)

/-- The text of an integer. -/
def integer (number : Int) : String :=
  if number < 0 then "-" ++ natural number.natAbs else natural number.natAbs

/-- The number that a digit list denotes, if there is a digit and nothing else. -/
def natural? (digits : List Char) : Option Nat :=
  if digits.isEmpty then none
  else if digits.all Char.isDigit then
    some (digits.foldl (fun number digit => 10 * number + (digit.toNat - '0'.toNat)) 0)
  else none

/-- The integer that a text denotes. -/
def integer? : List Char → Option Int
  | '-' :: digits => (natural? digits).map fun magnitude => -(magnitude : Int)
  | '+' :: digits => (natural? digits).map fun magnitude => (magnitude : Int)
  | digits => (natural? digits).map fun magnitude => (magnitude : Int)

/-- A text denotes a number from `lowest` to `highest`, or nothing. -/
def within? (lowest highest : Int) (text : String) : Option Int :=
  (integer? text.toList).filter fun number => decide (lowest ≤ number ∧ number ≤ highest)

/-- A natural number zero-padded to at least `width` digits. -/
def padded (width number : Nat) : String :=
  String.ofList ((Nat.toDigits 10 number).leftpad width '0')

end ContractScript.Decimal
