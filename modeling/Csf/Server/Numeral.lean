import Csf.Server.Message

/-!
# Numerals on the operand stack

The operand stack holds strings, and arithmetic reads and prints them as decimal
`int`s. `std::stoi` skips white space, takes a sign and as many digits as there
are, and says where it stopped; it throws when there is no digit, and when the
number does not fit an `int`. What does fit is printed by `std::to_string`.

Sums and products that leave the range of an `int` are undefined in C++. They are
wrapped around here, as the instructions the compiler emits do.
-/

namespace Csf

namespace Server

/-- How `std::stoi` can fail. -/
inductive StoiExn where
  | invalidArgument
  | outOfRange
  deriving DecidableEq

/-- Whether an integer is an `int`. -/
def isInt32 (n : ℤ) : Bool := decide (-2 ^ 31 ≤ n) && decide (n < 2 ^ 31)

/-- `std::stoi(s, &pos)`: the number and the position after it. -/
def stoi (s : Str) : Except StoiExn (ℤ × ℕ) :=
  let blanks := s.takeWhile isspace
  let rest := s.drop blanks.length
  let signed := rest.head? == some '-' || rest.head? == some '+'
  let digits := (if signed then rest.tail else rest).takeWhile Char.isDigit
  if digits.isEmpty then .error .invalidArgument
  else
    let n : ℤ := if rest.head? == some '-' then -(digitsVal digits : ℤ) else digitsVal digits
    if isInt32 n then .ok (n, blanks.length + (if signed then 1 else 0) + digits.length)
    else .error .outOfRange

/-- `std::to_string(int)` -/
def toDecimal (n : ℤ) : Str :=
  if n < 0 then '-' :: Nat.toDigits 10 n.natAbs else Nat.toDigits 10 n.natAbs

/-- An integer brought into the range of an `int`. -/
def wrapInt32 (n : ℤ) : ℤ := n.bmod (2 ^ 32)

example : stoi " -42".toList = .ok (-42, 4) := by decide +kernel

example : toDecimal (-42) = "-42".toList := by decide +kernel

end Server

end Csf
