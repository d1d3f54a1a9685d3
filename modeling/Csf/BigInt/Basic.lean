import Mathlib

/-!
# Big integers

`bigint.cpp`: integers of any size as a vector of 64-bit words, the least significant
first, and a sign flag (`Csf.BigInt`). The words are machine words, so their sums and
differences wrap around; what a big integer stands for is `Csf.BigInt.value`.

`operator+` and `operator-` call each other when the signs ask for it, and each has a
loop over the words that carries a bit along (`Csf.BigInt.addWords`,
`Csf.BigInt.subWords`). The shift `1ULL << 64` of the second is taken to be zero.
-/

namespace Csf

/-- `class BigInt`. -/
structure BigInt where
  /-- `magnitude`, the words, least significant first. -/
  magnitude : List UInt64
  /-- `sign`, true for a negative number. -/
  sign : Bool
  deriving DecidableEq

namespace BigInt

/-! ### Values -/

/-- What a vector of words stands for. -/
def wordsValue (ws : List UInt64) : ℕ := Nat.ofDigits (2 ^ 64) (ws.map UInt64.toNat)

/-- **What a big integer stands for.** -/
def value (x : BigInt) : ℤ :=
  if x.sign then -(wordsValue x.magnitude : ℤ) else wordsValue x.magnitude

/-- **Canonical form**: no word is there without need, and zero is not negative. -/
structure Canonical (x : BigInt) : Prop where
  /-- The most significant word is not zero, unless it is the only one. -/
  last : 1 < x.magnitude.length → x.magnitude.getLast? ≠ some 0
  /-- Zero is not flagged negative. -/
  zero : x.value = 0 → x.sign = false

/-! ### Member functions -/

/-- `BigInt::is_zero` -/
def isZero (x : BigInt) : Bool := x.magnitude.all (· == 0)

/-- `BigInt::operator-()`. A most significant word that is zero is moved to the other
end. -/
def neg (x : BigInt) : BigInt :=
  if x.isZero then x
  else
    { sign := if x.magnitude.all (· == 0) then false else !x.sign
      magnitude :=
        if x.magnitude.getLast? = some 0 then 0 :: x.magnitude.dropLast else x.magnitude }

instance : Neg BigInt := ⟨neg⟩

theorem neg_def (x : BigInt) : -x = neg x := rfl

/-- The loop of `kill_leading_zeros`, `i` words being left. -/
def killLeadingZerosFrom (vec : List UInt64) : ℕ → ℕ
  | 0 => 0
  | i + 1 => if vec.getD i 0 = 0 then killLeadingZerosFrom vec i else i + 1

/-- `BigInt::kill_leading_zeros` -/
def killLeadingZeros (vec : List UInt64) : ℕ := killLeadingZerosFrom vec vec.length

/-- The loop of `compare_magnitudes`, `i` words being left. -/
def compareWords (left right : List UInt64) : ℕ → ℤ
  | 0 => 0
  | i + 1 =>
      if left.getD i 0 < right.getD i 0 then -1
      else if left.getD i 0 > right.getD i 0 then 1
      else compareWords left right i

/-- `BigInt::compare_magnitudes` -/
def compareMagnitudes (lhs rhs : BigInt) : ℤ :=
  let left := lhs.magnitude
  let right := rhs.magnitude
  let leftSize := killLeadingZeros left
  let rightSize := killLeadingZeros right
  if leftSize > rightSize then 1
  else if leftSize < rightSize then -1
  else compareWords left right leftSize

/-- One round of the loop of `operator+`: the word, and the carry. -/
def addWord (a b carry : UInt64) : UInt64 × UInt64 :=
  let sum := a + b
  let sumWithCarry := sum + carry
  (sumWithCarry, if sum < a ∨ sum < b ∨ sumWithCarry < sum then 1 else 0)

/-- The loop of `operator+` over `n` words, and the word added after it. -/
def addWords : ℕ → List UInt64 → List UInt64 → UInt64 → List UInt64
  | 0, _, _, carry => if carry > 0 then [1] else []
  | n + 1, as, bs, carry =>
      let (sum, carry') := addWord (as.headD 0) (bs.headD 0) carry
      sum :: addWords n as.tail bs.tail carry'

/-- One round of the loop of `operator-`: the word, and the borrow. -/
def subWord (a b borrow : UInt64) : UInt64 × UInt64 :=
  if a ≥ b + borrow then (a - b - borrow, 0) else (0 + a - b - borrow, 1)

/-- The loop of `operator-`, over the words of the larger magnitude. -/
def subWords : List UInt64 → List UInt64 → UInt64 → List UInt64
  | [], _, _ => []
  | a :: larger, smaller, borrow =>
      let (sub, borrow') := subWord a (smaller.headD 0) borrow
      sub :: subWords larger smaller.tail borrow'

/-- The loop that removes leading zeros: `while (size() > 1 && back() == 0) pop_back()`. -/
def popZeros (ws : List UInt64) : List UInt64 :=
  if 1 < ws.length ∧ ws.getLast? = some 0 then popZeros ws.dropLast else ws
  termination_by ws.length
  decreasing_by
    rw [List.length_dropLast]
    omega

/-- The end of `operator-`: the leading zeros are removed, and zero gets no sign. -/
def finish (magnitude : List UInt64) (resultSign : Bool) : BigInt :=
  let result : BigInt := ⟨popZeros magnitude, false⟩
  { result with sign := if result.isZero then false else resultSign }

theorem neg_sign_of_not_isZero {x : BigInt} (h : x.isZero = false) : (-x).sign = !x.sign := by
  have hall : x.magnitude.all (· == 0) = false := h
  rw [neg_def, neg, if_neg (by simp [h]), hall, if_neg Bool.false_ne_true]

mutual

/-- `BigInt::operator+` -/
def add (x rhs : BigInt) : BigInt :=
  if x.sign ≠ rhs.sign then
    if x.sign then sub rhs (-x) else sub x (-rhs)
  else
    { sign := x.sign
      magnitude := addWords (max x.magnitude.length rhs.magnitude.length) x.magnitude
        rhs.magnitude 0 }
termination_by if x.sign ≠ rhs.sign then 3 else 1
decreasing_by
  all_goals
    rename_i hsign _
    rw [if_pos hsign]
    split <;> decide

/-- `BigInt::operator-(const BigInt &)` -/
def sub (x rhs : BigInt) : BigInt :=
  if x.isZero then -rhs
  else if rhs.isZero then x
  else if x.sign ≠ rhs.sign then add x (-rhs)
  else if compareMagnitudes x rhs ≥ 0 then
    finish (subWords x.magnitude rhs.magnitude 0) x.sign
  else
    finish (subWords rhs.magnitude x.magnitude 0) (!x.sign)
termination_by if x.isZero ∨ rhs.isZero ∨ x.sign = rhs.sign then 0 else 2
decreasing_by
  rename_i hx hrhs hsign
  have hneg : (-rhs).sign = !rhs.sign := neg_sign_of_not_isZero (Bool.not_eq_true _ ▸ hrhs)
  rw [if_neg (by simp [hneg, Bool.eq_not_of_ne hsign]), if_neg (by tauto)]
  decide

end

instance : Add BigInt := ⟨add⟩

instance : Sub BigInt := ⟨sub⟩

theorem sub_def (x rhs : BigInt) : x - rhs = sub x rhs := rfl

/-- With one sign, the magnitudes are added. -/
theorem add_of_sign_eq {x rhs : BigInt} (h : x.sign = rhs.sign) :
    x + rhs = ⟨addWords (max x.magnitude.length rhs.magnitude.length) x.magnitude rhs.magnitude 0,
      x.sign⟩ := by
  have hadd : x + rhs = add x rhs := rfl
  rw [hadd, add, if_neg (not_not.mpr h)]

/-- With different signs, a sum is a difference. -/
theorem add_of_sign_ne {x rhs : BigInt} (h : x.sign ≠ rhs.sign) :
    x + rhs = if x.sign then rhs - -x else x - -rhs := by
  have hadd : x + rhs = add x rhs := rfl
  rw [hadd, add, if_pos h]
  rfl

end BigInt

end Csf
