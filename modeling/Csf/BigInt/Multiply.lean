import Csf.BigInt.Subtract

/-!
# Multiplying

`operator*` has a row for every word of the left operand. A row goes over the words of
the right one, adds to the result what the product of two words is, and carries on what
does not fit (`Csf.BigInt.mulRow`). Nothing is lost in 128 bits, and the word that takes
the last carry of a row has not been used before, so the product is exact for all
operands (`Csf.BigInt.value_mul`).
-/

namespace Csf

namespace BigInt

/-- `BigInt::BigInt(uint64_t val, bool negative)` -/
def ofWord (val : UInt64) (negative : Bool := false) : BigInt := ⟨[val], negative⟩

/-! ### The loops -/

/-- One round of the inner loop of `operator*`: the word of the result, and the carry. The
product is one of `__uint128_t`. -/
def mulWord (a b word carry : UInt64) : UInt64 × UInt64 :=
  let product : BitVec 128 := a.toBitVec.setWidth 128 * b.toBitVec.setWidth 128
  let product := product + word.toBitVec.setWidth 128
  let product := product + carry.toBitVec.setWidth 128
  (⟨(product &&& 0xFFFFFFFFFFFFFFFF).setWidth 64⟩, ⟨(product >>> 64).setWidth 64⟩)

/-- A row of `operator*`: the inner loop over the words of `rhs`, and the addition of the
last carry. The result is given from the place of the row on. -/
def mulRow (a : UInt64) : List UInt64 → List UInt64 → UInt64 → List UInt64
  | [], result, carry => (result.headD 0 + carry) :: result.tail
  | b :: rhs, result, carry =>
      let (word, carry') := mulWord a b (result.headD 0) carry
      word :: mulRow a rhs result.tail carry'

/-- The outer loop of `operator*`. -/
def mulRows : List UInt64 → List UInt64 → List UInt64 → List UInt64
  | [], _, result => result
  | a :: lhs, rhs, result =>
      let result := mulRow a rhs result 0
      result.headD 0 :: mulRows lhs rhs result.tail

/-- `BigInt::operator*` -/
def mul (x rhs : BigInt) : BigInt :=
  if x.isZero ∨ rhs.isZero then ofWord 0
  else
    { magnitude := popZeros (mulRows x.magnitude rhs.magnitude
        (List.replicate (x.magnitude.length + rhs.magnitude.length) 0))
      sign := x.sign != rhs.sign }

instance : Mul BigInt := ⟨mul⟩

theorem mul_def (x rhs : BigInt) : x * rhs = mul x rhs := rfl

/-! ### What they compute -/

/-- What a product of two words and two words more come to fits in 128 bits. -/
theorem mulWord_fits (a b word carry : UInt64) :
    a.toNat * b.toNat + word.toNat + carry.toNat < 2 ^ 128 := by
  have ha := a.toNat_lt
  have hb := b.toNat_lt
  have hw := word.toNat_lt
  have hc := carry.toNat_lt
  have hab : a.toNat * b.toNat ≤ (2 ^ 64 - 1) * (2 ^ 64 - 1) :=
    Nat.mul_le_mul (by omega) (by omega)
  omega

/-- **One word, multiplied**: the word and the carry are the product and what it is added
to. -/
theorem mulWord_spec (a b word carry : UInt64) :
    (mulWord a b word carry).1.toNat + 2 ^ 64 * (mulWord a b word carry).2.toNat =
      a.toNat * b.toNat + word.toNat + carry.toNat := by
  have hfits := mulWord_fits a b word carry
  have hwide : ∀ x : UInt64, (x.toBitVec.setWidth 128).toNat = x.toNat := fun x => by
    have hx := x.toNat_lt
    rw [BitVec.toNat_setWidth, UInt64.toNat_toBitVec]
    omega
  have hproduct : (a.toBitVec.setWidth 128 * b.toBitVec.setWidth 128 +
      word.toBitVec.setWidth 128 + carry.toBitVec.setWidth 128).toNat =
      a.toNat * b.toNat + word.toNat + carry.toNat := by
    simp only [BitVec.toNat_add, BitVec.toNat_mul, hwide]
    omega
  have hmask : (0xFFFFFFFFFFFFFFFF : BitVec 128).toNat = 2 ^ 64 - 1 := rfl
  simp only [mulWord, UInt64.toNat_ofBitVec, BitVec.toNat_setWidth, BitVec.toNat_and,
    BitVec.toNat_ushiftRight, hproduct, hmask, Nat.and_two_pow_sub_one_eq_mod,
    Nat.shiftRight_eq_div_pow]
  omega

/-- **A row adds** the product of its word and the words of the right operand, as long as
the result has nothing yet where the last carry goes. -/
theorem wordsValue_mulRow {a : UInt64} {rhs result : List UInt64} {carry : UInt64}
    (h : wordsValue result < (2 ^ 64) ^ rhs.length) :
    wordsValue (mulRow a rhs result carry) =
      wordsValue result + a.toNat * wordsValue rhs + carry.toNat := by
  induction rhs generalizing result carry with
  | nil =>
    rw [List.length_nil, Nat.pow_zero, wordsValue_headD_tail] at h
    have hhead : result.headD 0 = 0 := UInt64.toNat_inj.mp (by rw [UInt64.toNat_zero]; omega)
    rw [mulRow, wordsValue_cons, wordsValue_headD_tail result, hhead, UInt64.zero_add,
      UInt64.toNat_zero, wordsValue_nil]
    omega
  | cons b rhs ih =>
    have hword := mulWord_spec a b (result.headD 0) carry
    have hrest : wordsValue result.tail < (2 ^ 64) ^ rhs.length := by
      rw [List.length_cons, Nat.pow_succ, wordsValue_headD_tail] at h
      omega
    have hih := @ih result.tail (mulWord a b (result.headD 0) carry).2 hrest
    have hsplit : a.toNat * (b.toNat + 2 ^ 64 * wordsValue rhs) =
        a.toNat * b.toNat + 2 ^ 64 * (a.toNat * wordsValue rhs) := by ring
    rw [mulRow]
    dsimp only
    rw [wordsValue_cons, hih, wordsValue_cons, hsplit, wordsValue_headD_tail result]
    omega

/-- What a row adds is no more than one word longer. -/
theorem row_lt {a : UInt64} {rhs : List UInt64} {v : ℕ} (h : v < (2 ^ 64) ^ rhs.length) :
    v + a.toNat * wordsValue rhs < (2 ^ 64) ^ rhs.length * 2 ^ 64 :=
  calc v + a.toNat * wordsValue rhs
      < (2 ^ 64) ^ rhs.length + a.toNat * (2 ^ 64) ^ rhs.length :=
        Nat.add_lt_add_of_lt_of_le h (Nat.mul_le_mul_left _ (wordsValue_lt rhs).le)
    _ = (2 ^ 64) ^ rhs.length * (a.toNat + 1) := by ring
    _ ≤ (2 ^ 64) ^ rhs.length * 2 ^ 64 := Nat.mul_le_mul_left _ a.toNat_lt

/-- After a row, what is above its first word has nothing where the next row's last carry
goes. -/
theorem wordsValue_tail_mulRow_lt {a : UInt64} {rhs result : List UInt64}
    (h : wordsValue result < (2 ^ 64) ^ rhs.length) :
    wordsValue (mulRow a rhs result 0).tail < (2 ^ 64) ^ rhs.length := by
  have hrow := @wordsValue_mulRow a rhs result 0 h
  have hlt := row_lt (a := a) h
  rw [UInt64.toNat_zero, Nat.add_zero, wordsValue_headD_tail] at hrow
  omega

/-- **The loops of `operator*` multiply**, and add the product to what is there. -/
theorem wordsValue_mulRows {lhs rhs result : List UInt64}
    (h : wordsValue result < (2 ^ 64) ^ rhs.length) :
    wordsValue (mulRows lhs rhs result) = wordsValue result + wordsValue lhs * wordsValue rhs := by
  induction lhs generalizing result with
  | nil => rw [mulRows, wordsValue_nil, Nat.zero_mul, Nat.add_zero]
  | cons a lhs ih =>
    have hrow := @wordsValue_mulRow a rhs result 0 h
    rw [UInt64.toNat_zero, Nat.add_zero, wordsValue_headD_tail] at hrow
    rw [mulRows, wordsValue_cons, ih (wordsValue_tail_mulRow_lt h), wordsValue_cons, Nat.add_mul,
      Nat.mul_assoc]
    omega

theorem wordsValue_replicate_zero (n : ℕ) : wordsValue (List.replicate n 0) = 0 := by
  induction n with
  | zero => rfl
  | succ n ih => rw [List.replicate_succ, wordsValue_cons, ih, UInt64.toNat_zero, Nat.mul_zero]

/-! ### That nothing overflows -/

/-- **Nothing overflows in a row**: every product, with what it is added to, fits in 128
bits, and there is a word for the last carry, which it can be added to. -/
def RowFits (a : UInt64) : List UInt64 → List UInt64 → UInt64 → Prop
  | [], result, carry => ∃ word ∈ result.head?, word.toNat + carry.toNat < 2 ^ 64
  | b :: rhs, result, carry =>
      a.toNat * b.toNat + (result.headD 0).toNat + carry.toNat < 2 ^ 128 ∧
        RowFits a rhs result.tail (mulWord a b (result.headD 0) carry).2

/-- **Nothing overflows in the loops** of `operator*`. -/
def RowsFit : List UInt64 → List UInt64 → List UInt64 → Prop
  | [], _, _ => True
  | a :: lhs, rhs, result =>
      RowFits a rhs result 0 ∧ RowsFit lhs rhs (mulRow a rhs result 0).tail

/-- A row keeps the length of the result. -/
theorem length_mulRow {a : UInt64} {rhs result : List UInt64} {carry : UInt64}
    (h : rhs.length < result.length) : (mulRow a rhs result carry).length = result.length := by
  induction rhs generalizing result carry with
  | nil =>
    rw [mulRow, List.length_cons, List.length_tail]
    omega
  | cons b rhs ih =>
    rw [List.length_cons] at h
    have hrest : rhs.length < result.tail.length := by
      rw [List.length_tail]
      omega
    rw [mulRow]
    dsimp only
    rw [List.length_cons, ih hrest, List.length_tail]
    omega

/-- **A row fits** where the result has nothing yet in the word for the last carry. -/
theorem rowFits {a : UInt64} {rhs result : List UInt64} {carry : UInt64}
    (h : wordsValue result < (2 ^ 64) ^ rhs.length) (hlen : rhs.length < result.length) :
    RowFits a rhs result carry := by
  induction rhs generalizing result carry with
  | nil =>
    rcases result with _ | ⟨word, rest⟩
    · exact absurd hlen (Nat.not_lt_zero _)
    · have hcarry := carry.toNat_lt
      rw [List.length_nil, Nat.pow_zero, wordsValue_cons] at h
      exact ⟨word, rfl, by omega⟩
  | cons b rhs ih =>
    rw [List.length_cons] at hlen
    rw [List.length_cons, Nat.pow_succ, wordsValue_headD_tail] at h
    refine ⟨mulWord_fits a b _ carry, ih (by omega) ?_⟩
    rw [List.length_tail]
    omega

/-- **All rows fit**, one word further up each. -/
theorem rowsFit {lhs rhs result : List UInt64} (h : wordsValue result < (2 ^ 64) ^ rhs.length)
    (hlen : lhs.length + rhs.length ≤ result.length) : RowsFit lhs rhs result := by
  induction lhs generalizing result with
  | nil => trivial
  | cons a lhs ih =>
    rw [List.length_cons] at hlen
    have hrow : rhs.length < result.length := by omega
    refine ⟨rowFits h hrow, ih (wordsValue_tail_mulRow_lt h) ?_⟩
    rw [List.length_tail, length_mulRow hrow]
    omega

section Operator

variable {x y : BigInt}

theorem value_ofWord_zero : (ofWord 0).value = 0 := rfl

/-- A product of numbers that are not zero has the product of the magnitudes. -/
theorem wordsValue_mul (hx : x.isZero = false) (hy : y.isZero = false) :
    wordsValue (x * y).magnitude = wordsValue x.magnitude * wordsValue y.magnitude := by
  rw [mul_def, mul, if_neg (by simp [hx, hy]), wordsValue_popZeros, wordsValue_mulRows,
    wordsValue_replicate_zero, Nat.zero_add]
  rw [wordsValue_replicate_zero]
  exact Nat.pow_pos (Nat.two_pow_pos 64)

/-- **Multiplication is exact.** -/
theorem value_mul (x y : BigInt) : (x * y).value = x.value * y.value := by
  by_cases h : x.isZero ∨ y.isZero
  · rw [mul_def, mul, if_pos h, value_ofWord_zero]
    rcases h with h | h <;> rw [value_eq_zero_of_isZero h] <;> simp
  · obtain ⟨hx, hy⟩ := not_or.mp h
    have hmag := wordsValue_mul (Bool.eq_false_iff.mpr hx) (Bool.eq_false_iff.mpr hy)
    have hsign : (x * y).sign = (x.sign != y.sign) := by rw [mul_def, mul, if_neg h]
    rw [value_eq, value_eq x, value_eq y, hmag, hsign]
    cases x.sign <;> cases y.sign <;> simp

/-- **Multiplication is exact** for all representations: the product is that of the values,
nothing overflows on the way, and a product of zero is not flagged negative. -/
theorem mul_exact (x y : BigInt) :
    (x * y).value = x.value * y.value ∧
      RowsFit x.magnitude y.magnitude
        (List.replicate (x.magnitude.length + y.magnitude.length) 0) ∧
      ((x * y).value = 0 → (x * y).sign = false) := by
  refine ⟨value_mul x y, rowsFit ?_ (List.length_replicate).ge, fun hzero => ?_⟩
  · rw [wordsValue_replicate_zero]
    exact Nat.pow_pos (Nat.two_pow_pos 64)
  · rw [value_mul, mul_eq_zero, value_eq_zero_iff, value_eq_zero_iff] at hzero
    rw [mul_def, mul, if_pos hzero]
    rfl

end Operator

end BigInt

end Csf
