import Csf.BigInt.Canonical

/-!
# Shifting, and the bits of a number

`is_bit_set` finds a bit in the words of the magnitude. It is the bit of the number that
the words stand for (`Csf.BigInt.isBitSet_eq`), the leading zeros included.

The loop of `operator<<` shifts the words by the bits that are no whole word, and gives
what is shifted out of a word to the next one. It multiplies
(`Csf.BigInt.wordsValue_shiftWords`), so the bits move as they should
(`Csf.BigInt.shiftLeft_exact`).
-/

namespace Csf

namespace BigInt

/-! ### Bits -/

/-- `BigInt::is_bit_set` -/
def isBitSet (x : BigInt) (n : UInt32) : Bool :=
  let wordIndex := (n / 64).toNat
  let bitOffset := n % 64
  if wordIndex ≥ x.magnitude.length then false
  else (x.magnitude.getD wordIndex 0 >>> bitOffset.toUInt64) &&& 1 != 0

/-- A bit of a number is one of its word. -/
theorem testBit_wordsValue (ws : List UInt64) (i : ℕ) :
    (wordsValue ws).testBit i = (ws.getD (i / 64) 0).toNat.testBit (i % 64) := by
  induction ws generalizing i with
  | nil => simp
  | cons w ws ih =>
    rw [wordsValue_cons, Nat.add_comm, Nat.testBit_two_pow_mul_add _ w.toNat_lt]
    by_cases hi : i < 64
    · rw [if_pos hi, Nat.div_eq_of_lt hi, Nat.mod_eq_of_lt hi]
      rfl
    · obtain ⟨j, rfl⟩ := Nat.exists_eq_add_of_le (Nat.le_of_not_lt hi)
      rw [if_neg hi, Nat.add_sub_cancel_left, ih, Nat.add_mod_left, Nat.add_div_left _ (by decide),
        List.getD_cons_succ]

/-- A bit of a word, as `is_bit_set` reads it. -/
theorem word_bit (w : UInt64) {k : UInt64} (hk : k.toNat < 64) :
    (w >>> k &&& 1 != 0) = w.toNat.testBit k.toNat := by
  have hbit : (w >>> k &&& 1).toNat = w.toNat >>> k.toNat % 2 := by
    rw [UInt64.toNat_and, UInt64.toNat_shiftRight, UInt64.toNat_one, Nat.mod_eq_of_lt hk,
      Nat.and_one_is_mod]
  rw [Nat.testBit_eq_decide_div_mod_eq, ← Nat.shiftRight_eq_div_pow, ← hbit, Bool.eq_iff_iff,
    bne_iff_ne, decide_eq_true_iff, Ne, ← UInt64.toNat_inj, UInt64.toNat_zero]
  omega

/-- **`is_bit_set` reads the bits of the number** that the words stand for. -/
theorem isBitSet_eq (x : BigInt) (n : UInt32) :
    isBitSet x n = (wordsValue x.magnitude).testBit n.toNat := by
  have hword : (n / 64).toNat = n.toNat / 64 := UInt32.toNat_div n 64
  have hoffset : (n % 64).toUInt64.toNat = n.toNat % 64 := by
    rw [UInt32.toNat_toUInt64, UInt32.toNat_mod]
    rfl
  rw [testBit_wordsValue, isBitSet, hword]
  split
  · rename_i hout
    rw [List.getD_eq_default _ _ hout, UInt64.toNat_zero, Nat.zero_testBit]
  · rw [word_bit _ (by omega), hoffset]

/-! ### Shifting -/

section Loop

variable {bits : UInt64}

/-- The word that the loop of `operator<<` writes: what is not shifted out, and what has
been shifted out of the word before. -/
theorem toNat_shiftWord {word buffer : UInt64} (hbits : bits.toNat < 64)
    (hbuffer : buffer.toNat < 2 ^ bits.toNat) :
    (word <<< bits ||| buffer).toNat =
      word.toNat * 2 ^ bits.toNat % 2 ^ 64 + buffer.toNat := by
  -- the bits shifted in are zeros
  have hzeros : word.toNat * 2 ^ bits.toNat % 2 ^ 64 =
      2 ^ bits.toNat * (word.toNat % 2 ^ (64 - bits.toNat)) := by
    rw [Nat.mul_comm, show 2 ^ 64 = 2 ^ bits.toNat * 2 ^ (64 - bits.toNat) by
      rw [← Nat.pow_add]; congr 1; omega, Nat.mul_mod_mul_left]
  rw [UInt64.toNat_or, UInt64.toNat_shiftLeft, Nat.mod_eq_of_lt hbits, Nat.shiftLeft_eq, hzeros,
    ← Nat.two_pow_add_eq_or_of_lt hbuffer]

/-- The buffer that the loop goes on with: what is shifted out of the word. -/
theorem toNat_shiftBuffer (word : UInt64) (hbits : bits.toNat < 64) :
    (if bits = 0 then 0 else word >>> (64 - bits)).toNat =
      word.toNat * 2 ^ bits.toNat / 2 ^ 64 := by
  have hword := word.toNat_lt
  split
  · rename_i h0
    rw [h0, UInt64.toNat_zero, Nat.pow_zero, Nat.mul_one, Nat.div_eq_of_lt hword]
  · rename_i h0
    have hpos : bits.toNat ≠ 0 := fun h => h0 (UInt64.toNat_inj.mp h)
    have hle : bits ≤ 64 := UInt64.le_iff_toNat_le.mpr hbits.le
    have hrest : (64 - bits).toNat = 64 - bits.toNat := UInt64.toNat_sub_of_le 64 bits hle
    rw [UInt64.toNat_shiftRight, hrest, Nat.mod_eq_of_lt (by omega), Nat.shiftRight_eq_div_pow,
      show 2 ^ 64 = 2 ^ (64 - bits.toNat) * 2 ^ bits.toNat by
        rw [← Nat.pow_add]; congr 1; omega,
      Nat.mul_div_mul_right _ _ (Nat.two_pow_pos _)]

/-- What is shifted out of a word fits below the next one. -/
theorem shiftBuffer_lt (word : UInt64) (hbits : bits.toNat < 64) :
    (if bits = 0 then 0 else word >>> (64 - bits)).toNat < 2 ^ bits.toNat := by
  rw [toNat_shiftBuffer word hbits, Nat.div_lt_iff_lt_mul (Nat.two_pow_pos 64), Nat.mul_comm]
  exact Nat.mul_lt_mul_of_pos_left word.toNat_lt (Nat.two_pow_pos _)

/-- **The loop of `operator<<` multiplies** by a power of two, and adds what comes in. -/
theorem wordsValue_shiftWords (hbits : bits.toNat < 64) {ws : List UInt64} {buffer : UInt64}
    (hbuffer : buffer.toNat < 2 ^ bits.toNat) :
    wordsValue (shiftWords bits ws buffer) = wordsValue ws * 2 ^ bits.toNat + buffer.toNat := by
  induction ws generalizing buffer with
  | nil => simp [shiftWords]
  | cons word ws ih =>
    have hsplit := Nat.mod_add_div (word.toNat * 2 ^ bits.toNat) (2 ^ 64)
    have hdistrib : (word.toNat + 2 ^ 64 * wordsValue ws) * 2 ^ bits.toNat =
        word.toNat * 2 ^ bits.toNat + 2 ^ 64 * (wordsValue ws * 2 ^ bits.toNat) := by ring
    rw [shiftWords, wordsValue_cons, toNat_shiftWord hbits hbuffer,
      ih (shiftBuffer_lt word hbits), toNat_shiftBuffer word hbits, wordsValue_cons, hdistrib]
    omega

end Loop

/-- The words of a number that is shifted, whole words and bits. -/
theorem wordsValue_shiftLeft {x y : BigInt} {n : UInt32} (h : shiftLeft x n = .ok y) :
    wordsValue y.magnitude = wordsValue x.magnitude * 2 ^ n.toNat := by
  have hbits : (n % 64).toUInt64.toNat = n.toNat % 64 := by
    rw [UInt32.toNat_toUInt64, UInt32.toNat_mod]
    rfl
  have hwords : (n / 64).toNat = n.toNat / 64 := UInt32.toNat_div n 64
  have hpow : (2 ^ 64) ^ (n.toNat / 64) * 2 ^ (n.toNat % 64) = 2 ^ n.toNat := by
    rw [← Nat.pow_mul, ← Nat.pow_add, Nat.div_add_mod]
  rw [shiftLeft] at h
  split at h
  · cases h
  · cases h
    rw [wordsValue_popZeros, wordsValue_append, wordsValue_replicate_zero, List.length_replicate,
      wordsValue_shiftWords (by omega) (Nat.two_pow_pos _), hbits, hwords, UInt64.toNat_zero,
      ← hpow]
    ring

/-- **Left shift is exact** for what is not flagged negative: the value is multiplied by a
power of two, and the bits move up. What is flagged negative is not shifted. -/
theorem shiftLeft_exact (x : BigInt) :
    (x.isNegative = false → ∀ n, ∃ y, shiftLeft x n = .ok y ∧ y.value = x.value * 2 ^ n.toNat ∧
      ∀ m, isBitSet y m = true ↔ n ≤ m ∧ isBitSet x (m - n) = true) ∧
    (x.isNegative = true → ∀ n,
      shiftLeft x n = .error ⟨"Left shift is not allowed on negative values".toList⟩) := by
  refine ⟨fun hsign n => ?_, fun hsign n => if_pos hsign⟩
  have hxsign : x.sign = false := hsign
  obtain ⟨y, hy, hysign⟩ : ∃ y, shiftLeft x n = .ok y ∧ y.sign = false := by
    rw [shiftLeft, if_neg (Bool.eq_false_iff.mp hxsign)]
    exact ⟨_, rfl, rfl⟩
  have hwords := wordsValue_shiftLeft hy
  refine ⟨y, hy, ?_, fun m => ?_⟩
  · rw [value_eq, value_eq x, hysign, hxsign, hwords]
    push_cast
    ring
  · rw [isBitSet_eq, isBitSet_eq, hwords, Nat.testBit_mul_two_pow, Bool.and_eq_true,
      decide_eq_true_iff, UInt32.le_iff_toNat_le]
    refine and_congr_right fun hle => ?_
    rw [UInt32.toNat_sub_of_le m n (UInt32.le_iff_toNat_le.mpr hle)]

end BigInt

end Csf
