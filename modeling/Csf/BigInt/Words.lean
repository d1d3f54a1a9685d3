import Csf.BigInt.Basic

/-!
# Vectors of words

What the helpers of a big integer do to what its words stand for
(`Csf.BigInt.wordsValue`): leading zeros count for nothing, and comparing words from
the most significant one down compares the values
(`Csf.BigInt.compareMagnitudes_eq`), leading zeros or not. The loop of `operator+`
adds (`Csf.BigInt.wordsValue_addWords`).
-/

namespace Csf

namespace BigInt

/-! ### Values of words -/

section Values

variable {ws : List UInt64}

@[simp] theorem wordsValue_nil : wordsValue [] = 0 := rfl

@[simp] theorem wordsValue_cons (w : UInt64) (ws : List UInt64) :
    wordsValue (w :: ws) = w.toNat + 2 ^ 64 * wordsValue ws := by
  rw [wordsValue, List.map_cons, Nat.ofDigits_cons]
  rfl

theorem wordsValue_append (ws ws' : List UInt64) :
    wordsValue (ws ++ ws') = wordsValue ws + (2 ^ 64) ^ ws.length * wordsValue ws' := by
  rw [wordsValue, List.map_append, Nat.ofDigits_append, List.length_map]
  rfl

theorem wordsValue_lt (ws : List UInt64) : wordsValue ws < (2 ^ 64) ^ ws.length := by
  have h := Nat.ofDigits_lt_base_pow_length (b := 2 ^ 64) (l := ws.map UInt64.toNat) (by norm_num)
    fun x hx => by
      obtain ⟨w, -, rfl⟩ := List.mem_map.mp hx
      exact w.toNat_lt
  rwa [List.length_map] at h

/-- A vector of words read through its head, whether it has one or not. -/
theorem wordsValue_headD_tail (ws : List UInt64) :
    wordsValue ws = (ws.headD 0).toNat + 2 ^ 64 * wordsValue ws.tail := by
  cases ws with
  | nil => rfl
  | cons w ws => exact wordsValue_cons w ws

/-- One word more. -/
theorem wordsValue_take_succ {i : ℕ} (h : i < ws.length) :
    wordsValue (ws.take (i + 1)) =
      wordsValue (ws.take i) + (2 ^ 64) ^ i * (ws.getD i 0).toNat := by
  rw [List.take_succ_eq_append_getElem h, wordsValue_append, List.length_take_of_le h.le,
    wordsValue_cons, wordsValue_nil, List.getD_eq_getElem?_getD, List.getElem?_eq_getElem h]
  rfl

theorem isZero_iff {x : BigInt} : x.isZero = true ↔ wordsValue x.magnitude = 0 := by
  rw [isZero, List.all_eq_true]
  induction x.magnitude with
  | nil => simp
  | cons w ws ih =>
    rw [List.forall_mem_cons, wordsValue_cons, ih]
    constructor
    · rintro ⟨hw, hws⟩
      rw [eq_of_beq hw, hws]
      rfl
    · intro h
      have hw : w.toNat = 0 := by omega
      refine ⟨beq_iff_eq.mpr (UInt64.toNat_inj.mp hw), by omega⟩

end Values

/-! ### Leading zeros -/

section Zeros

variable {vec : List UInt64}

/-- The words that `kill_leading_zeros` leaves out are zeros, and the last one it
leaves in is not. -/
theorem killLeadingZerosFrom_spec {n : ℕ} (hn : n ≤ vec.length) :
    killLeadingZerosFrom vec n ≤ n ∧
      wordsValue (vec.take n) = wordsValue (vec.take (killLeadingZerosFrom vec n)) ∧
      (killLeadingZerosFrom vec n ≠ 0 →
        vec.getD (killLeadingZerosFrom vec n - 1) 0 ≠ 0) := by
  induction n with
  | zero => exact ⟨le_rfl, rfl, fun h => absurd rfl h⟩
  | succ n ih =>
    obtain ⟨hle, hval, hlast⟩ := ih (by omega)
    rw [killLeadingZerosFrom]
    by_cases hz : vec.getD n 0 = 0
    · rw [if_pos hz]
      refine ⟨by omega, ?_, hlast⟩
      rw [wordsValue_take_succ (by omega), hz, ← hval]
      simp
    · rw [if_neg hz]
      exact ⟨le_rfl, rfl, fun _ => hz⟩

theorem killLeadingZeros_le (vec : List UInt64) : killLeadingZeros vec ≤ vec.length :=
  (killLeadingZerosFrom_spec le_rfl).1

theorem wordsValue_take_killLeadingZeros (vec : List UInt64) :
    wordsValue (vec.take (killLeadingZeros vec)) = wordsValue vec := by
  rw [killLeadingZeros, ← (killLeadingZerosFrom_spec le_rfl).2.1, List.take_length]

/-- Without its leading zeros, a vector is as long as its value needs it to be. -/
theorem pow_le_wordsValue (h : killLeadingZeros vec ≠ 0) :
    (2 ^ 64) ^ (killLeadingZeros vec - 1) ≤ wordsValue vec := by
  have hlast := (killLeadingZerosFrom_spec (le_refl vec.length)).2.2 h
  have hle := killLeadingZeros_le vec
  obtain ⟨k, hk⟩ := Nat.exists_eq_add_one_of_ne_zero h
  rw [← wordsValue_take_killLeadingZeros vec, hk, wordsValue_take_succ (by omega)]
  rw [← killLeadingZeros, hk, Nat.add_sub_cancel] at hlast
  have hpos : 1 ≤ (vec.getD k 0).toNat :=
    Nat.one_le_iff_ne_zero.mpr fun h0 => hlast (UInt64.toNat_inj.mp h0)
  calc (2 ^ 64) ^ (k + 1 - 1) = (2 ^ 64) ^ k * 1 := by rw [Nat.add_sub_cancel, Nat.mul_one]
    _ ≤ (2 ^ 64) ^ k * (vec.getD k 0).toNat := Nat.mul_le_mul_left _ hpos
    _ ≤ _ := Nat.le_add_left _ _

theorem wordsValue_lt_killLeadingZeros (vec : List UInt64) :
    wordsValue vec < (2 ^ 64) ^ killLeadingZeros vec := by
  have h := wordsValue_lt (vec.take (killLeadingZeros vec))
  rwa [wordsValue_take_killLeadingZeros, List.length_take_of_le (killLeadingZeros_le vec)] at h

/-- A vector that is shorter without its leading zeros stands for less. -/
theorem wordsValue_lt_of_killLeadingZeros_lt {left right : List UInt64}
    (h : killLeadingZeros left < killLeadingZeros right) :
    wordsValue left < wordsValue right :=
  calc wordsValue left < (2 ^ 64) ^ killLeadingZeros left := wordsValue_lt_killLeadingZeros left
    _ ≤ (2 ^ 64) ^ (killLeadingZeros right - 1) := Nat.pow_le_pow_right (by norm_num) (by omega)
    _ ≤ wordsValue right := pow_le_wordsValue (by omega)

theorem wordsValue_popZeros (ws : List UInt64) : wordsValue (popZeros ws) = wordsValue ws := by
  induction ws using popZeros.induct with
  | case1 ws h ih =>
    rw [popZeros, if_pos h, ih]
    obtain ⟨ws', hws⟩ : ∃ ws', ws = ws' ++ [0] := List.getLast?_eq_some_iff.mp h.2
    rw [hws, List.dropLast_concat, wordsValue_append]
    simp
  | case2 ws h => rw [popZeros, if_neg h]

end Zeros

/-! ### Comparing -/

/-- Comparing by the most significant word that is different. -/
theorem add_pow_mul_lt {x y : ℕ} {u v : ℕ} {i : ℕ} (hx : x < (2 ^ 64) ^ i) (h : u < v) :
    x + (2 ^ 64) ^ i * u < y + (2 ^ 64) ^ i * v :=
  calc x + (2 ^ 64) ^ i * u < (2 ^ 64) ^ i + (2 ^ 64) ^ i * u := by omega
    _ = (2 ^ 64) ^ i * (u + 1) := by ring
    _ ≤ (2 ^ 64) ^ i * v := Nat.mul_le_mul_left _ h
    _ ≤ _ := Nat.le_add_left _ _

/-- **The invariant of the loop of `compare_magnitudes`**: it compares the words that
are left. -/
theorem compareWords_eq {left right : List UInt64} {i : ℕ} (hl : i ≤ left.length)
    (hr : i ≤ right.length) :
    compareWords left right i =
      if wordsValue (left.take i) < wordsValue (right.take i) then -1
      else if wordsValue (right.take i) < wordsValue (left.take i) then 1 else 0 := by
  induction i with
  | zero => rfl
  | succ i ih =>
    have hlt : ∀ {ws : List UInt64}, i + 1 ≤ ws.length →
        wordsValue (ws.take i) < (2 ^ 64) ^ i := fun {ws} h => by
      have h' := wordsValue_lt (ws.take i)
      rwa [List.length_take_of_le (by omega)] at h'
    rw [compareWords, wordsValue_take_succ hl, wordsValue_take_succ hr]
    simp only [gt_iff_lt, UInt64.lt_iff_toNat_lt]
    rcases lt_trichotomy (left.getD i 0).toNat (right.getD i 0).toNat with h | h | h
    · have hval := add_pow_mul_lt (y := wordsValue (right.take i)) (hlt hl) h
      rw [if_pos h, if_pos hval]
    · -- this word decides nothing
      rw [h, if_neg (lt_irrefl _), if_neg (lt_irrefl _), ih (by omega) (by omega)]
      simp only [Nat.add_lt_add_iff_right]
    · have hval := add_pow_mul_lt (y := wordsValue (left.take i)) (hlt hr) h
      rw [if_neg (not_lt_of_gt h), if_pos h, if_neg (not_lt_of_gt hval), if_pos hval]

/-- **`compare_magnitudes` compares what the words stand for.** -/
theorem compareMagnitudes_eq (x y : BigInt) :
    compareMagnitudes x y =
      if wordsValue x.magnitude < wordsValue y.magnitude then -1
      else if wordsValue y.magnitude < wordsValue x.magnitude then 1 else 0 := by
  rw [compareMagnitudes]
  rcases lt_trichotomy (killLeadingZeros x.magnitude) (killLeadingZeros y.magnitude) with h | h | h
  · have hval := wordsValue_lt_of_killLeadingZeros_lt h
    rw [if_neg (not_lt_of_gt h), if_pos h, if_pos hval]
  · have hx := killLeadingZeros_le x.magnitude
    have hy := killLeadingZeros_le y.magnitude
    rw [if_neg (by omega), if_neg (by omega), compareWords_eq hx (by omega),
      wordsValue_take_killLeadingZeros, h, wordsValue_take_killLeadingZeros]
  · have hval := wordsValue_lt_of_killLeadingZeros_lt h
    rw [if_pos h, if_neg (not_lt_of_gt hval), if_pos hval]

theorem compareMagnitudes_nonneg_iff (x y : BigInt) :
    0 ≤ compareMagnitudes x y ↔ wordsValue y.magnitude ≤ wordsValue x.magnitude := by
  rw [compareMagnitudes_eq]
  split
  · simp only [Int.reduceNeg, Int.reduceLE, false_iff]
    omega
  · split <;> simp <;> omega

/-! ### Adding -/

/-- One word, added: the sum and the carry together are the sum of the three. -/
theorem addWord_spec (a b carry : UInt64) (hc : carry.toNat ≤ 1) :
    (addWord a b carry).1.toNat + 2 ^ 64 * (addWord a b carry).2.toNat =
        a.toNat + b.toNat + carry.toNat ∧ (addWord a b carry).2.toNat ≤ 1 := by
  have ha := a.toNat_lt
  have hb := b.toNat_lt
  simp only [addWord, UInt64.lt_iff_toNat_lt, UInt64.toNat_add]
  split
  · simp only [UInt64.toNat_one]
    omega
  · simp only [UInt64.toNat_zero]
    omega

/-- **The loop of `operator+` adds**, and it adds what has been carried. -/
theorem wordsValue_addWords {n : ℕ} {as bs : List UInt64} {carry : UInt64}
    (has : as.length ≤ n) (hbs : bs.length ≤ n) (hc : carry.toNat ≤ 1) :
    wordsValue (addWords n as bs carry) = wordsValue as + wordsValue bs + carry.toNat := by
  induction n generalizing as bs carry with
  | zero =>
    obtain rfl := List.length_eq_zero_iff.mp (Nat.le_zero.mp has)
    obtain rfl := List.length_eq_zero_iff.mp (Nat.le_zero.mp hbs)
    rw [addWords]
    split
    · rename_i hpos
      have hpos' := UInt64.lt_iff_toNat_lt.mp hpos
      rw [UInt64.toNat_zero] at hpos'
      simp only [wordsValue_cons, wordsValue_nil, UInt64.toNat_one]
      omega
    · rename_i hpos
      have hpos' : ¬0 < carry.toNat := fun h => hpos (UInt64.lt_iff_toNat_lt.mpr h)
      simp only [wordsValue_nil]
      omega
  | succ n ih =>
    obtain ⟨hword, hcarry⟩ := addWord_spec (as.headD 0) (bs.headD 0) carry hc
    have hrest := @ih as.tail bs.tail (addWord (as.headD 0) (bs.headD 0) carry).2 (by simp; omega)
      (by simp; omega) hcarry
    rw [addWords]
    dsimp only
    rw [wordsValue_cons, hrest, wordsValue_headD_tail as, wordsValue_headD_tail bs]
    omega

end BigInt

end Csf
