import Csf.BigInt.Words

/-!
# Subtracting

The loop of `operator-` compares a word with `b + borrow`, and that sum may wrap
around: where the word `b` is all ones and a borrow comes in, the borrow is lost.
What the loop computes is the difference, and too much by the borrows that get lost
(`Csf.BigInt.wordsValue_subWords`); whether one gets lost can be read off the operands
(`Csf.BigInt.LosesBorrow`). So a difference is exact, and so is a sum with different
signs, exactly when none does (`Csf.BigInt.exact_iff`).
-/

namespace Csf

namespace BigInt

/-! ### The loop -/

/-- What one word of the loop leaves over: a borrow that gets lost. -/
def lostBorrow (b borrow : UInt64) : ℕ := if b.toNat + borrow.toNat = 2 ^ 64 then 1 else 0

/-- **One word, subtracted**: the difference is right but for a borrow that gets lost. -/
theorem subWord_spec (a b borrow : UInt64) (hb : borrow.toNat ≤ 1) :
    (subWord a b borrow).1.toNat + b.toNat + borrow.toNat =
        a.toNat + 2 ^ 64 * ((subWord a b borrow).2.toNat + lostBorrow b borrow) ∧
      (subWord a b borrow).2.toNat ≤ 1 := by
  have ha := a.toNat_lt
  have hbt := b.toNat_lt
  rw [subWord, lostBorrow]
  simp only [ge_iff_le, UInt64.le_iff_toNat_le, UInt64.toNat_add]
  split
  · simp only [UInt64.toNat_sub, UInt64.toNat_zero]
    split <;> omega
  · simp only [UInt64.toNat_sub, UInt64.toNat_add, UInt64.toNat_one, UInt64.toNat_zero]
    split <;> omega

/-- The borrows that get lost, each counted at its place. -/
def excess : List UInt64 → List UInt64 → UInt64 → ℕ
  | [], _, _ => 0
  | a :: larger, smaller, borrow =>
      2 ^ 64 * (lostBorrow (smaller.headD 0) borrow +
        excess larger smaller.tail (subWord a (smaller.headD 0) borrow).2)

/-- What is not larger at a word is not larger above it, the borrow included. -/
theorem tail_le {a : UInt64} {larger smaller : List UInt64} {borrow : UInt64}
    (hb : borrow.toNat ≤ 1)
    (hle : wordsValue smaller + borrow.toNat ≤ wordsValue (a :: larger)) :
    wordsValue smaller.tail + (subWord a (smaller.headD 0) borrow).2.toNat ≤
      wordsValue larger := by
  obtain ⟨hword, -⟩ := subWord_spec a (smaller.headD 0) borrow hb
  have hd := (subWord a (smaller.headD 0) borrow).1.toNat_lt
  rw [wordsValue_headD_tail smaller, wordsValue_cons] at hle
  omega

/-- **The loop of `operator-`** computes the difference, and too much by the borrows
that get lost. -/
theorem wordsValue_subWords {larger smaller : List UInt64} {borrow : UInt64}
    (hb : borrow.toNat ≤ 1) (hle : wordsValue smaller + borrow.toNat ≤ wordsValue larger) :
    wordsValue (subWords larger smaller borrow) + (wordsValue smaller + borrow.toNat) =
      wordsValue larger + excess larger smaller borrow := by
  induction larger generalizing smaller borrow with
  | nil =>
    rw [subWords, excess, wordsValue_nil] at *
    omega
  | cons a larger ih =>
    obtain ⟨hword, hb'⟩ := subWord_spec a (smaller.headD 0) borrow hb
    have hrest := ih hb' (tail_le hb hle)
    rw [subWords, excess]
    dsimp only
    rw [wordsValue_cons, wordsValue_cons, wordsValue_headD_tail smaller]
    omega

/-! ### When a borrow gets lost -/

/-- **A borrow gets lost**: the smaller magnitude has a word of ones, and what it has
below that word is more than what the larger one has there. -/
def LosesBorrow (larger smaller : List UInt64) : Prop :=
  ∃ i < smaller.length, (smaller.getD i 0).toNat = 2 ^ 64 - 1 ∧
    wordsValue (larger.take i) < wordsValue (smaller.take i)

instance (larger smaller : List UInt64) : Decidable (LosesBorrow larger smaller) :=
  inferInstanceAs (Decidable (∃ i < smaller.length, _ ∧ _))

/-- The words below one place more. -/
theorem wordsValue_take_headD (ws : List UInt64) (i : ℕ) :
    wordsValue (ws.take (i + 1)) = (ws.headD 0).toNat + 2 ^ 64 * wordsValue (ws.tail.take i) := by
  cases ws with
  | nil => simp
  | cons w ws => rw [List.take_succ_cons, wordsValue_cons]; rfl

theorem wordsValue_take_le (ws : List UInt64) (i : ℕ) : wordsValue (ws.take i) ≤ wordsValue ws := by
  have h := wordsValue_append (ws.take i) (ws.drop i)
  rw [List.take_append_drop] at h
  rw [h]
  exact Nat.le_add_right _ _

theorem getD_tail (ws : List UInt64) (i : ℕ) : ws.tail.getD i 0 = ws.getD (i + 1) 0 := by
  cases ws with
  | nil => rfl
  | cons w ws => rfl

/-- **No borrow gets lost in the loop** exactly when at no word of ones the part of the
smaller magnitude below it, with the borrow that comes in, is more than that of the
larger one. -/
theorem excess_eq_zero_iff {larger smaller : List UInt64} {borrow : UInt64}
    (hb : borrow.toNat ≤ 1) (hle : wordsValue smaller + borrow.toNat ≤ wordsValue larger) :
    excess larger smaller borrow = 0 ↔ ∀ i, (smaller.getD i 0).toNat = 2 ^ 64 - 1 →
      ¬wordsValue (larger.take i) < wordsValue (smaller.take i) + borrow.toNat := by
  induction larger generalizing smaller borrow with
  | nil =>
    refine iff_of_true rfl fun i _ hi => ?_
    have htake := wordsValue_take_le smaller i
    rw [List.take_nil, wordsValue_nil] at hi
    rw [wordsValue_nil] at hle
    omega
  | cons a larger ih =>
    obtain ⟨hword, hb'⟩ := subWord_spec a (smaller.headD 0) borrow hb
    have hrest := ih hb' (tail_le hb hle)
    have hhead : smaller.getD 0 0 = smaller.headD 0 := by cases smaller <;> rfl
    rw [excess]
    by_cases hlost : (smaller.headD 0).toNat + borrow.toNat = 2 ^ 64
    · -- a borrow gets lost right here
      have hbt := (smaller.headD 0).toNat_lt
      refine iff_of_false ?_ fun h => h 0 (by rw [hhead]; omega) ?_
      · rw [lostBorrow, if_pos hlost]
        omega
      · simp only [List.take_zero, wordsValue_nil]
        omega
    · rw [lostBorrow, if_neg hlost] at hword ⊢
      have hzero : 2 ^ 64 * (0 + excess larger smaller.tail
          (subWord a (smaller.headD 0) borrow).2) = 0 ↔
          excess larger smaller.tail (subWord a (smaller.headD 0) borrow).2 = 0 := by omega
      -- a word further up compares as it does without this one
      have hshift : ∀ i, wordsValue ((a :: larger).take (i + 1)) <
            wordsValue (smaller.take (i + 1)) + borrow.toNat ↔
          wordsValue (larger.take i) < wordsValue (smaller.tail.take i) +
            (subWord a (smaller.headD 0) borrow).2.toNat := by
        intro i
        have hd := (subWord a (smaller.headD 0) borrow).1.toNat_lt
        rw [List.take_succ_cons, wordsValue_cons, wordsValue_take_headD]
        omega
      rw [hzero, hrest]
      constructor
      · intro h i hi
        cases i with
        | zero =>
          rw [hhead] at hi
          simp only [List.take_zero, wordsValue_nil]
          omega
        | succ i => exact mt (hshift i).mp (h i (by rwa [getD_tail]))
      · intro h i hi
        exact mt (hshift i).mpr (h (i + 1) (by rwa [← getD_tail]))

/-- Taken from what is not smaller, a magnitude is taken exactly if and only if no
borrow gets lost. -/
theorem excess_eq_zero_iff_not_losesBorrow {larger smaller : List UInt64}
    (hle : wordsValue smaller ≤ wordsValue larger) :
    excess larger smaller 0 = 0 ↔ ¬LosesBorrow larger smaller := by
  rw [excess_eq_zero_iff (show (0 : UInt64).toNat ≤ 1 by decide) hle]
  constructor
  · rintro h ⟨i, -, hi, hlt⟩
    exact h i hi hlt
  · intro h i hi hlt
    refine h ⟨i, ?_, hi, hlt⟩
    by_contra hlen
    rw [List.getD_eq_getElem?_getD, List.getElem?_eq_none (Nat.le_of_not_lt hlen)] at hi
    exact absurd hi (by decide)

/-! ### The operators -/

section Operators

variable {x y : BigInt}

theorem value_eq_zero_of_isZero (h : x.isZero = true) : x.value = 0 := by
  rw [value, isZero_iff.mp h]
  split <;> rfl

theorem wordsValue_pos_of_not_isZero (h : x.isZero = false) : 0 < wordsValue x.magnitude := by
  refine Nat.pos_of_ne_zero fun h0 => ?_
  rw [isZero_iff.mpr h0] at h
  exact nomatch h

/-- The value, by the sign. -/
theorem value_eq (x : BigInt) :
    x.value = (if x.sign then -1 else 1) * (wordsValue x.magnitude : ℤ) := by
  rw [value]
  split <;> ring

theorem value_eq_zero_iff : x.value = 0 ↔ x.isZero = true := by
  refine ⟨fun h => ?_, value_eq_zero_of_isZero⟩
  rw [value_eq] at h
  rw [isZero_iff]
  split at h <;> omega

/-- **Unary minus** of what has no leading zero flips the sign and nothing else. -/
theorem neg_of_getLast? (h : x.isZero = false) (hlast : x.magnitude.getLast? ≠ some 0) :
    -x = ⟨x.magnitude, !x.sign⟩ := by
  have hall : x.magnitude.all (· == 0) = false := h
  rw [neg_def, neg, if_neg (by simp [h]), if_neg hlast, hall, if_neg Bool.false_ne_true]

theorem neg_of_canonical (hx : x.Canonical) (h : x.isZero = false) :
    -x = ⟨x.magnitude, !x.sign⟩ := by
  refine neg_of_getLast? h fun hzero => ?_
  by_cases hlen : 1 < x.magnitude.length
  · exact hx.last hlen hzero
  · -- a single word that is zero is zero
    obtain ⟨ws, hws⟩ := List.getLast?_eq_some_iff.mp hzero
    have hnil : ws = [] := by
      rw [hws, List.length_append, List.length_singleton] at hlen
      exact List.length_eq_zero_iff.mp (by omega)
    rw [isZero, hws, hnil] at h
    exact absurd h (by decide)

/-- With the other sign, a number is the opposite one. -/
theorem value_not_sign (x : BigInt) : (⟨x.magnitude, !x.sign⟩ : BigInt).value = -x.value := by
  rw [value, value]
  cases x.sign <;> simp

theorem value_neg (hx : x.Canonical) : (-x).value = -x.value := by
  cases h : x.isZero
  · rw [neg_of_canonical hx h, value_not_sign]
  · rw [neg_def, neg, if_pos h, value_eq_zero_of_isZero h, neg_zero]

/-- **Addition with one sign** is exact. -/
theorem value_add_of_sign_eq (h : x.sign = y.sign) : (x + y).value = x.value + y.value := by
  rw [add_of_sign_eq h, value_eq, value_eq x, value_eq y, ← h]
  dsimp only
  rw [wordsValue_addWords (le_max_left _ _) (le_max_right _ _) (by decide)]
  push_cast
  ring

/-- A sum has at most one word more. -/
theorem length_addWords_le (n : ℕ) (as bs : List UInt64) (carry : UInt64) :
    (addWords n as bs carry).length ≤ n + 1 := by
  induction n generalizing as bs carry with
  | zero =>
    rw [addWords]
    split <;> simp
  | succ n ih =>
    rw [addWords]
    exact Nat.succ_le_succ (ih _ _ _)

/-- **Numbers of one sign are added exactly**, and the sum has at most one word more than
the longer of them. -/
theorem add_exact (h : x.sign = y.sign) :
    (x + y).value = x.value + y.value ∧
      (x + y).magnitude.length ≤ max x.magnitude.length y.magnitude.length + 1 := by
  refine ⟨value_add_of_sign_eq h, ?_⟩
  rw [add_of_sign_eq h]
  exact length_addWords_le _ _ _ _

/-- A carry that runs through all words, and numbers of different lengths. -/
theorem add_exact_carry :
    let x : BigInt := ⟨[0xffffffffffffffff, 0xffffffffffffffff], true⟩
    let y : BigInt := ⟨[1, 0, 0], true⟩
    (x + y).value = x.value + y.value ∧ (x + y).magnitude.length ≤ 4 :=
  add_exact rfl

theorem value_finish (ws : List UInt64) (s : Bool) :
    (finish ws s).value = (if s then -1 else 1) * (wordsValue ws : ℤ) := by
  rw [value_eq, finish]
  dsimp only
  cases h : (⟨popZeros ws, false⟩ : BigInt).isZero
  · rw [if_neg Bool.false_ne_true, wordsValue_popZeros]
  · have hzero : wordsValue ws = 0 := (wordsValue_popZeros ws).symm.trans (isZero_iff.mp h)
    rw [if_pos rfl, wordsValue_popZeros, hzero]
    simp

/-- **The condition of exactness**, on the operands: no borrow gets lost when the
smaller magnitude is taken from the larger one. -/
def SubtractsCleanly (x y : BigInt) : Prop :=
  if 0 ≤ compareMagnitudes x y then ¬LosesBorrow x.magnitude y.magnitude
  else ¬LosesBorrow y.magnitude x.magnitude

instance (x y : BigInt) : Decidable (SubtractsCleanly x y) :=
  inferInstanceAs (Decidable (if 0 ≤ compareMagnitudes x y then
    ¬LosesBorrow x.magnitude y.magnitude else ¬LosesBorrow y.magnitude x.magnitude))

/-- **Subtraction with one sign**: exact if and only if no borrow gets lost. -/
theorem value_sub_iff_of_sign_eq (hx : x.isZero = false) (hy : y.isZero = false)
    (h : x.sign = y.sign) : (x - y).value = x.value - y.value ↔ SubtractsCleanly x y := by
  rw [sub_def, sub, if_neg (by simp [hx]), if_neg (by simp [hy]), if_neg (by simp [h]),
    SubtractsCleanly]
  by_cases hcmp : 0 ≤ compareMagnitudes x y
  · have hle := (compareMagnitudes_nonneg_iff x y).mp hcmp
    have hwords := wordsValue_subWords (show (0 : UInt64).toNat ≤ 1 by decide) hle
    rw [UInt64.toNat_zero] at hwords
    rw [if_pos hcmp, if_pos hcmp, ← excess_eq_zero_iff_not_losesBorrow hle, value_finish,
      value_eq x, value_eq y, ← h]
    cases x.sign <;> simp <;> omega
  · -- the operands change places, and the result its sign
    have hle : wordsValue x.magnitude ≤ wordsValue y.magnitude :=
      Nat.le_of_not_le (mt (compareMagnitudes_nonneg_iff x y).mpr hcmp)
    have hwords := wordsValue_subWords (show (0 : UInt64).toNat ≤ 1 by decide) hle
    rw [UInt64.toNat_zero] at hwords
    rw [if_neg hcmp, if_neg hcmp, ← excess_eq_zero_iff_not_losesBorrow hle, value_finish,
      value_eq x, value_eq y, ← h]
    cases x.sign <;> simp <;> omega

/-- Nothing gets lost where there is nothing more to take below any word. -/
theorem not_losesBorrow_of_wordsValue_le {larger smaller : List UInt64}
    (h : ∀ i, wordsValue (smaller.take i) ≤ wordsValue (larger.take i)) :
    ¬LosesBorrow larger smaller := by
  rintro ⟨i, -, -, hlt⟩
  exact absurd (h i) (Nat.not_le_of_lt hlt)

/-- The words below a place, by the value. -/
theorem wordsValue_take (ws : List UInt64) (i : ℕ) :
    wordsValue (ws.take i) = wordsValue ws % (2 ^ 64) ^ i := by
  have h := Nat.ofDigits_mod_pow_eq_ofDigits_take i (Nat.two_pow_pos 64) (ws.map UInt64.toNat)
    fun l hl => by
      obtain ⟨w, -, rfl⟩ := List.mem_map.mp hl
      exact w.toNat_lt
  rw [wordsValue, wordsValue, h, List.map_take]

theorem subtractsCleanly_comm : SubtractsCleanly x y ↔ SubtractsCleanly y x := by
  have hxy := compareMagnitudes_nonneg_iff x y
  have hyx := compareMagnitudes_nonneg_iff y x
  rw [SubtractsCleanly, SubtractsCleanly]
  rcases lt_trichotomy (wordsValue x.magnitude) (wordsValue y.magnitude) with h | h | h
  · rw [if_neg (by omega), if_pos (by omega)]
  · -- the same magnitude taken from itself
    rw [if_pos (by omega), if_pos (by omega)]
    have htake : ∀ i, wordsValue (x.magnitude.take i) = wordsValue (y.magnitude.take i) :=
      fun i => by rw [wordsValue_take, wordsValue_take, h]
    exact iff_of_true (not_losesBorrow_of_wordsValue_le fun i => (htake i).ge)
      (not_losesBorrow_of_wordsValue_le fun i => (htake i).le)
  · rw [if_pos (by omega), if_neg (by omega)]

/-- Zero is taken from anything. -/
theorem subtractsCleanly_of_isZero (hy : y.isZero = true) : SubtractsCleanly x y := by
  have hzero := isZero_iff.mp hy
  rw [SubtractsCleanly, if_pos ((compareMagnitudes_nonneg_iff x y).mpr (by omega))]
  refine not_losesBorrow_of_wordsValue_le fun i => ?_
  have htake := wordsValue_take_le y.magnitude i
  omega

/-- **Subtraction with one sign**, of operands that may be zero. -/
theorem value_sub_iff (hy : y.Canonical) (h : x.sign = y.sign) :
    (x - y).value = x.value - y.value ↔ SubtractsCleanly x y := by
  cases hx0 : x.isZero
  · cases hy0 : y.isZero
    · exact value_sub_iff_of_sign_eq hx0 hy0 h
    · refine iff_of_true ?_ (subtractsCleanly_of_isZero hy0)
      rw [sub_def, sub, if_neg (by simp [hx0]), if_pos hy0, value_eq_zero_of_isZero hy0, sub_zero]
  · refine iff_of_true ?_ (subtractsCleanly_comm.mp (subtractsCleanly_of_isZero hx0))
    rw [sub_def, sub, if_pos hx0, value_neg hy, value_eq_zero_of_isZero hx0, zero_sub]

/-- **Subtraction with different signs** adds, and is exact. -/
theorem value_sub_of_sign_ne (hy : y.Canonical) (h : x.sign ≠ y.sign) :
    (x - y).value = x.value - y.value := by
  rw [sub_def, sub]
  split
  · rename_i hx0
    rw [value_neg hy, value_eq_zero_of_isZero hx0, zero_sub]
  split
  · rename_i hy0
    rw [value_eq_zero_of_isZero hy0, sub_zero]
  · rename_i hy0
    have hneg := neg_of_canonical hy (Bool.eq_false_iff.mpr hy0)
    have hsign : x.sign = (-y).sign := by
      rw [hneg]
      exact Bool.eq_not_of_ne h
    have hadd := value_add_of_sign_eq hsign
    rw [value_neg hy] at hadd
    exact hadd

/-- A canonical number that is flagged negative is not zero. -/
theorem not_isZero_of_sign (hx : x.Canonical) (h : x.sign = true) : x.isZero = false := by
  refine Bool.eq_false_iff.mpr fun h0 => ?_
  rw [hx.zero (value_eq_zero_of_isZero h0)] at h
  exact nomatch h

/-- What is negated stays canonical. -/
theorem canonical_neg (hx : x.Canonical) : (-x).Canonical := by
  cases h : x.isZero
  · rw [neg_of_canonical hx h]
    refine ⟨hx.last, fun h0 => ?_⟩
    have hpos := wordsValue_pos_of_not_isZero h
    rw [value_eq] at h0
    split at h0 <;> simp at h0 <;> omega
  · rwa [neg_def, neg, if_pos h]

/-- **Addition with different signs** subtracts. -/
theorem value_add_iff (hx : x.Canonical) (hy : y.Canonical) (h : x.sign ≠ y.sign) :
    (x + y).value = x.value + y.value ↔ SubtractsCleanly x y := by
  cases hxs : x.sign
  · have hys : y.sign = true := by
      rw [hxs] at h
      exact Bool.eq_true_of_not_eq_false h.symm
    have hneg := neg_of_canonical hy (not_isZero_of_sign hy hys)
    have hiff := value_sub_iff (x := x) (canonical_neg hy) (by rw [hneg, hxs, hys]; rfl)
    rw [value_neg hy, sub_neg_eq_add] at hiff
    rw [add_of_sign_ne h, hxs, if_neg Bool.false_ne_true, hiff, hneg]
    rfl
  · have hys : y.sign = false := by
      rw [hxs] at h
      exact Bool.eq_false_of_not_eq_true h.symm
    have hneg := neg_of_canonical hx (not_isZero_of_sign hx hxs)
    have hiff := value_sub_iff (x := y) (canonical_neg hx) (by rw [hneg, hxs, hys]; rfl)
    rw [value_neg hx, sub_neg_eq_add, add_comm y.value] at hiff
    rw [add_of_sign_ne h, hxs, if_pos rfl, hiff, hneg, subtractsCleanly_comm]
    rfl

/-- **Differences, and sums with different signs, are exact** if and only if no borrow
gets lost when the smaller magnitude is taken from the larger one. -/
theorem exact_iff (hx : x.Canonical) (hy : y.Canonical) :
    ((x - y).value = x.value - y.value ∧
      (x.sign ≠ y.sign → (x + y).value = x.value + y.value)) ↔ SubtractsCleanly x y := by
  by_cases h : x.sign = y.sign
  · rw [value_sub_iff hy h]
    exact and_iff_left fun hne => absurd h hne
  · rw [← value_add_iff hx hy h]
    exact ⟨fun hxy => hxy.2 h, fun hxy => ⟨value_sub_of_sign_ne hy h, fun _ => hxy⟩⟩

/-- Two canonical numbers of different lengths, a borrow running through a word. -/
theorem exact_iff_twoWords :
    ((⟨[0, 0, 1], false⟩ - ⟨[1, 5], false⟩ : BigInt).value =
        (⟨[0, 0, 1], false⟩ : BigInt).value - (⟨[1, 5], false⟩ : BigInt).value ∧
      (((⟨[0, 0, 1], false⟩ : BigInt).sign ≠ (⟨[1, 5], false⟩ : BigInt).sign) →
        (⟨[0, 0, 1], false⟩ + ⟨[1, 5], false⟩ : BigInt).value =
          (⟨[0, 0, 1], false⟩ : BigInt).value + (⟨[1, 5], false⟩ : BigInt).value)) ∧
      SubtractsCleanly ⟨[0, 0, 1], false⟩ ⟨[1, 5], false⟩ := by
  have hclean : SubtractsCleanly ⟨[0, 0, 1], false⟩ ⟨[1, 5], false⟩ := by decide +kernel
  exact ⟨(exact_iff ⟨by decide, fun _ => rfl⟩ ⟨by decide, fun _ => rfl⟩).mpr hclean, hclean⟩

/-- **Subtraction is not always exact**: a borrow that comes in at a word of ones is
lost. -/
theorem not_always_exact :
    ¬∀ x y : BigInt, x.Canonical → y.Canonical → (x - y).value = x.value - y.value := by
  intro h
  have hsub := h ⟨[0, 0, 1], false⟩ ⟨[1, 0xffffffffffffffff], false⟩ ⟨by decide, fun _ => rfl⟩
    ⟨by decide, fun _ => rfl⟩
  have hiff := value_sub_iff (x := ⟨[0, 0, 1], false⟩) (y := ⟨[1, 0xffffffffffffffff], false⟩)
    ⟨by decide, fun _ => rfl⟩ rfl
  exact absurd (hiff.mp hsub) (by decide +kernel)

end Operators

end BigInt

end Csf
