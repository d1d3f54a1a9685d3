import Csf.BigInt.Compare

/-!
# Negating and halving

Two operators that are right but for the numbers that nobody has thought of.

Unary minus flips the sign of what is not zero. It also takes a most significant word that
is zero away and puts it in front of the least significant one, so that a number with a
leading zero is not negated, but negated and multiplied by `2 ^ 64`
(`Csf.BigInt.value_neg_of_getLast?`). Without leading zeros it is right, and zero stays
zero (`Csf.BigInt.neg_exact_iff`).

`div_by_2` keeps the sign, where `operator/` gives a quotient of zero no sign. They agree
on all canonical numbers but minus one (`Csf.BigInt.halving_iff`).
-/

namespace Csf

namespace BigInt

variable {x : BigInt}

/-! ### Negating -/

/-- **With a leading zero**, the number is also multiplied by what a word is worth. -/
theorem value_neg_of_getLast? (h : x.isZero = false) (hlast : x.magnitude.getLast? = some 0) :
    (-x).value = -(2 ^ 64 * x.value) := by
  have hall : x.magnitude.all (· == 0) = false := h
  obtain ⟨ws, hws⟩ := List.getLast?_eq_some_iff.mp hlast
  rw [neg_def, neg, if_neg (by simp [h]), if_pos hlast, hall, if_neg Bool.false_ne_true, value_eq,
    value_eq x]
  dsimp only
  rw [hws, List.dropLast_concat, wordsValue_append, wordsValue_cons, wordsValue_cons]
  cases x.sign <;> simp

/-- **Unary minus negates** exactly what is zero or has no leading zero. -/
theorem neg_exact_iff (x : BigInt) :
    (-x).value = -x.value ∧ compare (-(-x)) x = 0 ↔
      x.isZero = true ∨ x.magnitude.getLast? ≠ some 0 := by
  cases h : x.isZero
  · rw [or_iff_right Bool.false_ne_true]
    constructor
    · rintro ⟨hvalue, -⟩ hlast
      -- what is not zero is not what it is multiplied by a word
      have hne : x.value ≠ 0 := fun h0 => by simp [value_eq_zero_iff.mp h0] at h
      rw [value_neg_of_getLast? h hlast] at hvalue
      omega
    · intro hlast
      have hneg := neg_of_getLast? h hlast
      have h' : (⟨x.magnitude, !x.sign⟩ : BigInt).isZero = false := h
      have hneg' : -(-x) = x := by
        rw [hneg, neg_of_getLast? h' hlast]
        simp
      refine ⟨?_, ?_⟩
      · rw [hneg, value_not_sign]
      · rw [hneg', compare_eq_zero_iff]
  · have hneg : -x = x := by rw [neg_def, neg, if_pos h]
    refine iff_of_true ⟨?_, ?_⟩ (.inl rfl)
    · rw [hneg, value_eq_zero_of_isZero h, neg_zero]
    · rw [hneg, hneg, compare_eq_zero_iff]

/-- **Five with a leading zero** is negated to minus `5 * 2 ^ 64`. -/
theorem not_neg_exact :
    ¬((-(⟨[5, 0], false⟩ : BigInt)).value = -(⟨[5, 0], false⟩ : BigInt).value ∧
      compare (-(-⟨[5, 0], false⟩)) ⟨[5, 0], false⟩ = 0) := by
  decide +kernel

/-! ### Halving -/

/-- A quotient is the one that any number of rounds large enough ends with. -/
theorem div_unique {y : BigInt} {r r' : Except InvalidArgument BigInt}
    (h : ∃ enough, ∀ rounds ≥ enough, div rounds x y = some r)
    (h' : ∃ enough, ∀ rounds ≥ enough, div rounds x y = some r') : r = r' := by
  obtain ⟨n, hn⟩ := h
  obtain ⟨m, hm⟩ := h'
  exact Option.some.inj ((hn _ (le_max_left n m)).symm.trans (hm _ (le_max_right n m)))

/-- The quotient by two, which has a sign only if it is not zero. -/
theorem exists_div_two (x : BigInt) :
    ∃ q, (∃ enough, ∀ rounds ≥ enough, div rounds x (ofWord 2) = some (.ok q)) ∧
      wordsValue q.magnitude = wordsValue x.magnitude / 2 ∧
      q.sign = (decide (wordsValue x.magnitude / 2 ≠ 0) && x.sign) := by
  have htwo : (ofWord 2).isZero = false := rfl
  obtain ⟨q, hq, hval, hsign⟩ := div_of_not_isZero (x := x) htwo (Nat.lt_succ_self _)
  have hwords : wordsValue q.magnitude = wordsValue x.magnitude / 2 := by
    rw [hval, wordsValue_ofWord]
    rfl
  refine ⟨q, ⟨_, fun rounds hrounds => div_mono hq hrounds⟩, hwords, ?_⟩
  rw [hsign, hwords]
  cases x.sign <;> rfl

/-- Half a number is worth the same either way. -/
theorem compare_divBy2 {q : BigInt} (hq : wordsValue q.magnitude = wordsValue x.magnitude / 2)
    (hsign : q.sign = (decide (wordsValue x.magnitude / 2 ≠ 0) && x.sign)) :
    compare (divBy2 x) q = 0 := by
  have hdiv : (divBy2 x).sign = x.sign := rfl
  rw [compare_eq_zero_iff, value_eq, value_eq q, wordsValue_divBy2, hq, hsign, hdiv]
  by_cases h0 : wordsValue x.magnitude / 2 = 0
  · rw [h0, Nat.cast_zero, mul_zero, mul_zero]
  · rw [decide_eq_true h0, Bool.true_and]

/-- **The two ways to halve agree** on a canonical number, the sign of the result included,
exactly when it is not minus one. -/
theorem halving_iff (hx : x.Canonical) :
    (∃ q, (∃ enough, ∀ rounds ≥ enough, div rounds x (ofWord 2) = some (.ok q)) ∧
      compare (divBy2 x) q = 0 ∧ (divBy2 x).isNegative = q.isNegative) ↔ x.value ≠ -1 := by
  obtain ⟨q, hq, hwords, hsign⟩ := exists_div_two x
  have hflags : (divBy2 x).isNegative = q.isNegative ↔ x.value ≠ -1 := by
    have hdiv : (divBy2 x).isNegative = x.sign := rfl
    rw [hdiv, isNegative, hsign, value_eq]
    cases hs : x.sign
    · -- what is not negative is not minus one
      rw [if_neg Bool.false_ne_true, Bool.and_false]
      exact iff_of_true rfl (by omega)
    · have hpos := wordsValue_pos_of_not_isZero (not_isZero_of_sign hx hs)
      rw [if_pos rfl, Bool.and_true, eq_comm, decide_eq_true_iff]
      omega
  constructor
  · rintro ⟨q', hq', -, hflag⟩
    cases div_unique hq hq'
    exact hflags.mp hflag
  · intro h
    exact ⟨q, hq, compare_divBy2 hwords hsign, hflags.mpr h⟩

/-- A number of two words is halved alike, and the carry with it. -/
theorem halving_iff_twoWords :
    (⟨[1, 1], true⟩ : BigInt).Canonical ∧
      ∃ q, (∃ enough, ∀ rounds ≥ enough, div rounds ⟨[1, 1], true⟩ (ofWord 2) = some (.ok q)) ∧
        compare (divBy2 ⟨[1, 1], true⟩) q = 0 ∧
        (divBy2 ⟨[1, 1], true⟩).isNegative = q.isNegative :=
  have hcanonical : (⟨[1, 1], true⟩ : BigInt).Canonical := ⟨by decide, by decide⟩
  ⟨hcanonical, (halving_iff hcanonical).mpr (by decide)⟩

/-- **Minus one** is halved to a zero with a sign and to one without. -/
theorem not_halving :
    (⟨[1], true⟩ : BigInt).Canonical ∧
      ¬∃ q, (∃ enough, ∀ rounds ≥ enough, div rounds ⟨[1], true⟩ (ofWord 2) = some (.ok q)) ∧
        compare (divBy2 ⟨[1], true⟩) q = 0 ∧
        (divBy2 ⟨[1], true⟩).isNegative = q.isNegative := by
  refine ⟨⟨by decide, by decide⟩, ?_⟩
  rintro ⟨q, ⟨enough, hq⟩, -, hflag⟩
  have hzero : div 0 ⟨[1], true⟩ (ofWord 2) = some (.ok (ofWord 0)) := by decide +kernel
  cases (hq enough le_rfl).symm.trans (div_mono hzero (Nat.zero_le enough))
  exact absurd hflag (by decide +kernel)

end BigInt

end Csf
