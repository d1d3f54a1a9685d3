import Csf.BigInt.Canonical

/-!
# Comparing

`BigInt::compare` looks at the signs first, except that two zeros are equal whatever their
signs are. It compares the values (`Csf.BigInt.compare_eq`), so the six operators, which
are all made from it, order the numbers and not their representations
(`Csf.BigInt.comparison_operators`).
-/

namespace Csf

namespace BigInt

/-- `BigInt::compare` -/
def compare (x rhs : BigInt) : ℤ :=
  if x.isZero && rhs.isZero then 0
  else if x.isNegative then
    if rhs.isNegative then -compareMagnitudes x rhs else -1
  else if !rhs.isNegative then compareMagnitudes x rhs
  else 1

/-- `operator==` -/
protected def eq (x rhs : BigInt) : Bool := compare x rhs == 0

/-- `operator!=` -/
protected def ne (x rhs : BigInt) : Bool := compare x rhs != 0

/-- `operator<` -/
protected def lt (x rhs : BigInt) : Bool := compare x rhs < 0

/-- `operator<=` -/
protected def le (x rhs : BigInt) : Bool := compare x rhs ≤ 0

/-- `operator>` -/
protected def gt (x rhs : BigInt) : Bool := compare x rhs > 0

/-- `operator>=` -/
protected def ge (x rhs : BigInt) : Bool := compare x rhs ≥ 0

/-- **`compare` compares the values.** -/
theorem compare_eq (x y : BigInt) :
    compare x y = if x.value < y.value then -1 else if y.value < x.value then 1 else 0 := by
  have hvalue : ∀ x : BigInt, x.value =
      if x.isNegative then -(wordsValue x.magnitude : ℤ) else wordsValue x.magnitude :=
    fun _ => rfl
  by_cases hzero : x.isZero = true ∧ y.isZero = true
  · rw [compare, if_pos (by simp [hzero]), value_eq_zero_of_isZero hzero.1,
      value_eq_zero_of_isZero hzero.2]
    rfl
  · rw [compare, if_neg (by simpa using hzero), compareMagnitudes_eq]
    -- one of the magnitudes is not zero
    rw [isZero_iff, isZero_iff] at hzero
    have hvx := hvalue x
    have hvy := hvalue y
    cases hx : x.isNegative <;> cases hy : y.isNegative <;>
      simp only [hx, hy, if_true, if_false, Bool.false_eq_true, Bool.not_true, Bool.not_false]
        at hvx hvy ⊢ <;>
      split_ifs <;> omega

theorem compare_neg_iff (x y : BigInt) : compare x y < 0 ↔ x.value < y.value := by
  rw [compare_eq]
  split_ifs <;> simp [*]

theorem compare_eq_zero_iff (x y : BigInt) : compare x y = 0 ↔ x.value = y.value := by
  rw [compare_eq]
  split_ifs <;> simp <;> omega

theorem compare_pos_iff (x y : BigInt) : 0 < compare x y ↔ y.value < x.value := by
  rw [compare_eq]
  split_ifs <;> simp <;> omega

section Operators

variable (x y : BigInt)

theorem eq_decide : x.eq y = decide (x.value = y.value) :=
  Bool.eq_iff_iff.mpr (by rw [BigInt.eq, beq_iff_eq, compare_eq_zero_iff, decide_eq_true_iff])

theorem ne_decide : x.ne y = decide (x.value ≠ y.value) := by
  rw [decide_not, ← eq_decide]
  rfl

theorem lt_decide : x.lt y = decide (x.value < y.value) :=
  decide_eq_decide.mpr (compare_neg_iff x y)

theorem gt_decide : x.gt y = decide (x.value > y.value) :=
  decide_eq_decide.mpr (compare_pos_iff x y)

theorem le_decide : x.le y = decide (x.value ≤ y.value) :=
  decide_eq_decide.mpr (by rw [← not_lt, compare_pos_iff, not_lt])

theorem ge_decide : x.ge y = decide (x.value ≥ y.value) :=
  decide_eq_decide.mpr (by rw [ge_iff_le, ← not_lt, compare_neg_iff, not_lt])

end Operators

/-- **Six comparison operators that order a type totally**, except that `==` may hold of
different elements. -/
structure TotalOrder {α : Type} (eq ne lt le gt ge : α → α → Bool) : Prop where
  total : ∀ x y, le x y = true ∨ le y x = true
  trans : ∀ x y z, le x y = true → le y z = true → le x z = true
  /-- Antisymmetry. -/
  eq_iff : ∀ x y, eq x y = true ↔ le x y = true ∧ le y x = true
  ne_eq : ∀ x y, ne x y = !eq x y
  lt_eq : ∀ x y, lt x y = !le y x
  gt_eq : ∀ x y, gt x y = lt y x
  ge_eq : ∀ x y, ge x y = le y x

/-- **Comparison is the order of the integers**: `compare` compares the values, the six
operators are those of the values, and they order all representations totally. -/
theorem comparison_operators :
    (∀ x y : BigInt, (compare x y < 0 ↔ x.value < y.value) ∧
      (compare x y = 0 ↔ x.value = y.value) ∧ (0 < compare x y ↔ y.value < x.value)) ∧
    (∀ x y : BigInt, x.eq y = decide (x.value = y.value) ∧ x.ne y = decide (x.value ≠ y.value) ∧
      x.lt y = decide (x.value < y.value) ∧ x.le y = decide (x.value ≤ y.value) ∧
      x.gt y = decide (x.value > y.value) ∧ x.ge y = decide (x.value ≥ y.value)) ∧
    TotalOrder BigInt.eq BigInt.ne BigInt.lt BigInt.le BigInt.gt BigInt.ge := by
  refine ⟨fun x y => ⟨compare_neg_iff x y, compare_eq_zero_iff x y, compare_pos_iff x y⟩,
    fun x y => ⟨eq_decide x y, ne_decide x y, lt_decide x y, le_decide x y, gt_decide x y,
      ge_decide x y⟩, ?_⟩
  constructor
  case total =>
    intro x y
    simpa only [le_decide, decide_eq_true_iff] using le_total x.value y.value
  case trans =>
    intro x y z
    simpa only [le_decide, decide_eq_true_iff] using le_trans
  case eq_iff =>
    intro x y
    simpa only [le_decide, eq_decide, decide_eq_true_iff] using le_antisymm_iff
  case ne_eq =>
    intro x y
    rw [ne_decide, eq_decide, decide_not]
  case lt_eq =>
    intro x y
    rw [lt_decide, le_decide, ← decide_not]
    exact decide_eq_decide.mpr not_le.symm
  case gt_eq =>
    intro x y
    rw [gt_decide, lt_decide]
  case ge_eq =>
    intro x y
    rw [ge_decide, le_decide]

example : compare ⟨[5, 0], true⟩ ⟨[5], true⟩ = 0 := by decide +kernel

end BigInt

end Csf
