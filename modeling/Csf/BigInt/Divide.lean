import Csf.BigInt.Multiply
import Csf.Lib.Loop
import Csf.Lib.Strings

/-!
# Dividing

`operator/` looks for the quotient of the magnitudes by binary search: a round multiplies
the middle of what is left by the divisor, and compares (`Csf.BigInt.divRound`). The
numbers of the search are big integers themselves, none of them negative, so the sums are
exact, and so is the one difference, which takes away one. The quotient stays between the
bounds (`Csf.BigInt.Searching`), and what is left gets smaller.

With enough rounds the quotient is there, and it is exact (`Csf.BigInt.div_exact`).
-/

namespace Csf

namespace BigInt

open Interaction

/-- `std::invalid_argument`, with its `what()`. -/
structure InvalidArgument where
  /-- The text. -/
  what : Str
  deriving DecidableEq

/-! ### Halving -/

/-- The loop of `div_by_2`, from the most significant word down: the words, and the bit
that is carried on from the last one. -/
def halveWords : List UInt64 → List UInt64 × UInt64
  | [] => ([], 0)
  | current :: higher =>
      let (result, carry) := halveWords higher
      ((current >>> 1 ||| carry <<< 63) :: result, current &&& 1)

/-- `BigInt::div_by_2` -/
def divBy2 (x : BigInt) : BigInt where
  magnitude := popZeros (halveWords x.magnitude).1
  sign := x.sign

/-- Half of a word, with the bit carried on from the next one. -/
theorem toNat_halveWord {current carry : UInt64} (hc : carry.toNat ≤ 1) :
    (current >>> 1 ||| carry <<< 63).toNat = current.toNat / 2 + 2 ^ 63 * carry.toNat := by
  have hcur := current.toNat_lt
  have hlow : current.toNat / 2 < 2 ^ 63 := by omega
  have h1 : (1 : UInt64).toNat % 64 = 1 := rfl
  have h63 : (63 : UInt64).toNat % 64 = 63 := rfl
  rw [UInt64.toNat_or, UInt64.toNat_shiftRight, UInt64.toNat_shiftLeft, h1, h63,
    Nat.shiftRight_eq_div_pow, Nat.pow_one, Nat.shiftLeft_eq, Nat.mod_eq_of_lt (by omega),
    Nat.lor_comm, ← Nat.shiftLeft_eq, ← Nat.shiftLeft_add_eq_or_of_lt hlow, Nat.shiftLeft_eq]
  omega

/-- **The loop of `div_by_2` halves**, and carries on the remainder. -/
theorem halveWords_spec (ws : List UInt64) :
    wordsValue (halveWords ws).1 = wordsValue ws / 2 ∧
      (halveWords ws).2.toNat = wordsValue ws % 2 := by
  induction ws with
  | nil => exact ⟨rfl, rfl⟩
  | cons current higher ih =>
    obtain ⟨hval, hcarry⟩ := ih
    have hword := @toNat_halveWord current (halveWords higher).2 (by omega)
    have hbit : (current &&& 1).toNat = current.toNat % 2 := by
      rw [UInt64.toNat_and, UInt64.toNat_one, Nat.and_one_is_mod]
    rw [halveWords]
    dsimp only
    rw [wordsValue_cons, wordsValue_cons, hword, hval, hbit]
    omega

theorem wordsValue_divBy2 (x : BigInt) :
    wordsValue (divBy2 x).magnitude = wordsValue x.magnitude / 2 := by
  rw [divBy2, wordsValue_popZeros, (halveWords_spec x.magnitude).1]

/-! ### The search -/

/-- One round of the loop of `operator/`, with the variables `min` and `max`; the quotient
is to have the sign `negative`. -/
def divRound (top bottom : BigInt) (negative : Bool) (s : BigInt × BigInt) :
    Round (BigInt × BigInt) BigInt :=
  let (min, max) := s
  if compareMagnitudes min max ≤ 0 then
    let mid := divBy2 (min + max)
    let product := mid * bottom
    let cmp := compareMagnitudes product top
    if cmp = 0 then .leave { mid with sign := negative }
    else if cmp < 0 then .again (mid + ofWord 1, max)
    else .again (min, mid - ofWord 1)
  else .leave { max with sign := negative }

/-- `BigInt::operator/`, with at most `rounds` rounds of its loop. -/
def div (rounds : ℕ) (x rhs : BigInt) : Option (Except InvalidArgument BigInt) :=
  if rhs.isZero then some (.error ⟨"Divide by 0".toList⟩)
  else
    let top : BigInt := { x with sign := false }
    let bottom : BigInt := { rhs with sign := false }
    if compareMagnitudes top bottom < 0 then some (.ok (ofWord 0))
    else
      (loop (fun s => some (divRound top bottom (x.sign != rhs.sign) s)) rounds
        (ofWord 0, top)).map .ok

section Magnitudes

variable {x y : BigInt}

/-- Numbers that are not negative are added by their magnitudes. -/
theorem add_nonneg (hx : x.sign = false) (hy : y.sign = false) :
    (x + y).sign = false ∧
      wordsValue (x + y).magnitude = wordsValue x.magnitude + wordsValue y.magnitude := by
  rw [add_of_sign_eq (hx.trans hy.symm)]
  refine ⟨hx, ?_⟩
  rw [wordsValue_addWords (le_max_left _ _) (le_max_right _ _) (by decide), UInt64.toNat_zero]
  rfl

/-- A number is taken from a larger one by the loop over the words. -/
theorem sub_of_le (hx : x.sign = false) (hy : y.sign = false) (hy0 : y.isZero = false)
    (hle : wordsValue y.magnitude ≤ wordsValue x.magnitude) :
    x - y = finish (subWords x.magnitude y.magnitude 0) false := by
  have hx0 : x.isZero = false := by
    have hpos := wordsValue_pos_of_not_isZero hy0
    refine Bool.eq_false_iff.mpr fun h => ?_
    rw [isZero_iff.mp h] at hle
    omega
  rw [sub_def, sub, if_neg (by simp [hx0]), if_neg (by simp [hy0]), if_neg (by simp [hx, hy]),
    if_pos ((compareMagnitudes_nonneg_iff x y).mpr hle), hx]

theorem sign_finish_false (ws : List UInt64) : (finish ws false).sign = false := ite_self _

theorem wordsValue_finish (ws : List UInt64) (s : Bool) :
    wordsValue (finish ws s).magnitude = wordsValue ws := wordsValue_popZeros ws

theorem wordsValue_ofWord (w : UInt64) (s : Bool) :
    wordsValue (ofWord w s).magnitude = w.toNat := by
  rw [ofWord, wordsValue_cons, wordsValue_nil, Nat.mul_zero, Nat.add_zero]

/-- One is taken away exactly. -/
theorem sub_one (hx : x.sign = false) (hpos : 1 ≤ wordsValue x.magnitude) :
    (x - ofWord 1).sign = false ∧
      wordsValue (x - ofWord 1).magnitude + 1 = wordsValue x.magnitude := by
  have hone : wordsValue (ofWord 1).magnitude = 1 := wordsValue_ofWord 1 false
  rw [sub_of_le hx rfl rfl (by rwa [hone])]
  refine ⟨sign_finish_false _, ?_⟩
  have hwords :=
    @wordsValue_subWords x.magnitude (ofWord 1).magnitude 0 (by decide) (by rwa [hone])
  have hexcess : excess x.magnitude (ofWord 1).magnitude 0 = 0 := by
    refine (excess_eq_zero_iff_not_losesBorrow (by rwa [hone])).mpr ?_
    -- the one word that is taken away is not a word of ones
    rintro ⟨i, hi, hword, -⟩
    obtain rfl : i = 0 := by
      rw [ofWord, List.length_singleton] at hi
      omega
    exact absurd hword (by decide)
  rw [wordsValue_finish]
  rw [hone, hexcess, UInt64.toNat_zero] at hwords
  omega

theorem compareMagnitudes_neg_iff (x y : BigInt) :
    compareMagnitudes x y < 0 ↔ wordsValue x.magnitude < wordsValue y.magnitude := by
  rw [← not_le, compareMagnitudes_nonneg_iff, not_le]

theorem compareMagnitudes_nonpos_iff (x y : BigInt) :
    compareMagnitudes x y ≤ 0 ↔ wordsValue x.magnitude ≤ wordsValue y.magnitude := by
  rw [compareMagnitudes_eq]
  split_ifs <;> simp <;> omega

theorem compareMagnitudes_eq_zero_iff (x y : BigInt) :
    compareMagnitudes x y = 0 ↔ wordsValue x.magnitude = wordsValue y.magnitude := by
  rw [le_antisymm_iff, compareMagnitudes_nonpos_iff, compareMagnitudes_nonneg_iff,
    le_antisymm_iff]

/-- A product that may be zero has the product of the magnitudes. -/
theorem wordsValue_mul_eq (x y : BigInt) :
    wordsValue (x * y).magnitude = wordsValue x.magnitude * wordsValue y.magnitude := by
  by_cases h : x.isZero ∨ y.isZero
  · rw [mul_def, mul, if_pos h, wordsValue_ofWord, UInt64.toNat_zero]
    rcases h with h | h <;> simp [isZero_iff.mp h]
  · obtain ⟨hx, hy⟩ := not_or.mp h
    exact wordsValue_mul (Bool.eq_false_iff.mpr hx) (Bool.eq_false_iff.mpr hy)

end Magnitudes

/-- **The quotient is not out of bounds**: it is not above `max`, and nothing below `min`
is above it. -/
structure Searching (top bottom : BigInt) (s : BigInt × BigInt) : Prop where
  /-- The bounds are not negative. -/
  min_sign : s.1.sign = false
  max_sign : s.2.sign = false
  /-- The lower bound. -/
  min_le : wordsValue s.1.magnitude ≤ wordsValue top.magnitude / wordsValue bottom.magnitude + 1
  /-- The upper bound. -/
  le_max : wordsValue top.magnitude / wordsValue bottom.magnitude ≤ wordsValue s.2.magnitude

/-- How much is left to search. -/
def left (s : BigInt × BigInt) : ℕ := wordsValue s.2.magnitude + 1 - wordsValue s.1.magnitude

section Search

variable {top bottom : BigInt} {negative : Bool} {s : BigInt × BigInt}

/-- **One round** finds the quotient, or leaves less to search. -/
theorem divRound_spec (hb : 0 < wordsValue bottom.magnitude) (h : Searching top bottom s) :
    (∃ q, divRound top bottom negative s = .leave q ∧ q.sign = negative ∧
        wordsValue q.magnitude = wordsValue top.magnitude / wordsValue bottom.magnitude) ∨
      ∃ s', divRound top bottom negative s = .again s' ∧ Searching top bottom s' ∧
        left s' < left s := by
  obtain ⟨min, max⟩ := s
  obtain ⟨hmin, hmax, hle, hge⟩ := h
  rw [divRound]
  dsimp only at hmin hmax hle hge ⊢
  by_cases hcmp : compareMagnitudes min max ≤ 0
  · rw [if_pos hcmp]
    rw [compareMagnitudes_nonpos_iff] at hcmp
    have hmid : wordsValue (divBy2 (min + max)).magnitude =
        (wordsValue min.magnitude + wordsValue max.magnitude) / 2 := by
      rw [wordsValue_divBy2, (add_nonneg hmin hmax).2]
    have hsign : (divBy2 (min + max)).sign = false := (add_nonneg hmin hmax).1
    have hproduct := wordsValue_mul_eq (divBy2 (min + max)) bottom
    generalize divBy2 (min + max) = mid at *
    rcases lt_trichotomy (wordsValue (mid * bottom).magnitude) (wordsValue top.magnitude) with
      hlt | heq | hgt
    · -- the middle is not above the quotient
      rw [if_neg (by rw [compareMagnitudes_eq_zero_iff]; omega),
        if_pos ((compareMagnitudes_neg_iff _ _).mpr hlt)]
      have hq := (Nat.le_div_iff_mul_le hb).mpr (hproduct ▸ hlt.le)
      obtain ⟨hsign', hval⟩ := add_nonneg (y := ofWord 1) hsign rfl
      rw [wordsValue_ofWord, UInt64.toNat_one] at hval
      refine .inr ⟨_, rfl, ⟨hsign', hmax, ?_, hge⟩, ?_⟩
      · dsimp only
        omega
      · simp only [left]
        omega
    · rw [if_pos ((compareMagnitudes_eq_zero_iff _ _).mpr heq)]
      refine .inl ⟨_, rfl, rfl, ?_⟩
      rw [← heq, hproduct, Nat.mul_div_cancel _ hb]
    · -- the middle is above the quotient
      rw [if_neg (by rw [compareMagnitudes_eq_zero_iff]; omega),
        if_neg (by rw [compareMagnitudes_neg_iff]; omega)]
      have hq := (Nat.div_lt_iff_lt_mul hb).mpr (hproduct ▸ hgt)
      obtain ⟨hsign', hval⟩ := sub_one hsign (Nat.one_le_of_lt hq)
      refine .inr ⟨_, rfl, ⟨hmin, hsign', hle, ?_⟩, ?_⟩
      · dsimp only
        omega
      · simp only [left]
        omega
  · rw [if_neg hcmp]
    rw [compareMagnitudes_nonpos_iff] at hcmp
    refine .inl ⟨_, rfl, rfl, ?_⟩
    dsimp only
    omega

/-- **The search ends**, and with the quotient. -/
theorem loop_divRound (hb : 0 < wordsValue bottom.magnitude) (hs : Searching top bottom s) {n : ℕ}
    (hn : left s < n) :
    ∃ q, loop (fun s => some (divRound top bottom negative s)) n s = some q ∧
      q.sign = negative ∧
      wordsValue q.magnitude = wordsValue top.magnitude / wordsValue bottom.magnitude := by
  refine loop_total (I := Searching top bottom) (μ := left) (fun s hs => ?_) hs hn
  rcases @divRound_spec top bottom negative s hb hs with ⟨q, hq, hspec⟩ | ⟨s', hs', hrest⟩
  · exact .inl ⟨q, congrArg some hq, hspec⟩
  · exact .inr ⟨s', congrArg some hs', hrest⟩

end Search

/-! ### The operator -/

section Operator

variable {x y : BigInt}

/-- **Division of magnitudes**: with more rounds than the dividend says, the quotient is
there, and a quotient of zero has no sign. -/
theorem div_of_not_isZero (hy : y.isZero = false) {rounds : ℕ}
    (hrounds : wordsValue x.magnitude + 1 < rounds) :
    ∃ q, div rounds x y = some (.ok q) ∧
      wordsValue q.magnitude = wordsValue x.magnitude / wordsValue y.magnitude ∧
      q.sign = (decide (wordsValue q.magnitude ≠ 0) && (x.sign != y.sign)) := by
  have hb := wordsValue_pos_of_not_isZero hy
  rw [div, if_neg (by simp [hy])]
  dsimp only
  by_cases hcmp : compareMagnitudes { x with sign := false } { y with sign := false } < 0
  · rw [if_pos hcmp]
    rw [compareMagnitudes_neg_iff] at hcmp
    exact ⟨_, rfl, (Nat.div_eq_of_lt hcmp).symm, rfl⟩
  · rw [if_neg hcmp]
    rw [compareMagnitudes_neg_iff, not_lt] at hcmp
    have hsearch : Searching { x with sign := false } { y with sign := false }
        (ofWord 0, { x with sign := false }) :=
      ⟨rfl, rfl, Nat.zero_le _, Nat.div_le_self _ _⟩
    have hleft : left (ofWord 0, { x with sign := false }) < rounds := hrounds
    obtain ⟨q, hq, hsign, hval⟩ :=
      @loop_divRound _ { y with sign := false } (x.sign != y.sign) _ hb hsearch _ hleft
    rw [hq]
    refine ⟨q, rfl, hval, ?_⟩
    have hpos : wordsValue q.magnitude ≠ 0 := by
      rw [hval]
      exact Nat.ne_of_gt (Nat.div_pos hcmp hb)
    rw [hsign, decide_eq_true hpos, Bool.true_and]

/-- More rounds than needed do no harm. -/
theorem div_mono {r : Except InvalidArgument BigInt} {n m : ℕ} (h : div n x y = some r)
    (hnm : n ≤ m) : div m x y = some r := by
  rw [div] at h ⊢
  dsimp only at h ⊢
  split_ifs at h ⊢
  · exact h
  · exact h
  · obtain ⟨q, hq, rfl⟩ := Option.map_eq_some_iff.mp h
    exact Option.map_eq_some_iff.mpr ⟨q, loop_mono hq hnm, rfl⟩

/-- The sign of a quotient is that of the operands together. -/
theorem tdiv_signs (s s' : Bool) (m n : ℕ) :
    ((if s then -1 else 1) * (m : ℤ)).tdiv ((if s' then -1 else 1) * (n : ℤ)) =
      (if s != s' then -1 else 1) * ((m / n : ℕ) : ℤ) := by
  cases s <;> cases s' <;> simp [Int.neg_tdiv, Int.tdiv_neg]

/-- **Division is exact**: a division by zero throws, and only that; otherwise the search
ends with the quotient, truncated toward zero, and zero is not flagged negative. -/
theorem div_exact (x y : BigInt) :
    (∀ rounds, (∃ e, div rounds x y = some (.error e)) ↔ y.value = 0) ∧
      (y.value ≠ 0 → ∃ q, (∃ enough, ∀ rounds ≥ enough, div rounds x y = some (.ok q)) ∧
        q.value = x.value.tdiv y.value ∧ (q.value = 0 → q.sign = false)) := by
  refine ⟨fun rounds => ⟨fun ⟨e, he⟩ => ?_, fun h => ?_⟩, fun h => ?_⟩
  · by_contra hne
    rw [div, if_neg (mt value_eq_zero_iff.mpr hne)] at he
    dsimp only at he
    split at he
    · exact absurd he (by simp)
    · obtain ⟨q, -, hq⟩ := Option.map_eq_some_iff.mp he
      exact absurd hq (by simp)
  · rw [div, if_pos (value_eq_zero_iff.mp h)]
    exact ⟨_, rfl⟩
  · obtain ⟨q, hq, hval, hsign⟩ := div_of_not_isZero (x := x)
      (Bool.eq_false_iff.mpr (mt value_eq_zero_iff.mpr h)) (Nat.lt_succ_self _)
    refine ⟨q, ⟨_, fun rounds hrounds => div_mono hq hrounds⟩, ?_, fun h0 => ?_⟩
    · rw [value_eq q, hsign, value_eq x, value_eq y, tdiv_signs, hval]
      by_cases hzero : wordsValue x.magnitude / wordsValue y.magnitude = 0
      · rw [hzero]
        simp
      · rw [decide_eq_true hzero, Bool.true_and]
    · rw [hsign, decide_eq_false fun hne => hne (isZero_iff.mp (value_eq_zero_iff.mp h0)),
        Bool.false_and]

example : div 9 ⟨[9], true⟩ ⟨[2], false⟩ = some (.ok ⟨[4], true⟩) := by decide +kernel

end Operator

end BigInt

end Csf
