import Csf.BigInt.Divide

/-!
# Canonical form

Every operator leaves its result in canonical form when it finds its operands so
(`Csf.BigInt.canonical_of_computed`), each in its own way: `operator-`, `operator*`,
`operator<<` and `div_by_2` remove the leading zeros of what they have computed, and
`operator+` cannot have any, its last word being a carry or the sum of words of which one
is not zero. So a number is flagged negative exactly when it is.
-/

namespace Csf

namespace BigInt

open Interaction

/-! ### Shifting -/

/-- The loop of `operator<<`, and the word after it: `buffer` is what has been shifted out
of the word before. -/
def shiftWords (bits : UInt64) : List UInt64 → UInt64 → List UInt64
  | [], buffer => [buffer]
  | word :: ws, buffer =>
      (word <<< bits ||| buffer) ::
        shiftWords bits ws (if bits = 0 then 0 else word >>> (64 - bits))

/-- `BigInt::operator<<` -/
def shiftLeft (x : BigInt) (n : UInt32) : Except InvalidArgument BigInt :=
  if x.sign then .error ⟨"Left shift is not allowed on negative values".toList⟩
  else
    let wordsShifted := n / 64
    let bitsShifted := n % 64
    .ok
      { magnitude := popZeros (List.replicate wordsShifted.toNat 0 ++
          shiftWords bitsShifted.toUInt64 x.magnitude 0)
        sign := false }

/-- `BigInt::is_negative` -/
def isNegative (x : BigInt) : Bool := x.sign

/-! ### Words without leading zeros -/

/-- There is no leading zero, unless it is the only word. -/
def Trimmed (ws : List UInt64) : Prop := 1 < ws.length → ws.getLast? ≠ some 0

theorem trimmed_popZeros (ws : List UInt64) : Trimmed (popZeros ws) := by
  induction ws using popZeros.induct with
  | case1 ws h ih => rwa [popZeros, if_pos h]
  | case2 ws h =>
    rw [popZeros, if_neg h]
    exact fun hlen hlast => h ⟨hlen, hlast⟩

/-- A number is canonical when it is trimmed and not a negative zero. -/
theorem canonical_of_trimmed {x : BigInt} (h : Trimmed x.magnitude)
    (hzero : x.isZero = true → x.sign = false) : x.Canonical :=
  ⟨h, fun hx => hzero (value_eq_zero_iff.mp hx)⟩

theorem canonical_finish (ws : List UInt64) (s : Bool) : (finish ws s).Canonical := by
  refine canonical_of_trimmed (trimmed_popZeros ws) fun h => ?_
  have hzero : (⟨popZeros ws, false⟩ : BigInt).isZero = true := h
  rw [finish]
  dsimp only
  rw [hzero, if_pos rfl]

theorem canonical_ofWord (w : UInt64) : (ofWord w).Canonical :=
  ⟨fun h => absurd h (lt_irrefl 1), fun _ => rfl⟩

/-! ### Adding -/

/-- The words go up to the place `n`, and the one there is not zero. -/
def Reaches (n : ℕ) (ws : List UInt64) : Prop := ws.length = n ∧ ws.getLast? ≠ some 0

theorem Reaches.tail {n : ℕ} {ws : List UInt64} (h : Reaches (n + 1) ws) (hn : n ≠ 0) :
    Reaches n ws.tail := by
  obtain ⟨hlen, hlast⟩ := h
  rcases ws with _ | ⟨w, ws⟩
  · exact absurd hlen (Nat.succ_ne_zero n).symm
  · have hlen' : ws.length = n := Nat.succ_inj.mp hlen
    have hne : ws ≠ [] := fun h0 => hn (by rw [← hlen', h0]; rfl)
    refine ⟨hlen', ?_⟩
    rwa [List.getLast?_cons_of_ne_nil hne] at hlast

/-- A single word that reaches its place is not zero. -/
theorem Reaches.headD_ne {ws : List UInt64} (h : Reaches 1 ws) : ws.headD 0 ≠ 0 := by
  obtain ⟨w, rfl⟩ := List.length_eq_one_iff.mp h.1
  exact fun h0 => h.2 (congrArg some h0)

/-- **A sum has no leading zero** when one of the summands reaches its last word. -/
theorem getLast?_addWords {n : ℕ} {as bs : List UInt64} {carry : UInt64} (hc : carry.toNat ≤ 1)
    (h : Reaches (n + 1) as ∨ Reaches (n + 1) bs) :
    (addWords (n + 1) as bs carry).getLast? ≠ some 0 := by
  induction n generalizing as bs carry with
  | zero =>
    obtain ⟨hword, -⟩ := addWord_spec (as.headD 0) (bs.headD 0) carry hc
    have hpos : (as.headD 0).toNat ≠ 0 ∨ (bs.headD 0).toNat ≠ 0 :=
      h.imp (fun h h0 => h.headD_ne (UInt64.toNat_inj.mp h0))
        fun h h0 => h.headD_ne (UInt64.toNat_inj.mp h0)
    rw [addWords]
    dsimp only
    rw [addWords]
    split
    · exact fun h => absurd (show some (1 : UInt64) = some 0 from h) (by decide)
    · -- nothing is carried, so the sum itself is not zero
      rename_i hcarry
      have hzero : (addWord (as.headD 0) (bs.headD 0) carry).2.toNat = 0 :=
        Nat.eq_zero_of_not_pos fun h => hcarry (UInt64.lt_iff_toNat_lt.mpr h)
      intro hlast
      have hsum : (addWord (as.headD 0) (bs.headD 0) carry).1.toNat = 0 :=
        congrArg UInt64.toNat (Option.some.inj hlast)
      omega
  | succ n ih =>
    obtain ⟨-, hcarry⟩ := addWord_spec (as.headD 0) (bs.headD 0) carry hc
    have hrest := @ih as.tail bs.tail _ hcarry
      (h.imp (fun h => h.tail (Nat.succ_ne_zero n)) fun h => h.tail (Nat.succ_ne_zero n))
    rw [addWords]
    dsimp only
    rwa [List.getLast?_cons_of_ne_nil]
    rw [addWords]
    exact List.cons_ne_nil _ _

section Operators

variable {x y q : BigInt}

/-- **A sum with one sign** is canonical. -/
theorem canonical_add_of_sign_eq (hx : x.Canonical) (hy : y.Canonical) (h : x.sign = y.sign) :
    (x + y).Canonical := by
  refine ⟨?_, fun hzero => ?_⟩
  · rw [add_of_sign_eq h]
    dsimp only
    rcases hn : max x.magnitude.length y.magnitude.length with _ | n
    · intro hlen
      exact absurd hlen (by rw [addWords, if_neg (by decide)]; decide)
    · intro hlen
      by_cases hn0 : n = 0
      · -- one word, and a carry that is not zero
        subst hn0
        rw [addWords] at hlen ⊢
        dsimp only at hlen ⊢
        rw [addWords] at hlen ⊢
        split
        · exact fun h => absurd (show some (1 : UInt64) = some 0 from h) (by decide)
        · rename_i hcarry
          rw [if_neg hcarry] at hlen
          exact absurd hlen (lt_irrefl 1)
      · refine getLast?_addWords (by decide) ?_
        rcases le_total x.magnitude.length y.magnitude.length with hle | hle
        · rw [max_eq_right hle] at hn
          exact .inr ⟨hn, hy.last (by omega)⟩
        · rw [max_eq_left hle] at hn
          exact .inl ⟨hn, hx.last (by omega)⟩
  · -- numbers of one sign add up to zero only if they are zero
    have hsign : (x + y).sign = x.sign := by rw [add_of_sign_eq h]
    rw [value_add_of_sign_eq h, value_eq, value_eq y, ← h] at hzero
    rw [hsign]
    refine hx.zero ?_
    rw [value_eq]
    cases hs : x.sign
    · rw [hs, if_neg Bool.false_ne_true] at hzero
      rw [if_neg Bool.false_ne_true]
      omega
    · rw [hs, if_pos rfl] at hzero
      rw [if_pos rfl]
      omega

/-- **A difference** is canonical, whatever becomes of the borrows. -/
theorem canonical_sub (hx : x.Canonical) (hy : y.Canonical) : (x - y).Canonical := by
  rw [sub_def, sub]
  split
  · exact canonical_neg hy
  split
  · exact hx
  split
  · rename_i hy0 hsign
    have hneg := neg_of_canonical hy (Bool.eq_false_iff.mpr hy0)
    refine canonical_add_of_sign_eq hx (canonical_neg hy) ?_
    rw [hneg]
    exact Bool.eq_not_of_ne hsign
  split <;> exact canonical_finish _ _

theorem canonical_add (hx : x.Canonical) (hy : y.Canonical) : (x + y).Canonical := by
  by_cases h : x.sign = y.sign
  · exact canonical_add_of_sign_eq hx hy h
  · rw [add_of_sign_ne h]
    split
    · exact canonical_sub hy (canonical_neg hx)
    · exact canonical_sub hx (canonical_neg hy)

theorem canonical_mul (x y : BigInt) : (x * y).Canonical := by
  by_cases h : x.isZero ∨ y.isZero
  · rw [mul_def, mul, if_pos h]
    exact canonical_ofWord 0
  · obtain ⟨hx, hy⟩ := not_or.mp h
    refine ⟨?_, fun hzero => ?_⟩
    · rw [mul_def, mul, if_neg h]
      exact trimmed_popZeros _
    · rw [value_mul, mul_eq_zero, value_eq_zero_iff, value_eq_zero_iff] at hzero
      exact absurd hzero h

theorem canonical_divBy2 (hx : x.sign = false) : (divBy2 x).Canonical :=
  canonical_of_trimmed (trimmed_popZeros _) fun _ => hx

/-- What the search ends with is canonical but for its sign. -/
theorem trimmed_loop_divRound {top bottom : BigInt} {negative : Bool} {n : ℕ}
    (htop : top.Canonical) (hsign : top.sign = false)
    (h : loop (fun s => some (divRound top bottom negative s)) n (ofWord 0, top) = some q) :
    Trimmed q.magnitude := by
  refine loop_inv (I := fun s : BigInt × BigInt => s.1.Canonical ∧ s.2.Canonical ∧
    s.1.sign = false ∧ s.2.sign = false) (Q := fun q => Trimmed q.magnitude)
    (fun s r hs hr => ?_) (fun s s' hs hs' => ?_) ⟨canonical_ofWord 0, htop, rfl, hsign⟩ h
  · obtain ⟨min, max⟩ := s
    simp only [divRound] at hr
    split_ifs at hr <;> cases hr
    · exact trimmed_popZeros _
    · exact hs.2.1.last
  · obtain ⟨min, max⟩ := s
    obtain ⟨hmin, hmax, hmins, hmaxs⟩ := hs
    have hmids : (divBy2 (min + max)).sign = false := (add_nonneg hmins hmaxs).1
    have hmid := canonical_divBy2 (add_nonneg hmins hmaxs).1
    simp only [divRound] at hs'
    split_ifs at hs' with hle heq hlt <;> cases hs'
    · exact ⟨canonical_add hmid (canonical_ofWord 1), hmax, (add_nonneg hmids rfl).1, hmaxs⟩
    · refine ⟨hmin, canonical_sub hmid (canonical_ofWord 1), hmins, ?_⟩
      -- the middle is not zero, as its product is above the dividend
      refine (sub_one hmids (Nat.one_le_iff_ne_zero.mpr fun h0 => ?_)).1
      have hproduct := wordsValue_mul_eq (divBy2 (min + max)) bottom
      rw [compareMagnitudes_neg_iff] at hlt
      rw [compareMagnitudes_eq_zero_iff] at heq
      rw [h0, Nat.zero_mul] at hproduct
      omega

/-- **A quotient** is canonical. -/
theorem canonical_div (hx : x.Canonical) {rounds : ℕ} (h : div rounds x y = some (.ok q)) :
    q.Canonical := by
  have hy : y.isZero = false := by
    refine Bool.eq_false_iff.mpr fun h0 => ?_
    rw [div, if_pos h0] at h
    cases h
  refine canonical_of_trimmed ?_ fun hq0 => ?_
  · rw [div, if_neg (by simp [hy])] at h
    dsimp only at h
    split at h
    · cases h
      exact (canonical_ofWord 0).last
    · obtain ⟨q', hq', heq⟩ := Option.map_eq_some_iff.mp h
      cases heq
      have htop : ({ x with sign := false } : BigInt).Canonical := ⟨hx.last, fun _ => rfl⟩
      exact trimmed_loop_divRound htop rfl hq'
  · obtain ⟨q', hq', -, hsign⟩ := @div_of_not_isZero x y hy _ (Nat.lt_succ_self _)
    have hsame := (div_mono h (le_max_left _ _)).symm.trans (div_mono hq' (le_max_right rounds _))
    cases hsame
    rw [hsign, decide_eq_false fun hne => hne (isZero_iff.mp hq0), Bool.false_and]

theorem canonical_shiftLeft {n : UInt32} (h : shiftLeft x n = .ok y) : y.Canonical := by
  rw [shiftLeft] at h
  split at h
  · cases h
  · cases h
    exact canonical_of_trimmed (trimmed_popZeros _) fun _ => rfl

/-! ### Computations -/

/-- **What can be computed from canonical numbers**, by any operators in any order. -/
inductive Computed : BigInt → Prop
  | canonical {x : BigInt} (h : x.Canonical) : Computed x
  | add {x y : BigInt} (hx : Computed x) (hy : Computed y) : Computed (x + y)
  | sub {x y : BigInt} (hx : Computed x) (hy : Computed y) : Computed (x - y)
  | neg {x : BigInt} (hx : Computed x) : Computed (-x)
  | mul {x y : BigInt} (hx : Computed x) (hy : Computed y) : Computed (x * y)
  | div {x y q : BigInt} {rounds : ℕ} (hx : Computed x) (hy : Computed y)
      (h : div rounds x y = some (.ok q)) : Computed q
  | shiftLeft {x y : BigInt} {n : UInt32} (hx : Computed x) (h : shiftLeft x n = .ok y) :
      Computed y

/-- A canonical number is flagged negative exactly when it is. -/
theorem isNegative_iff (hx : x.Canonical) : x.isNegative = true ↔ x.value < 0 := by
  rw [isNegative, value_eq]
  constructor
  · intro h
    have hpos := wordsValue_pos_of_not_isZero (not_isZero_of_sign hx h)
    rw [if_pos h]
    omega
  · intro h
    by_contra hsign
    rw [if_neg hsign] at h
    omega

/-- **Canonical form is preserved** by all operators, so that a computed number is flagged
negative exactly when it is. -/
theorem canonical_of_computed (h : Computed x) :
    x.Canonical ∧ (x.isNegative = true ↔ x.value < 0) := by
  suffices hx : x.Canonical from ⟨hx, isNegative_iff hx⟩
  induction h with
  | canonical h => exact h
  | add _ _ hx hy => exact canonical_add hx hy
  | sub _ _ hx hy => exact canonical_sub hx hy
  | neg _ hx => exact canonical_neg hx
  | mul _ _ _ _ => exact canonical_mul _ _
  | div _ _ h hx _ => exact canonical_div hx h
  | shiftLeft _ h _ => exact canonical_shiftLeft h

/-- The quotient of a sum that has a carry, and of a difference. -/
theorem canonical_of_computed_quotient :
    ∃ q, div 200 (⟨[0, 0xffffffffffffffff], true⟩ + ⟨[1, 1], true⟩)
        (⟨[3], false⟩ - ⟨[5], false⟩) = some (.ok q) ∧
      q.Canonical ∧ (q.isNegative = true ↔ q.value < 0) := by
  obtain ⟨q, hq⟩ : ∃ q, div 200 (⟨[0, 0xffffffffffffffff], true⟩ + ⟨[1, 1], true⟩)
      (⟨[3], false⟩ - ⟨[5], false⟩) = some (.ok q) :=
    ⟨⟨[0, 0x8000000000000000], false⟩, by decide +kernel⟩
  have hcanonical : ∀ x ∈ ([⟨[0, 0xffffffffffffffff], true⟩, ⟨[1, 1], true⟩, ⟨[3], false⟩,
      ⟨[5], false⟩] : List BigInt), x.Canonical := by
    intro x hx
    fin_cases hx
    all_goals exact ⟨by decide, by decide⟩
  refine ⟨q, hq, canonical_of_computed (.div (.add (.canonical ?_) (.canonical ?_))
    (.sub (.canonical ?_) (.canonical ?_)) hq)⟩
  all_goals exact hcanonical _ (by decide)

end Operators

end BigInt

end Csf
