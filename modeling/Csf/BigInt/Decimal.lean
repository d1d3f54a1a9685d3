import Csf.BigInt.Divide

/-!
# Decimal output

`to_dec` divides by ten as long as there is something left, and takes each digit from the
remainder – from the lowest word of it, which is all that is looked at. The subtraction
that gives the remainder need not be exact (`Csf.BigInt.exact_iff`), but its lowest word
is, since no borrow comes in there (`Csf.BigInt.remainder_word`). So the digits are right,
and what comes out is the numeral of the value (`Csf.BigInt.toDec_exact`).
-/

namespace Csf

namespace BigInt

open Interaction

/-! ### The member function -/

/-- One round of the loop of `to_dec`, with the variable `num` and what has been written to
`digits`. A remainder without words would leave it undefined, and has none here. -/
def decRound (rounds : ℕ) (s : BigInt × Str) :
    Option (Round (BigInt × Str) (Except InvalidArgument Str)) :=
  let (num, digits) := s
  if num.isZero then some (.leave (.ok digits))
  else
    match div rounds num (ofWord 10) with
    | none => none
    | some (.error e) => some (.leave (.error e))
    | some (.ok ans) =>
        match (num - ans * ofWord 10).magnitude with
        | [] => none
        | word :: _ => some (.again (ans, digits ++ Nat.toDigits 10 word.toNat))

/-- `BigInt::to_dec`, with at most `rounds` rounds of each loop. -/
def toDec (rounds : ℕ) (x : BigInt) : Option (Except InvalidArgument Str) :=
  if x.isZero then some (.ok ['0'])
  else
    (loop (decRound rounds) rounds ({ x with sign := false }, [])).map fun r =>
      r.map fun digits => if x.sign then '-' :: digits.reverse else digits.reverse

/-! ### The lowest word of a remainder -/

theorem head?_popZeros (ws : List UInt64) : (popZeros ws).head? = ws.head? := by
  induction ws using popZeros.induct with
  | case1 ws h ih =>
    rw [popZeros, if_pos h, ih]
    rcases ws with _ | ⟨w, _ | ⟨w', ws⟩⟩
    · rfl
    · exact absurd h.1 (lt_irrefl 1)
    · rfl
  | case2 ws h => rw [popZeros, if_neg h]

/-- **The lowest word of a difference is right**, whatever the borrows do further up. -/
theorem head?_subWords {larger smaller : List UInt64} {d : ℕ} (hd : d < 2 ^ 64)
    (hpos : 0 < wordsValue larger) (h : wordsValue larger = wordsValue smaller + d) :
    ∃ word, (subWords larger smaller 0).head? = some word ∧ word.toNat = d := by
  rcases larger with _ | ⟨a, larger⟩
  · exact absurd hpos (lt_irrefl 0)
  · obtain ⟨hword, -⟩ := subWord_spec a (smaller.headD 0) 0 (by decide)
    refine ⟨(subWord a (smaller.headD 0) 0).1, rfl, ?_⟩
    have hlt := (subWord a (smaller.headD 0) 0).1.toNat_lt
    rw [wordsValue_cons, wordsValue_headD_tail smaller] at h
    rw [UInt64.toNat_zero] at hword
    omega

/-- **The remainder modulo ten** is the lowest word of what `to_dec` computes. -/
theorem remainder_word {num ans : BigInt} (hnum : num.sign = false) (hans : ans.sign = false)
    (hpos : 0 < wordsValue num.magnitude)
    (hdiv : wordsValue ans.magnitude = wordsValue num.magnitude / 10) :
    ∃ word ws, (num - ans * ofWord 10).magnitude = word :: ws ∧
      word.toNat = wordsValue num.magnitude % 10 := by
  have hproduct : wordsValue (ans * ofWord 10).magnitude = wordsValue num.magnitude / 10 * 10 := by
    rw [wordsValue_mul_eq, hdiv, wordsValue_ofWord]
    rfl
  have hdm := Nat.div_add_mod (wordsValue num.magnitude) 10
  have hmod := Nat.mod_lt (wordsValue num.magnitude) (show 0 < 10 by decide)
  have hhead : ∃ word, (num - ans * ofWord 10).magnitude.head? = some word ∧
      word.toNat = wordsValue num.magnitude % 10 := by
    cases hzero : (ans * ofWord 10).isZero
    · -- something is subtracted, by the loop over the words
      have hsign : (ans * ofWord 10).sign = false := by
        rw [mul_def, mul]
        split
        · rfl
        · rw [hans]
          rfl
      rw [sub_of_le hnum hsign hzero (by omega), finish]
      dsimp only
      rw [head?_popZeros]
      exact head?_subWords (by omega) hpos (by omega)
    · -- the number has one digit, and is its own remainder
      rw [isZero_iff, hproduct] at hzero
      have hnum0 : num.isZero = false :=
        Bool.eq_false_iff.mpr fun h => Nat.ne_of_gt hpos (isZero_iff.mp h)
      rw [sub_def, sub, if_neg (by simp [hnum0]), if_pos (isZero_iff.mpr (hproduct.trans hzero))]
      rcases hmag : num.magnitude with _ | ⟨w, ws⟩
      · rw [hmag] at hpos
        exact absurd hpos (lt_irrefl 0)
      · refine ⟨w, rfl, ?_⟩
        rw [hmag] at hzero
        rw [wordsValue_cons] at hzero ⊢
        omega
  obtain ⟨word, hword, hval⟩ := hhead
  obtain ⟨ws, hws⟩ := List.head?_eq_some_iff.mp hword
  exact ⟨word, ws, hws, hval⟩

/-! ### Numerals -/

/-- The digits of a number, none for zero. -/
def digitsOf (n : ℕ) : Str := if n = 0 then [] else Nat.toDigits 10 n

theorem digitsOf_eq {n : ℕ} (h : n ≠ 0) :
    digitsOf n = digitsOf (n / 10) ++ Nat.toDigits 10 (n % 10) := by
  rw [digitsOf, if_neg h, Nat.toDigits_eq_if (by decide),
    Nat.toDigits_of_lt_base (Nat.mod_lt n (by decide)), digitsOf]
  split
  · rw [if_pos (by omega), Nat.mod_eq_of_lt (by omega), List.nil_append]
  · rw [if_neg (by omega)]

/-- A numeral of a number that is not zero does not begin with a zero, in any base. -/
theorem head?_toDigits {b n : ℕ} (hb : 1 < b) (h : n ≠ 0) :
    (Nat.toDigits b n).head? ≠ some '0' := by
  induction n using Nat.strong_induction_on with
  | _ n ih =>
    rw [Nat.toDigits_eq_if hb]
    split
    · rw [List.head?_cons, Ne, Option.some_inj, Nat.digitChar_eq_zero]
      exact h
    · rename_i hle
      rw [List.head?_append_of_ne_nil _ Nat.toDigits_ne_nil]
      exact ih (n / b) (Nat.div_lt_self (Nat.pos_of_ne_zero h) hb)
        (Nat.ne_of_gt (Nat.div_pos (Nat.le_of_not_lt hle) (by omega)))

/-- Only the numeral of zero begins with a zero. -/
theorem eq_zero_of_head?_toDigits {b n : ℕ} (hb : 1 < b)
    (h : (Nat.toDigits b n).head? = some '0') : n = 0 ∧ Nat.toDigits b n = ['0'] := by
  have hn : n = 0 := by
    by_contra hn
    exact head?_toDigits hb hn h
  exact ⟨hn, by rw [hn, Nat.toDigits_zero]⟩

/-- The digits of a numeral, without its sign. -/
def unsigned (s : Str) : Str := if s.head? = some '-' then s.tail else s

/-- The integer that a numeral is read as. -/
def readDecimal (s : Str) : ℤ :=
  if s.head? = some '-' then -(digitsVal s.tail : ℤ) else digitsVal s

/-- **The canonical decimal numeral** of an integer. -/
structure IsDecimal (n : ℤ) (s : Str) : Prop where
  /-- There is a minus sign exactly for a negative integer. -/
  negative : s.head? = some '-' ↔ n < 0
  /-- There are digits, and nothing else. -/
  digits : ∀ c ∈ unsigned s, c.isDigit = true
  nonempty : unsigned s ≠ []
  /-- There is no leading zero. -/
  leading : (unsigned s).head? = some '0' → s = ['0']
  /-- It is read as the integer. -/
  value : readDecimal s = n

/-- Digits with the sign they are to have, which zero has not. -/
theorem signed_digits {negative : Bool} {n : ℕ} (h : negative = true → n ≠ 0) {ds : Str}
    (hminus : ds.head? ≠ some '-') (hlead : ds.head? = some '0' → n = 0 ∧ ds = ['0'])
    (read : Str → ℕ) {s : Str} (hs : s = if negative then '-' :: ds else ds) :
    (s.head? = some '-' ↔ (if negative then -(n : ℤ) else n) < 0) ∧ unsigned s = ds ∧
      (ds.head? = some '0' → s = ['0']) ∧
      (if s.head? = some '-' then -(read s.tail : ℤ) else read s) =
        if negative then -(read ds : ℤ) else read ds := by
  cases negative
  · rw [if_neg Bool.false_ne_true] at hs
    subst hs
    rw [if_neg Bool.false_ne_true, if_neg Bool.false_ne_true, if_neg hminus]
    exact ⟨iff_of_false hminus (by omega), if_neg hminus, fun hhead => (hlead hhead).2, rfl⟩
  · rw [if_pos rfl] at hs
    subst hs
    have hn := h rfl
    rw [if_pos rfl, if_pos rfl, if_pos List.head?_cons]
    exact ⟨iff_of_true List.head?_cons (by omega), if_pos List.head?_cons,
      fun hhead => absurd (hlead hhead).1 hn, rfl⟩

/-- The digits of a number, with the sign it is to have. -/
theorem isDecimal_toDigits (negative : Bool) {n : ℕ} (h : negative = true → n ≠ 0) :
    IsDecimal (if negative then -(n : ℤ) else n)
      (if negative then '-' :: Nat.toDigits 10 n else Nat.toDigits 10 n) := by
  have hdigits : ∀ c ∈ Nat.toDigits 10 n, c.isDigit = true := fun c hc =>
    Nat.isDigit_of_mem_toDigits (by decide) (by decide) hc
  have hval : digitsVal (Nat.toDigits 10 n) = n := Nat.ofDigitChars_ten_toDigits
  have hminus : (Nat.toDigits 10 n).head? ≠ some '-' := fun hhead =>
    absurd (hdigits '-' (List.mem_of_mem_head? hhead)) (by decide)
  obtain ⟨hneg, hun, hleading, hread⟩ := signed_digits h hminus
    (fun hhead => eq_zero_of_head?_toDigits (by decide) hhead) digitsVal rfl
  refine ⟨hneg, ?_, ?_, ?_, ?_⟩
  · rwa [hun]
  · rw [hun]
    exact Nat.toDigits_ne_nil
  · rwa [hun]
  · rw [readDecimal, hread, hval]

/-! ### The loop -/

/-- **The digits written so far** are the last ones of the number, and `num` has the
others. -/
structure Writing (n : ℕ) (s : BigInt × Str) : Prop where
  /-- `num` is not negative, -/
  sign : s.1.sign = false
  /-- and not more than the number. -/
  le : wordsValue s.1.magnitude ≤ n
  /-- The digits of `num`, and those written, in their order. -/
  digits : digitsOf n = digitsOf (wordsValue s.1.magnitude) ++ s.2.reverse

/-- **One round** writes a digit, or finds that all are written. -/
theorem decRound_spec {n rounds : ℕ} (hrounds : n + 1 < rounds) {s : BigInt × Str}
    (h : Writing n s) :
    (∃ digits, decRound rounds s = some (.leave (.ok digits)) ∧ digits.reverse = digitsOf n) ∨
      ∃ s', decRound rounds s = some (.again s') ∧ Writing n s' ∧
        wordsValue s'.1.magnitude < wordsValue s.1.magnitude := by
  obtain ⟨num, digits⟩ := s
  obtain ⟨hsign, hle, hdigits⟩ := h
  dsimp only at hsign hle hdigits
  rw [decRound]
  dsimp only
  cases hzero : num.isZero
  · have hpos := wordsValue_pos_of_not_isZero hzero
    have hmore : wordsValue num.magnitude + 1 < rounds := by omega
    have hten : (ofWord 10).isZero = false := rfl
    obtain ⟨ans, hans, hval, hanss⟩ := div_of_not_isZero hten hmore
    rw [wordsValue_ofWord, show (10 : UInt64).toNat = 10 from rfl] at hval
    have hans0 : ans.sign = false := by
      rw [hanss, hsign]
      exact Bool.and_false _
    obtain ⟨word, ws, hmag, hword⟩ := remainder_word hsign hans0 hpos hval
    rw [if_neg Bool.false_ne_true, hans]
    dsimp only
    rw [hmag]
    dsimp only
    rw [hword]
    have hdigit := Nat.toDigits_of_lt_base
      (Nat.mod_lt (wordsValue num.magnitude) (show 0 < 10 by decide))
    refine .inr ⟨_, rfl, ⟨hans0, ?_, ?_⟩, ?_⟩
    · dsimp only
      omega
    · dsimp only
      rw [hdigits, digitsOf_eq (Nat.ne_of_gt hpos), hval, List.reverse_append, hdigit,
        List.reverse_singleton, List.append_assoc]
    · dsimp only
      omega
  · rw [if_pos rfl]
    refine .inl ⟨digits, rfl, ?_⟩
    rw [hdigits, isZero_iff.mp hzero]
    rfl

/-- **The loop ends** when all digits are written. -/
theorem loop_decRound {n rounds : ℕ} (hrounds : n + 1 < rounds) {s : BigInt × Str}
    (h : Writing n s) :
    ∃ digits, loop (decRound rounds) rounds s = some (.ok digits) ∧
      digits.reverse = digitsOf n := by
  have hround : ∀ s, Writing n s →
      (∃ r, decRound rounds s = some (.leave r) ∧
        ∃ digits, r = .ok digits ∧ digits.reverse = digitsOf n) ∨
      ∃ s', decRound rounds s = some (.again s') ∧ Writing n s' ∧
        wordsValue s'.1.magnitude < wordsValue s.1.magnitude := by
    intro s hs
    rcases decRound_spec hrounds hs with ⟨digits, hleave, hdigits⟩ | hnext
    · exact .inl ⟨_, hleave, digits, rfl, hdigits⟩
    · exact .inr hnext
  have hle := h.le
  obtain ⟨r, hr, digits, rfl, hdigits⟩ := loop_total hround h (show _ < rounds by omega)
  exact ⟨digits, hr, hdigits⟩

/-- **Decimal output is exact**: `to_dec` ends, and returns the numeral of the value. -/
theorem toDec_exact (x : BigInt) :
    ∃ s, (∃ enough, ∀ rounds ≥ enough, toDec rounds x = some (.ok s)) ∧ IsDecimal x.value s := by
  cases hzero : x.isZero
  · have hpos := wordsValue_pos_of_not_isZero hzero
    refine ⟨if x.sign then '-' :: Nat.toDigits 10 (wordsValue x.magnitude)
      else Nat.toDigits 10 (wordsValue x.magnitude),
      ⟨wordsValue x.magnitude + 2, fun rounds hrounds => ?_⟩,
      isDecimal_toDigits x.sign fun _ => Nat.ne_of_gt hpos⟩
    have hwriting : Writing (wordsValue x.magnitude) ({ x with sign := false }, []) :=
      ⟨rfl, le_rfl, (List.append_nil _).symm⟩
    have hmore : wordsValue x.magnitude + 1 < rounds := by omega
    obtain ⟨digits, hloop, hdigits⟩ := loop_decRound hmore hwriting
    rw [digitsOf, if_neg (Nat.ne_of_gt hpos)] at hdigits
    rw [toDec, if_neg (by simp [hzero]), hloop]
    simp only [Option.map_some, Except.map, hdigits]
  · refine ⟨['0'], ⟨0, fun rounds _ => ?_⟩, ?_⟩
    · rw [toDec, if_pos hzero]
    · rw [value_eq_zero_of_isZero hzero]
      exact isDecimal_toDigits (n := 0) false nofun

example : toDec 30 ⟨[27, 0], true⟩ = some (.ok "-27".toList) := by decide +kernel

end BigInt

end Csf
