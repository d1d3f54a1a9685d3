import Csf.BigInt.Decimal

/-!
# Hexadecimal output

`to_hex` writes sixteen digits of every word, from the most significant one down, and takes
the leading zeros away. What it writes are the digits of the number, padded to the words it
has (`Csf.BigInt.hexStr_eq`); so what it returns is the numeral of the value
(`Csf.BigInt.toHex_exact`), and a word below the first digit keeps its zeros.

The zeros are counted in an `int`, which has to be large enough for them.
-/

namespace Csf

namespace BigInt

/-! ### The member function -/

/-- `hexcodes` -/
def hexcodes : Str := "0123456789abcdef".toList

/-- The inner loop of `to_hex`: `k` digits of the word `val64` are left to be written, the
variable `chunk4` being `4 * (k - 1)`. -/
def hexWordFrom (val64 : UInt64) : ℕ → Str
  | 0 => []
  | k + 1 =>
      let bitBase16 := ((val64 >>> .ofNat (4 * k)) &&& 0b1111).toUInt8
      hexcodes.getD bitBase16.toNat '0' :: hexWordFrom val64 k

/-- What `to_hex` writes to the stream `hex`: sixteen digits of every word, from the last
one. -/
def hexStr (magnitude : List UInt64) : Str := magnitude.reverse.flatMap (hexWordFrom · 16)

/-- The loop of `to_hex` that counts leading zeros, over what is left of `hex_str`; the last
character is not counted. The counter is an `int`, and its overflow is undefined. -/
def countZeros : Str → ℕ → Option ℕ
  | [], zeroCounter => some zeroCounter
  | c :: rest, zeroCounter =>
      if rest ≠ [] ∧ c = '0' then
        if zeroCounter + 1 < 2 ^ 31 then countZeros rest (zeroCounter + 1) else none
      else some zeroCounter

/-- `BigInt::to_hex` -/
def toHex (x : BigInt) : Option Str :=
  if x.magnitude.isEmpty || x.isZero then some ['0']
  else do
    let zeroCounter ← countZeros (hexStr x.magnitude) 0
    let result := (hexStr x.magnitude).drop zeroCounter
    return if x.sign then '-' :: result else result

/-! ### Padded numerals -/

/-- The last `k` hexadecimal digits of a number. -/
def padded : ℕ → ℕ → Str
  | 0, _ => []
  | k + 1, n => Nat.digitChar (n / 16 ^ k % 16) :: padded k n

theorem padded_append (j k n : ℕ) : padded (j + k) n = padded j (n / 16 ^ k) ++ padded k n := by
  induction j with
  | zero => rw [Nat.zero_add, padded, List.nil_append]
  | succ j ih =>
    rw [Nat.add_right_comm, padded, padded, ih, List.cons_append, Nat.div_div_eq_div_mul,
      ← Nat.pow_add, Nat.add_comm k j]

theorem padded_mod {k m : ℕ} (h : k ≤ m) (n : ℕ) : padded k (n % 16 ^ m) = padded k n := by
  induction k with
  | zero => rfl
  | succ k ih =>
    have hdigit : n % 16 ^ m / 16 ^ k % 16 = n / 16 ^ k % 16 := by
      obtain ⟨r, rfl⟩ := Nat.exists_eq_add_of_le h
      rw [Nat.pow_add, Nat.pow_succ, Nat.mul_assoc, Nat.mod_mul_right_div_self, Nat.mul_comm,
        Nat.mod_mod_of_dvd _ (Nat.dvd_mul_left _ _)]
    rw [padded, padded, hdigit, ih (by omega)]

/-- A number that needs its digits is its numeral. -/
theorem padded_of_le {k n : ℕ} (hle : 16 ^ k ≤ n) (hlt : n < 16 ^ (k + 1)) :
    padded (k + 1) n = Nat.toDigits 16 n := by
  induction k generalizing n with
  | zero =>
    have hn : n < 16 := by omega
    rw [padded, padded, Nat.toDigits_of_lt_base hn, Nat.pow_zero, Nat.div_one,
      Nat.mod_eq_of_lt hn]
  | succ k ih =>
    rw [Nat.pow_succ] at hle
    rw [Nat.pow_succ] at hlt
    have hpos : 0 < 16 ^ k := Nat.pow_pos (by decide)
    have hn : ¬n < 16 := by omega
    rw [Nat.toDigits_eq_if (by decide), if_neg hn, padded_append (k + 1) 1 n, Nat.pow_one,
      ih (by omega) (by omega), padded, padded, Nat.pow_zero, Nat.div_one]

/-- **Padded with zeros**: a number that does not need all its digits begins with zeros, and
goes on with its numeral. -/
theorem padded_eq {k n : ℕ} (hn : n ≠ 0) (h : n < 16 ^ k) :
    ∃ j < k, padded k n = List.replicate j '0' ++ Nat.toDigits 16 n := by
  induction k with
  | zero => omega
  | succ k ih =>
    by_cases hlt : n < 16 ^ k
    · obtain ⟨j, hj, heq⟩ := ih hlt
      refine ⟨j + 1, Nat.succ_lt_succ hj, ?_⟩
      rw [padded, heq, Nat.div_eq_of_lt hlt]
      rfl
    · exact ⟨0, Nat.succ_pos k, padded_of_le (Nat.le_of_not_lt hlt) h⟩

/-! ### What is written -/

/-- A character of `hexcodes` is the digit. -/
theorem hexcodes_getD {d : ℕ} (h : d < 16) : hexcodes.getD d '0' = Nat.digitChar d := by
  interval_cases d <;> rfl

/-- The inner loop writes the digits of the word. -/
theorem hexWordFrom_eq (val64 : UInt64) {k : ℕ} (hk : k ≤ 16) :
    hexWordFrom val64 k = padded k val64.toNat := by
  induction k with
  | zero => rfl
  | succ k ih =>
    have hdigit : ((val64 >>> .ofNat (4 * k)) &&& 0b1111).toUInt8.toNat =
        val64.toNat / 16 ^ k % 16 := by
      have hsize64 : UInt64.size = 2 ^ 64 := rfl
      have hmask : (0b1111 : UInt64).toNat = 2 ^ 4 - 1 := rfl
      rw [UInt64.toNat_toUInt8, UInt64.toNat_and, UInt64.toNat_shiftRight,
        UInt64.toNat_ofNat_of_lt' (by omega), hmask, Nat.and_two_pow_sub_one_eq_mod,
        Nat.shiftRight_eq_div_pow, Nat.mod_eq_of_lt (show 4 * k < 64 by omega), Nat.pow_mul]
      have hlt := Nat.mod_lt (val64.toNat / 16 ^ k) (show 0 < 16 by decide)
      exact Nat.mod_eq_of_lt (by omega)
    rw [hexWordFrom, padded, hdigit, hexcodes_getD (Nat.mod_lt _ (by decide)), ih (by omega)]

/-- **What `to_hex` writes** is the number, padded to the words it has. -/
theorem hexStr_eq (ws : List UInt64) : hexStr ws = padded (16 * ws.length) (wordsValue ws) := by
  induction ws with
  | nil => rfl
  | cons w ws ih =>
    have hhigh : wordsValue (w :: ws) / 16 ^ 16 = wordsValue ws := by
      have hw := w.toNat_lt
      rw [wordsValue_cons]
      omega
    have hlow : wordsValue (w :: ws) % 16 ^ 16 = w.toNat := by
      have hw := w.toNat_lt
      rw [wordsValue_cons]
      omega
    have happend : hexStr (w :: ws) = hexStr ws ++ hexWordFrom w 16 := by
      rw [hexStr, hexStr, List.reverse_cons, List.flatMap_append, List.flatMap_singleton]
    rw [happend, ih, hexWordFrom_eq w le_rfl, List.length_cons, Nat.mul_succ, padded_append, hhigh,
      ← padded_mod (le_refl 16) (wordsValue (w :: ws)), hlow]

/-- The zeros in front of a digit are counted, if the counter is large enough. -/
theorem countZeros_replicate {j z : ℕ} {rest : Str} (hrest : rest.head? ≠ some '0')
    (hne : rest ≠ []) (h : z + j < 2 ^ 31) :
    countZeros (List.replicate j '0' ++ rest) z = some (z + j) := by
  induction j generalizing z with
  | zero =>
    obtain ⟨c, rest, rfl⟩ := List.exists_cons_of_ne_nil hne
    rw [List.replicate_zero, List.nil_append, countZeros, if_neg, Nat.add_zero]
    exact fun hc => hrest (congrArg some hc.2)
  | succ j ih =>
    have hnext : List.replicate j '0' ++ rest ≠ [] := List.append_ne_nil_of_right_ne_nil _ hne
    rw [List.replicate_succ, List.cons_append, countZeros, if_pos ⟨hnext, rfl⟩,
      if_pos (by omega), ih (by omega)]
    congr 1
    omega

/-! ### Hexadecimal numerals -/

/-- The number that hexadecimal digits are read as. -/
def hexVal (ds : Str) : ℕ := ds.foldl (fun n d => 16 * n + hexcodes.idxOf d) 0

/-- The integer that a hexadecimal numeral is read as. -/
def readHexadecimal (s : Str) : ℤ :=
  if s.head? = some '-' then -(hexVal s.tail : ℤ) else hexVal s

/-- **The canonical hexadecimal numeral** of an integer, in lower case. -/
structure IsHexadecimal (n : ℤ) (s : Str) : Prop where
  /-- There is a minus sign exactly for a negative integer. -/
  negative : s.head? = some '-' ↔ n < 0
  /-- There are digits, and nothing else. -/
  digits : ∀ c ∈ unsigned s, c ∈ hexcodes
  nonempty : unsigned s ≠ []
  /-- There is no leading zero. -/
  leading : (unsigned s).head? = some '0' → s = ['0']
  /-- It is read as the integer. -/
  value : readHexadecimal s = n

theorem mem_hexcodes_of_lt {d : ℕ} (h : d < 16) : Nat.digitChar d ∈ hexcodes := by
  interval_cases d <;> decide

theorem idxOf_digitChar {d : ℕ} (h : d < 16) : hexcodes.idxOf (Nat.digitChar d) = d := by
  interval_cases d <;> decide

/-- The digits of a number are digits, and are read as the number. -/
theorem toDigits_sixteen (n : ℕ) :
    (∀ c ∈ Nat.toDigits 16 n, c ∈ hexcodes) ∧ hexVal (Nat.toDigits 16 n) = n := by
  induction n using Nat.strong_induction_on with
  | _ n ih =>
    rw [Nat.toDigits_eq_if (by decide)]
    split
    · rename_i hn
      refine ⟨fun c hc => ?_, ?_⟩
      · rw [List.mem_singleton.mp hc]
        exact mem_hexcodes_of_lt hn
      · rw [hexVal, List.foldl_cons, List.foldl_nil, idxOf_digitChar hn, Nat.mul_zero,
          Nat.zero_add]
    · rename_i hn
      obtain ⟨hmem, hval⟩ := ih (n / 16) (by omega)
      have hd := Nat.mod_lt n (show 0 < 16 by decide)
      refine ⟨fun c hc => ?_, ?_⟩
      · rcases List.mem_append.mp hc with hc | hc
        · exact hmem c hc
        · rw [List.mem_singleton.mp hc]
          exact mem_hexcodes_of_lt hd
      · rw [hexVal] at hval ⊢
        rw [List.foldl_append, hval, List.foldl_cons, List.foldl_nil, idxOf_digitChar hd,
          Nat.div_add_mod]

/-- The digits of a number, with the sign it is to have. -/
theorem isHexadecimal_toDigits (negative : Bool) {n : ℕ} (h : negative = true → n ≠ 0) :
    IsHexadecimal (if negative then -(n : ℤ) else n)
      (if negative then '-' :: Nat.toDigits 16 n else Nat.toDigits 16 n) := by
  obtain ⟨hdigits, hval⟩ := toDigits_sixteen n
  have hminus : (Nat.toDigits 16 n).head? ≠ some '-' := fun hhead =>
    absurd (hdigits '-' (List.mem_of_mem_head? hhead)) (by decide)
  obtain ⟨hneg, hun, hleading, hread⟩ := signed_digits h hminus
    (fun hhead => eq_zero_of_head?_toDigits (by decide) hhead) hexVal rfl
  refine ⟨hneg, ?_, ?_, ?_, ?_⟩
  · rwa [hun]
  · rw [hun]
    exact Nat.toDigits_ne_nil
  · rwa [hun]
  · rw [readHexadecimal, hread, hval]

/-- **Hexadecimal output is exact**: with less than `2 ^ 27` words, `to_hex` returns the
numeral of the value. -/
theorem toHex_exact {x : BigInt} (h : x.magnitude.length < 2 ^ 27) :
    ∃ s, toHex x = some s ∧ IsHexadecimal x.value s := by
  cases hzero : x.isZero
  · have hpos := wordsValue_pos_of_not_isZero hzero
    have hempty : x.magnitude.isEmpty = false := by
      refine Bool.eq_false_iff.mpr fun hnil => ?_
      rw [List.isEmpty_iff.mp hnil] at hpos
      exact absurd hpos (lt_irrefl 0)
    have hlt : wordsValue x.magnitude < 16 ^ (16 * x.magnitude.length) := by
      rw [Nat.pow_mul]
      exact wordsValue_lt x.magnitude
    obtain ⟨j, hj, hpadded⟩ := padded_eq (Nat.ne_of_gt hpos) hlt
    rw [← hexStr_eq] at hpadded
    have hcount : countZeros (hexStr x.magnitude) 0 = some j := by
      rw [hpadded, countZeros_replicate (head?_toDigits (by decide) (Nat.ne_of_gt hpos))
        Nat.toDigits_ne_nil (by omega), Nat.zero_add]
    have hdrop : (hexStr x.magnitude).drop j = Nat.toDigits 16 (wordsValue x.magnitude) := by
      rw [hpadded, List.drop_left' List.length_replicate]
    refine ⟨_, ?_, isHexadecimal_toDigits x.sign fun _ => Nat.ne_of_gt hpos⟩
    rw [toHex, hempty, hzero, if_neg (by decide), hcount]
    dsimp only [bind, pure, Option.bind]
    rw [hdrop]
  · refine ⟨['0'], ?_, ?_⟩
    · rw [toHex, hzero, Bool.or_true, if_pos rfl]
    · rw [value_eq_zero_of_isZero hzero]
      exact isHexadecimal_toDigits (n := 0) false nofun

/-- A word below the first digit keeps its zeros. -/
theorem toHex_exact_zeros :
    ∃ s, toHex ⟨[0x5, 0x2a, 0], true⟩ = some s ∧
      IsHexadecimal (⟨[0x5, 0x2a, 0], true⟩ : BigInt).value s :=
  toHex_exact (by decide)

example : toHex ⟨[0x5, 0x2a, 0], true⟩ = some "-2a0000000000000005".toList := by decide +kernel

end BigInt

end Csf
