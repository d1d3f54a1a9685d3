import Mathlib

/-!
# Records of a fixed size

How values of one type are laid out in a sequence of bytes, each in the same number of them, is an
`Interaction.Layout`. A sequence of bytes then is a list of records and what is left at its end
(`Interaction.Layout.records`), and a list of values can be stored over its beginning
(`Interaction.Layout.store`). What is stored is what is read (`Interaction.Layout.records_store`),
and the rest stays.

The layout that processors have for integers is little-endian: `Interaction.littleEndian` for
naturals, and `Interaction.twosComplement` for integers.
-/

namespace Interaction

variable {α β : Type}

/-! ### Layouts -/

/-- **How values are laid out in bytes.** -/
structure Layout (α β : Type) where
  /-- The number of bytes of a value. -/
  size : ℕ
  /-- There is at least one. -/
  size_pos : 0 < size
  /-- The values there are bytes for. -/
  Valid : α → Prop
  /-- The bytes of a value. -/
  encode : α → List β
  /-- The value of bytes. -/
  decode : List β → α
  length_encode : ∀ a, (encode a).length = size
  decode_encode : ∀ a, Valid a → decode (encode a) = a
  valid_decode : ∀ s, s.length = size → Valid (decode s)
  encode_decode : ∀ s, s.length = size → encode (decode s) = s

namespace Layout

variable (L : Layout α β) {l : List α} {s : List β} {n : ℕ}

/-- The value at the beginning of a sequence of bytes, and the bytes after it. -/
def next (s : List β) : Option (α × List β) :=
  if L.size ≤ s.length then some (L.decode (s.take L.size), s.drop L.size) else none

/-- The value number `i` in a sequence of bytes. -/
def get (s : List β) (i : ℕ) : α := L.decode ((s.drop (i * L.size)).take L.size)

/-- The first values of a sequence of bytes. -/
def records (n : ℕ) (s : List β) : List α := (List.range n).map (L.get s)

/-- The number of values that a sequence of bytes has. -/
def count (s : List β) : ℕ := s.length / L.size

/-- **Values are stored** over the beginning of a sequence of bytes. -/
def store (l : List α) (s : List β) : List β := l.flatMap L.encode ++ s.drop (l.length * L.size)

theorem length_flatMap_encode (l : List α) : (l.flatMap L.encode).length = l.length * L.size := by
  induction l with
  | nil => simp
  | cons a l ih => rw [List.flatMap_cons, List.length_append, ih, L.length_encode,
      List.length_cons, Nat.succ_mul, Nat.add_comm]

theorem records_succ (n : ℕ) (s : List β) :
    L.records (n + 1) s = L.get s 0 :: L.records n (s.drop L.size) := by
  rw [records, records, List.range_succ_eq_map, List.map_cons, List.map_map]
  refine congrArg _ (List.map_congr_left fun i _ => ?_)
  simp only [Function.comp_apply, get, List.drop_drop, Nat.succ_mul, Nat.add_comm]

/-- **What is stored is what is read.** -/
theorem records_store (h : ∀ a ∈ l, L.Valid a) (s : List β) :
    L.records l.length (l.flatMap L.encode ++ s) = l := by
  induction l with
  | nil => rfl
  | cons a l ih =>
    obtain ⟨ha, hl⟩ := List.forall_mem_cons.mp h
    have hlen := L.length_encode a
    have hsplit : (a :: l).flatMap L.encode ++ s = L.encode a ++ (l.flatMap L.encode ++ s) := by
      rw [List.flatMap_cons, List.append_assoc]
    rw [List.length_cons, records_succ, hsplit, List.drop_left' hlen, ih hl, get, Nat.zero_mul,
      List.drop_zero, List.take_left' hlen, L.decode_encode a ha]

theorem length_store (h : l.length ≤ L.count s) : (L.store l s).length = s.length := by
  have hle := (Nat.le_div_iff_mul_le L.size_pos).mp h
  rw [store, List.length_append, L.length_flatMap_encode, List.length_drop]
  omega

/-- What is after the values stays. -/
theorem drop_store (l : List α) (s : List β) :
    (L.store l s).drop (l.length * L.size) = s.drop (l.length * L.size) := by
  rw [store, List.drop_left' (L.length_flatMap_encode l)]

theorem valid_get {i : ℕ} (h : i < L.count s) : L.Valid (L.get s i) := by
  refine L.valid_decode _ ?_
  have hle := (Nat.le_div_iff_mul_le L.size_pos).mp (Nat.succ_le_of_lt h)
  rw [Nat.succ_mul] at hle
  rw [List.length_take, List.length_drop]
  omega

theorem valid_of_mem_records {a : α} (h : a ∈ L.records (L.count s) s) : L.Valid a := by
  obtain ⟨i, hi, rfl⟩ := List.mem_map.mp h
  exact L.valid_get (List.mem_range.mp hi)

theorem count_drop (h : L.size ≤ s.length) : L.count s = L.count (s.drop L.size) + 1 := by
  rw [count, count, List.length_drop, Nat.div_eq_sub_div L.size_pos h]

/-- The next value is the first one, if there is one. -/
theorem next_eq_some (h : L.size ≤ s.length) :
    L.next s = some (L.get s 0, s.drop L.size) := by
  rw [next, if_pos h, get, Nat.zero_mul, List.drop_zero]

/-- A value is read where it has been written. -/
theorem next_encode {a : α} (ha : L.Valid a) (rest : List β) :
    L.next (L.encode a ++ rest) = some (a, rest) := by
  have hlen := L.length_encode a
  rw [next, if_pos (by rw [List.length_append]; omega), List.take_left' hlen,
    List.drop_left' hlen, L.decode_encode a ha]

/-- What is read is what has been written. -/
theorem eq_of_next {a : α} {rest : List β} (h : L.next s = some (a, rest)) :
    s = L.encode a ++ rest := by
  unfold next at h
  split at h
  · next hle =>
    obtain ⟨rfl, rfl⟩ := Prod.mk.inj (Option.some.inj h)
    rw [L.encode_decode _ (List.length_take_of_le hle), List.take_append_drop]
  · exact absurd h (by simp)

theorem length_of_next {a : α} {rest : List β} (h : L.next s = some (a, rest)) :
    rest.length < s.length := by
  have hpos := L.size_pos
  unfold next at h
  split at h
  · next hle =>
    obtain ⟨-, rfl⟩ := Prod.mk.inj (Option.some.inj h)
    rw [List.length_drop]
    omega
  · exact absurd h (by simp)

theorem count_eq_zero (h : ¬L.size ≤ s.length) : L.count s = 0 :=
  Nat.div_eq_of_lt (not_le.mp h)

end Layout

/-! ### Integers -/

/-- The number that bytes are the digits of, least significant first. -/
def littleEndian : List UInt8 → ℕ
  | [] => 0
  | b :: bs => b.toNat + 256 * littleEndian bs

/-- The last `k` digits of a number. -/
def bytes : ℕ → ℕ → List UInt8
  | 0, _ => []
  | k + 1, n => .ofNat n :: bytes k (n / 256)

@[simp] theorem length_bytes (k n : ℕ) : (bytes k n).length = k := by
  induction k generalizing n with
  | zero => rfl
  | succ k ih => rw [bytes, List.length_cons, ih]

theorem littleEndian_lt (bs : List UInt8) : littleEndian bs < 256 ^ bs.length := by
  induction bs with
  | nil => simp [littleEndian]
  | cons b bs ih =>
    have hb := b.toNat_lt
    rw [littleEndian, List.length_cons, pow_succ]
    omega

theorem littleEndian_bytes (k n : ℕ) : littleEndian (bytes k n) = n % 256 ^ k := by
  induction k generalizing n with
  | zero => simp [bytes, littleEndian, Nat.mod_one]
  | succ k ih =>
    rw [bytes, littleEndian, ih, pow_succ', Nat.mod_mul, UInt8.toNat_ofNat']

theorem bytes_littleEndian (bs : List UInt8) : bytes bs.length (littleEndian bs) = bs := by
  induction bs with
  | nil => rfl
  | cons b bs ih =>
    have hb := b.toNat_lt
    have hdiv : (b.toNat + 256 * littleEndian bs) / 256 = littleEndian bs := by omega
    have hmod : UInt8.ofNat (b.toNat + 256 * littleEndian bs) = b := by
      refine UInt8.toNat_inj.mp ?_
      rw [UInt8.toNat_ofNat']
      omega
    rw [List.length_cons, littleEndian, bytes, hdiv, hmod, ih]

/-- **Integers of `k` bytes**, in two's complement and little-endian. -/
def twosComplement (k : ℕ) (hk : 0 < k) : Layout ℤ UInt8 where
  size := k
  size_pos := hk
  Valid z := z.bmod (256 ^ k) = z
  encode z := bytes k (z % (256 ^ k : ℕ)).toNat
  decode s := (littleEndian s : ℤ).bmod (256 ^ k)
  length_encode _ := length_bytes _ _
  decode_encode z hz := by
    have hpos : (0 : ℤ) < (256 ^ k : ℕ) := by positivity
    have hnonneg := Int.emod_nonneg z hpos.ne'
    have hlt := Int.emod_lt_of_pos z hpos
    rw [littleEndian_bytes, Nat.mod_eq_of_lt (by omega), Int.toNat_of_nonneg hnonneg,
      Int.emod_bmod, hz]
  valid_decode _ _ := Int.bmod_bmod
  encode_decode s hs := by
    have hlt := littleEndian_lt s
    rw [hs] at hlt
    rw [Int.bmod_emod, Int.emod_eq_of_lt (by positivity) (by exact_mod_cast hlt),
      Int.toNat_natCast, ← hs, bytes_littleEndian]

end Interaction
