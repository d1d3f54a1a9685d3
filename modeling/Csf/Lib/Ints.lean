import Csf.Lib.Loop

/-!
# Integers of 32 bits

What the operations of `Int32` and `UInt32` do to the integers they stand for, in the
form in which linear arithmetic can use it: every lemma turns one operation into a
remainder by `2 ^ 32`. The `for` loop of C over such integers is a counted loop.
-/

namespace Ints

/-- The representative of an integer modulo `2 ^ 32` that is an `Int32`. -/
theorem bmod_eq (n : ℤ) : n.bmod (2 ^ 32) = (n + 2147483648) % 4294967296 - 2147483648 := by
  rw [Int.bmod_def]
  split <;> omega

theorem toInt_add (a b : Int32) :
    (a + b).toInt = (a.toInt + b.toInt + 2147483648) % 4294967296 - 2147483648 := by
  rw [Int32.toInt_add, bmod_eq]

theorem toInt_sub (a b : Int32) :
    (a - b).toInt = (a.toInt - b.toInt + 2147483648) % 4294967296 - 2147483648 := by
  rw [Int32.toInt_sub, bmod_eq]

theorem toInt_neg (a : Int32) :
    (-a).toInt = (-a.toInt + 2147483648) % 4294967296 - 2147483648 := by
  rw [Int32.toInt_neg, bmod_eq]

/-- An unsigned number read as a signed one. -/
theorem toInt_toInt32 (u : UInt32) :
    u.toInt32.toInt = ((u.toNat : ℤ) + 2147483648) % 4294967296 - 2147483648 := by
  rw [← Int32.toInt_toBitVec, UInt32.toBitVec_toInt32, BitVec.toInt_eq_toNat_bmod, ← bmod_eq]
  rfl

theorem toInt_toInt32_of_lt {u : UInt32} (h : u.toNat < 2 ^ 31) : u.toInt32.toInt = u.toNat := by
  rw [toInt_toInt32]
  omega

/-- A signed number read as an unsigned one. -/
theorem toNat_toUInt32 (a : Int32) : (a.toUInt32.toNat : ℤ) = a.toInt % 4294967296 := by
  have hback : a.toInt = ((a.toUInt32.toNat : ℤ) + 2147483648) % 4294967296 - 2147483648 :=
    toInt_toInt32 a.toUInt32
  have hlt : a.toUInt32.toNat < 2 ^ 32 := a.toUInt32.toNat_lt
  omega

theorem toUInt32_inj {a b : Int32} : a.toUInt32 = b.toUInt32 ↔ a = b :=
  ⟨fun h => by simpa using congrArg UInt32.toInt32 h, congrArg Int32.toUInt32⟩

theorem ne_and_le_iff {a b : Int32} : ¬a = b ∧ b ≤ a ↔ b < a := by
  rw [Int32.le_iff_lt_or_eq, eq_comm (a := a)]
  exact ⟨fun h => h.2.resolve_right h.1, fun h => ⟨Int32.ne_of_lt h, .inl h⟩⟩

theorem eq_or_lt_iff {a b : Int32} : a = b ∨ a < b ↔ a ≤ b := by
  rw [Int32.le_iff_lt_or_eq, or_comm]

theorem toInt_bounds (a : Int32) : -2147483648 ≤ a.toInt ∧ a.toInt < 2147483648 :=
  ⟨Int32.le_toInt a, Int32.toInt_lt a⟩

/-- **A number that an `int32_t` can hold.** -/
def IsInt32 (n : ℤ) : Prop := -2147483648 ≤ n ∧ n < 2147483648

instance (n : ℤ) : Decidable (IsInt32 n) := inferInstanceAs (Decidable (_ ∧ _))

theorem IsInt32.bmod_eq_self {n : ℤ} (h : IsInt32 n) : n.bmod (2 ^ 32) = n := by
  obtain ⟨hlo, hhi⟩ := h
  rw [bmod_eq]
  omega

theorem IsInt32.toInt_add {a b : Int32} (h : IsInt32 (a.toInt + b.toInt)) :
    (a + b).toInt = a.toInt + b.toInt := (Int32.toInt_add a b).trans h.bmod_eq_self

theorem IsInt32.toInt_sub {a b : Int32} (h : IsInt32 (a.toInt - b.toInt)) :
    (a - b).toInt = a.toInt - b.toInt := (Int32.toInt_sub a b).trans h.bmod_eq_self

/-- A negative number made zero. -/
theorem toInt_max_zero (a : Int32) : (if a < 0 then 0 else a : Int32).toInt = max 0 a.toInt := by
  simp only [Int32.lt_iff_toInt_lt, Int32.toInt_zero]
  split
  · rename_i h
    exact (max_eq_left (Int.le_of_lt h)).symm
  · rename_i h
    exact (max_eq_right (Int.not_lt.mp h)).symm

/-- `for (i = lo; i < hi; ++i)`: the rounds have `lo`, `lo + 1`, … for `i`, and `++i` does not
overflow below `hi`. -/
def forLt {σ : Type} (lo hi : Int32) (body : Int32 → σ → Option σ) : σ → Option σ :=
  Interaction.forLoop (fun k => body (lo + Int32.ofNat k)) (hi.toInt - lo.toInt).toNat

/-- The counter of a round. -/
theorem toInt_counter {lo hi : Int32} {k : ℕ} (h : k < (hi.toInt - lo.toInt).toNat) :
    (lo + Int32.ofNat k).toInt = lo.toInt + k := by
  have hlo := toInt_bounds lo
  have hhi := toInt_bounds hi
  have hk : (Int32.ofNat k).toInt = (k : ℤ).bmod (2 ^ 32) := Int32.toInt_ofNat'
  rw [Int32.toInt_add, hk, Int.add_bmod_bmod, bmod_eq]
  omega

theorem forLt_eq_self {σ : Type} {lo hi : Int32} (h : hi.toInt ≤ lo.toInt)
    (body : Int32 → σ → Option σ) (s : σ) : forLt lo hi body s = some s := by
  rw [forLt, Int.toNat_eq_zero.mpr (by omega)]
  rfl

theorem forLt_eq_none {σ : Type} {lo hi i : Int32} {body : Int32 → σ → Option σ}
    (hlo : lo.toInt ≤ i.toInt) (hhi : i.toInt < hi.toInt) (h : ∀ s, body i s = none) (s : σ) :
    forLt lo hi body s = none := by
  have hk : (i.toInt - lo.toInt).toNat < (hi.toInt - lo.toInt).toNat := by omega
  have hi : lo + Int32.ofNat (i.toInt - lo.toInt).toNat = i := by
    refine Int32.toInt_inj.mp ?_
    rw [toInt_counter hk]
    omega
  exact Interaction.forLoop_eq_none hk (by rwa [hi]) s

/-! ### The loop with an unsigned counter -/

/-- A signed number converted to a `size_t`. -/
def toSize (a : Int32) : UInt64 := a.toInt64.toUInt64

theorem toNat_toSize (a : Int32) : ((toSize a).toNat : ℤ) = a.toInt % 18446744073709551616 := by
  have hsigned : (toSize a).toBitVec.toInt = a.toInt := by
    change (a.toBitVec.signExtend 64).toInt = _
    rw [BitVec.toInt_signExtend_of_le (by decide)]
    rfl
  have hlt : (toSize a).toNat < 2 ^ 64 := (toSize a).toNat_lt
  rw [BitVec.toInt_eq_toNat_bmod, UInt64.toNat_toBitVec, Int.bmod_def] at hsigned
  split at hsigned <;> omega

theorem toUInt32_toSize (a : Int32) : (toSize a).toUInt32 = a.toUInt32 := by
  refine UInt32.toBitVec_inj.mp ?_
  change (a.toBitVec.signExtend 64).setWidth 32 = a.toBitVec
  ext i hi
  simp [BitVec.getLsbD_signExtend, hi]
  omega

/-- A sum of `size_t`s converted back is that of the signed numbers. -/
theorem toInt32_add_toSize (a b : Int32) : (toSize a + toSize b).toUInt32.toInt32 = a + b := by
  rw [UInt64.toUInt32_add, toUInt32_toSize, toUInt32_toSize, UInt32.toInt32_add]
  rfl

/-- `for (size_t i = 0; i < n; ++i)` with a signed bound, which is converted. -/
def forSize {σ : Type} (n : Int32) (body : UInt64 → σ → Option σ) : σ → Option σ :=
  Interaction.forLoop (fun k => body (UInt64.ofNat k)) (toSize n).toNat

/-- With a bound that is not negative it is a loop over signed numbers. -/
theorem forSize_eq_forLt {σ : Type} {n : Int32} (h : 0 ≤ n.toInt) (body : UInt64 → σ → Option σ) :
    forSize n body = forLt 0 n (fun i => body (toSize i)) := by
  have hn := toInt_bounds n
  have hrounds : (toSize n).toNat = (n.toInt - (0 : Int32).toInt).toNat := by
    have hsize := toNat_toSize n
    rw [Int32.toInt_zero]
    omega
  rw [forSize, forLt, hrounds]
  refine Interaction.forLoop_congr fun k hk => ?_
  have hcounter : toSize (0 + Int32.ofNat k) = UInt64.ofNat k := by
    refine UInt64.toNat_inj.mp ?_
    have hsize := toNat_toSize (0 + Int32.ofNat k)
    rw [toInt_counter hk, Int32.toInt_zero] at hsize
    rw [UInt64.toNat_ofNat']
    omega
  rw [hcounter]

theorem forSize_zero {σ : Type} {n : Int32} (hn : n.toInt = 0) (body : UInt64 → σ → Option σ)
    (s : σ) : forSize n body s = some s := by
  have hsize := toNat_toSize n
  have hzero : (toSize n).toNat = 0 := by omega
  rw [forSize, hzero]
  rfl

theorem forSize_eq_none {σ : Type} {n : Int32} (hn : n.toInt ≠ 0)
    {body : UInt64 → σ → Option σ} (h : ∀ s, body 0 s = none) (s : σ) :
    forSize n body s = none := by
  have hsize := toNat_toSize n
  have hbounds := toInt_bounds n
  exact Interaction.forLoop_eq_none (by omega : 0 < (toSize n).toNat) h s

/-! ### The loop whose bound is included -/

/-- One round of `for (; i <= hi; ++i)`. -/
def leBody {σ : Type} (hi : Int32) (body : Int32 → σ → Option σ) (is : Int32 × σ) :
    Option (Interaction.Round (Int32 × σ) σ) :=
  if is.1 ≤ hi then (body is.1 is.2).map fun s' => .again (is.1 + 1, s')
  else some (.leave is.2)

/-- `for (i = lo; i <= hi; ++i)`, with at most `n` tests of the condition. With the largest
`int32_t` for `hi` the condition always holds. -/
def forLe {σ : Type} (n : ℕ) (lo hi : Int32) (body : Int32 → σ → Option σ) (s : σ) : Option σ :=
  Interaction.loop (leBody hi body) n (lo, s)

theorem toInt_succ {a : Int32} (h : a.toInt < 2147483647) : (a + 1).toInt = a.toInt + 1 := by
  have ha := toInt_bounds a
  rw [toInt_add, Int32.toInt_one]
  omega

variable {σ : Type} {lo hi : Int32} {body : Int32 → σ → Option σ} {s : σ}

/-- **The loop ends** unless its bound is the largest number there is, and then is the loop
with the next number as its strict bound. -/
theorem forLe_eq {n : ℕ} (hhi : hi.toInt < 2147483647)
    (hn : (hi.toInt + 1 - lo.toInt).toNat < n) :
    forLe n lo hi body s = forLt lo (hi + 1) body s := by
  rw [forLe, forLt, toInt_succ hhi]
  -- by induction on the number of rounds that are left
  generalize hm : (hi.toInt + 1 - lo.toInt).toNat = m at hn
  induction m generalizing n lo s with
  | zero =>
    obtain ⟨n, rfl⟩ := Nat.exists_eq_add_of_le' hn
    refine Interaction.loop_leave ?_
    rw [leBody, if_neg (by rw [Int32.le_iff_toInt_le]; dsimp only; omega)]
  | succ m ih =>
    obtain ⟨n, rfl⟩ := Nat.exists_eq_add_of_le' (Nat.one_le_of_lt hn)
    have hle : lo ≤ hi := Int32.le_iff_toInt_le.mpr (by omega)
    have hnext : (lo + 1).toInt = lo.toInt + 1 := toInt_succ (by omega)
    have hround : leBody hi body (lo, s) = (body lo s).map fun s' => .again (lo + 1, s') :=
      if_pos hle
    have hcounter : ∀ k, lo + Int32.ofNat (k + 1) = lo + 1 + Int32.ofNat k := by
      intro k
      rw [Int32.ofNat_add, Int32.add_comm (Int32.ofNat k), Int32.add_assoc]
      rfl
    have hzero : lo + Int32.ofNat 0 = lo := Int32.add_zero lo
    rw [Interaction.forLoop_succ, hzero]
    simp only [hcounter]
    cases hbody : body lo s with
    | none =>
      rw [hbody] at hround
      rw [Interaction.loop, hround]
      rfl
    | some s' =>
      rw [hbody] at hround
      rw [Interaction.loop_again hround]
      exact ih (by omega) (by omega)

/-- More tests than there are numbers are enough. -/
theorem forLe_eq_forLt {n : ℕ} (hhi : hi.toInt < 2147483647) (hn : 2 ^ 33 ≤ n)
    (lo : Int32) (body : Int32 → σ → Option σ) : forLe n lo hi body = forLt lo (hi + 1) body := by
  have hlo := toInt_bounds lo
  exact funext fun s => forLe_eq hhi (by omega)

/-- With the largest number as its bound it does not end. -/
theorem forLe_eq_none (n : ℕ) (hhi : hi.toInt = 2147483647) : forLe n lo hi body s = none := by
  cases hrun : forLe n lo hi body s with
  | none => rfl
  | some r =>
    refine (Interaction.loop_inv (I := fun _ => True) (Q := fun _ => False) (fun is r _ h => ?_)
      (fun _ _ _ _ => trivial) trivial hrun).elim
    have hle : is.1 ≤ hi := by
      have hi := toInt_bounds is.1
      rw [Int32.le_iff_toInt_le]
      omega
    rw [leBody, if_pos hle] at h
    cases hbody : body is.1 is.2 <;> rw [hbody] at h <;> simp at h

end Ints
