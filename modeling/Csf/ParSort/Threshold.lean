import Csf.Lib.Strings
import Csf.ParSort.Termination

/-!
# The threshold that `main` accepts

`main` takes any number for a threshold that `strtoul` reads to the end of the argument,
and so zero, as which `strtoul` also reads the empty string
(`Csf.ParSort.parseThreshold`). With a threshold of zero, a range of one element is split
into an empty one and itself, so there is always another process to fork
(`Csf.ParSort.Spins`). That is the only way not to end
(`Csf.ParSort.merge_sort_ends_iff`).
-/

namespace Csf

namespace ParSort

open Interaction Function

variable {O m m' : Memory} {b e threshold : ℕ} {t : Tree}

/-! ### The argument -/

/-- `strtoul(nptr, &end, 10)`: the number, and the rest of the string that `end` points
to. White space is skipped, a sign and as many digits as there are are read; without a
digit, nothing is. A number that is too large is `ULONG_MAX`, a negative one is wrapped
around. -/
def strtoul (nptr : Str) : UInt64 × Str :=
  let rest := nptr.dropWhile isspace
  let signed := rest.head? == some '-' || rest.head? == some '+'
  let rest' := if signed then rest.tail else rest
  let digits := rest'.takeWhile Char.isDigit
  if digits.isEmpty then (0, nptr)
  else
    (if digitsVal digits ≥ 2 ^ 64 then .ofNat (2 ^ 64 - 1)
      else if rest.head? == some '-' then -.ofNat (digitsVal digits)
      else .ofNat (digitsVal digits),
      rest'.dropWhile Char.isDigit)

/-- The threshold that `main` takes from `argv[2]`, or `none` where it ends with the
message that the threshold value is invalid. -/
def parseThreshold (arg : Str) : Option UInt64 :=
  let (threshold, rest) := strtoul arg
  if rest = [] then some threshold else none

example : parseThreshold [] = some 0 := rfl

/-! ### A threshold of zero -/

/-- **Always another process to fork**: with a threshold of zero, a range that is not empty
has a right half that is not empty. -/
inductive Spins : ℕ → ℕ → Tree → Prop
  /-- A call that is going to split its range. -/
  | entry {b e : ℕ} {left right : Tree} (h : b < e) : Spins b e (.proc .entry left right)
  /-- The left child is forked. -/
  | forkRight {b e : ℕ} {left right : Tree} (h : b < e) : Spins b e (.proc .forkRight left right)
  /-- The right child does not come to an end. -/
  | waitLeft {b e : ℕ} {left right : Tree} (h : Spins (mid b e) e right) :
      Spins b e (.proc .waitLeft left right)

/-- **One more step**, after which there is another one. -/
theorem Spins.act (h : Spins b e t) (m : Memory) :
    ∃ path t', act 0 b e path .go t m = some (t', m) ∧ Spins b e t' := by
  induction h with
  | @entry b e left right h =>
    have hsize : ¬e - b ≤ 0 := by omega
    refine ⟨[], .proc .forkRight .start right, ?_, .forkRight h⟩
    rw [ParSort.act, step, if_neg (not_not.mpr h.le), if_neg hsize]
  | @forkRight b e left right h =>
    have hmid : mid b e < e := by
      unfold mid
      omega
    exact ⟨[], .proc .waitLeft left .start, rfl, .waitLeft (.entry hmid)⟩
  | @waitLeft b e left right _ ih =>
    obtain ⟨path, right', hact, hright⟩ := ih
    exact ⟨.right :: path, .proc .waitLeft left right', act_right.mpr ⟨right', hact, rfl⟩,
      .waitLeft hright⟩

/-- **A sort with a threshold of zero** need not end. -/
theorem exists_endless (h : Spins b e t) (m : Memory) :
    ∃ s : ℕ → Tree × Memory, s 0 = (t, m) ∧
      ∀ n, ∃ path c, act 0 b e path c (s n).1 (s n).2 = some (s (n + 1)) := by
  refine not_acc_iff_exists_descending_chain (r := fun s' s : Tree × Memory =>
    ∃ path c, act 0 b e path c s.1 s.2 = some s').mp fun hacc => ?_
  suffices hno : ∀ s : Tree × Memory, Acc (fun s' s : Tree × Memory =>
      ∃ path c, ParSort.act 0 b e path c s.1 s.2 = some s') s → ¬Spins b e s.1 from
    hno (t, m) hacc h
  intro s hs
  induction hs with
  | intro s _ ih =>
    intro hspins
    obtain ⟨path, t', hact, hspins'⟩ := hspins.act s.2
    exact ih (t', s.2) ⟨path, .go, hact⟩ hspins'

/-- **The recursion of `merge_sort` ends**, in every order of steps, exactly when the
threshold is not zero or there is nothing to sort. -/
theorem merge_sort_ends_iff {arg : Str} {threshold : UInt64}
    (harg : parseThreshold arg = some threshold) (hbe : b ≤ e) (O : Memory) :
    (¬∃ s : ℕ → Tree × Memory, s 0 = (.start, O) ∧
      ∀ n, ∃ path c, act threshold.toNat b e path c (s n).1 (s n).2 = some (s (n + 1))) ↔
      threshold ≠ 0 ∨ b = e := by
  constructor
  · intro hends
    by_contra hcond
    obtain ⟨hzero, hne⟩ := not_or.mp hcond
    obtain rfl := not_not.mp hzero
    exact hends (exists_endless (.entry (lt_of_le_of_ne hbe hne)) O)
  · rintro hcond ⟨s, -, hs⟩
    have hends : 1 ≤ threshold.toNat ∨ e ≤ b := by
      refine hcond.imp (fun h => Nat.one_le_iff_ne_zero.mpr fun h0 => h ?_) fun h => h.ge
      exact UInt64.toNat_inj.mp h0
    obtain ⟨n, hn⟩ := exists_not_step hends s
    obtain ⟨path, c, hact⟩ := hs n
    exact hn path c hact

/-- A threshold of two, for five elements. -/
theorem merge_sort_ends_iff_two :
    let O : Memory := fun i => -(i : ℤ)
    ¬∃ s : ℕ → Tree × Memory, s 0 = (.start, O) ∧
      ∀ n, ∃ path c, act (2 : UInt64).toNat 0 5 path c (s n).1 (s n).2 = some (s (n + 1)) := by
  intro O
  have harg : parseThreshold [' ', '2'] = some 2 := by decide +kernel
  exact (merge_sort_ends_iff harg (Nat.zero_le 5) O).mpr (.inl (by decide))

/-- **With the argument `0`**, the sort of a single element goes on for ever. -/
theorem not_merge_sort_ends :
    parseThreshold ['0'] = some 0 ∧
      ∃ s : ℕ → Tree × Memory, s 0 = (.start, fun _ => 7) ∧
        ∀ n, ∃ path c, act (0 : UInt64).toNat 0 1 path c (s n).1 (s n).2 = some (s (n + 1)) :=
  ⟨by decide +kernel, exists_endless (.entry Nat.one_pos) _⟩

end ParSort

end Csf
