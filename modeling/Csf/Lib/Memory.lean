import Mathlib

/-!
# Ranges of a memory

A memory is a function from addresses to values, and `Interaction.slice m b e` is what
it holds in the range `[b, e)`, as a list. The two things to know about a range are how
it is taken apart – at an address within it (`Interaction.slice_append`), at its first
or at its last element – and what a write does not change: the ranges that the address
is not in (`Interaction.slice_update`).

A finite sequence of writes is a list of addresses and values
(`Interaction.writeAll`). What it makes of a range that all of them are in depends on
that range alone (`Interaction.slice_writeAll_congr`).
-/

namespace Interaction

open Function List

variable {α : Type} {m m' : ℕ → α} {b c e i : ℕ}

/-- **What a memory holds in a range**, in order. -/
def slice (m : ℕ → α) (b e : ℕ) : List α := (List.Ico b e).map m

@[simp] theorem length_slice (m : ℕ → α) (b e : ℕ) : (slice m b e).length = e - b := by
  rw [slice, length_map, Ico.length]

theorem slice_eq_nil (m : ℕ → α) (h : e ≤ b) : slice m b e = [] := by
  rw [slice, Ico.eq_nil_of_le h, map_nil]

/-! ### Taking a range apart -/

/-- A range is cut in two at an address within it. -/
theorem slice_append (m : ℕ → α) (hbc : b ≤ c) (hce : c ≤ e) :
    slice m b c ++ slice m c e = slice m b e := by
  rw [slice, slice, ← map_append, Ico.append_consecutive hbc hce, slice]

theorem slice_eq_cons (m : ℕ → α) (h : b < e) : slice m b e = m b :: slice m (b + 1) e := by
  rw [slice, Ico.eq_cons h, map_cons, slice]

theorem slice_succ (m : ℕ → α) (h : b ≤ e) : slice m b (e + 1) = slice m b e ++ [m e] := by
  rw [slice, Ico.succ_top h, map_append, map_singleton, slice]

/-! ### What a range depends on -/

/-- Two memories hold the same in a range when they agree at every address in it. -/
theorem slice_eq_slice_iff : slice m b e = slice m' b e ↔ ∀ i, b ≤ i → i < e → m i = m' i := by
  rw [slice, slice, map_inj_left]
  refine forall_congr' fun i => ?_
  rw [Ico.mem, and_imp]

/-- Agreement on a range is agreement on the ranges within it. -/
theorem slice_congr {b' e' : ℕ} (h : slice m b e = slice m' b e) (hb : b ≤ b') (he : e' ≤ e) :
    slice m b' e' = slice m' b' e' :=
  slice_eq_slice_iff.mpr fun i hi hi' =>
    slice_eq_slice_iff.mp h i (hb.trans hi) (hi'.trans_le he)

/-- **A write leaves a range alone** whose addresses are all others. -/
theorem slice_update (m : ℕ → α) (v : α) (h : i < b ∨ e ≤ i) :
    slice (update m i v) b e = slice m b e := by
  refine slice_eq_slice_iff.mpr fun j hj hj' => update_of_ne ?_ v m
  omega

/-- What has happened to a memory, other than at addresses in `[b, e)`, is nothing. -/
def SameOutside (b e : ℕ) (m m' : ℕ → α) : Prop := ∀ i, i < b ∨ e ≤ i → m' i = m i

theorem SameOutside.refl (b e : ℕ) (m : ℕ → α) : SameOutside b e m m := fun _ _ => rfl

/-- A write happens at its address only. -/
theorem SameOutside.update (m : ℕ → α) (v : α) (hb : b ≤ i) (he : i < e) :
    SameOutside b e m (update m i v) := fun j hj => update_of_ne (by omega) v m

/-- What is outside a range is outside the ranges within it. -/
theorem SameOutside.mono {b' e' : ℕ} (h : SameOutside b' e' m m') (hb : b ≤ b') (he : e' ≤ e) :
    SameOutside b e m m' := fun i hi => h i (by omega)

theorem SameOutside.trans {m'' : ℕ → α} (h : SameOutside b e m m')
    (h' : SameOutside b e m' m'') : SameOutside b e m m'' :=
  fun i hi => (h' i hi).trans (h i hi)

/-- A range disjoint from the one that changes stays as it was. -/
theorem SameOutside.slice_eq {b' e' : ℕ} (h : SameOutside b' e' m m') (hd : e ≤ b' ∨ e' ≤ b) :
    slice m' b e = slice m b e :=
  slice_eq_slice_iff.mpr fun i hi hi' => h i (by omega)

/-! ### Sequences of writes -/

/-- The memory after a sequence of writes. -/
def writeAll (m : ℕ → α) (ws : List (ℕ × α)) : ℕ → α :=
  ws.foldl (fun m w => update m w.1 w.2) m

@[simp] theorem writeAll_nil (m : ℕ → α) : writeAll m [] = m := rfl

@[simp] theorem writeAll_cons (m : ℕ → α) (w : ℕ × α) (ws : List (ℕ × α)) :
    writeAll m (w :: ws) = writeAll (update m w.1 w.2) ws := rfl

/-- **Writes within a range make of it what they make of it anywhere**: the memory
around it has no part in the result. -/
theorem slice_writeAll_congr (ws : List (ℕ × α)) (h : slice m b e = slice m' b e) :
    slice (writeAll m ws) b e = slice (writeAll m' ws) b e := by
  induction ws generalizing m m' with
  | nil => exact h
  | cons w ws ih =>
    rw [writeAll_cons, writeAll_cons]
    refine ih (slice_eq_slice_iff.mpr fun i hi hi' => ?_)
    by_cases hiw : i = w.1
    · rw [hiw, update_self, update_self]
    · rw [update_of_ne hiw, update_of_ne hiw]
      exact slice_eq_slice_iff.mp h i hi hi'

/-- The writes that put a list of values at consecutive addresses. -/
def writesFrom (b : ℕ) : List α → List (ℕ × α)
  | [] => []
  | v :: vs => (b, v) :: writesFrom (b + 1) vs

theorem mem_writesFrom {vs : List α} {w : ℕ × α} (h : w ∈ writesFrom b vs) :
    b ≤ w.1 ∧ w.1 < b + vs.length := by
  induction vs generalizing b with
  | nil => exact absurd h List.not_mem_nil
  | cons v vs ih =>
    rw [length_cons]
    rcases List.mem_cons.mp h with rfl | h
    · exact ⟨le_rfl, by omega⟩
    · have hw := ih h
      omega

/-- Writes in a range happen in that range only. -/
theorem sameOutside_writeAll {ws : List (ℕ × α)} (h : ∀ w ∈ ws, b ≤ w.1 ∧ w.1 < e)
    (m : ℕ → α) : SameOutside b e m (writeAll m ws) := by
  induction ws generalizing m with
  | nil => exact .refl b e m
  | cons w ws ih =>
    obtain ⟨hw, hws⟩ := List.forall_mem_cons.mp h
    exact (SameOutside.update m w.2 hw.1 hw.2).trans (ih hws _)

/-- **Values written at consecutive addresses are there.** -/
theorem slice_writeAll_writesFrom (m : ℕ → α) (b : ℕ) (vs : List α) :
    slice (writeAll m (writesFrom b vs)) b (b + vs.length) = vs := by
  induction vs generalizing b m with
  | nil => exact slice_eq_nil _ le_rfl
  | cons v vs ih =>
    have hhead : writeAll (update m b v) (writesFrom (b + 1) vs) b = v := by
      rw [sameOutside_writeAll (fun w => mem_writesFrom) _ b (Or.inl (Nat.lt_succ_self b)),
        update_self]
    have hend : b + (v :: vs).length = b + 1 + vs.length := by
      rw [length_cons]
      omega
    rw [writesFrom, writeAll_cons, slice_eq_cons _ (by rw [length_cons]; omega), hhead, hend, ih]

end Interaction
