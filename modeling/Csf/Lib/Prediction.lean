import Mathlib

/-!
# Prediction

When what has been seen of a sequence lets expect what comes next, it is enough to know how far
off the expectation is each time: the *residuals* of the sequence. From them the sequence is
restored, since at each place what is expected is known by then. The predictor may be anything,
as long as it is the same both times: restoring undoes taking residuals
(`Interaction.restore_residuals`), and the other way round (`Interaction.residuals_restore`).

So it is with lines of which each has a predictor of its own kind, which sees the line before it
as well (`Interaction.restoreLines`).
-/

namespace Interaction

variable {α κ : Type} [AddGroup α]

/-! ### Sequences -/

section Sequences

variable (p : List α → α)

/-- The residuals of what comes after `seen`. -/
def residualsAfter (seen : List α) : List α → List α
  | [] => []
  | x :: xs => (x - p seen) :: residualsAfter (seen ++ [x]) xs

/-- What comes after `seen`, from its residuals. -/
def restoreAfter (seen : List α) : List α → List α
  | [] => []
  | r :: rs => (r + p seen) :: restoreAfter (seen ++ [r + p seen]) rs

/-- The residuals of a sequence. -/
def residuals (xs : List α) : List α := residualsAfter p [] xs

/-- The sequence with these residuals. -/
def restore (rs : List α) : List α := restoreAfter p [] rs

theorem restoreAfter_residualsAfter (seen xs : List α) :
    restoreAfter p seen (residualsAfter p seen xs) = xs := by
  induction xs generalizing seen with
  | nil => rfl
  | cons x xs ih => rw [residualsAfter, restoreAfter, sub_add_cancel, ih]

theorem residualsAfter_restoreAfter (seen rs : List α) :
    residualsAfter p seen (restoreAfter p seen rs) = rs := by
  induction rs generalizing seen with
  | nil => rfl
  | cons r rs ih => rw [restoreAfter, residualsAfter, add_sub_cancel_right, ih]

@[simp] theorem length_restoreAfter (seen rs : List α) :
    (restoreAfter p seen rs).length = rs.length := by
  induction rs generalizing seen with
  | nil => rfl
  | cons r rs ih => rw [restoreAfter, List.length_cons, List.length_cons, ih]

/-- **A sequence is restored** from its residuals. -/
@[simp] theorem restore_residuals (xs : List α) : restore p (residuals p xs) = xs :=
  restoreAfter_residualsAfter p [] xs

/-- **Residuals are those** of what is restored from them. -/
@[simp] theorem residuals_restore (rs : List α) : residuals p (restore p rs) = rs :=
  residualsAfter_restoreAfter p [] rs

@[simp] theorem length_restore (rs : List α) : (restore p rs).length = rs.length :=
  length_restoreAfter p [] rs

@[simp] theorem length_residuals (xs : List α) : (residuals p xs).length = xs.length := by
  rw [← length_restore p, restore_residuals]

/-- Where nothing is expected, a sequence is its own residuals. -/
@[simp] theorem restore_zero (rs : List α) : restore (fun _ => 0) rs = rs := by
  suffices h : ∀ seen, restoreAfter (fun _ => 0) seen rs = rs from h []
  induction rs with
  | nil => exact fun _ => rfl
  | cons r rs ih =>
    intro seen
    rw [restoreAfter, add_zero, ih]

@[simp] theorem residuals_zero (xs : List α) : residuals (fun _ => 0) xs = xs := by
  have h := residuals_restore (fun _ => 0) xs
  rwa [restore_zero] at h

end Sequences

/-! ### Lines -/

section Lines

variable (p : κ → List α → List α → α)

/-- The residuals of lines, each with the kind of its predictor, after the line `prev`. -/
def residualLines (prev : List α) : List (κ × List α) → List (κ × List α)
  | [] => []
  | line :: lines => (line.1, residuals (p line.1 prev) line.2) :: residualLines line.2 lines

/-- The lines with these residuals, after the line `prev`. -/
def restoreLines (prev : List α) : List (κ × List α) → List (κ × List α)
  | [] => []
  | line :: lines =>
      let row := restore (p line.1 prev) line.2
      (line.1, row) :: restoreLines row lines

/-- **Lines are restored** from their residuals. -/
theorem restoreLines_residualLines (prev : List α) (lines : List (κ × List α)) :
    restoreLines p prev (residualLines p prev lines) = lines := by
  induction lines generalizing prev with
  | nil => rfl
  | cons line lines ih =>
    rw [residualLines, restoreLines]
    simp only [restore_residuals, ih]

/-- **Residuals are those** of the lines that are restored from them. -/
theorem residualLines_restoreLines (prev : List α) (lines : List (κ × List α)) :
    residualLines p prev (restoreLines p prev lines) = lines := by
  induction lines generalizing prev with
  | nil => rfl
  | cons line lines ih =>
    rw [restoreLines, residualLines]
    simp only [residuals_restore, ih]

theorem length_residualLines (prev : List α) (lines : List (κ × List α)) :
    (residualLines p prev lines).length = lines.length := by
  induction lines generalizing prev with
  | nil => rfl
  | cons line lines ih => rw [residualLines, List.length_cons, List.length_cons, ih]

/-- Lines keep their kinds and their lengths. -/
theorem forall_mem_restoreLines {P : κ → ℕ → Prop} (prev : List α) {lines : List (κ × List α)} :
    (∀ line ∈ restoreLines p prev lines, P line.1 line.2.length) ↔
      ∀ line ∈ lines, P line.1 line.2.length := by
  induction lines generalizing prev with
  | nil => exact Iff.rfl
  | cons line lines ih =>
    rw [restoreLines, List.forall_mem_cons, List.forall_mem_cons]
    simp only [length_restore, ih]

theorem forall_mem_residualLines {P : κ → ℕ → Prop} (prev : List α) {lines : List (κ × List α)} :
    (∀ line ∈ residualLines p prev lines, P line.1 line.2.length) ↔
      ∀ line ∈ lines, P line.1 line.2.length := by
  rw [← forall_mem_restoreLines p prev, restoreLines_residualLines]

end Lines

end Interaction
