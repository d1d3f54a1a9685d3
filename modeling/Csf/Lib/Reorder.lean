import Csf.Lib.Machine

/-!
# Inputs in another order

A machine whose inputs have keys, where two inputs of different keys may change places.
Then only the order among the inputs of one key matters
(`Interaction.after_eq_of_filter_eq`): two lists of inputs in which the inputs of every
key come in the same order lead to the same state.

The inputs need to change places only in the states that a set closed under the steps
of the machine contains.
-/

namespace Interaction

variable {σ ι ο κ : Type} {f : σ → ι → ο × σ} {key : ι → κ} {I : σ → Prop}

/-- **Inputs of different keys change places**, in the states that satisfy `I`, which the
machine does not leave. -/
structure Independent (f : σ → ι → ο × σ) (key : ι → κ) (I : σ → Prop) : Prop where
  step : ∀ s i, I s → I (f s i).2
  swap : ∀ s i j, I s → key i ≠ key j → (f (f s i).2 j).2 = (f (f s j).2 i).2

/-- An input may be brought to the front, past inputs of other keys. -/
theorem Independent.after_front (h : Independent f key I) {s : σ} (hs : I s) {i : ι}
    {front : List ι} (hfront : ∀ j ∈ front, key j ≠ key i) (rest : List ι) :
    after f s (front ++ i :: rest) = after f s (i :: (front ++ rest)) := by
  induction front generalizing s with
  | nil => rfl
  | cons j front ih =>
    have hj : key j ≠ key i := hfront j List.mem_cons_self
    have hfront : ∀ j ∈ front, key j ≠ key i := fun k hk => hfront k (List.mem_cons_of_mem _ hk)
    calc after f s (j :: front ++ i :: rest)
        = after f (f s j).2 (i :: (front ++ rest)) := ih (h.step s j hs) hfront
      _ = after f (f (f s j).2 i).2 (front ++ rest) := rfl
      _ = after f (f (f s i).2 j).2 (front ++ rest) := by rw [h.swap s j i hs hj]
      _ = after f s (i :: (j :: front ++ rest)) := rfl

variable [DecidableEq κ]

/-- **Only the order within a key matters.** -/
theorem after_eq_of_filter_eq (h : Independent f key I) {s : σ} (hs : I s) {is js : List ι}
    (hfilter : ∀ k, is.filter (key · = k) = js.filter (key · = k)) :
    after f s is = after f s js := by
  induction is generalizing s js with
  | nil =>
    cases js with
    | nil => rfl
    | cons j js =>
      have hj := hfilter (key j)
      rw [List.filter_cons_of_pos (by simp)] at hj
      exact absurd hj (by simp)
  | cons i is ih =>
    -- The first input of its key in the other list is the same one.
    have hi := hfilter (key i)
    rw [List.filter_cons_of_pos (by simp)] at hi
    obtain ⟨front, rest, rfl, hfront, -, hrest⟩ := List.filter_eq_cons_iff.mp hi.symm
    have hfront : ∀ j ∈ front, key j ≠ key i := fun j hj => by simpa using hfront j hj
    rw [h.after_front hs hfront rest, after_cons, after_cons]
    refine ih (h.step s i hs) fun k => ?_
    have hk := hfilter k
    rw [List.filter_append, List.filter_cons, List.filter_cons] at hk
    rw [List.filter_append]
    by_cases hik : key i = k
    · subst hik
      have hnil : front.filter (key · = key i) = [] :=
        List.filter_eq_nil_iff.mpr fun j hj => by simpa using hfront j hj
      rw [hnil, List.nil_append, hrest]
    · simpa [hik] using hk

end Interaction
