import Mathlib

/-!
# Machines in lockstep

A machine is a function from states and inputs to outputs and states. Two machines that
are fed the same inputs give the same outputs as long as a relation between their states
is kept by every step and makes the outputs equal (`Interaction.outputs_eq`). The relation
may count the steps, so that it has to be kept only for as many as are made.
-/

namespace Interaction

variable {σ τ ι ο : Type}

/-- **What a machine puts out** for a list of inputs. -/
def outputs (f : σ → ι → ο × σ) (s : σ) : List ι → List ο
  | [] => []
  | i :: is => (f s i).1 :: outputs f (f s i).2 is

/-- **The state a machine is in** after a list of inputs. -/
def after (f : σ → ι → ο × σ) (s : σ) : List ι → σ
  | [] => s
  | i :: is => after f (f s i).2 is

@[simp] theorem outputs_nil (f : σ → ι → ο × σ) (s : σ) : outputs f s [] = [] := rfl

@[simp] theorem outputs_cons (f : σ → ι → ο × σ) (s : σ) (i : ι) (is : List ι) :
    outputs f s (i :: is) = (f s i).1 :: outputs f (f s i).2 is := rfl

@[simp] theorem after_nil (f : σ → ι → ο × σ) (s : σ) : after f s [] = s := rfl

@[simp] theorem after_cons (f : σ → ι → ο × σ) (s : σ) (i : ι) (is : List ι) :
    after f s (i :: is) = after f (f s i).2 is := rfl

theorem length_outputs (f : σ → ι → ο × σ) (s : σ) (is : List ι) :
    (outputs f s is).length = is.length := by
  induction is generalizing s with
  | nil => rfl
  | cons i is ih => rw [outputs_cons, List.length_cons, ih, List.length_cons]

theorem after_append (f : σ → ι → ο × σ) (s : σ) (is is' : List ι) :
    after f s (is ++ is') = after f (after f s is) is' := by
  induction is generalizing s with
  | nil => rfl
  | cons i is ih => exact ih _

theorem foldl_eq_after (f : σ → ι → ο × σ) (s : σ) (is : List ι) :
    is.foldl (fun s i => (f s i).2) s = after f s is := by
  induction is generalizing s with
  | nil => rfl
  | cons i is ih => exact ih _

/-- What every step keeps is kept. -/
theorem after_inv {f : σ → ι → ο × σ} {I : σ → Prop} (hstep : ∀ s i, I s → I (f s i).2) {s : σ}
    (h : I s) (is : List ι) : I (after f s is) := by
  induction is generalizing s with
  | nil => exact h
  | cons i is ih => exact ih (hstep s i h)

/-- A machine that looks at a part of its inputs only. -/
theorem outputs_map {κ : Type} {f : σ → ι → ο × σ} {g : σ → κ → ο × σ} {φ : ι → κ}
    (h : ∀ s i, f s i = g s (φ i)) (s : σ) (is : List ι) :
    outputs f s is = outputs g s (is.map φ) := by
  induction is generalizing s with
  | nil => rfl
  | cons i is ih => rw [outputs_cons, List.map_cons, outputs_cons, h, ih]

/-- **Lockstep**: `N` steps of two machines that start in related states give the same
outputs, and end in related states. -/
theorem outputs_eq {f : σ → ι → ο × σ} {g : τ → ι → ο × τ} {R : ℕ → σ → τ → Prop} {N : ℕ}
    (hstep : ∀ n < N, ∀ s t i, R n s t → (f s i).1 = (g t i).1 ∧ R (n + 1) (f s i).2 (g t i).2)
    {n : ℕ} {s : σ} {t : τ} (h : R n s t) (is : List ι) (hlen : n + is.length ≤ N) :
    outputs f s is = outputs g t is ∧ R (n + is.length) (after f s is) (after g t is) := by
  induction is generalizing n s t with
  | nil => exact ⟨rfl, h⟩
  | cons i is ih =>
    rw [List.length_cons] at hlen ⊢
    obtain ⟨hout, hR⟩ := hstep n (by omega) s t i h
    obtain ⟨houts, hR⟩ := ih hR (by omega)
    rw [outputs_cons, outputs_cons, hout, houts]
    refine ⟨rfl, ?_⟩
    rwa [show n + (is.length + 1) = n + 1 + is.length by omega]

/-- **Lockstep for outputs that need not be equal**: two machines that start in related
states give related outputs. -/
theorem outputs_forall₂ {π : Type} {f : σ → ι → ο × σ} {g : τ → ι → π × τ} {R : σ → τ → Prop}
    {S : ο → π → Prop} (hstep : ∀ s t i, R s t → S (f s i).1 (g t i).1 ∧ R (f s i).2 (g t i).2)
    {s : σ} {t : τ} (h : R s t) (is : List ι) :
    List.Forall₂ S (outputs f s is) (outputs g t is) := by
  induction is generalizing s t with
  | nil => exact .nil
  | cons i is ih =>
    obtain ⟨hout, hR⟩ := hstep s t i h
    exact .cons hout (ih hR)

end Interaction
