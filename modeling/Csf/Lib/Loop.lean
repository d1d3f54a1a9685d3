import Mathlib

/-!
# Loops

A loop runs its body on a state, again and again, until the body leaves it with a result
(`Interaction.Round`). The body may have loops of its own, so it need not come back.

`Interaction.loop` runs the body a limited number of times and is `none` if that is not
enough. The limit is not part of the program: a result that is there with one limit is
there with every larger one (`Interaction.loop_mono`). Two rules say what a loop does – an
invariant, for the results it leaves with (`Interaction.loop_inv`), and with it a measure that
every round makes smaller, for leaving it at all (`Interaction.loop_total`).
-/

namespace Interaction

variable {σ ρ : Type}

/-- How a round of a loop ends. -/
inductive Round (σ ρ : Type) where
  /-- The loop is left with a result. -/
  | leave (r : ρ)
  /-- There is another round. -/
  | again (s : σ)

/-- **A loop** of at most `n` rounds. -/
def loop (body : σ → Option (Round σ ρ)) : ℕ → σ → Option ρ
  | 0, _ => none
  | n + 1, s =>
      match body s with
      | none => none
      | some (.leave r) => some r
      | some (.again s') => loop body n s'

variable {body : σ → Option (Round σ ρ)} {n m : ℕ} {s s' : σ} {r : ρ}

theorem loop_leave (h : body s = some (.leave r)) : loop body (n + 1) s = some r := by
  rw [loop, h]

theorem loop_again (h : body s = some (.again s')) : loop body (n + 1) s = loop body n s' := by
  rw [loop, h]

/-- What the first round of a loop that has been left can be. -/
theorem loop_succ_eq_some (h : loop body (n + 1) s = some r) :
    body s = some (.leave r) ∨ ∃ s', body s = some (.again s') ∧ loop body n s' = some r := by
  rw [loop] at h
  split at h
  · exact absurd h (by simp)
  · rename_i hs
    exact .inl (Option.some.inj h ▸ hs)
  · rename_i s' hs
    exact .inr ⟨s', hs, h⟩

/-- **More rounds than needed** do no harm. -/
theorem loop_mono (h : loop body n s = some r) (hnm : n ≤ m) : loop body m s = some r := by
  induction n generalizing s m with
  | zero => exact absurd h (by simp [loop])
  | succ n ih =>
    obtain ⟨m, rfl⟩ := Nat.exists_eq_add_of_le' (Nat.one_le_of_lt hnm)
    rcases loop_succ_eq_some h with hs | ⟨s', hs, h'⟩
    · exact loop_leave hs
    · rw [loop_again hs]
      exact ih h' (Nat.le_of_succ_le_succ hnm)

/-- **The rule of the invariant**: what every round keeps holds in the end. -/
theorem loop_inv {I : σ → Prop} {Q : ρ → Prop}
    (hleave : ∀ s r, I s → body s = some (.leave r) → Q r)
    (hagain : ∀ s s', I s → body s = some (.again s') → I s') (hs : I s)
    (h : loop body n s = some r) : Q r := by
  induction n generalizing s with
  | zero => exact absurd h (by simp [loop])
  | succ n ih =>
    rcases loop_succ_eq_some h with hr | ⟨s', hs', h'⟩
    · exact hleave s r hs hr
    · exact ih (hagain s s' hs hs') h'

/-- **The rule of the measure**: a loop is left, and with what the last round leaves it with,
if every other round keeps the invariant and makes the measure smaller. -/
theorem loop_total {I : σ → Prop} {Q : ρ → Prop} {μ : σ → ℕ}
    (hbody : ∀ s, I s → (∃ r, body s = some (.leave r) ∧ Q r) ∨
      ∃ s', body s = some (.again s') ∧ I s' ∧ μ s' < μ s)
    (hs : I s) (hn : μ s < n) : ∃ r, loop body n s = some r ∧ Q r := by
  induction n generalizing s with
  | zero => exact absurd hn (Nat.not_lt_zero _)
  | succ n ih =>
    rcases hbody s hs with ⟨r, hr, hQ⟩ | ⟨s', hs', hI, hμ⟩
    · exact ⟨r, loop_leave hr, hQ⟩
    · rw [loop_again hs']
      exact ih hI (by omega)

/-! ### Counted loops -/

/-- **A counted loop**: the rounds `0`, …, `n - 1`, one after the other. -/
def forLoop (body : ℕ → σ → Option σ) : ℕ → σ → Option σ
  | 0, s => some s
  | n + 1, s => (forLoop body n s).bind (body n)

/-- The first round of a counted loop, and the others. -/
theorem forLoop_succ (body : ℕ → σ → Option σ) (n : ℕ) (s : σ) :
    forLoop body (n + 1) s = (body 0 s).bind (forLoop (fun k => body (k + 1)) n) := by
  induction n with
  | zero =>
    rw [forLoop, forLoop, Option.bind_some]
    cases body 0 s <;> rfl
  | succ n ih =>
    rw [forLoop, ih, Option.bind_assoc]
    rfl

theorem forLoop_congr {body body' : ℕ → σ → Option σ} {n : ℕ} (h : ∀ k < n, body k = body' k) :
    forLoop body n = forLoop body' n := by
  induction n with
  | zero => rfl
  | succ n ih =>
    funext s
    rw [forLoop, forLoop, ih fun k hk => h k (Nat.lt_succ_of_lt hk), h n (Nat.lt_succ_self n)]

theorem forLoop_eq_self {body : ℕ → σ → Option σ} {s : σ} (h : ∀ k, body k s = some s) (n : ℕ) :
    forLoop body n s = some s := by
  induction n with
  | zero => rfl
  | succ n ih => rw [forLoop, ih, Option.bind_some, h]

/-- A loop with a round that fails in every state, fails. -/
theorem forLoop_eq_none {body : ℕ → σ → Option σ} {k n : ℕ} (hk : k < n)
    (h : ∀ s, body k s = none) (s : σ) : forLoop body n s = none := by
  induction n with
  | zero => exact absurd hk (Nat.not_lt_zero k)
  | succ n ih =>
    rw [forLoop]
    rcases Nat.lt_succ_iff_lt_or_eq.mp hk with hlt | rfl
    · rw [ih hlt, Option.bind_none]
    · cases forLoop body k s with
      | none => rfl
      | some t => exact h t

/-- **The rule of a counted loop**: an invariant that may speak of the round. -/
theorem forLoop_inv {body : ℕ → σ → Option σ} {I : ℕ → σ → Prop} {n : ℕ} {s : σ}
    (hbody : ∀ k s, k < n → I k s → ∃ s', body k s = some s' ∧ I (k + 1) s') (hs : I 0 s) :
    ∃ s', forLoop body n s = some s' ∧ I n s' := by
  induction n with
  | zero => exact ⟨s, rfl, hs⟩
  | succ n ih =>
    obtain ⟨t, ht, hI⟩ := ih fun k s hk => hbody k s (Nat.lt_succ_of_lt hk)
    obtain ⟨s', hs', hI'⟩ := hbody n t (Nat.lt_succ_self n) hI
    exact ⟨s', by rw [forLoop, ht, Option.bind_some, hs'], hI'⟩

end Interaction
