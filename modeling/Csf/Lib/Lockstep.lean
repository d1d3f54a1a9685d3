import Csf.Lib.Assembly
import Csf.Lib.Loop

/-!
# Loops of instructions

A loop is a piece of code that says whether to jump back to its start. What it does is said
round by round, together with a loop of another program (`X86.Matches`): with one that has the
same test, so that the two end together or there are not enough rounds for either
(`X86.matches_loop`), or with a counted one (`X86.matches_forLoop`, `X86.matches_forLt`).
-/

namespace X86

open Interaction

variable {B H α β γ δ σ ρ : Type}

/-- How a round of a loop ends: the code says whether there is another one. -/
def toRound (p : Bool × State B H) : Round (State B H) (Unit × State B H) :=
  if p.1 then .again p.2 else .leave ((), p.2)

/-- **A loop** of at most `n` rounds. -/
def loop (n : ℕ) (body : Code B H Bool) : Code B H Unit := fun s =>
  Interaction.loop (fun s => (body s).map toRound) n s

section Rounds

variable {n : ℕ} {body : Code B H Bool} {s : State B H}

theorem loop_zero : loop 0 body s = none := rfl

/-- The first round of a loop, and the others. -/
theorem loop_succ : loop (n + 1) body s =
    andThen (body s) fun b s' => if b then loop n body s' else some ((), s') := by
  rw [loop, Interaction.loop]
  cases body s with
  | none => rfl
  | some p =>
    obtain ⟨b, s'⟩ := p
    cases b <;> rfl

end Rounds

/-! ### Two programs, step by step -/

/-- **Code matches a computation** that has no result or one: it ends if and only if there is
a result, and then with a value and in a state that go with it. -/
def Matches (r : Option (β × State B H)) (c : Option α) (Q : α → β → State B H → Prop) : Prop :=
  match c with
  | none => r = none
  | some a => Runs r (Q a)

section Matches

variable {r : Option (β × State B H)} {c : Option α} {Q : α → β → State B H → Prop}

@[simp] theorem matches_some (a : α) (b : β) (s : State B H) :
    Matches (some (b, s)) (some a) Q ↔ Q a b s := runs_some s b (Q a)

/-- The rule of consequence. -/
theorem Matches.mono {R : α → β → State B H → Prop} (h : Matches r c Q)
    (hQR : ∀ a b s, Q a b s → R a b s) : Matches r c R := by
  cases c with
  | none => exact h
  | some a => exact Runs.mono h (hQR a)

theorem Matches.andThen {f : β → Code B H γ} {g : α → Option δ}
    {R : δ → γ → State B H → Prop} (h : Matches r c Q)
    (hfg : ∀ a b s, Q a b s → Matches (f b s) (g a) R) :
    Matches (X86.andThen r f) (c.bind g) R := by
  cases c with
  | none => exact congrArg (X86.andThen · f) h
  | some a =>
    obtain ⟨b, s, rfl, hQ⟩ := h
    exact hfg a b s hQ

/-- What always ends after it. -/
theorem Matches.runs {f : β → Code B H γ} {R : α → γ → State B H → Prop} (h : Matches r c Q)
    (hf : ∀ a b s, Q a b s → Runs (f b s) (R a)) : Matches (X86.andThen r f) c R := by
  cases c with
  | none => exact congrArg (X86.andThen · f) h
  | some a => exact Runs.andThen h (hf a)

/-- What follows code that always ends. -/
theorem Runs.matches {f : β → Code B H γ} {d : Option δ} {Q : β → State B H → Prop}
    {R : δ → γ → State B H → Prop} (h : Runs r Q) (hf : ∀ b s, Q b s → Matches (f b s) d R) :
    Matches (X86.andThen r f) d R := by
  obtain ⟨b, s, rfl, hQ⟩ := h
  exact hf b s hQ

/-- How two rounds end together. -/
def RoundsMatch (I : σ → State B H → Prop) (Q : ρ → State B H → Prop) :
    Round σ ρ → Bool → State B H → Prop
  | .again a, b, s => b = true ∧ I a s
  | .leave r, b, s => b = false ∧ Q r s

theorem RoundsMatch.mono {I J : σ → State B H → Prop} {Q R : ρ → State B H → Prop}
    {rd : Round σ ρ} {b : Bool} {s : State B H} (h : RoundsMatch I Q rd b s)
    (hIJ : ∀ a, I a s → J a s) (hQR : ∀ r, Q r s → R r s) : RoundsMatch J R rd b s := by
  cases rd with
  | again a => exact ⟨h.1, hIJ a h.2⟩
  | leave r => exact ⟨h.1, hQR r h.2⟩

/-- **The rule of two loops.** -/
theorem matches_loop {n : ℕ} {body : Code B H Bool} {body' : σ → Option (Round σ ρ)}
    {I : σ → State B H → Prop} {Q : ρ → State B H → Prop} {a : σ} {s : State B H}
    (hround : ∀ a s, I a s → Matches (body s) (body' a) (RoundsMatch I Q)) (h : I a s) :
    Matches (loop n body s) (Interaction.loop body' n a) fun r _ => Q r := by
  induction n generalizing a s with
  | zero => exact loop_zero
  | succ n ih =>
    have hmatch := hround a s h
    rw [loop_succ, Interaction.loop]
    cases hbody : body' a with
    | none =>
      rw [hbody] at hmatch
      exact congrArg (X86.andThen · _) hmatch
    | some rd =>
      rw [hbody] at hmatch
      obtain ⟨b, s', hrun, hend⟩ := hmatch
      rw [hrun]
      cases rd with
      | leave r =>
        obtain ⟨rfl, hQ⟩ := hend
        exact (runs_some _ _ _).mpr hQ
      | again a' =>
        obtain ⟨rfl, hI⟩ := hend
        exact ih hI

/-- **The rule of a counted loop**: the code says to jump back in `m` rounds, and then no
more. -/
theorem matches_forLoop {n m : ℕ} {body : Code B H Bool} {body' : ℕ → σ → Option σ}
    {I : ℕ → σ → State B H → Prop} {Q : σ → State B H → Prop} {a : σ} {s : State B H} (hmn : m < n)
    (hround : ∀ k a s, k < m → I k a s →
      Matches (body s) (body' k a) fun a' b s' => b = true ∧ I (k + 1) a' s')
    (hleave : ∀ a s, I m a s → Runs (body s) fun b s' => b = false ∧ Q a s') (h : I 0 a s) :
    Matches (loop n body s) (forLoop body' m a) fun a' _ s' => Q a' s' := by
  -- by induction on the rounds that are left, the first of them being round `k`
  suffices hrest : ∀ (n d k : ℕ) (a : σ) (s : State B H), k + d = m → d < n → I k a s →
      Matches (loop n body s) (forLoop (fun i => body' (k + i)) d a) fun a' _ s' => Q a' s' by
    have hfirst : (fun i => body' (0 + i)) = body' := funext fun i => by rw [Nat.zero_add]
    exact hfirst ▸ hrest n m 0 a s (Nat.zero_add m) hmn h
  intro n
  induction n with
  | zero => exact fun d k a s _ hd => absurd hd (Nat.not_lt_zero d)
  | succ n ih =>
    intro d k a s hk hd hI
    rw [loop_succ]
    cases d with
    | zero =>
      refine Runs.andThen (hleave a s (hk ▸ hI)) ?_
      rintro b s' ⟨rfl, hQ⟩
      exact (runs_some s' () _).mpr hQ
    | succ d =>
      rw [forLoop_succ, Nat.add_zero]
      refine (hround k a s (by omega) hI).andThen ?_
      rintro a' b s' ⟨rfl, hI'⟩
      have hnext : (fun i => body' (k + (i + 1))) = fun i => body' (k + 1 + i) :=
        funext fun i => by rw [Nat.add_assoc, Nat.add_comm 1]
      rw [if_pos rfl, hnext]
      exact ih d (k + 1) a' s' (by omega) (by omega) hI'

/-- The same for a `for` loop of C, by its counter. -/
theorem matches_forLt {n : ℕ} {lo hi : Int32} {body : Code B H Bool}
    {body' : Int32 → σ → Option σ} {I : Int32 → σ → State B H → Prop} {Q : σ → State B H → Prop}
    {a : σ} {s : State B H} (hn : (hi.toInt - lo.toInt).toNat < n)
    (hround : ∀ i a s, i < hi → I i a s →
      Matches (body s) (body' i a) fun a' b s' => b = true ∧ I (i + 1) a' s')
    (hleave : ∀ i a s, ¬i < hi → I i a s → Runs (body s) fun b s' => b = false ∧ Q a s')
    (h : I lo a s) :
    Matches (loop n body s) (Ints.forLt lo hi body' a) fun a' _ s' => Q a' s' := by
  have hlo := Ints.toInt_bounds lo
  have hhi := Ints.toInt_bounds hi
  refine matches_forLoop (I := fun k => I (lo + Int32.ofNat k)) hn
    (fun k a s hk hI => ?_) (fun a s hI => hleave _ a s ?_ hI) ?_
  · have hnext : lo + Int32.ofNat (k + 1) = lo + Int32.ofNat k + 1 := by
      rw [Int32.ofNat_add, Int32.add_assoc]
      rfl
    rw [hnext]
    refine hround _ a s ?_ hI
    rw [Int32.lt_iff_toInt_lt, Ints.toInt_counter hk]
    omega
  · have hcount : (Int32.ofNat (hi.toInt - lo.toInt).toNat).toInt =
        ((hi.toInt - lo.toInt).toNat : ℤ).bmod (2 ^ 32) := Int32.toInt_ofNat'
    rw [Int32.lt_iff_toInt_lt, Int32.toInt_add, hcount, Int.add_bmod_bmod, Ints.bmod_eq]
    omega
  · rwa [show Int32.ofNat 0 = 0 from rfl, Int32.add_zero]

end Matches

end X86
