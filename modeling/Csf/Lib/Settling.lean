import Csf.Lib.Feed

/-!
# Pools that come to rest

A thread whose inputs run out makes finitely many moves: what its programs do is finite, and each
of them ends in a local state that is smaller than the one it was started in
(`Interaction.System.wellFounded_thread`). So any interleaving of finitely many such threads is
finite (`Interaction.System.wellFounded_moves`), and leads to a pool in which none of them can move
any more. That is a pool that is down, or one in which each of the threads takes no input or is at
a call that has to wait and cannot fail (`Interaction.System.settled_iff`).
-/

namespace Interaction

variable {ι I L S C T : Type} {R : C → Type}

/-- The thread that moves. -/
def Act.thread : Act ι I → ι
  | input t _ => t
  | advance t => t
  | fail t => t

namespace System

variable (M : System ι I L S C R)

/-! ### Finite runs -/

/-- What a thread may become by one move, whatever the others do. -/
inductive Next (t : ι) : Thread I L C R → Thread I L C R → Prop where
  | input {i : I} {l : L} {p : Program C R L} (h : M.start t l i = some p) :
      Next t (.rest l) (.run i l p)
  | ret (i : I) (l l' : L) : Next t (.run i l (.ret l')) (.rest l')
  | call (i : I) (l : L) (c : C) (k : R c → Program C R L) (r : R c) :
      Next t (.run i l (.call c k)) (.run i l (k r))

variable {M}

/-- A program that runs comes to rest, if what it rests in does. -/
theorem acc_run {t : ι} {i : I} {l : L} {p : Program C R L}
    (h : ∀ l', p.Ends l' → Acc (fun x' x => M.Next t x x') (.rest l')) :
    Acc (fun x' x => M.Next t x x') (.run i l p) := by
  induction p with
  | ret l' =>
    refine .intro _ fun x hx => ?_
    cases hx
    exact h l' rfl
  | call c k ih =>
    refine .intro _ fun x hx => ?_
    cases hx with
    | call _ _ _ _ r => exact ih r fun l' hl' => h l' ⟨r, hl'⟩

/-- **A thread makes finitely many moves**, if every program ends in a smaller local state. -/
theorem wellFounded_thread (μ : L → ℕ) (t : ι)
    (h : ∀ l i p l', M.start t l i = some p → p.Ends l' → μ l' < μ l) :
    WellFounded fun x' x => M.Next t x x' := by
  have hrest : ∀ n l, μ l = n → Acc (fun x' x => M.Next t x x') (.rest l) := by
    intro n
    induction n using Nat.strong_induction_on with
    | _ n ih =>
      rintro l rfl
      refine .intro _ fun x hx => ?_
      cases hx with
      | input hp => exact acc_run fun l' hl' => ih _ (h l _ _ l' hp hl') l' rfl
  refine ⟨fun x => ?_⟩
  cases x with
  | rest l => exact hrest _ l rfl
  | run i l p => exact acc_run fun l' _ => hrest _ l' rfl

variable [DecidableEq ι]

/-- A move of a pool is one of a thread, or a call of it fails. -/
theorem next_of_step {w w' : Pool ι I L S C R} {a : Act ι I} (h : M.step w a = some w') :
    (∃ x, M.Next a.thread (w.thread a.thread) x ∧
      w'.thread = Function.update w.thread a.thread x) ∨
      w'.thread = w.thread ∧ w'.down = true := by
  rcases step_cases h with ⟨t, i, l, p, rfl, hl, hp, rfl⟩ | ⟨t, i, l, l', rfl, hl, rfl⟩ |
    ⟨t, i, l, c, k, r, s, rfl, hl, hex, rfl⟩ | ⟨t, i, l, c, k, rfl, hl, hc, rfl⟩
  · exact .inl ⟨_, hl ▸ .input hp, rfl⟩
  · exact .inl ⟨_, hl ▸ .ret i l l', rfl⟩
  · exact .inl ⟨_, hl ▸ .call i l c k r, rfl⟩
  · exact .inr ⟨rfl, rfl⟩

/-- **All interleavings of finitely many threads are finite**, if each of them makes finitely many
moves. -/
theorem wellFounded_moves (ts : Finset ι)
    (h : ∀ t ∈ ts, WellFounded fun x' x => M.Next t x x') :
    WellFounded fun w' w => ∃ a : Act ι I, a.thread ∈ ts ∧ M.step w a = some w' := by
  have hlex : WellFounded (Pi.Lex (WellOrderingRel : ts → ts → Prop)
      fun {t} x' x => M.Next t.1 x x') := Pi.Lex.wellFounded _ fun t => h t.1 t.2
  have hup : WellFounded fun b b' : Bool => b < b' := wellFounded_lt
  refine Subrelation.wf ?_ (InvImage.wf (fun (w : Pool ι I L S C R) =>
    (!w.down, fun t : ts => w.thread t)) (hup.prod_lex hlex))
  rintro w' w ⟨a, ha, hs⟩
  have hlive := live_of_step hs
  cases hdown : w'.down with
  | true =>
    refine Prod.Lex.left _ _ ?_
    rw [hdown, hlive]
    decide
  | false =>
    obtain ⟨x, hx, hw'⟩ := (next_of_step hs).resolve_right fun h => by simp [hdown] at h
    rw [InvImage, hdown, hlive]
    refine Prod.Lex.right _ ⟨⟨a.thread, ha⟩, fun t ht => ?_, ?_⟩
    · have hne : t.1 ≠ a.thread := fun heq => by
        obtain rfl : t = ⟨a.thread, ha⟩ := Subtype.ext heq
        exact irrefl _ ht
      simp only [hw', Function.update_of_ne hne]
    · simp only [hw', Function.update_self]
      exact hx

/-- Who does not move stays as it is. -/
theorem thread_of_notMem {ok : Pool ι I L S C R → Act ι I → Prop} {w w' : Pool ι I L S C R}
    (h : M.Run ok w w') {t : ι} (ht : ∀ v a, ok v a → a.thread ≠ t) : w'.thread t = w.thread t := by
  induction h with
  | refl => rfl
  | tail _ hstep ih =>
    obtain ⟨a, ha, hs⟩ := hstep
    rcases next_of_step hs with ⟨x, -, hw'⟩ | ⟨hw', -⟩
    · rw [hw', Function.update_of_ne (ht _ a ha).symm, ih]
    · rw [hw', ih]

/-! ### Where they end -/

variable (M)

/-- None of these threads can move. -/
def Settled (ts : Finset ι) (w : Pool ι I L S C R) : Prop :=
  ∀ a : Act ι I, a.thread ∈ ts → M.step w a = none

/-- What a thread is like that cannot move: it takes no input, or its call has to wait and does
not fail. -/
def Stuck (t : ι) (s : S) : Thread I L C R → Prop
  | .rest l => ∀ i, M.start t l i = none
  | .run _ _ (.ret _) => False
  | .run _ _ (.call c _) => M.exec t c s = none ∧ M.fallible c = false

variable {M}

section Stuck

variable {ts : Finset ι} {w : Pool ι I L S C R}

/-- In a pool that is up, a thread is stuck when it has no move. -/
theorem stuck_iff (hdown : w.down = false) (t : ι) :
    M.Stuck t w.shared (w.thread t) ↔ ∀ a : Act ι I, a.thread = t → M.step w a = none := by
  cases hx : w.thread t with
  | rest l =>
    refine ⟨fun h a ha => ?_, fun h i => ?_⟩
    · cases a with
      | input u i =>
        obtain rfl : u = t := ha
        rw [step_input hdown hx, h i, Option.map_none]
      | advance u =>
        obtain rfl : u = t := ha
        exact step_advance_rest hx
      | fail u =>
        obtain rfl : u = t := ha
        exact step_fail_rest hx
    · have hnone := h (.input t i) rfl
      rwa [step_input hdown hx, Option.map_eq_none_iff] at hnone
  | run i l p =>
    refine ⟨fun h a ha => ?_, fun h => ?_⟩
    · cases a with
      | input u i' =>
        obtain rfl : u = t := ha
        exact step_input_run hx i'
      | advance u =>
        obtain rfl : u = t := ha
        cases p with
        | ret l' => exact h.elim
        | call c k =>
          -- the call waits
          have hwait : M.exec u c w.shared = none := h.1
          rw [step_call hdown hx, hwait, Option.map_none]
      | fail u =>
        obtain rfl : u = t := ha
        cases p with
        | ret l' => exact h.elim
        | call c k =>
          have hsafe : M.fallible c = false := h.2
          rw [step_fail hdown hx, hsafe, if_neg Bool.false_ne_true]
    · have hnone := h (.advance t) rfl
      cases p with
      -- what has ended can come to rest
      | ret l' => exact absurd (hnone.symm.trans (step_ret hdown hx)) (by simp)
      | call c k =>
        have hsafe := h (.fail t) rfl
        rw [step_call hdown hx, Option.map_eq_none_iff] at hnone
        rw [step_fail hdown hx, ite_eq_right_iff] at hsafe
        exact ⟨hnone, Bool.eq_false_iff.mpr fun hc => absurd (hsafe hc) (by simp)⟩

/-- **Nothing moves any more** when everything is down, or each thread is stuck. -/
theorem settled_iff :
    M.Settled ts w ↔ w.down = true ∨ ∀ t ∈ ts, M.Stuck t w.shared (w.thread t) := by
  cases hdown : w.down with
  | true => exact iff_of_true (fun a _ => step_down hdown a) (.inl rfl)
  | false =>
    rw [or_iff_right Bool.false_ne_true]
    constructor
    · intro h t ht
      refine (stuck_iff hdown t).mpr ?_
      rintro a rfl
      exact h a ht
    · intro h a ha
      exact (stuck_iff hdown _).mp (h _ ha) a rfl

end Stuck

/-- Whether a thread is at a call that takes everything down. -/
def AtFatal (M : System ι I L S C R) : Thread I L C R → Prop
  | .rest _ => False
  | .run _ _ p => M.atFatal p = true

/-- **Who comes to a fatal call takes everything down.** -/
theorem down_of_run {ok : Pool ι I L S C R → Act ι I → Prop} {w w' : Pool ι I L S C R}
    (h : M.Run ok w w') (hw : ∀ t, ¬M.AtFatal (w.thread t)) :
    w'.down = true ∨ ∀ t, ¬M.AtFatal (w'.thread t) := by
  induction h with
  | refl => exact .inr hw
  | @tail v w' hrun hstep ih =>
    obtain ⟨a, -, hs⟩ := hstep
    replace ih := ih.resolve_left (by simp [live_of_step hs])
    have hother : ∀ t x, ¬M.AtFatal x → ∀ u, ¬M.AtFatal (Function.update v.thread t x u) := by
      intro t x hx u
      rcases eq_or_ne u t with rfl | hne
      · rwa [Function.update_self]
      · rw [Function.update_of_ne hne]
        exact ih u
    rcases step_cases hs with ⟨t, i, l, p, rfl, hl, hp, rfl⟩ | ⟨t, i, l, l', rfl, hl, rfl⟩ |
      ⟨t, i, l, c, k, r, s, rfl, hl, hex, rfl⟩ | ⟨t, i, l, c, k, rfl, hl, hc, rfl⟩
    · cases hp : M.atFatal p with
      | true => exact .inl rfl
      | false => exact .inr (hother t _ (by simp [AtFatal, hp]))
    · exact .inr (hother t _ id)
    · cases hp : M.atFatal (k r) with
      | true => exact .inl rfl
      | false => exact .inr (hother t _ (by simp [AtFatal, hp]))
    · exact .inl rfl

end System

end Interaction
