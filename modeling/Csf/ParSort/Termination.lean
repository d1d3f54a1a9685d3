import Csf.ParSort.Safety

/-!
# A parallel sort in which nothing fails

When every `fork`, every `malloc` and every child succeeds, no status but that of
success comes up anywhere, so no failure can be overlooked, and what is known of a sort
that reports success holds: `merge_sort` leaves its range sorted. What remains is that
it does come to report success, whatever the order the processes are run in.

* It cannot go on for ever (`Csf.ParSort.exists_not_step`): every step but a write of
  `qsort` uses up one of the steps that the size of the range leaves room for
  (`Csf.ParSort.stepsLeft`), and a `qsort` has finitely many writes.
* It does not get stuck (`Csf.ParSort.progress`): a process that has to wait has a child
  that can go on.

All the while nothing outside the range is read or written
(`Csf.ParSort.touches_mem`).
-/

namespace Csf

namespace ParSort

open Interaction Function

variable {O m m' : Memory} {b e threshold : ℕ} {path : List Side} {c : Choice} {t t' : Tree}
  {left right : Tree} {pc : Pc}

/-! ### Steps that succeed -/

/-- **The step succeeds**: neither does a `fork` or a `malloc` fail, nor is the process
ended from outside. -/
def Choice.succeeds : Choice → Bool
  | .go | .qsort _ => true
  | .fail | .die _ => false

/-- What a process has to have in its variables, and to have forked, at a statement it
comes to when nothing fails. -/
def Fit (b e : ℕ) (left right : Tree) : Pc → Prop
  | .exited w => w = .exited 0
  | .forkRight => left ≠ .none
  | .waitLeft => left ≠ .none ∧ right ≠ .none
  | .waitRight w => w = .exited 0 ∧ right ≠ .none
  | .check w => w = .exited 0
  | .merging i j _ => b ≤ i ∧ mid b e ≤ j
  | _ => True

/-- **Nothing has failed**, in any of the processes. -/
def Unfailed : ℕ → ℕ → Tree → Prop
  | _, _, .none => True
  | b, e, .proc pc left right =>
      Fit b e left right pc ∧ Unfailed b (mid b e) left ∧ Unfailed (mid b e) e right

/-- A process that has not begun has not failed. -/
theorem unfailed_start (b e : ℕ) : Unfailed b e .start := ⟨trivial, trivial, trivial⟩

/-- A process that has ended without a failure has succeeded. -/
theorem Unfailed.status {w : WaitStatus} (h : Unfailed b e t) (hw : t.status = some w) :
    w = .exited 0 := by
  rcases t with _ | ⟨pc, left, right⟩
  · exact nomatch hw
  · cases pc with
    | exited w' => exact Option.some.inj hw ▸ h.1
    | _ => exact nomatch hw

/-- Where nothing has failed, no failure is overlooked. -/
theorem Unfailed.overlooks (h : Unfailed b e t) : overlooks path c t = false := by
  induction path generalizing b e t with
  | nil =>
    rcases t with _ | ⟨pc, left, right⟩
    · rfl
    · cases c <;> cases pc <;> try rfl
      rename_i w
      obtain ⟨hw, -⟩ := h.1
      rw [ParSort.overlooks, hw]
      rfl
  | cons side path ih =>
    rcases t with _ | ⟨pc, left, right⟩
    · rfl
    · cases side <;> rw [ParSort.overlooks]
      · exact ih h.2.1
      · exact ih h.2.2

/-- A step that succeeds does not fail, where nothing has failed before. -/
theorem step_ne_failed {w : WaitStatus} (hc : c.succeeds = true) (hbe : b ≤ e)
    (h : Fit b e left right pc) (hw : w.failed = true) :
    step b e threshold left right m pc c ≠ some (.proc (.exited w) left right, m') := by
  have hne : WaitStatus.exited 0 ≠ w := fun h0 => by
    rw [← h0] at hw
    exact absurd hw (by decide)
  intro hs
  rw [step.eq_def] at hs
  split at hs
  · cases hs
  · cases hc
  · split at hs
    · contradiction
    · split at hs
      · split at hs
        · split at hs <;> cases hs
        · cases hs
      · split at hs <;> cases hs
        cases hc
  · split at hs <;> cases hs
    exact hne rfl
  · cases hs
  · cases hc
  · obtain ⟨_, -, heq⟩ := Option.map_eq_some_iff.mp hs
    cases heq
  · obtain ⟨_, -, heq⟩ := Option.map_eq_some_iff.mp hs
    cases heq
  · obtain rfl := h
    rw [if_neg (by decide)] at hs
    split at hs <;> cases hs
    cases hc
  · rename_i i j temp
    cases hround : mergeRound m (mid b e) e i j temp with
    | none =>
      rw [hround] at hs
      cases hs
    | some pc' =>
      obtain ⟨i', j', temp', rfl⟩ := mergeRound_eq hround
      rw [hround] at hs
      cases hs
  · split at hs <;> cases hs
    exact hne rfl
  · cases hs

/-- A step of a process that succeeds keeps it so that nothing has failed. -/
theorem unfailed_step (hc : c.succeeds = true) (hbe : b ≤ e)
    (h : Unfailed b e (.proc pc left right))
    (hs : step b e threshold left right m pc c = some (t', m')) : Unfailed b e t' := by
  obtain ⟨hfit, hl, hr⟩ := h
  have hstart : Tree.start ≠ .none := nofun
  cases moves_of_step hs with
  | fails hpc hw => exact absurd hs (step_ne_failed hc hbe hfit hw)
  | forkLeft _ _ => exact ⟨hstart, unfailed_start _ _, hr⟩
  | forkRight => exact ⟨⟨hfit, hstart⟩, hl, unfailed_start _ _⟩
  | waitLeft hw => exact ⟨⟨hl.status hw, hfit.2⟩, hl, hr⟩
  | waitRight hw => exact ⟨hr.status hw, hl, hr⟩
  | check _ => exact ⟨⟨le_rfl, le_rfl⟩, hl, hr⟩
  | merge hround =>
    obtain ⟨i', j', temp', rfl⟩ := mergeRound_eq hround
    obtain ⟨hi, hj, -⟩ := mergeResult_mergeRound hround
    exact ⟨⟨hfit.1.trans hi, hfit.2.trans hj⟩, hl, hr⟩
  | sorted => exact ⟨rfl, hl, hr⟩
  | copied _ => exact ⟨rfl, hl, hr⟩
  | _ => exact ⟨trivial, hl, hr⟩

/-- A step leaves a process where there was one. -/
theorem act_ne_none (hs : act threshold b e path c t m = some (t', m')) : t' ≠ .none := by
  rcases t with _ | ⟨pc, left, right⟩
  · exact nomatch (act_none ▸ hs)
  · rcases path with _ | ⟨_ | _, path⟩
    · cases moves_of_step hs <;> exact nofun
    · obtain ⟨left', -, rfl⟩ := act_left.mp hs
      exact nofun
    · obtain ⟨right', -, rfl⟩ := act_right.mp hs
      exact nofun

/-- What a process has forked stays there. -/
theorem Fit.congr {left' right' : Tree} (h : Fit b e left right pc)
    (hl : left ≠ .none → left' ≠ .none) (hr : right ≠ .none → right' ≠ .none) :
    Fit b e left' right' pc := by
  cases pc with
  | forkRight => exact hl h
  | waitLeft => exact ⟨hl h.1, hr h.2⟩
  | waitRight w => exact ⟨h.1, hr h.2⟩
  | _ => exact h

/-- **A step that succeeds keeps it so that nothing has failed.** -/
theorem unfailed_act (hc : c.succeeds = true) (hbe : b ≤ e) (h : Unfailed b e t)
    (hs : act threshold b e path c t m = some (t', m')) : Unfailed b e t' := by
  induction path generalizing b e t t' with
  | nil =>
    rcases t with _ | ⟨pc, left, right⟩
    · exact nomatch hs
    · exact unfailed_step hc hbe h hs
  | cons side path ih =>
    rcases t with _ | ⟨pc, left, right⟩
    · exact nomatch (act_none ▸ hs)
    · obtain ⟨hfit, hl, hr⟩ := h
      cases side with
      | left =>
        obtain ⟨left', hs, rfl⟩ := act_left.mp hs
        exact ⟨hfit.congr (fun _ => act_ne_none hs) id, ih (le_mid b e) hl hs, hr⟩
      | right =>
        obtain ⟨right', hs, rfl⟩ := act_right.mp hs
        exact ⟨hfit.congr id fun _ => act_ne_none hs, hl, ih (mid_le hbe) hr hs⟩

/-! ### Ending -/

/-- Steps that a call of `merge_sort` on `n` elements leaves room for, in all the
processes it gives rise to and apart from the writes of `qsort`. What counts is that
both halves fit in, with the steps of the process itself
(`Csf.ParSort.room_halves`). -/
def room (n : ℕ) : ℕ := 8 * n ^ 2 + 2

/-- **The room for a range is enough** for both halves and for the two loops over
it. -/
theorem room_halves {n : ℕ} (h : 2 ≤ n) : room (n / 2) + room (n - n / 2) + 2 * n + 7 < room n := by
  obtain ⟨x, hx⟩ : ∃ x, n / 2 = x + 1 := ⟨n / 2 - 1, by omega⟩
  obtain ⟨y, hy⟩ : ∃ y, n - n / 2 = y + 1 := ⟨n - n / 2 - 1, by omega⟩
  obtain rfl : n = x + y + 2 := by omega
  rw [hy, hx, room, room, room]
  nlinarith [Nat.zero_le (x * y)]

/-- The steps a process may still make from a statement on, with those of the children
it has not forked yet. -/
def ownSteps (b e : ℕ) : Pc → ℕ
  | .entry => room (e - b)
  | .sorting _ => 1
  | .forkRight => room (e - mid b e) + 2 * (e - b) + 6
  | .waitLeft => 2 * (e - b) + 5
  | .waitRight _ => 2 * (e - b) + 4
  | .check _ => 2 * (e - b) + 3
  | .merging i j _ => (mid b e - i) + (e - j) + (e - b) + 2
  | .copying i _ => (e - b - i) + 1
  | .exited _ => 0

/-- The steps all the processes of a tree may still make. -/
def stepsLeft : ℕ → ℕ → Tree → ℕ
  | _, _, .none => 0
  | b, e, .proc pc left right =>
      ownSteps b e pc + stepsLeft b (mid b e) left + stepsLeft (mid b e) e right

/-- The writes of a `qsort` that are left. -/
def ownWrites : Pc → ℕ
  | .sorting writes => writes.length
  | _ => 0

/-- The writes of `qsort` that are left in the processes of a tree. -/
def writesLeft : Tree → ℕ
  | .none => 0
  | .proc pc left right => ownWrites pc + writesLeft left + writesLeft right

/-- One tree has less before it than another: fewer steps, or as many and fewer writes
of `qsort`. -/
def Less (b e : ℕ) (t' t : Tree) : Prop :=
  stepsLeft b e t' < stepsLeft b e t ∨
    stepsLeft b e t' = stepsLeft b e t ∧ writesLeft t' < writesLeft t

/-- The statement before the loop of `merge` ends comes after it. -/
theorem ownSteps_merge {i j : ℕ} {temp : List ℤ} {pc' : Pc}
    (h : mergeRound m (mid b e) e i j temp = some pc') :
    ownSteps b e pc' < ownSteps b e (.merging i j temp) := by
  simp only [mergeRound] at h
  split_ifs at h <;> cases h <;> simp only [ownSteps] <;> omega

/-- **Every step of a process uses one up**, unless it splits a range of one element. -/
theorem less_moves (hends : 1 ≤ threshold ∨ e ≤ b)
    (hs : Moves b e threshold left right m pc c t' m') : Less b e t' (.proc pc left right) := by
  -- A step that leaves the children alone is one of the process's own.
  have hown : ∀ pc', ownSteps b e pc' < ownSteps b e pc →
      Less b e (.proc pc' left right) (.proc pc left right) := by
    intro pc' h
    refine Or.inl ?_
    simp only [stepsLeft]
    omega
  cases hs with
  | fails hpc hw =>
    refine hown _ ?_
    cases pc with
    | exited w => exact absurd rfl (hpc w)
    | _ => simp [ownSteps, room]
  | write w writes => exact Or.inr ⟨rfl, by simp [writesLeft, ownWrites]⟩
  | forkLeft _ _ =>
    have hroom := room_halves (n := e - b) (by omega)
    have hl : mid b e - b = (e - b) / 2 := by
      unfold mid
      omega
    have hr : e - mid b e = e - b - (e - b) / 2 := by
      unfold mid
      omega
    refine Or.inl ?_
    simp only [stepsLeft, Tree.start, ownSteps, hl, hr]
    omega
  | forkRight =>
    refine Or.inl ?_
    simp only [stepsLeft, Tree.start, ownSteps]
    omega
  | sort _ _ _ =>
    refine hown _ ?_
    simp only [ownSteps, room]
    omega
  | merge h => exact hown _ (ownSteps_merge h)
  | check _ =>
    have hsum : mid b e - b + (e - mid b e) = e - b := by
      unfold mid
      omega
    refine hown _ ?_
    simp only [ownSteps]
    omega
  | _ =>
    refine hown _ ?_
    simp only [ownSteps]
    omega

/-- **Every step uses something up.** -/
theorem less_act (hends : 1 ≤ threshold ∨ e ≤ b)
    (hs : act threshold b e path c t m = some (t', m')) : Less b e t' t := by
  induction path generalizing b e t t' with
  | nil =>
    rcases t with _ | ⟨pc, left, right⟩
    · exact nomatch hs
    · exact less_moves hends (moves_of_step hs)
  | cons side path ih =>
    rcases t with _ | ⟨pc, left, right⟩
    · exact nomatch (act_none ▸ hs)
    · cases side with
      | left =>
        obtain ⟨left', hs, rfl⟩ := act_left.mp hs
        have hless := ih (hends.imp_right fun h => by unfold mid; omega) hs
        simp only [Less, stepsLeft, writesLeft] at hless ⊢
        omega
      | right =>
        obtain ⟨right', hs, rfl⟩ := act_right.mp hs
        have hless := ih (hends.imp_right fun h => h.trans (le_mid b e)) hs
        simp only [Less, stepsLeft, writesLeft] at hless ⊢
        omega

/-- **The sort ends**: there is no infinite sequence of steps, whether they succeed or
not. -/
theorem exists_not_step (hends : 1 ≤ threshold ∨ e ≤ b) (s : ℕ → Tree × Memory) :
    ∃ n, ∀ path c, act threshold b e path c (s n).1 (s n).2 ≠ some (s (n + 1)) := by
  by_contra hinf
  have hstep : ∀ n, Less b e (s (n + 1)).1 (s n).1 := by
    intro n
    by_contra hless
    refine hinf ⟨n, fun path c hact => hless ?_⟩
    exact less_act hends hact
  have hwf : WellFounded fun t' t : Tree => Less b e t' t := by
    refine Subrelation.wf (fun {t' t} h => ?_) (InvImage.wf
      (fun t => (stepsLeft b e t, writesLeft t))
      (WellFounded.prod_lex Nat.lt_wfRel.wf Nat.lt_wfRel.wf))
    rcases h with h | ⟨h, h'⟩
    · exact Prod.Lex.left _ _ h
    · exact Prod.lex_iff.mpr (Or.inr ⟨h, h'⟩)
  exact (wellFounded_iff_isEmpty_descending_chain.mp hwf).false ⟨fun n => (s n).1, hstep⟩

/-! ### Going on -/

/-- There is something `qsort` can do: any range can be sorted by writing to it. -/
theorem exists_sorts (m : Memory) (hbe : b ≤ e) : ∃ writes, Sorts m b e writes := by
  have hperm : ((slice m b e).insertionSort (· ≤ ·)).Perm (slice m b e) :=
    List.perm_insertionSort _ _
  have hlen : b + ((slice m b e).insertionSort (· ≤ ·)).length = e := by
    rw [hperm.length_eq, length_slice]
    omega
  have hslice := slice_writeAll_writesFrom m b ((slice m b e).insertionSort (· ≤ ·))
  rw [hlen] at hslice
  refine ⟨writesFrom b ((slice m b e).insertionSort (· ≤ ·)), fun w hw => ?_, ?_, ?_⟩
  · have hmem := mem_writesFrom hw
    omega
  · rw [hslice]
    exact List.pairwise_insertionSort _ _
  · rw [hslice]
    exact hperm

/-- **The sort does not get stuck**: where nothing has failed, the process has succeeded
or some step succeeds. -/
theorem progress (hbe : b ≤ e) (m : Memory) (h : Unfailed b e t) (ht : t ≠ .none) :
    t.status = some (.exited 0) ∨
      ∃ path c s, c.succeeds = true ∧ act threshold b e path c t m = some s := by
  induction t generalizing b e with
  | none => exact absurd rfl ht
  | proc pc left right ihl ihr =>
    obtain ⟨hfit, hl, hr⟩ := h
    cases pc with
    | exited w => exact Or.inl (congrArg some hfit)
    | entry =>
      refine Or.inr ?_
      by_cases hle : e - b ≤ threshold
      · obtain ⟨writes, hwrites⟩ := exists_sorts m hbe
        exact ⟨[], .qsort writes, _, rfl, by simp [act, step, hbe, hle, hwrites]; rfl⟩
      · exact ⟨[], .go, _, rfl, by simp [act, step, hbe, hle]; rfl⟩
    | waitLeft =>
      refine Or.inr ?_
      rcases ihl (le_mid b e) hl hfit.1 with hw | ⟨path, c, s, hc, hact⟩
      · exact ⟨[], .go, _, rfl, by simp [act, step, hw]; rfl⟩
      · exact ⟨.left :: path, c, (.proc .waitLeft s.1 right, s.2), hc,
          act_left.mpr ⟨s.1, hact, rfl⟩⟩
    | waitRight w =>
      refine Or.inr ?_
      rcases ihr (mid_le hbe) hr hfit.2 with hw | ⟨path, c, s, hc, hact⟩
      · exact ⟨[], .go, _, rfl, by simp [act, step, hw]; rfl⟩
      · exact ⟨.right :: path, c, (.proc (.waitRight w) left s.1, s.2), hc,
          act_right.mpr ⟨s.1, hact, rfl⟩⟩
    | check w =>
      obtain rfl := hfit
      exact Or.inr ⟨[], .go, _, rfl, rfl⟩
    | sorting writes =>
      refine Or.inr ⟨[], .go, ?_⟩
      cases writes with
      | nil => exact ⟨_, rfl, rfl⟩
      | cons w writes => exact ⟨_, rfl, rfl⟩
    | copying i temp =>
      refine Or.inr ⟨[], .go, ?_⟩
      by_cases hi : i < e - b
      · exact ⟨_, rfl, by simp [act, step, hi]; rfl⟩
      · exact ⟨_, rfl, by simp [act, step, hi]; rfl⟩
    | _ => exact Or.inr ⟨[], .go, _, rfl, rfl⟩

/-! ### Staying in the range -/

/-- The indices of the array that a process reads with its next statement. A call of
`qsort` reads its range. -/
def readsAt (b e threshold : ℕ) : Pc → List ℕ
  | .entry => if e - b ≤ threshold then List.Ico b e else []
  | .merging i j _ => (if i < mid b e then [i] else []) ++ if j < e then [j] else []
  | _ => []

/-- What a process writes with its next statement, and where. -/
def stores (b e : ℕ) : Pc → List (ℕ × ℤ)
  | .sorting (w :: _) => [w]
  | .copying i temp => if i < e - b then [(b + i, temp.getD i 0)] else []
  | _ => []

/-- **An index that some process is about to read or write.** -/
def Touches (threshold : ℕ) : ℕ → ℕ → Tree → ℕ → Prop
  | _, _, .none, _ => False
  | b, e, .proc pc left right, i =>
      i ∈ readsAt b e threshold pc ∨ (∃ w ∈ stores b e pc, w.1 = i) ∨
        Touches threshold b (mid b e) left i ∨ Touches threshold (mid b e) e right i

theorem mergeRound_congr {i j : ℕ} {temp : List ℤ}
    (h : ∀ k ∈ readsAt b e threshold (.merging i j temp), m k = m' k) :
    mergeRound m' (mid b e) e i j temp = mergeRound m (mid b e) e i j temp := by
  have hi : i < mid b e → m i = m' i := fun hlt => h i (by simp [readsAt, hlt])
  have hj : j < e → m j = m' j := fun hlt => h j (by simp [readsAt, hlt])
  by_cases hl : mid b e ≤ i <;> by_cases hr : e ≤ j
  · simp [mergeRound, hl, hr]
  · simp [mergeRound, hl, hr, hj (by omega)]
  · simp [mergeRound, hl, hr, hi (by omega)]
  · simp [mergeRound, hl, hr, hi (by omega), hj (by omega)]

/-- What `qsort` may do depends on its range alone. -/
theorem sorts_congr {writes : List (ℕ × ℤ)} (h : slice m b e = slice m' b e) :
    Sorts m' b e writes ↔ Sorts m b e writes := by
  rw [Sorts, Sorts, ← slice_writeAll_congr writes h, h]

/-- **What a process does next is settled by what it reads**: in a memory that agrees
on that, it makes the same of its variables, and writes the same. -/
theorem step_congr {m₂ : Memory} (hc : c.succeeds = true)
    (h : ∀ i ∈ readsAt b e threshold pc, m i = m₂ i) :
    step b e threshold left right m₂ pc c =
      (step b e threshold left right m pc c).map fun tm =>
        (tm.1, writeAll m₂ (stores b e pc)) := by
  cases c with
  | fail => exact nomatch hc
  | die w => exact nomatch hc
  | qsort writes =>
    cases pc with
    | entry =>
      have hsorts : e - b ≤ threshold → (Sorts m₂ b e writes ↔ Sorts m b e writes) := by
        intro hle
        refine sorts_congr (slice_eq_slice_iff.mpr fun i hi hi' => h i ?_)
        rw [readsAt, if_pos hle, List.Ico.mem]
        exact ⟨hi, hi'⟩
      simp only [step, stores]
      split_ifs with hbe hle hm₂ hm hm
      · rfl
      · exact absurd ((hsorts hle).mp hm₂) hm
      · exact absurd ((hsorts hle).mpr hm) hm₂
      · rfl
      · rfl
      · rfl
    | check w =>
      simp only [step, stores]
      split_ifs <;> rfl
    | sorting writes' => cases writes' <;> rfl
    | _ => rfl
  | go =>
    cases pc with
    | entry =>
      simp only [step, stores]
      split_ifs <;> rfl
    | sorting writes => cases writes <;> rfl
    | waitLeft =>
      simp only [step, stores, Option.map_map]
      rfl
    | waitRight w =>
      simp only [step, stores, Option.map_map]
      rfl
    | check w =>
      simp only [step, stores]
      split_ifs <;> rfl
    | merging i j temp =>
      rw [step, step, mergeRound_congr h]
      rfl
    | copying i temp =>
      simp only [step, stores]
      split_ifs <;> rfl
    | _ => rfl

/-- **A step of a tree reads and writes nothing but what its processes are about to
read or write.** -/
theorem act_congr {m₂ : Memory} (hc : c.succeeds = true)
    (h : ∀ i, Touches threshold b e t i → m i = m₂ i)
    (hs : act threshold b e path c t m = some (t', m')) :
    ∃ ws : List (ℕ × ℤ), (∀ w ∈ ws, Touches threshold b e t w.1) ∧ m' = writeAll m ws ∧
      act threshold b e path c t m₂ = some (t', writeAll m₂ ws) := by
  induction path generalizing b e t t' with
  | nil =>
    rcases t with _ | ⟨pc, left, right⟩
    · cases hs
    · rw [act] at hs ⊢
      have hown : step b e threshold left right m pc c =
          (step b e threshold left right m pc c).map fun tm =>
            (tm.1, writeAll m (stores b e pc)) := step_congr hc fun _ _ => rfl
      have hother : step b e threshold left right m₂ pc c =
          (step b e threshold left right m pc c).map fun tm =>
            (tm.1, writeAll m₂ (stores b e pc)) := step_congr hc fun i hi => h i (Or.inl hi)
      rw [hs] at hown hother
      exact ⟨stores b e pc, fun w hw => Or.inr (Or.inl ⟨w, hw, rfl⟩),
        congrArg Prod.snd (Option.some.inj hown), hother⟩
  | cons side path ih =>
    rcases t with _ | ⟨pc, left, right⟩
    · rw [act_none] at hs
      cases hs
    · cases side with
      | left =>
        obtain ⟨left', hs, rfl⟩ := act_left.mp hs
        obtain ⟨ws, hws, hm, hact⟩ := ih (fun i hi => h i (Or.inr (Or.inr (Or.inl hi)))) hs
        exact ⟨ws, fun w hw => Or.inr (Or.inr (Or.inl (hws w hw))), hm,
          act_left.mpr ⟨left', hact, rfl⟩⟩
      | right =>
        obtain ⟨right', hs, rfl⟩ := act_right.mp hs
        obtain ⟨ws, hws, hm, hact⟩ := ih (fun i hi => h i (Or.inr (Or.inr (Or.inr hi)))) hs
        exact ⟨ws, fun w hw => Or.inr (Or.inr (Or.inr (hws w hw))), hm,
          act_right.mpr ⟨right', hact, rfl⟩⟩

/-- **Nothing outside the range is read or written**, where nothing has failed. -/
theorem touches_mem (hbe : b ≤ e) (hp : Placed b e t) (h : Unfailed b e t) {i : ℕ}
    (hi : Touches threshold b e t i) : b ≤ i ∧ i < e := by
  induction t generalizing b e with
  | none => exact hi.elim
  | proc pc left right ihl ihr =>
    obtain ⟨hwrites, hpl, hpr⟩ := hp
    obtain ⟨hfit, hl, hr⟩ := h
    have hbm := le_mid b e
    have hme := mid_le hbe
    rcases hi with hi | ⟨w, hw, rfl⟩ | hi | hi
    · cases pc with
      | entry =>
        rw [readsAt] at hi
        split_ifs at hi
        · exact List.Ico.mem.mp hi
        · exact absurd hi List.not_mem_nil
      | merging j k temp =>
        obtain ⟨hj, hk⟩ := hfit
        rw [readsAt, List.mem_append] at hi
        rcases hi with hi | hi <;> split_ifs at hi <;> simp at hi <;> omega
      | _ => exact absurd hi List.not_mem_nil
    · cases pc with
      | sorting writes =>
        cases writes with
        | nil => exact absurd hw List.not_mem_nil
        | cons w' writes =>
          obtain rfl := List.mem_singleton.mp hw
          exact hwrites _ rfl w List.mem_cons_self
      | copying j temp =>
        rw [stores] at hw
        split_ifs at hw
        · obtain rfl := List.mem_singleton.mp hw
          exact ⟨Nat.le_add_right b j, by omega⟩
        · exact absurd hw List.not_mem_nil
      | _ => exact absurd hw List.not_mem_nil
    · have hmem := ihl hbm hpl hl hi
      omega
    · have hmem := ihr hme hpr hr hi
      omega

/-! ### Runs in which nothing fails -/

/-- A run of `merge_sort` whose steps all succeed. -/
abbrev Succeeding (threshold b e : ℕ) : Tree × Memory → Tree × Memory → Prop :=
  Run (fun _ c _ => c.succeeds = true) threshold b e

/-- **What holds after any number of steps that succeed.** -/
theorem reached (hbe : b ≤ e) {s : Tree × Memory}
    (hrun : Succeeding threshold b e (.start, O) s) :
    s.1 ≠ .none ∧ Placed b e s.1 ∧ Unfailed b e s.1 ∧ Good O s.2 b e s.1 ∧
      SameOutside b e O s.2 := by
  induction hrun with
  | refl =>
    exact ⟨nofun, placed_start b e, unfailed_start b e, good_start rfl, .refl b e O⟩
  | tail _ hstep ih =>
    obtain ⟨path, c, hc, hact⟩ := hstep
    obtain ⟨-, hp, hu, hg, hm⟩ := ih
    obtain ⟨hp', hm'⟩ := placed_act hbe hp hact
    exact ⟨act_ne_none hact, hp', unfailed_act hc hbe hu hact,
      good_act hbe hu.overlooks hp hg hact, hm.trans hm'⟩

/-- **`merge_sort` is correct and local when nothing fails**: no run goes on for ever; in
every state reached some step succeeds until the process has ended, and then it has
succeeded, no process is left, and the range is sorted; what is outside the range is
neither changed nor about to be read or written; and what a step does is settled by what
is in the range, and is written there. -/
theorem merge_sort_correct (hthreshold : 1 ≤ threshold) (hbe : b ≤ e) (O : Memory) :
    (¬∃ s : ℕ → Tree × Memory, s 0 = (.start, O) ∧
      ∀ n, ∃ path c, c.succeeds = true ∧
        act threshold b e path c (s n).1 (s n).2 = some (s (n + 1))) ∧
    ∀ t m, Succeeding threshold b e (.start, O) (t, m) →
      (t.status = none →
        ∃ path c s, c.succeeds = true ∧ act threshold b e path c t m = some s) ∧
      (∀ w, t.status = some w → w = .exited 0 ∧ Quiet t ∧ SortedFrom O m b e) ∧
      SameOutside b e O m ∧ (∀ i, Touches threshold b e t i → b ≤ i ∧ i < e) ∧
      ∀ path c t' m', c.succeeds = true → act threshold b e path c t m = some (t', m') →
        ∀ m₂ : Memory, (∀ i, b ≤ i → i < e → m i = m₂ i) →
          ∃ ws : List (ℕ × ℤ), (∀ w ∈ ws, b ≤ w.1 ∧ w.1 < e) ∧ m' = writeAll m ws ∧
            act threshold b e path c t m₂ = some (t', writeAll m₂ ws) := by
  constructor
  · rintro ⟨s, -, hs⟩
    obtain ⟨n, hn⟩ := exists_not_step (b := b) (e := e) (.inl hthreshold) s
    obtain ⟨path, c, -, hact⟩ := hs n
    exact hn path c hact
  · intro t m hrun
    obtain ⟨ht, hp, hu, hg, hm⟩ := reached hbe hrun
    have hmem : ∀ i, Touches threshold b e t i → b ≤ i ∧ i < e := fun i => touches_mem hbe hp hu
    refine ⟨fun hnone => ?_, fun w hw => ?_, hm, hmem, fun path c t' m' hc hact m₂ hsame => ?_⟩
    · rcases progress hbe m hu ht with hw | hstep
      · exact nomatch hnone.symm.trans hw
      · exact hstep
    · obtain rfl := hu.status hw
      exact ⟨rfl, hg.succeeded hw⟩
    · obtain ⟨ws, hws, heq, hact₂⟩ := act_congr hc
        (fun i hi => hsame i (hmem i hi).1 (hmem i hi).2) hact
      exact ⟨ws, fun w hw => hmem _ (hws w hw), heq, hact₂⟩

/-- Two elements in the wrong order, sorted with a threshold of one. -/
theorem merge_sort_correct_exchanged :
    let O : Memory := fun i => if i = 0 then 2 else 1
    let s := follow (fun _ c _ => c.succeeds = true) 1 0 2 (.start, O) exchanged
    s.1.status = some (.exited 0) ∧ SortedFrom O s.2 0 2 ∧ SameOutside 0 2 O s.2 := by
  intro O s
  have hrun : Succeeding 1 0 2 (.start, O) (s.1, s.2) := run_follow _ _ _ _ _ _
  have hexit : s.1.status = some (.exited 0) := by decide +kernel
  obtain ⟨-, hended, hsame, -⟩ :=
    (merge_sort_correct (le_refl 1) (Nat.zero_le 2) O).2 s.1 s.2 hrun
  exact ⟨hexit, (hended _ hexit).2.2, hsame⟩

end ParSort

end Csf
