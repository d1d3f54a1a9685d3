import Csf.ParSort.Processes

/-!
# What the processes of the sort can do

The steps of one process are listed once (`Csf.ParSort.Moves`), and with them what holds
of the steps of a tree whoever makes them: a process that has ended keeps its status
(`Csf.ParSort.status_act`), and all writes stay in the range that the process is given
(`Csf.ParSort.placed_act`), also those of processes that somebody has left behind.
-/

namespace Csf

namespace ParSort

open Interaction Function

variable {m m' : Memory} {b e threshold : ℕ} {path : List Side} {c : Choice} {t t' : Tree}
  {left right : Tree} {pc : Pc}

theorem le_mid (b e : ℕ) : b ≤ mid b e := by
  unfold mid
  omega

theorem mid_le (h : b ≤ e) : mid b e ≤ e := by
  unfold mid
  omega

/-- The one status that is not a failure. -/
theorem failed_eq_false {w : WaitStatus} : w.failed = false ↔ w = .exited 0 := by
  rcases w with status | _ <;> simp [WaitStatus.failed]

/-! ### What a step of a process can be -/

/-- **The steps of a process** at a statement, and what they make of it and of the
memory. Every way to fail is one of them. -/
inductive Moves (b e threshold : ℕ) (left right : Tree) (m : Memory) :
    Pc → Choice → Tree → Memory → Prop
  /-- It ends with a status that is a failure. -/
  | fails {pc : Pc} {c : Choice} {w : WaitStatus} (hpc : ∀ w, pc ≠ .exited w)
      (hw : w.failed = true) :
      Moves b e threshold left right m pc c (.proc (.exited w) left right) m
  /-- It calls `qsort`. -/
  | sort {writes : List (ℕ × ℤ)} (hbe : b ≤ e) (hle : e - b ≤ threshold)
      (h : Sorts m b e writes) :
      Moves b e threshold left right m .entry (.qsort writes) (.proc (.sorting writes) left right) m
  /-- It forks the left child. -/
  | forkLeft (hbe : b ≤ e) (hle : threshold < e - b) :
      Moves b e threshold left right m .entry .go (.proc .forkRight .start right) m
  /-- `qsort` writes. -/
  | write (w : ℕ × ℤ) (writes : List (ℕ × ℤ)) :
      Moves b e threshold left right m (.sorting (w :: writes)) .go
        (.proc (.sorting writes) left right) (update m w.1 w.2)
  /-- `qsort` returns. -/
  | sorted :
      Moves b e threshold left right m (.sorting []) .go (.proc (.exited (.exited 0)) left right) m
  /-- It forks the right child. -/
  | forkRight :
      Moves b e threshold left right m .forkRight .go (.proc .waitLeft left .start) m
  /-- The left child has ended. -/
  | waitLeft {w : WaitStatus} (h : left.status = some w) :
      Moves b e threshold left right m .waitLeft .go (.proc (.waitRight w) left right) m
  /-- The right child has ended. -/
  | waitRight {w w' : WaitStatus} (h : right.status = some w') :
      Moves b e threshold left right m (.waitRight w) .go (.proc (.check w') left right) m
  /-- The status is that of success. -/
  | check {w : WaitStatus} (h : w.failed = false) :
      Moves b e threshold left right m (.check w) .go (.proc (.merging b (mid b e) []) left right) m
  /-- An element is merged. -/
  | merge {i j : ℕ} {temp : List ℤ} {pc' : Pc} (h : mergeRound m (mid b e) e i j temp = some pc') :
      Moves b e threshold left right m (.merging i j temp) .go (.proc pc' left right) m
  /-- `merge` returns. -/
  | merged {i j : ℕ} {temp : List ℤ} (h : mergeRound m (mid b e) e i j temp = none) :
      Moves b e threshold left right m (.merging i j temp) .go
        (.proc (.copying 0 temp) left right) m
  /-- An element is copied back. -/
  | copy {i : ℕ} {temp : List ℤ} (h : i < e - b) :
      Moves b e threshold left right m (.copying i temp) .go
        (.proc (.copying (i + 1) temp) left right) (update m (b + i) (temp.getD i 0))
  /-- All is copied back. -/
  | copied {i : ℕ} {temp : List ℤ} (h : ¬i < e - b) :
      Moves b e threshold left right m (.copying i temp) .go
        (.proc (.exited (.exited 0)) left right) m

/-- A step of a process is one of the steps it can make. -/
theorem moves_of_step (hs : step b e threshold left right m pc c = some (t', m')) :
    Moves b e threshold left right m pc c t' m' := by
  have hfatal : ∀ (pc : Pc) (c : Choice), (∀ w, pc ≠ .exited w) →
      Moves b e threshold left right m pc c (.proc fatal left right) m :=
    fun pc c hpc => .fails hpc rfl
  rw [step.eq_def] at hs
  split at hs
  · exact nomatch hs
  · rename_i w hpc
    split at hs
    · rename_i hw
      cases hs
      exact .fails hpc hw
    · exact nomatch hs
  · split at hs
    · cases hs
      exact .fails (fun w h => nomatch h) rfl
    · rename_i hbe
      split at hs
      · rename_i hle
        split at hs
        · split at hs
          · rename_i h
            cases hs
            exact .sort (by omega) hle h
          · exact nomatch hs
        · exact nomatch hs
      · rename_i hle
        split at hs
        · cases hs
          exact .forkLeft (by omega) (by omega)
        · cases hs
          exact hfatal _ _ (fun w h => nomatch h)
        · exact nomatch hs
  · split at hs <;> cases hs
    · exact .write _ _
    · exact .sorted
  · cases hs
    exact .forkRight
  · cases hs
    exact hfatal _ _ (fun w h => nomatch h)
  · obtain ⟨w, hw, heq⟩ := Option.map_eq_some_iff.mp hs
    cases heq
    exact .waitLeft hw
  · obtain ⟨w, hw, heq⟩ := Option.map_eq_some_iff.mp hs
    cases heq
    exact .waitRight hw
  · split at hs
    · cases hs
      exact hfatal _ _ (fun w h => nomatch h)
    · rename_i hw
      split at hs
      · cases hs
        exact .check (Bool.eq_false_iff.mpr hw)
      · cases hs
        exact hfatal _ _ (fun w h => nomatch h)
      · exact nomatch hs
  · rename_i i j temp
    cases hm : mergeRound m (mid b e) e i j temp with
    | none =>
      rw [hm] at hs
      cases hs
      exact .merged hm
    | some pc' =>
      rw [hm] at hs
      cases hs
      exact .merge hm
  · split at hs <;> rename_i hi <;> cases hs
    · exact .copy hi
    · exact .copied hi
  · exact nomatch hs

/-! ### Steps of the tree -/

theorem act_left {s : Tree × Memory} :
    act threshold b e (.left :: path) c (.proc pc left right) m = some s ↔
      ∃ left', act threshold b (mid b e) path c left m = some (left', s.2) ∧
        s.1 = .proc pc left' right := by
  rw [act, Option.map_eq_some_iff]
  constructor
  · rintro ⟨⟨left', m'⟩, h, rfl⟩
    exact ⟨left', h, rfl⟩
  · rintro ⟨left', h, hs⟩
    exact ⟨(left', s.2), h, Prod.ext hs.symm rfl⟩

theorem act_right {s : Tree × Memory} :
    act threshold b e (.right :: path) c (.proc pc left right) m = some s ↔
      ∃ right', act threshold (mid b e) e path c right m = some (right', s.2) ∧
        s.1 = .proc pc left right' := by
  rw [act, Option.map_eq_some_iff]
  constructor
  · rintro ⟨⟨right', m'⟩, h, rfl⟩
    exact ⟨right', h, rfl⟩
  · rintro ⟨right', h, hs⟩
    exact ⟨(right', s.2), h, Prod.ext hs.symm rfl⟩

/-- Where there is no process, there is no step. -/
@[simp] theorem act_none : act threshold b e path c .none m = none := by
  cases path with
  | nil => rfl
  | cons side path => cases side <;> rfl

/-- A process that has ended does nothing any more. -/
theorem not_moves_exited {w : WaitStatus} :
    ¬Moves b e threshold left right m (.exited w) c t' m' := by
  rintro ⟨⟩
  rename_i hpc
  exact hpc w rfl

/-- **A process that has ended keeps its status.** -/
theorem status_act {w : WaitStatus} (hw : t.status = some w)
    (h : act threshold b e path c t m = some (t', m')) : t'.status = some w := by
  rcases t with _ | ⟨pc, left, right⟩
  · exact nomatch hw
  · rcases path with _ | ⟨_ | _, path⟩
    · cases pc with
      | exited w => exact absurd (moves_of_step h) not_moves_exited
      | _ => exact nomatch hw
    · obtain ⟨left', -, rfl⟩ := act_left.mp h
      cases pc <;> exact hw
    · obtain ⟨right', -, rfl⟩ := act_right.mp h
      cases pc <;> exact hw

/-! ### What a tree of processes writes -/

/-- **All writes to come are in the range** of the process that makes them. -/
def Placed : ℕ → ℕ → Tree → Prop
  | _, _, .none => True
  | b, e, .proc pc left right =>
      (∀ writes, pc = .sorting writes → ∀ w ∈ writes, b ≤ w.1 ∧ w.1 < e) ∧
        Placed b (mid b e) left ∧ Placed (mid b e) e right

/-- A process that is not in `qsort` has its writes in place when its children have. -/
theorem placed_proc (hpc : ∀ writes, pc ≠ .sorting writes) (hl : Placed b (mid b e) left)
    (hr : Placed (mid b e) e right) : Placed b e (.proc pc left right) :=
  ⟨fun writes h => absurd h (hpc writes), hl, hr⟩

/-- A process that has not begun has no writes to come. -/
theorem placed_start (b e : ℕ) : Placed b e .start :=
  placed_proc (fun _ h => nomatch h) trivial trivial

/-- A round of the loop of `merge` stays in the loop. -/
theorem mergeRound_eq {endl endr i j : ℕ} {temp : List ℤ} {pc' : Pc}
    (h : mergeRound m endl endr i j temp = some pc') :
    ∃ i' j' temp', pc' = .merging i' j' temp' := by
  simp only [mergeRound] at h
  split_ifs at h <;> exact ⟨_, _, _, (Option.some.inj h).symm⟩

/-- One step of a process keeps its writes, and those of its children, in place. -/
theorem placed_moves (h : Placed b e (.proc pc left right))
    (hs : Moves b e threshold left right m pc c t' m') : Placed b e t' ∧ SameOutside b e m m' := by
  obtain ⟨hpc, hl, hr⟩ := h
  have hkeep : ∀ pc', (∀ writes, pc' ≠ .sorting writes) →
      Placed b e (.proc pc' left right) ∧ SameOutside b e m m :=
    fun pc' hpc' => ⟨placed_proc hpc' hl hr, .refl b e m⟩
  cases hs with
  | sort _ _ h =>
    refine ⟨⟨?_, hl, hr⟩, .refl b e m⟩
    rintro writes ⟨⟩
    exact h.1
  | write w writes =>
    obtain ⟨hw, hws⟩ := List.forall_mem_cons.mp (hpc _ rfl)
    refine ⟨⟨?_, hl, hr⟩, .update m w.2 hw.1 hw.2⟩
    rintro writes ⟨⟩
    exact hws
  | forkLeft _ _ =>
    exact ⟨placed_proc (fun _ h => nomatch h) (placed_start _ _) hr, .refl b e m⟩
  | forkRight =>
    exact ⟨placed_proc (fun _ h => nomatch h) hl (placed_start _ _), .refl b e m⟩
  | merge h =>
    obtain ⟨i', j', temp', rfl⟩ := mergeRound_eq h
    exact hkeep _ fun _ h => nomatch h
  | copy hi =>
    exact ⟨placed_proc (fun _ h => nomatch h) hl hr, .update m _ (by omega) (by omega)⟩
  | _ => exact hkeep _ fun _ h => nomatch h

/-- **All writes stay in the range**, and the rest of the memory is left alone. -/
theorem placed_act (hbe : b ≤ e) (h : Placed b e t)
    (hs : act threshold b e path c t m = some (t', m')) : Placed b e t' ∧ SameOutside b e m m' := by
  induction path generalizing b e t t' with
  | nil =>
    rcases t with _ | ⟨pc, left, right⟩
    · exact nomatch hs
    · exact placed_moves h (moves_of_step hs)
  | cons side path ih =>
    rcases t with _ | ⟨pc, left, right⟩
    · exact nomatch (act_none ▸ hs)
    · obtain ⟨hpc, hl, hr⟩ := h
      cases side with
      | left =>
        obtain ⟨left', hs, rfl⟩ := act_left.mp hs
        obtain ⟨hl', hm⟩ := ih (le_mid b e) hl hs
        exact ⟨⟨hpc, hl', hr⟩, hm.mono le_rfl (mid_le hbe)⟩
      | right =>
        obtain ⟨right', hs, rfl⟩ := act_right.mp hs
        obtain ⟨hr', hm⟩ := ih (mid_le hbe) hr hs
        exact ⟨⟨hpc, hl, hr'⟩, hm.mono (le_mid b e) le_rfl⟩

end ParSort

end Csf
