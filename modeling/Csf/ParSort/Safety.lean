import Csf.ParSort.Steps

/-!
# A parallel sort that reports success

What does an exit with status 0 of the first process say about the array? It says that
the range is sorted (`Csf.ParSort.sorted_of_run`), provided that no process *overlooks*
a failure (`Csf.ParSort.overlooks`): `merge_sort` stores the statuses of both children
in one variable, so a left child that failed goes unnoticed when the right one succeeds.
With that the result can be anything (`Csf.ParSort.not_always_sorted`).

The invariant says for every process what the array holds in its range
(`Csf.ParSort.Good`), relative to what it held at the start: the same before the process
has done anything, a sorted permutation once it has succeeded, and nothing at all once it
has failed – its children may still be writing then. A process that has succeeded has
left nobody behind (`Csf.ParSort.Quiet`), which is what makes the range its parent's to
merge.
-/

namespace Csf

namespace ParSort

open Interaction Function

variable {O m m' : Memory} {b e threshold : ℕ} {path : List Side} {c : Choice} {t t' : Tree}
  {left right : Tree} {pc : Pc}

/-! ### The condition -/

/-- **The process at the end of the path is about to overlook a failure**: its left child
has failed, and the status it has of that is to be overwritten by the success of the
right child. -/
def overlooks : List Side → Choice → Tree → Bool
  | _, _, .none => false
  | [], .go, .proc (.waitRight wstatus) _ right => wstatus.failed && right.status.any (!·.failed)
  | [], _, _ => false
  | .left :: path, c, .proc _ left _ => overlooks path c left
  | .right :: path, c, .proc _ _ right => overlooks path c right

/-! ### Merging -/

/-- **Sorted**: the range holds a permutation of what it held at the start, in order. -/
def SortedFrom (O m : Memory) (b e : ℕ) : Prop :=
  (slice m b e).Pairwise (· ≤ ·) ∧ (slice m b e).Perm (slice O b e)

/-- What `merge` is to have in the temporary array when it returns: what it has there,
and the rest of both ranges merged. -/
def mergeResult (m : Memory) (endl endr i j : ℕ) (temp : List ℤ) : List ℤ :=
  temp ++ (slice m i endl).merge (slice m j endr)

/-- The comparison tells which of two elements goes first. -/
theorem compareI64_le_zero {x y : ℤ} : compareI64 x y ≤ 0 ↔ x ≤ y := by
  unfold compareI64
  split_ifs <;> omega

/-- **A round of the loop of `merge`** moves its pointers on, and does not change what the
result is going to be. -/
theorem mergeResult_mergeRound {endl endr i j i' j' : ℕ} {temp temp' : List ℤ}
    (h : mergeRound m endl endr i j temp = some (.merging i' j' temp')) :
    i ≤ i' ∧ j ≤ j' ∧ mergeResult m endl endr i' j' temp' = mergeResult m endl endr i j temp := by
  simp only [mergeRound] at h
  unfold mergeResult
  split_ifs at h with hlr hl hr hle <;> cases h <;> refine ⟨by omega, by omega, ?_⟩
  · have hr : j < endr := by omega
    rw [slice_eq_nil m hl, slice_eq_cons m hr, List.nil_merge, List.nil_merge, List.append_assoc,
      List.singleton_append]
  · have hl : i < endl := by omega
    rw [slice_eq_nil m hr, slice_eq_cons m hl, List.merge_right, List.merge_right,
      List.append_assoc, List.singleton_append]
  · rw [slice_eq_cons m (Nat.lt_of_not_le hl), slice_eq_cons m (Nat.lt_of_not_le hr),
      List.cons_merge_cons_pos _ _ _ (decide_eq_true (compareI64_le_zero.mp hle)),
      List.append_assoc, List.singleton_append]
  · have hgt : ¬m i ≤ m j := fun h => hle (compareI64_le_zero.mpr h)
    rw [slice_eq_cons m (Nat.lt_of_not_le hl), slice_eq_cons m (Nat.lt_of_not_le hr),
      List.cons_merge_cons_neg _ _ _ (by simpa using hgt), List.append_assoc,
      List.singleton_append]

/-- When the loop of `merge` ends, the result is there. -/
theorem mergeResult_of_break {endl endr i j : ℕ} {temp : List ℤ}
    (h : mergeRound m endl endr i j temp = none) : mergeResult m endl endr i j temp = temp := by
  simp only [mergeRound] at h
  split_ifs at h with hlr
  rw [mergeResult, slice_eq_nil m hlr.1, slice_eq_nil m hlr.2, List.merge_right, List.append_nil]

/-- **Merging two sorted halves** gives the whole, sorted. -/
theorem mergeResult_sorted (hbe : b ≤ e) (hl : SortedFrom O m b (mid b e))
    (hr : SortedFrom O m (mid b e) e) :
    (mergeResult m (mid b e) e b (mid b e) []).Pairwise (· ≤ ·) ∧
      (mergeResult m (mid b e) e b (mid b e) []).Perm (slice O b e) := by
  rw [mergeResult, List.nil_append]
  constructor
  · have h := @List.pairwise_merge ℤ (fun x y => decide (x ≤ y))
      (by simpa using fun _ _ _ => le_trans) (by simpa using le_total) _ _
      (by simpa using hl.1) (by simpa using hr.1)
    simpa using h
  · refine (List.merge_perm_append _).trans ?_
    rw [← slice_append O (le_mid b e) (mid_le hbe)]
    exact hl.2.append hr.2

/-! ### The invariant -/

/-- **Nobody is left behind**: all processes of the tree have ended. -/
def Quiet : Tree → Prop
  | .none => True
  | .proc pc left right => (∃ w, pc = .exited w) ∧ Quiet left ∧ Quiet right

/-- Where all have ended, nothing happens. -/
theorem Quiet.act_eq_none (h : Quiet t) : act threshold b e path c t m = none := by
  refine Option.eq_none_iff_forall_ne_some.mpr fun s hs => ?_
  induction path generalizing b e t s with
  | nil =>
    rcases t with _ | ⟨pc, left, right⟩
    · exact nomatch hs
    · obtain ⟨⟨w, rfl⟩, -, -⟩ := h
      exact not_moves_exited (moves_of_step hs)
  | cons side path ih =>
    rcases t with _ | ⟨pc, left, right⟩
    · exact nomatch (act_none ▸ hs)
    · obtain ⟨-, hl, hr⟩ := h
      cases side with
      | left =>
        obtain ⟨left', hs, -⟩ := act_left.mp hs
        exact ih hl _ hs
      | right =>
        obtain ⟨right', hs, -⟩ := act_right.mp hs
        exact ih hr _ hs

/-- **What the array holds in the range of a process**, `O` being what it held at the
start. -/
def Good (O m : Memory) : ℕ → ℕ → Tree → Prop
  | b, e, .none => slice m b e = slice O b e
  | b, e, .proc .entry left right => left = .none ∧ right = .none ∧ slice m b e = slice O b e
  | b, e, .proc (.sorting writes) left right =>
      left = .none ∧ right = .none ∧ SortedFrom O (writeAll m writes) b e
  | b, e, .proc .forkRight left right =>
      Good O m b (mid b e) left ∧ Good O m (mid b e) e right ∧ right = .none
  | b, e, .proc .waitLeft left right => Good O m b (mid b e) left ∧ Good O m (mid b e) e right
  | b, e, .proc (.waitRight w) left right =>
      Good O m b (mid b e) left ∧ Good O m (mid b e) e right ∧ left.status = some w
  | b, e, .proc (.check w) left right =>
      Good O m b (mid b e) left ∧ Good O m (mid b e) e right ∧
        (w.failed = false → left.status = some (.exited 0) ∧ right.status = some (.exited 0))
  | b, e, .proc (.merging i j temp) left right =>
      Quiet left ∧ Quiet right ∧ b ≤ i ∧ mid b e ≤ j ∧
        (mergeResult m (mid b e) e i j temp).Pairwise (· ≤ ·) ∧
          (mergeResult m (mid b e) e i j temp).Perm (slice O b e)
  | b, e, .proc (.copying i temp) left right =>
      Quiet left ∧ Quiet right ∧ i ≤ e - b ∧ slice m b (b + i) = temp.take i ∧
        temp.Pairwise (· ≤ ·) ∧ temp.Perm (slice O b e)
  | b, e, .proc (.exited w) left right =>
      w.failed = false → Quiet left ∧ Quiet right ∧ SortedFrom O m b e

/-- A tree that has not begun finds what was there at the start. -/
theorem good_start (h : slice m b e = slice O b e) : Good O m b e .start := ⟨rfl, rfl, h⟩

/-- **The range is all that matters**: what the array holds elsewhere may change. -/
theorem Good.congr (hbe : b ≤ e) (h : Good O m b e t) (hm : slice m' b e = slice m b e) :
    Good O m' b e t := by
  induction t generalizing b e with
  | none => exact hm.trans h
  | proc pc left right ihl ihr =>
    have hl : Good O m b (mid b e) left → Good O m' b (mid b e) left := fun h =>
      ihl (le_mid b e) h (slice_congr hm le_rfl (mid_le hbe))
    have hr : Good O m (mid b e) e right → Good O m' (mid b e) e right := fun h =>
      ihr (mid_le hbe) h (slice_congr hm (le_mid b e) le_rfl)
    cases pc with
    | entry => exact ⟨h.1, h.2.1, hm.trans h.2.2⟩
    | sorting writes =>
      refine ⟨h.1, h.2.1, ?_⟩
      rw [SortedFrom, slice_writeAll_congr writes hm]
      exact h.2.2
    | forkRight => exact ⟨hl h.1, hr h.2.1, h.2.2⟩
    | waitLeft => exact ⟨hl h.1, hr h.2⟩
    | waitRight w => exact ⟨hl h.1, hr h.2.1, h.2.2⟩
    | check w => exact ⟨hl h.1, hr h.2.1, h.2.2⟩
    | merging i j temp =>
      obtain ⟨hql, hqr, hi, hj, hs⟩ := h
      refine ⟨hql, hqr, hi, hj, ?_⟩
      rw [mergeResult, slice_congr hm hi (mid_le hbe),
        slice_congr hm ((le_mid b e).trans hj) le_rfl]
      exact hs
    | copying i temp =>
      obtain ⟨hql, hqr, hi, hcopied, hs⟩ := h
      exact ⟨hql, hqr, hi, (slice_congr hm le_rfl (by omega)).trans hcopied, hs⟩
    | exited w =>
      intro hw
      obtain ⟨hql, hqr, hs⟩ := h hw
      refine ⟨hql, hqr, ?_⟩
      rwa [SortedFrom, hm]

/-- A tree that has succeeded has sorted its range, and is quiet. -/
theorem Good.succeeded (h : Good O m b e t) (hw : t.status = some (.exited 0)) :
    Quiet t ∧ SortedFrom O m b e := by
  rcases t with _ | ⟨pc, left, right⟩
  · exact nomatch hw
  · cases pc with
    | exited w =>
      obtain rfl : w = .exited 0 := Option.some.inj hw
      obtain ⟨hl, hr, hs⟩ := h rfl
      exact ⟨⟨⟨_, rfl⟩, hl, hr⟩, hs⟩
    | _ => exact nomatch hw

/-- **A step of the process itself** keeps the invariant, unless it overlooks a
failure. -/
theorem good_moves (hbe : b ≤ e) (hok : overlooks [] c (.proc pc left right) = false)
    (h : Good O m b e (.proc pc left right))
    (hs : Moves b e threshold left right m pc c t' m') : Good O m' b e t' := by
  cases hs with
  | fails hpc hw => exact fun hw' => absurd (hw.symm.trans hw') Bool.noConfusion
  | sort _ _ hsorts =>
    obtain ⟨hl, hr, hm⟩ := h
    exact ⟨hl, hr, hsorts.2.1, hsorts.2.2.trans (List.Perm.of_eq hm)⟩
  | forkLeft _ _ =>
    obtain ⟨-, hr, hm⟩ := h
    refine ⟨good_start (slice_congr hm le_rfl (mid_le hbe)), ?_, hr⟩
    rw [hr]
    exact slice_congr hm (le_mid b e) le_rfl
  | write w writes => exact h
  | sorted =>
    obtain ⟨hl, hr, hs⟩ := h
    refine fun _ => ⟨?_, ?_, hs⟩
    · rw [hl]
      trivial
    · rw [hr]
      trivial
  | forkRight =>
    obtain ⟨hl, hr, hnone⟩ := h
    rw [hnone] at hr
    exact ⟨hl, good_start hr⟩
  | waitLeft hw => exact ⟨h.1, h.2, hw⟩
  | @waitRight w w' hw' =>
    obtain ⟨hl, hr, hw⟩ := h
    refine ⟨hl, hr, fun hok' => ?_⟩
    -- the right child has succeeded, so the left one must have, not to be overlooked
    have hlok : w.failed = false := by
      simpa [overlooks, hw', hok'] using hok
    rw [failed_eq_false] at hok' hlok
    rw [hw, hw', hok', hlok]
    exact ⟨rfl, rfl⟩
  | check hw =>
    obtain ⟨hl, hr, hboth⟩ := h
    obtain ⟨hls, hrs⟩ := hboth hw
    obtain ⟨hlq, hl⟩ := hl.succeeded hls
    obtain ⟨hrq, hr⟩ := hr.succeeded hrs
    exact ⟨hlq, hrq, le_rfl, le_rfl, mergeResult_sorted hbe hl hr⟩
  | merge hround =>
    obtain ⟨i', j', temp', rfl⟩ := mergeRound_eq hround
    obtain ⟨hlq, hrq, hi, hj, hs⟩ := h
    obtain ⟨hi', hj', hsame⟩ := mergeResult_mergeRound hround
    refine ⟨hlq, hrq, hi.trans hi', hj.trans hj', ?_⟩
    rwa [hsame]
  | merged hround =>
    obtain ⟨hlq, hrq, hi, hj, hs⟩ := h
    rw [mergeResult_of_break hround] at hs
    exact ⟨hlq, hrq, Nat.zero_le _, slice_eq_nil _ le_rfl, hs⟩
  | @copy i temp hi =>
    obtain ⟨hlq, hrq, -, hcopied, hs⟩ := h
    refine ⟨hlq, hrq, hi, ?_, hs⟩
    have hlen : temp.length = e - b := by rw [hs.2.length_eq, length_slice]
    rw [← Nat.add_assoc, slice_succ _ (by omega), slice_update _ _ (by omega), hcopied,
      update_self, List.take_add_one, List.getD_eq_getElem?_getD,
      List.getElem?_eq_getElem (by omega)]
    rfl
  | @copied i temp hi =>
    obtain ⟨hlq, hrq, hle, hcopied, hs⟩ := h
    refine fun _ => ⟨hlq, hrq, ?_⟩
    have hlen : temp.length = e - b := by rw [hs.2.length_eq, length_slice]
    rw [show b + i = e by omega, List.take_of_length_le (by omega)] at hcopied
    rwa [SortedFrom, hcopied]

/-- What a child does leaves the range of the other alone. -/
theorem Good.frame (hbe : b ≤ e) {b' e' : ℕ} (h : Good O m b e t)
    (hm : SameOutside b' e' m m') (hd : e ≤ b' ∨ e' ≤ b) : Good O m' b e t :=
  h.congr hbe (hm.slice_eq hd)

/-- **A step of a tree** keeps the invariant, unless it overlooks a failure. -/
theorem good_act (hbe : b ≤ e) (hok : overlooks path c t = false) (hp : Placed b e t)
    (h : Good O m b e t) (hs : act threshold b e path c t m = some (t', m')) :
    Good O m' b e t' := by
  induction path generalizing b e t t' with
  | nil =>
    rcases t with _ | ⟨pc, left, right⟩
    · exact nomatch hs
    · exact good_moves hbe hok h (moves_of_step hs)
  | cons side path ih =>
    rcases t with _ | ⟨pc, left, right⟩
    · exact nomatch (act_none ▸ hs)
    · obtain ⟨-, hpl, hpr⟩ := hp
      have hbm := le_mid b e
      have hme := mid_le hbe
      cases side with
      | left =>
        rw [overlooks] at hok
        obtain ⟨left', hs, rfl⟩ := act_left.mp hs
        have hm := (placed_act hbm hpl hs).2
        have hmove := fun hl => ih hbm hok hpl hl hs
        have hstay := fun hr : Good O m (mid b e) e right => hr.frame hme hm (.inr le_rfl)
        have hquiet : ¬Quiet left := fun hq => nomatch hq.act_eq_none ▸ hs
        have hnone : left ≠ .none := fun hnone => hquiet (hnone ▸ trivial)
        cases pc with
        | entry => exact absurd h.1 hnone
        | sorting writes => exact absurd h.1 hnone
        | forkRight => exact ⟨hmove h.1, hstay h.2.1, h.2.2⟩
        | waitLeft => exact ⟨hmove h.1, hstay h.2⟩
        | waitRight w => exact ⟨hmove h.1, hstay h.2.1, status_act h.2.2 hs⟩
        | check w =>
          exact ⟨hmove h.1, hstay h.2.1, fun hw => ⟨status_act (h.2.2 hw).1 hs, (h.2.2 hw).2⟩⟩
        | merging i j temp => exact absurd h.1 hquiet
        | copying i temp => exact absurd h.1 hquiet
        | exited w => exact fun hw => absurd (h hw).1 hquiet
      | right =>
        rw [overlooks] at hok
        obtain ⟨right', hs, rfl⟩ := act_right.mp hs
        have hm := (placed_act hme hpr hs).2
        have hmove := fun hr => ih hme hok hpr hr hs
        have hstay := fun hl : Good O m b (mid b e) left => hl.frame hbm hm (.inl le_rfl)
        have hquiet : ¬Quiet right := fun hq => nomatch hq.act_eq_none ▸ hs
        have hnone : right ≠ .none := fun hnone => hquiet (hnone ▸ trivial)
        cases pc with
        | entry => exact absurd h.2.1 hnone
        | sorting writes => exact absurd h.2.1 hnone
        | forkRight => exact absurd h.2.2 hnone
        | waitLeft => exact ⟨hstay h.1, hmove h.2⟩
        | waitRight w => exact ⟨hstay h.1, hmove h.2.1, h.2.2⟩
        | check w =>
          exact ⟨hstay h.1, hmove h.2.1, fun hw => ⟨(h.2.2 hw).1, status_act (h.2.2 hw).2 hs⟩⟩
        | merging i j temp => exact absurd h.2.1 hquiet
        | copying i temp => exact absurd h.2.1 hquiet
        | exited w => exact fun hw => absurd (h hw).2.1 hquiet

/-! ### Runs -/

/-- **When nobody overlooks a failure, an exit with status 0 means that the range is
sorted.** -/
theorem sorted_of_run {t : Tree} (hbe : b ≤ e)
    (hrun : Run (fun path c t => overlooks path c t = false) threshold b e (.start, O) (t, m))
    (hexit : t.status = some (.exited 0)) : SortedFrom O m b e := by
  suffices h : Placed b e t ∧ Good O m b e t from (h.2.succeeded hexit).2
  clear hexit
  generalize hs : (t, m) = s at hrun
  induction hrun generalizing t m with
  | refl =>
    cases hs
    exact ⟨placed_start b e, good_start rfl⟩
  | @tail s _ _ hstep ih =>
    obtain ⟨path, c, hok, hact⟩ := hstep
    obtain ⟨hp, hg⟩ := ih rfl
    rw [← hs] at hact
    exact ⟨(placed_act hbe hp hact).1, good_act hbe hok hp hg hact⟩

/-- Two elements in the wrong order, sorted by two children. -/
def exchanged : List (List Side × Choice) :=
  [([], .go), ([], .go), ([.right], .qsort []), ([.left], .qsort []), ([.left], .go), ([], .go),
    ([.right], .go), ([], .go), ([], .go), ([], .go), ([], .go), ([], .go), ([], .go), ([], .go),
    ([], .go)]

/-- A run in which both children succeed. -/
theorem sorted_of_run_exchanged :
    let s := follow (fun path c t => overlooks path c t = false) 1 0 2
      (.start, fun i => if i = 0 then 2 else 1) exchanged
    s.1.status = some (.exited 0) ∧ SortedFrom (fun i => if i = 0 then 2 else 1) s.2 0 2 := by
  intro s
  have hrun : Run (fun path c t => overlooks path c t = false) 1 0 2
      (.start, fun i => if i = 0 then 2 else 1) (s.1, s.2) := run_follow _ _ _ _ _ _
  have hexit : s.1.status = some (.exited 0) := by decide +kernel
  exact ⟨hexit, sorted_of_run (Nat.zero_le _) hrun hexit⟩

/-- The left child is killed before it does anything, the right one succeeds. -/
def leftKilled : List (List Side × Choice) :=
  [([], .go), ([.left], .die .signaled), ([], .go), ([.right], .qsort []), ([.right], .go),
    ([], .go), ([], .go), ([], .go), ([], .go), ([], .go), ([], .go), ([], .go), ([], .go),
    ([], .go), ([], .go), ([], .go), ([], .go), ([], .go)]

/-- **An exit with status 0 does not always mean that the range is sorted**: the left
child is killed, the right one succeeds, and the halves are merged as they are. -/
theorem not_always_sorted :
    ¬∀ (threshold b e : ℕ) (O m : Memory) (t : Tree), 1 ≤ threshold → b ≤ e →
      Run (fun _ _ _ => True) threshold b e (.start, O) (t, m) →
        t.status = some (.exited 0) → SortedFrom O m b e := by
  intro h
  let O : Memory := fun i => [2, 1, 3, 4].getD i 0
  let s := follow (fun _ _ _ => True) 2 0 4 (.start, O) leftKilled
  have hrun : Run (fun _ _ _ => True) 2 0 4 (.start, O) (s.1, s.2) := run_follow _ _ _ _ _ _
  have hexit : s.1.status = some (.exited 0) := by decide +kernel
  have hsorted := (h 2 0 4 O s.2 s.1 (by decide) (by decide) hrun hexit).1
  exact absurd hsorted (by decide +kernel)

end ParSort

end Csf
