import Csf.Lib.Memory

/-!
# The processes of the parallel sort

`merge_sort` of `parsort.c` forks a process for each half of its range, waits for both,
and merges. All of them write to one memory, the mapped file. What is modelled is the
tree of these processes (`Csf.ParSort.Tree`): for each the statement its call of
`merge_sort` has come to (`Csf.ParSort.Pc`), and the processes it has forked. One step
(`Csf.ParSort.act`) lets one process of the tree go on by one statement – in the loops,
by one element – so that a run is any interleaving.

Anything may fail: a step may be told that the `fork` or `malloc` it comes to fails, and
any process may be stopped at any point with a status that is not success
(`Csf.ParSort.Choice`). What such a process has forked goes on without it.

`qsort` is known only by what it is for: some sequence of writes to its range, fixed when
it is called, after which the range holds the same elements in order
(`Csf.ParSort.Sorts`). The writes happen one at a time, among the steps of others.
`waitpid` waits for the child it is given, and stores the status of that child.
-/

namespace Csf

namespace ParSort

open Interaction Function

/-- The array, as the mapped file that all processes share. -/
abbrev Memory := ℕ → ℤ

/-- `compare_i64` -/
def compareI64 (left right : ℤ) : ℤ :=
  if left < right then -1
  else if left > right then 1
  else 0

/-! ### Processes -/

/-- The status a process ends with, as `waitpid` stores it. -/
inductive WaitStatus where
  /-- `WIFEXITED`, with the `WEXITSTATUS`. -/
  | exited (status : UInt8)
  /-- Ended by a signal. -/
  | signaled
  deriving DecidableEq

/-- `!WIFEXITED(wstatus) || WEXITSTATUS(wstatus) != 0` -/
def WaitStatus.failed : WaitStatus → Bool
  | .exited status => status != 0
  | .signaled => true

/-- What a call of `merge_sort` has come to, with its local variables. -/
inductive Pc where
  /-- It has not begun. -/
  | entry
  /-- In `qsort`, with the writes that are left. -/
  | sorting (writes : List (ℕ × ℤ))
  /-- The left child is forked. -/
  | forkRight
  /-- Both children are forked. -/
  | waitLeft
  /-- The left child has ended. -/
  | waitRight (wstatus : WaitStatus)
  /-- Both children have ended. -/
  | check (wstatus : WaitStatus)
  /-- In the loop of `merge`, with the pointers `left` and `right`, and what is in the
  temporary array. -/
  | merging (left right : ℕ) (tempArr : List ℤ)
  /-- Copying back, from index `i` on. -/
  | copying (i : ℕ) (tempArr : List ℤ)
  /-- The process has ended; `exited 0` is what a call that returned leads to. -/
  | exited (status : WaitStatus)

/-- A process and those it has forked: for the left half of its range, and for the
right half. -/
inductive Tree where
  /-- Not forked. -/
  | none
  /-- A process. -/
  | proc (pc : Pc) (left right : Tree)

/-- A process that is about to call `merge_sort`. -/
def Tree.start : Tree := .proc .entry .none .none

/-- The status of a process that has ended. -/
def Tree.status : Tree → Option WaitStatus
  | .proc (.exited status) _ _ => some status
  | _ => .none

/-- How a step goes. -/
inductive Choice where
  /-- The next statement succeeds. -/
  | go
  /-- The next statement is a `fork` or a `malloc`, and fails. -/
  | fail
  /-- The next statement calls `qsort`, which is to do these writes. -/
  | qsort (writes : List (ℕ × ℤ))
  /-- The process is ended from outside. -/
  | die (status : WaitStatus)

/-! ### Steps of one process -/

/-- `fatal` -/
def fatal : Pc := .exited (.exited 1)

/-- **What `qsort` is for**: the writes stay in the range, and leave its elements in
order. -/
def Sorts (m : Memory) (b e : ℕ) (writes : List (ℕ × ℤ)) : Prop :=
  (∀ w ∈ writes, b ≤ w.1 ∧ w.1 < e) ∧
    (slice (writeAll m writes) b e).Pairwise (· ≤ ·) ∧
      (slice (writeAll m writes) b e).Perm (slice m b e)

instance (m : Memory) (b e : ℕ) (writes : List (ℕ × ℤ)) : Decidable (Sorts m b e writes) :=
  inferInstanceAs (Decidable (_ ∧ _ ∧ _))

/-- One round of the loop of `merge`, or the `break`. -/
def mergeRound (m : Memory) (endl endr left right : ℕ) (tempArr : List ℤ) : Option Pc :=
  let atEndL := left ≥ endl
  let atEndR := right ≥ endr
  if atEndL ∧ atEndR then .none
  else if atEndL then some (.merging left (right + 1) (tempArr ++ [m right]))
  else if atEndR then some (.merging (left + 1) right (tempArr ++ [m left]))
  else
    let cmp := compareI64 (m left) (m right)
    if cmp ≤ 0 then some (.merging (left + 1) right (tempArr ++ [m left]))
    else some (.merging left (right + 1) (tempArr ++ [m right]))

/-- `mid` -/
def mid (b e : ℕ) : ℕ := b + (e - b) / 2

/-- **One step of a process**, in its call of `merge_sort` on the range `[b, e)`. -/
def step (b e threshold : ℕ) (left right : Tree) (m : Memory) :
    Pc → Choice → Option (Tree × Memory)
  | .exited _, _ => none
  | _, .die status =>
      if status.failed then some (.proc (.exited status) left right, m) else none
  | .entry, c =>
      if ¬e ≥ b then some (.proc (.exited .signaled) left right, m)
      else if e - b ≤ threshold then
        match c with
        | .qsort writes =>
            if Sorts m b e writes then some (.proc (.sorting writes) left right, m) else none
        | _ => none
      else
        match c with
        | .go => some (.proc .forkRight .start right, m)
        | .fail => some (.proc fatal left right, m)
        | _ => none
  | .sorting writes, .go =>
      match writes with
      | w :: writes => some (.proc (.sorting writes) left right, update m w.1 w.2)
      | [] => some (.proc (.exited (.exited 0)) left right, m)
  | .forkRight, .go => some (.proc .waitLeft left .start, m)
  | .forkRight, .fail => some (.proc fatal left right, m)
  | .waitLeft, .go => left.status.map fun wstatus => (.proc (.waitRight wstatus) left right, m)
  | .waitRight _, .go => right.status.map fun wstatus => (.proc (.check wstatus) left right, m)
  | .check wstatus, c =>
      if wstatus.failed then some (.proc fatal left right, m)
      else
        match c with
        | .go => some (.proc (.merging b (mid b e) []) left right, m)
        | .fail => some (.proc fatal left right, m)
        | _ => none
  | .merging l r tempArr, .go =>
      some (.proc ((mergeRound m (mid b e) e l r tempArr).getD (.copying 0 tempArr)) left right, m)
  | .copying i tempArr, .go =>
      if i < e - b then
        some (.proc (.copying (i + 1) tempArr) left right, update m (b + i) (tempArr.getD i 0))
      else some (.proc (.exited (.exited 0)) left right, m)
  | _, _ => none

/-! ### Steps of the tree -/

/-- The one half or the other. -/
inductive Side where
  | left
  | right

/-- **One step of a tree of processes**, of which the first sorts `[b, e)`: the process
at the end of the path makes it. -/
def act (threshold : ℕ) : (b e : ℕ) → List Side → Choice → Tree → Memory → Option (Tree × Memory)
  | _, _, _, _, .none, _ => none
  | b, e, [], c, .proc pc left right, m => step b e threshold left right m pc c
  | b, e, .left :: path, c, .proc pc left right, m =>
      (act threshold b (mid b e) path c left m).map fun tm => (.proc pc tm.1 right, tm.2)
  | b, e, .right :: path, c, .proc pc left right, m =>
      (act threshold (mid b e) e path c right m).map fun tm => (.proc pc left tm.1, tm.2)

/-- **A run of `merge_sort` on `[b, e)`** whose steps all satisfy `ok`. -/
def Run (ok : List Side → Choice → Tree → Prop) (threshold b e : ℕ) :
    Tree × Memory → Tree × Memory → Prop :=
  Relation.ReflTransGen fun s s' =>
    ∃ path c, ok path c s.1 ∧ act threshold b e path c s.1 s.2 = some s'

/-- What a list of steps leads to, up to the first that is not possible or does not
satisfy `ok`. -/
def follow (ok : List Side → Choice → Tree → Prop) [∀ path c t, Decidable (ok path c t)]
    (threshold b e : ℕ) (s : Tree × Memory) : List (List Side × Choice) → Tree × Memory
  | [] => s
  | (path, c) :: steps =>
      match (if ok path c s.1 then act threshold b e path c s.1 s.2 else none) with
      | some s' => follow ok threshold b e s' steps
      | none => s

theorem run_follow (ok : List Side → Choice → Tree → Prop) [∀ path c t, Decidable (ok path c t)]
    (threshold b e : ℕ) (s : Tree × Memory) (steps : List (List Side × Choice)) :
    Run ok threshold b e s (follow ok threshold b e s steps) := by
  induction steps generalizing s with
  | nil => exact .refl
  | cons a steps ih =>
    rw [follow]
    split
    · rename_i s' hs'
      obtain ⟨hok, hact⟩ := Option.ite_none_right_eq_some.mp hs'
      exact .head ⟨a.1, a.2, hok, hact⟩ (ih s')
    · exact .refl

end ParSort

end Csf
