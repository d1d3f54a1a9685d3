import Csf.Lib.Pool

/-!
# Threads and where their inputs come from

A pool of threads is given its inputs by whoever runs it. Here every thread has a *source* of its
own, and takes its next input from there (`Interaction.System.fed`); the source is part of the
local state of the thread and nobody else's business.

Two facts about this. What is reached with sources is reached without them, if each thread is
given what its source would have given it (`Interaction.System.run_forget`). And a source can be
replaced by an abstraction of it, which delivers the same inputs: the reachable pools are then the
same, but for what is left in the sources (`Interaction.System.Hom.run_map`,
`Interaction.System.Hom.exists_run_of_map`).
-/

namespace Interaction

variable {ι I L L' S C T A α β γ : Type} {R : C → Type}

/-! ### Renaming values and local states -/

namespace Program

/-- Change the value a program ends with. -/
def map (f : α → β) (p : Program C R α) : Program C R β := p.bind fun a => .ret (f a)

@[simp] theorem map_ret (f : α → β) (a : α) : (ret a : Program C R α).map f = .ret (f a) := rfl

@[simp] theorem map_call (f : α → β) (c : C) (k : R c → Program C R α) :
    (call c k).map f = .call c fun r => (k r).map f := rfl

@[simp] theorem map_map (f : α → β) (g : β → γ) (p : Program C R α) :
    (p.map f).map g = p.map fun a => g (f a) := by
  rw [map, map, map, bind_assoc]
  rfl

@[simp] theorem map_id (p : Program C R α) : (p.map fun a => a) = p := by
  induction p with
  | ret a => rfl
  | call c k ih => rw [map_call, funext ih]

end Program

/-- Change the local states of a thread. -/
def Thread.map (f : L → L') : Thread I L C R → Thread I L' C R
  | .rest l => .rest (f l)
  | .run i l p => .run i (f l) (p.map f)

/-- Change the local states of all threads of a pool. -/
def Pool.map (f : L → L') (w : Pool ι I L S C R) : Pool ι I L' S C R where
  shared := w.shared
  thread t := (w.thread t).map f
  down := w.down

namespace System

variable {M : System ι I L S C R} {M' : System ι I L' S C R}

/-! ### Moves -/

section Moves

variable [DecidableEq ι] {w : Pool ι I L S C R} {t : ι}

theorem step_down (h : w.down = true) (a : Act ι I) : M.step w a = none := by
  simp [step, h]

theorem step_input {l : L} (hdown : w.down = false) (h : w.thread t = .rest l) (i : I) :
    M.step w (.input t i) =
      (M.start t l i).map fun p => put w t (.run i l p) w.shared (M.atFatal p) := by
  simp [step, hdown, h]

theorem step_input_run {i' : I} {l : L} {p : Program C R L} (h : w.thread t = .run i' l p) (i : I) :
    M.step w (.input t i) = none := by
  simp [step, h]

theorem step_advance_rest {l : L} (h : w.thread t = .rest l) : M.step w (.advance t) = none := by
  simp [step, h]

theorem step_ret {i : I} {l l' : L} (hdown : w.down = false)
    (h : w.thread t = .run i l (.ret l')) :
    M.step w (.advance t) = some (put w t (.rest l') w.shared false) := by
  simp [step, hdown, h]

theorem step_call {i : I} {l : L} {c : C} {k : R c → Program C R L} (hdown : w.down = false)
    (h : w.thread t = .run i l (.call c k)) :
    M.step w (.advance t) = (M.exec t c w.shared).map fun rs =>
      put w t (.run i l (k rs.1)) rs.2 (M.atFatal (k rs.1)) := by
  simp [step, hdown, h]

theorem step_fail_rest {l : L} (h : w.thread t = .rest l) : M.step w (.fail t) = none := by
  simp [step, h]

theorem step_fail_ret {i : I} {l l' : L} (h : w.thread t = .run i l (.ret l')) :
    M.step w (.fail t) = none := by
  simp [step, h]

theorem step_fail {i : I} {l : L} {c : C} {k : R c → Program C R L} (hdown : w.down = false)
    (h : w.thread t = .run i l (.call c k)) :
    M.step w (.fail t) = if M.fallible c then some { w with down := true } else none := by
  simp [step, hdown, h]

end Moves

/-! ### Homomorphisms -/

/-- A map of local states is a **homomorphism** when the calls are the same ones and a program is
started at the image of a local state as it is at the local state. -/
structure Hom (M : System ι I L S C R) (M' : System ι I L' S C R) (f : L → L') : Prop where
  /-- The calls do the same. -/
  exec : M'.exec = M.exec
  /-- The same calls are fatal. -/
  fatal : M'.fatal = M.fatal
  /-- The same calls may fail. -/
  fallible : M'.fallible = M.fallible
  /-- The same programs are started. -/
  start : ∀ t l i, M'.start t (f l) i = (M.start t l i).map (Program.map f)

variable {f : L → L'}

theorem Hom.atFatal_map (h : M.Hom M' f) (p : Program C R L) :
    M'.atFatal (p.map f) = M.atFatal p := by
  cases p with
  | ret l => rfl
  | call c k => exact congrFun h.fatal c

variable [DecidableEq ι]

theorem map_put (w : Pool ι I L S C R) (t : ι) (x : Thread I L C R) (s : S) (d : Bool) :
    (put w t x s d).map f = put (w.map f) t (x.map f) s d := by
  refine (Pool.mk.injEq ..).mpr ⟨rfl, funext fun u => ?_, rfl⟩
  exact Function.apply_update (fun _ => Thread.map f) w.thread t x u

/-- **A homomorphism maps moves to moves**, and every move at an image is the image of one. -/
theorem Hom.step_map (h : M.Hom M' f) (w : Pool ι I L S C R) (a : Act ι I) :
    M'.step (w.map f) a = (M.step w a).map (Pool.map f) := by
  cases hdown : w.down with
  | true => rw [step_down hdown, step_down (w := w.map f) hdown, Option.map_none]
  | false =>
    have hdown' : (w.map f).down = false := hdown
    have hthread : ∀ t, (w.map f).thread t = (w.thread t).map f := fun _ => rfl
    cases a with
    | input t i =>
      specialize hthread t
      cases hw : w.thread t with
      | run i' l p =>
        rw [hw] at hthread
        rw [step_input_run hw, step_input_run hthread, Option.map_none]
      | rest l =>
        rw [hw] at hthread
        rw [step_input hdown hw, step_input hdown' hthread, h.start]
        cases M.start t l i with
        | none => rfl
        | some p =>
          refine congrArg some ?_
          dsimp only
          rw [h.atFatal_map, map_put]
          rfl
    | advance t =>
      specialize hthread t
      cases hw : w.thread t with
      | rest l =>
        rw [hw] at hthread
        rw [step_advance_rest hw, step_advance_rest hthread, Option.map_none]
      | run i l p =>
        rw [hw] at hthread
        cases p with
        | ret l' =>
          rw [step_ret hdown hw, step_ret hdown' hthread]
          exact congrArg some (map_put w t (.rest l') w.shared false).symm
        | call c k =>
          rw [step_call hdown hw, step_call hdown' hthread, h.exec]
          cases hex : M.exec t c w.shared with
          | none => exact congrArg (Option.map _) hex
          | some rs =>
            -- what goes on after the answer is fatal on both sides or on neither
            refine (congrArg (Option.map _) hex).trans (congrArg some ?_)
            dsimp only
            rw [← Program.map, h.atFatal_map, map_put]
            rfl
    | fail t =>
      specialize hthread t
      cases hw : w.thread t with
      | rest l =>
        rw [hw] at hthread
        rw [step_fail_rest hw, step_fail_rest hthread, Option.map_none]
      | run i l p =>
        rw [hw] at hthread
        cases p with
        | ret l' => rw [step_fail_ret hw, step_fail_ret hthread, Option.map_none]
        | call c k =>
          rw [step_fail hdown hw, step_fail hdown' hthread, h.fallible,
            apply_ite (Option.map _), Option.map_none]
          rfl

/-- **What is reached is reached at the image.** -/
theorem Hom.run_map (h : M.Hom M' f) {w w' : Pool ι I L S C R}
    (hrun : M.Run (fun _ _ => True) w w') : M'.Run (fun _ _ => True) (w.map f) (w'.map f) := by
  induction hrun with
  | refl => exact .refl
  | tail _ hstep ih =>
    obtain ⟨a, -, hs⟩ := hstep
    exact ih.tail ⟨a, trivial, by rw [h.step_map, hs, Option.map_some]⟩

/-- **What is reached at the image** is the image of something that is reached. -/
theorem Hom.exists_run_of_map (h : M.Hom M' f) {w : Pool ι I L S C R} {v : Pool ι I L' S C R}
    (hrun : M'.Run (fun _ _ => True) (w.map f) v) :
    ∃ w', M.Run (fun _ _ => True) w w' ∧ w'.map f = v := by
  induction hrun with
  | refl => exact ⟨w, .refl, rfl⟩
  | tail _ hstep ih =>
    obtain ⟨w', hw', rfl⟩ := ih
    obtain ⟨a, -, hs⟩ := hstep
    rw [h.step_map] at hs
    obtain ⟨w₁, hw₁, rfl⟩ := Option.map_eq_some_iff.mp hs
    exact ⟨w₁, hw'.tail ⟨a, trivial, hw₁⟩, rfl⟩

/-! ### Sources -/

/-- **A system whose threads take their inputs from sources.** -/
def fed (M : System ι I L S C R) (next : T → I × T) : System ι Unit (L × T) S C R where
  start t l _ := (M.start t l.1 (next l.2).1).map (Program.map fun l' => (l', (next l.2).2))
  exec := M.exec
  fatal := M.fatal
  fallible := M.fallible

omit [DecidableEq ι] in
/-- **A source may be replaced** by one that delivers the same. -/
theorem hom_fed {next : T → I × T} {next' : A → I × A} (f : T → A)
    (h : ∀ τ, next' (f τ) = ((next τ).1, f (next τ).2)) :
    (M.fed next).Hom (M.fed next') fun l => (l.1, f l.2) where
  exec := rfl
  fatal := rfl
  fallible := rfl
  start t l _ := by
    simp only [fed, h]
    cases M.start t l.1 (next l.2).1 with
    | none => rfl
    | some p => exact congrArg some (by rw [Program.map_map])

/-- A thread without its source. -/
def forgetThread (next : T → I × T) : Thread Unit (L × T) C R → Thread I L C R
  | .rest l => .rest l.1
  | .run _ l p => .run (next l.2).1 l.1 (p.map Prod.fst)

/-- A pool without the sources. -/
def forget (next : T → I × T) (w : Pool ι Unit (L × T) S C R) : Pool ι I L S C R where
  shared := w.shared
  thread t := forgetThread next (w.thread t)
  down := w.down

theorem forget_put (next : T → I × T) (w : Pool ι Unit (L × T) S C R) (t : ι)
    (x : Thread Unit (L × T) C R) (s : S) (d : Bool) :
    forget next (put w t x s d) = put (forget next w) t (forgetThread next x) s d := by
  refine (Pool.mk.injEq ..).mpr ⟨rfl, funext fun u => ?_, rfl⟩
  exact Function.apply_update (fun _ => forgetThread next) w.thread t x u

omit [DecidableEq ι] in
theorem atFatal_fed {next : T → I × T} {f : L → L × T} {p : Program C R L} :
    (M.fed next).atFatal (p.map f) = M.atFatal p := by
  cases p <;> rfl

omit [DecidableEq ι] in
theorem atFatal_forget {next : T → I × T} {p : Program C R (L × T)} :
    M.atFatal (p.map Prod.fst) = (M.fed next).atFatal p := by
  cases p <;> rfl

/-- A move without the sources: the input is what the source has. -/
def forgetAct (next : T → I × T) (w : Pool ι Unit (L × T) S C R) : Act ι Unit → Act ι I
  | .input t _ =>
      match w.thread t with
      | .rest l => .input t (next l.2).1
      | .run _ l _ => .input t (next l.2).1
  | .advance t => .advance t
  | .fail t => .fail t

/-- A move of a pool with sources is one of the pool without them. -/
theorem step_forget {next : T → I × T} {w w' : Pool ι Unit (L × T) S C R} {a : Act ι Unit}
    (h : (M.fed next).step w a = some w') :
    M.step (forget next w) (forgetAct next w a) = some (forget next w') := by
  have hdown : (forget next w).down = false := by
    cases hd : w.down with
    | false => exact hd
    | true => exact absurd (h.symm.trans (step_down hd a)) (by simp)
  have hthread : ∀ t, (forget next w).thread t = forgetThread next (w.thread t) := fun _ => rfl
  rcases step_cases h with ⟨t, i, l, p, rfl, hl, hp, rfl⟩ | ⟨t, i, l, l', rfl, hl, rfl⟩ |
    ⟨t, i, l, c, k, r, s, rfl, hl, hex, rfl⟩ | ⟨t, i, l, c, k, rfl, hl, hc, rfl⟩
  all_goals
    specialize hthread t
    rw [hl] at hthread
  · obtain ⟨q, hq, rfl⟩ := Option.map_eq_some_iff.mp hp
    have hact : forgetAct next w (.input t i) = .input t (next l.2).1 := by rw [forgetAct, hl]
    rw [hact, step_input hdown hthread, hq, forget_put, atFatal_fed, forgetThread,
      Program.map_map, Program.map_id]
    rfl
  · rw [forgetAct, step_ret hdown hthread, forget_put]
    rfl
  · have hex' : M.exec t c (forget next w).shared = some (r, s) := hex
    rw [forgetAct, step_call hdown hthread, hex', forget_put, ← atFatal_forget]
    rfl
  · have hc' : M.fallible c = true := hc
    rw [forgetAct, step_fail hdown hthread, if_pos hc']
    rfl

/-- **What is reached with sources is reached without them**, by such moves as they are. -/
theorem run_forget_of {next : T → I × T} (ok : Pool ι I L S C R → Act ι I → Prop)
    {w w' : Pool ι Unit (L × T) S C R}
    (h : (M.fed next).Run (fun v a => ok (forget next v) (forgetAct next v a)) w w') :
    M.Run ok (forget next w) (forget next w') := by
  induction h with
  | refl => exact .refl
  | tail _ hstep ih =>
    obtain ⟨a, ha, hs⟩ := hstep
    exact ih.tail ⟨_, ha, step_forget hs⟩

/-- **What is reached with sources is reached without them.** -/
theorem run_forget {next : T → I × T} {w w' : Pool ι Unit (L × T) S C R}
    (h : (M.fed next).Run (fun _ _ => True) w w') :
    M.Run (fun _ _ => True) (forget next w) (forget next w') :=
  run_forget_of (fun _ _ => True) h

end System

end Interaction
