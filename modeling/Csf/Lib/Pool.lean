import Csf.Lib.Protocol

/-!
# Threads on a shared state

A *pool* of threads runs programs on one shared state, a call at a time. Between
two programs a thread is at rest in a local state; an input then starts its next
program, whose last value is the local state it rests in afterwards. Any thread
may be the next to move, so a run of the pool is any interleaving of the calls
of its threads.

Some calls are *fatal*: a thread that comes to one takes the whole process down
with it, and nothing moves any more (`Interaction.Pool.down`). Others are
*fallible*: they may be answered, or fail, which takes the process down as well.

The point of the file is `Interaction.System.ok_of_run`: to know something of
every reachable pool, check each program alone against a protocol, and check
once for each call that it keeps the relation `Inv` between the shared state and
the ghost values of all threads. Steps may be restricted to those satisfying a
condition, which the checks then may use.
-/

namespace Interaction

open Function

/-- What is run: how an input starts a program, what the calls do to the shared
state – `none` for a call that has to wait – and which calls are fatal or may fail. -/
structure System (ι I L S C : Type) (R : C → Type) where
  /-- The program started by an input at a local state, if it takes inputs. -/
  start : ι → L → I → Option (Program C R L)
  /-- The effect of a call made by a thread. -/
  exec : ι → (c : C) → S → Option (R c × S)
  /-- The calls no thread survives. -/
  fatal : C → Bool
  /-- The calls a thread may fail to survive. -/
  fallible : C → Bool

/-- A thread: at rest, or running the program an input started. -/
inductive Thread (I L C : Type) (R : C → Type) where
  /-- At rest in the local state `l`. -/
  | rest (l : L) : Thread I L C R
  /-- Running: the input, the local state it came in, and what is left to do. -/
  | run (i : I) (l : L) (p : Program C R L) : Thread I L C R

/-- A pool of threads on a shared state. -/
structure Pool (ι I L S C : Type) (R : C → Type) where
  /-- The shared state. -/
  shared : S
  /-- The threads. -/
  thread : ι → Thread I L C R
  /-- Whether a thread has come to a fatal call, or a call has failed. -/
  down : Bool

/-- The moves: give an input to a thread, let a thread make its next call – or come
to rest, when it has none left – or let its next call fail. -/
inductive Act (ι I : Type) where
  /-- Thread `t` is given the input `i`. -/
  | input (t : ι) (i : I) : Act ι I
  /-- Thread `t` makes its next call, or comes to rest. -/
  | advance (t : ι) : Act ι I
  /-- The call that thread `t` is at fails. -/
  | fail (t : ι) : Act ι I

namespace System

variable {ι I L S C : Type} {R : C → Type} [DecidableEq ι] (M : System ι I L S C R)

/-- Whether a program is at a fatal call. -/
def atFatal : Program C R L → Bool
  | .ret _ => false
  | .call c _ => M.fatal c

/-- The pool once thread `t` has become `x` and the shared state `s`. -/
def put (w : Pool ι I L S C R) (t : ι) (x : Thread I L C R) (s : S) (down : Bool) :
    Pool ι I L S C R where
  shared := s
  thread := update w.thread t x
  down := down

@[simp] theorem put_shared (w : Pool ι I L S C R) (t : ι) (x : Thread I L C R) (s : S) (d : Bool) :
    (put w t x s d).shared = s := rfl

@[simp] theorem put_thread (w : Pool ι I L S C R) (t : ι) (x : Thread I L C R) (s : S) (d : Bool) :
    (put w t x s d).thread = update w.thread t x := rfl

/-- **One move of a pool**, if it is possible. -/
def step (w : Pool ι I L S C R) (a : Act ι I) : Option (Pool ι I L S C R) :=
  if w.down then none else
    match a with
    | .input t i =>
        match w.thread t with
        | .rest l => (M.start t l i).map fun p => put w t (.run i l p) w.shared (M.atFatal p)
        | .run _ _ _ => none
    | .advance t =>
        match w.thread t with
        | .rest _ => none
        | .run _ _ (.ret l') => some (put w t (.rest l') w.shared false)
        | .run i l (.call c k) => (M.exec t c w.shared).map fun rs =>
            put w t (.run i l (k rs.1)) rs.2 (M.atFatal (k rs.1))
    | .fail t =>
        match w.thread t with
        | .run _ _ (.call c _) => if M.fallible c then some { w with down := true } else none
        | _ => none

/-- **A run whose moves all satisfy `ok`**, from one pool to another. -/
def Run (ok : Pool ι I L S C R → Act ι I → Prop) : Pool ι I L S C R → Pool ι I L S C R → Prop :=
  Relation.ReflTransGen fun w w' => ∃ a, ok w a ∧ M.step w a = some w'

/-- The pool after a list of moves, up to the first that is not possible or does
not satisfy `ok`. -/
def follow (ok : Pool ι I L S C R → Act ι I → Prop) [∀ w a, Decidable (ok w a)]
    (w : Pool ι I L S C R) : List (Act ι I) → Pool ι I L S C R
  | [] => w
  | a :: as =>
      match (if ok w a then M.step w a else none) with
      | some w' => follow ok w' as
      | none => w

variable {M}

/-- **What a move can be**, read off one step: an input starting a program, a
call answered, a program that has ended, or a call that fails. -/
theorem step_cases {w w' : Pool ι I L S C R} {a : Act ι I} (h : M.step w a = some w') :
    (∃ t i l p, a = .input t i ∧ w.thread t = .rest l ∧ M.start t l i = some p ∧
        w' = put w t (.run i l p) w.shared (M.atFatal p)) ∨
      (∃ t i l l', a = .advance t ∧ w.thread t = .run i l (.ret l') ∧
        w' = put w t (.rest l') w.shared false) ∨
      (∃ t i l c k r s, a = .advance t ∧ w.thread t = .run i l (.call c k) ∧
        M.exec t c w.shared = some (r, s) ∧ w' = put w t (.run i l (k r)) s (M.atFatal (k r))) ∨
      ∃ t i l c k, a = .fail t ∧ w.thread t = .run i l (.call c k) ∧ M.fallible c = true ∧
        w' = { w with down := true } := by
  unfold step at h
  split at h
  · exact absurd h (by simp)
  · cases a with
    | input t i =>
      simp only at h
      cases hw : w.thread t with
      | rest l =>
        rw [hw] at h
        obtain ⟨p, hp, hw'⟩ := Option.map_eq_some_iff.mp h
        exact Or.inl ⟨t, i, l, p, rfl, hw, hp, hw'.symm⟩
      | run i' l p =>
        rw [hw] at h
        exact absurd h (by simp)
    | advance t =>
      simp only at h
      cases hw : w.thread t with
      | rest l =>
        rw [hw] at h
        exact absurd h (by simp)
      | run i l p =>
        rw [hw] at h
        cases p with
        | ret l' => exact Or.inr (Or.inl ⟨t, i, l, l', rfl, hw, (Option.some.inj h).symm⟩)
        | call c k =>
          obtain ⟨⟨r, s⟩, hrs, hw'⟩ := Option.map_eq_some_iff.mp h
          exact Or.inr (Or.inr (Or.inl ⟨t, i, l, c, k, r, s, rfl, hw, hrs, hw'.symm⟩))
    | fail t =>
      simp only at h
      cases hw : w.thread t with
      | rest l =>
        rw [hw] at h
        exact absurd h (by simp)
      | run i l p =>
        rw [hw] at h
        cases p with
        | ret l' => exact absurd h (by simp)
        | call c k =>
          obtain ⟨hc, hw'⟩ := Option.ite_none_right_eq_some.mp h
          exact Or.inr (Or.inr (Or.inr ⟨t, i, l, c, k, rfl, hw, hc, (Option.some.inj hw').symm⟩))

/-- **Following a list of moves is a run.** -/
theorem run_follow (ok : Pool ι I L S C R → Act ι I → Prop) [∀ w a, Decidable (ok w a)]
    (w : Pool ι I L S C R) (as : List (Act ι I)) : M.Run ok w (M.follow ok w as) := by
  induction as generalizing w with
  | nil => exact Relation.ReflTransGen.refl
  | cons a as ih =>
    rw [follow]
    by_cases ha : ok w a
    · rw [if_pos ha]
      cases hs : M.step w a with
      | none => exact Relation.ReflTransGen.refl
      | some w' => exact Relation.ReflTransGen.head ⟨a, ha, hs⟩ (ih w')
    · rw [if_neg ha]
      exact Relation.ReflTransGen.refl

/-- **A program that nobody interrupts**: what it does alone is a run of the pool, if
fatal calls get no answer. -/
theorem run_of_exec (hfatal : ∀ t c s, M.fatal c = true → M.exec t c s = none)
    {w : Pool ι I L S C R} {t : ι} {i : I} {l l' : L} {p : Program C R L} {s s' : S}
    (h : p.exec (M.exec t) s = some (l', s')) :
    M.Run (fun _ _ => True) (put w t (.run i l p) s (M.atFatal p))
      (put w t (.rest l') s' false) := by
  induction p generalizing s with
  | ret a =>
    obtain ⟨rfl, rfl⟩ := Prod.mk.inj (Option.some.inj h)
    refine Relation.ReflTransGen.single ⟨.advance t, trivial, ?_⟩
    simp [step, atFatal, put]
  | call c k ih =>
    obtain ⟨⟨r, s₁⟩, hexec, hrest⟩ := Option.bind_eq_some_iff.mp h
    have hlive : M.atFatal (.call c k : Program C R L) = false := by
      cases hc : M.fatal c
      · exact hc
      · exact absurd (hexec.symm.trans (hfatal t c s hc)) (by simp)
    refine Relation.ReflTransGen.head ⟨.advance t, trivial, ?_⟩ (ih r hrest)
    rw [hlive]
    simp [step, put, hexec]

/-- Nothing moves in a pool that is down. -/
theorem live_of_step {w w' : Pool ι I L S C R} {a : Act ι I} (h : M.step w a = some w') :
    w.down = false := by
  cases hd : w.down with
  | false => rfl
  | true => exact absurd h (by simp [step, hd])

/-- A run with a condition is a run without one. -/
theorem Run.mono {ok ok' : Pool ι I L S C R → Act ι I → Prop} {w w' : Pool ι I L S C R}
    (h : M.Run ok w w') (hok : ∀ v a, ok v a → ok' v a) : M.Run ok' w w' :=
  Relation.ReflTransGen.mono (fun _ _ ⟨a, ha, hs⟩ => ⟨a, hok _ a ha, hs⟩) _ _ h

/-! ### Invariants by protocols -/

section Invariants

variable {G : Type} (P : ι → I → L → Protocol C R G) (End : ι → I → L → L → G → Prop)
  (Rest : ι → L → G → Prop) (Inv : S → (ι → G) → Prop)

/-- A thread is in order at the ghost value `g`: at rest, `g` suits its local
state; running, what is left obeys the protocol and ends where it should, given
the input and the local state it came in. -/
def ThreadOk (t : ι) (g : G) : Thread I L C R → Prop
  | .rest l => Rest t l g
  | .run i l p => (P t i l).wp p (fun g' l' => End t i l l' g') g

/-- **A pool is in order** when ghost values can be given to its threads that fit
the shared state and each thread. -/
def Ok (w : Pool ι I L S C R) : Prop :=
  ∃ γ : ι → G, Inv w.shared γ ∧ ∀ t, ThreadOk P End Rest t (γ t) (w.thread t)

variable {P End Rest Inv} {ok : Pool ι I L S C R → Act ι I → Prop}

/-- **One move keeps the pool in order**, when programs obey the protocol as they
start, end in local states to rest in, and calls keep `Inv`. -/
theorem ok_step
    (hend : ∀ t i l l' g, End t i l l' g → Rest t l' g)
    (hstart : ∀ w γ t i l p, ok w (.input t i) → w.thread t = .rest l → Inv w.shared γ →
      M.start t l i = some p → Rest t l (γ t) → (P t i l).wp p (fun g' l' => End t i l l' g') (γ t))
    (hcall : ∀ w γ t i l c k r s, ok w (.advance t) → w.thread t = .run i l (.call c k) →
      Inv w.shared γ → (P t i l).pre c (γ t) → M.exec t c w.shared = some (r, s) →
      (P t i l).may c (γ t) r ∧ Inv s (update γ t ((P t i l).after c (γ t) r)))
    {w w' : Pool ι I L S C R} {a : Act ι I} (hw : Ok P End Rest Inv w) (ha : ok w a)
    (h : M.step w a = some w') : Ok P End Rest Inv w' := by
  obtain ⟨γ, hinv, hthr⟩ := hw
  have other : ∀ (t : ι) (g : G) (x : Thread I L C R), ThreadOk P End Rest t g x →
      ∀ u, ThreadOk P End Rest u (update γ t g u) (update w.thread t x u) := by
    intro t g x hx u
    rcases eq_or_ne u t with rfl | hne
    · simpa using hx
    · simpa [hne] using hthr u
  rcases step_cases h with ⟨t, i, l, p, rfl, hl, hp, rfl⟩ | ⟨t, i, l, l', rfl, hl, rfl⟩ |
    ⟨t, i, l, c, k, r, s, rfl, hl, hex, rfl⟩ | ⟨t, i, l, c, k, rfl, hl, hc, rfl⟩
  · have ht : ThreadOk P End Rest t (γ t) (.rest l) := hl ▸ hthr t
    refine ⟨γ, hinv, ?_⟩
    simpa using other t (γ t) (.run i l p) (hstart w γ t i l p ha hl hinv hp ht)
  · have ht : ThreadOk P End Rest t (γ t) (.run i l (.ret l')) := hl ▸ hthr t
    refine ⟨γ, hinv, ?_⟩
    simpa using other t (γ t) (.rest l') (hend t i l l' (γ t) ht)
  · have ht : ThreadOk P End Rest t (γ t) (.run i l (.call c k)) := hl ▸ hthr t
    obtain ⟨hmay, hinv'⟩ := hcall w γ t i l c k r s ha hl hinv ht.1 hex
    exact ⟨_, hinv', other t _ _ (ht.2 r hmay)⟩
  · exact ⟨γ, hinv, hthr⟩

/-- **Every pool reached by moves satisfying `ok` is in order.** -/
theorem ok_of_run
    (hend : ∀ t i l l' g, End t i l l' g → Rest t l' g)
    (hstart : ∀ w γ t i l p, ok w (.input t i) → w.thread t = .rest l → Inv w.shared γ →
      M.start t l i = some p → Rest t l (γ t) → (P t i l).wp p (fun g' l' => End t i l l' g') (γ t))
    (hcall : ∀ w γ t i l c k r s, ok w (.advance t) → w.thread t = .run i l (.call c k) →
      Inv w.shared γ → (P t i l).pre c (γ t) → M.exec t c w.shared = some (r, s) →
      (P t i l).may c (γ t) r ∧ Inv s (update γ t ((P t i l).after c (γ t) r)))
    {w w' : Pool ι I L S C R} (hw : Ok P End Rest Inv w) (h : M.Run ok w w') :
    Ok P End Rest Inv w' := by
  induction h with
  | refl => exact hw
  | tail _ hstep ih =>
    obtain ⟨a, ha, hs⟩ := hstep
    exact ok_step hend hstart hcall ih ha hs

end Invariants

end System

end Interaction
