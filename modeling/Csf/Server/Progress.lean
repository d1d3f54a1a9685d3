import Csf.Lib.Settling
import Csf.Server.Closing
import Csf.Server.Wire

/-!
# The server comes to rest

Sessions whose clients send finitely many bytes make finitely many moves, however these
interleave (`Csf.Server.wellFounded_sessions`). At the end the process is down, or every session
has ended or waits for the lock of a table; and whoever holds that lock has ended as well
(`Csf.Server.at_rest_iff`). So it is only sessions that end in a transaction that keep others
waiting for ever: without them, all are served to the end and no table is locked
(`Csf.Server.all_served`).

All this is so if the mutex of every new table is free. Nothing initialises it, so that is a
hypothesis on the memory new tables are put in.
-/

namespace Csf

namespace Server

open Interaction

variable {β : Type}

/-! ### Sessions are finite -/

theorem length_readlineLoop_snd_le (n : ℕ) (s : Str) : (readlineLoop n s).2.length ≤ s.length := by
  induction n generalizing s with
  | zero => exact Nat.le_refl _
  | succ n ih =>
    cases s with
    | nil => exact Nat.le_refl _
    | cons c s =>
      rw [readlineLoop]
      split
      · exact Nat.le_succ _
      · exact (ih s).trans (Nat.le_succ _)

/-- A line is taken from the stream, or it is at its end. -/
theorem nextLine_cases (s : Str) :
    (nextLine s).1 = .eof ∨ (nextLine s).2.length < s.length := by
  cases s with
  | nil => exact .inl rfl
  | cons c s =>
    right
    change (readlineLoop (_ + 1) (c :: s)).2.length < _
    rw [readlineLoop]
    split
    · exact Nat.lt_succ_self _
    · exact Nat.lt_succ_of_le (length_readlineLoop_snd_le _ s)

/-- More rounds than a session still takes. -/
def remaining (l : Local β × Str) : ℕ := if l.1.closed then 0 else l.2.length + 1

/-- **Every round leaves less to do.** -/
theorem remaining_lt {env : SessionId → ℕ → Env β} {t : SessionId} {l l' : Local β × Str}
    {i : Unit} {p : Program (Call β) Call.Result (Local β × Str)}
    (hp : (streamSystem env).start t l i = some p) (hl' : p.Ends l') :
    remaining l' < remaining l := by
  obtain ⟨q, hq, rfl⟩ := Option.map_eq_some_iff.mp hp
  rw [system] at hq
  dsimp only at hq
  split at hq
  · exact absurd hq (by simp)
  · next hopen =>
    obtain rfl := Option.some.inj hq
    obtain ⟨m, hm, rfl⟩ := (Program.ends_bind _ _ _).mp hl'
    rw [remaining, remaining, if_neg hopen]
    rcases nextLine_cases l.2 with heof | hlt
    · -- at the end of the stream the session ends
      rw [heof] at hm
      obtain rfl := hm
      exact Nat.succ_pos _
    · split
      · exact Nat.succ_pos _
      · exact Nat.succ_lt_succ hlt

/-- **No run of finitely many sessions goes on for ever.** -/
theorem wellFounded_sessions (env : SessionId → ℕ → Env β) (ts : Finset SessionId) :
    WellFounded fun w' w => ∃ a : Act SessionId Unit, a.thread ∈ ts ∧
      (streamSystem env).step w a = some w' :=
  System.wellFounded_moves ts fun t _ =>
    System.wellFounded_thread remaining t fun _ _ _ _ hp hl' => remaining_lt hp hl'

/-! ### What keeps a session from its end -/

section AtRest

variable {env : SessionId → ℕ → Env β} {sources : SessionId → Str} {ts : Finset SessionId}
  {w : Pool SessionId Unit (Local β × Str) (Tables β) (Call β) Call.Result}
  {mutexes : Str → Option SessionId}

/-- The server as it comes up, `mutexes` being what is in the memory of the mutexes of the tables
that there are going to be. -/
def startOn (mutexes : Str → Option SessionId) (sources : SessionId → Str) :
    Pool SessionId Unit (Local β × Str) (Tables β) (Call β) Call.Result where
  shared := { created := fun _ => false, table := fun t => { holder := mutexes t } }
  thread t := .rest ({}, sources t)
  down := false

/-- The state of the server, without the streams. -/
abbrev served (w : Pool SessionId Unit (Local β × Str) (Tables β) (Call β) Call.Result) :
    World β := System.forget nextLine w

/-- A call has to wait only if it locks a table that is locked, or comes last. -/
theorem exec_eq_none {t : SessionId} {c : Call β} {σ : Tables β} (h : c.exec t σ = none) :
    (∃ tbl, c = .lock tbl ∧ (σ.table tbl).holder.isSome) ∨ c = .terminate := by
  cases c with
  | lock tbl =>
    refine .inl ⟨tbl, rfl, ?_⟩
    by_contra hfree
    exact absurd (h.symm.trans (if_neg hfree)) (by simp)
  | trylock tbl =>
    rw [Call.exec] at h
    split at h <;> exact absurd h (by simp)
  | terminate => exact .inr rfl
  | _ => exact absurd h (by simp [Call.exec])

/-- **A session that cannot go on** has ended, or is blocked. -/
theorem closed_or_blocked {t : SessionId}
    (hstuck : (streamSystem env).Stuck t w.shared (w.thread t))
    (hlive : ¬(streamSystem env).AtFatal (w.thread t)) :
    isClosed ((served w).thread t) = true ∨ ∃ tbl, Blocked (served w) t tbl := by
  have hthread : (served w).thread t = System.forgetThread nextLine (w.thread t) := rfl
  cases hx : w.thread t with
  | rest l =>
    left
    rw [hx] at hstuck hthread
    rw [hthread]
    change l.1.closed = true
    by_contra hopen
    have hnone := hstuck ()
    rw [streamSystem, System.fed, system] at hnone
    simp [hopen] at hnone
  | run i l p =>
    right
    rw [hx] at hstuck hthread hlive
    cases p with
    | ret l' => exact hstuck.elim
    | call c k =>
      rcases exec_eq_none hstuck.1 with ⟨tbl, rfl, hheld⟩ | rfl
      · exact ⟨tbl, by rw [hthread]; rfl, hheld⟩
      · exact absurd rfl hlive

theorem stuck_of_closed {t : SessionId} (h : isClosed ((served w).thread t) = true) :
    (streamSystem env).Stuck t w.shared (w.thread t) := by
  change isClosed (System.forgetThread nextLine (w.thread t)) = true at h
  cases hx : w.thread t with
  | rest l =>
    rw [hx] at h
    have hclosed : l.1.closed = true := h
    intro i
    rw [streamSystem, System.fed, system]
    simp [hclosed]
  | run i l p =>
    rw [hx] at h
    exact absurd h Bool.false_ne_true

theorem stuck_of_blocked {t : SessionId} {tbl : Str} (h : Blocked (served w) t tbl) :
    (streamSystem env).Stuck t w.shared (w.thread t) := by
  obtain ⟨hlock, hheld⟩ := h
  change atLock (System.forgetThread nextLine (w.thread t)) = some tbl at hlock
  cases hx : w.thread t with
  | rest l =>
    rw [hx] at hlock
    cases hlock
  | run i l p =>
    rw [hx] at hlock
    cases p with
    | ret l' => cases hlock
    | call c k =>
      cases c with
      | lock u =>
        obtain rfl : u = tbl := Option.some.inj hlock
        exact ⟨if_pos hheld, rfl⟩
      | _ => cases hlock

/-- Only sessions that take part hold locks. -/
theorem mem_of_holds
    (h : (streamSystem env).Run (fun _ a => a.thread ∈ ts) (startWith sources) w) {t : SessionId}
    {tbl : Str} (hholds : Holds (served w) t tbl) : t ∈ ts := by
  by_contra hnot
  have hrest : (served w).thread t = .rest {} := by
    have hsame := System.thread_of_notMem h (t := t) fun v a ha heq => hnot (heq ▸ ha)
    change System.forgetThread nextLine (w.thread t) = _
    rw [hsame]
    rfl
  have hreach : Reachable env (served w) := System.run_forget (h.mono fun _ _ _ => trivial)
  exact absurd (holds_of_rest hreach hrest hholds).1 Bool.false_ne_true

theorem closed_or_waiting_of_settled
    (h : (streamSystem env).Run (fun _ a => a.thread ∈ ts) (startWith sources) w)
    (hw : (streamSystem env).Settled ts w) : w.down = true ∨ ∀ t ∈ ts,
      isClosed ((served w).thread t) = true ∨ ∃ tbl t', Blocked (served w) t tbl ∧
        Holds (served w) t' tbl ∧ isClosed ((served w).thread t') = true := by
  have hreach : Reachable env (served w) := System.run_forget (h.mono fun _ _ _ => trivial)
  rcases System.settled_iff.mp hw with hdown | hstuck
  · exact .inl hdown
  · refine (System.down_of_run h fun _ => id).imp_right fun hlive t ht => ?_
    refine (closed_or_blocked (hstuck t ht) (hlive t)).imp_right ?_
    rintro ⟨tbl, hblocked⟩
    obtain ⟨t', hholder⟩ := Option.isSome_iff_exists.mp hblocked.2
    have hholds : Holds (served w) t' tbl := hholder
    refine ⟨tbl, t', hblocked, hholds, ?_⟩
    -- whoever holds a lock is not blocked
    have hmem := mem_of_holds h hholds
    refine (closed_or_blocked (hstuck t' hmem) (hlive t')).resolve_right ?_
    rintro ⟨tbl', hblocked'⟩
    exact not_holds_of_atLock hreach hblocked'.1 tbl hholds

/-- **What is left when nothing moves any more**: everything is down, or each session has ended
or is blocked on the lock of a table that a session has which has ended. -/
theorem at_rest_iff (hfree : ∀ tbl, mutexes tbl = none)
    (h : (streamSystem env).Run (fun _ a => a.thread ∈ ts) (startOn mutexes sources) w) :
    (streamSystem env).Settled ts w ↔ w.down = true ∨ ∀ t ∈ ts,
      isClosed ((served w).thread t) = true ∨ ∃ tbl t', Blocked (served w) t tbl ∧
        Holds (served w) t' tbl ∧ isClosed ((served w).thread t') = true := by
  obtain rfl : mutexes = fun _ => none := funext hfree
  refine ⟨closed_or_waiting_of_settled h, fun hall => System.settled_iff.mpr ?_⟩
  refine hall.imp_right fun hall t ht => ?_
  rcases hall t ht with hclosed | ⟨tbl, -, hblocked, -, -⟩
  · exact stuck_of_closed hclosed
  · exact stuck_of_blocked hblocked

end AtRest

/-- The moves of a session that takes its lines from a stream: one to take a line, one for each of
the calls on tables that it makes then, one to write the response, and one to come to rest. -/
def round (t : SessionId) (calls : ℕ) : List (Act SessionId Unit) :=
  .input t () :: List.replicate (calls + 2) (.advance t)

/-- Session `0` says `BYE` in a transaction, and session `1` waits for its table. -/
def abandonedWorld : Pool SessionId Unit (Local Str × Str) (Tables Str) (Call Str) Call.Result :=
  (streamSystem plainEnv).follow (fun _ a => a.thread ∈ ({0, 1} : Finset SessionId))
    (startOn (fun _ => none) fun t =>
      if t = 0 then "LOGIN alice\nCREATE t\nPUSH 1\nBEGIN\nSET t x\nBYE\n".toList
      else "LOGIN bob\nPUSH 2\nSET t x\n".toList)
    (round 0 0 ++ round 0 1 ++ round 0 0 ++ round 0 0 ++ round 0 2 ++ round 0 0 ++
      round 1 0 ++ round 1 0 ++ round 1 4)

/-- Nothing moves any more. -/
theorem at_rest_iff_abandonedWorld :
    (streamSystem plainEnv).Settled {0, 1} abandonedWorld ∧
      Blocked (served abandonedWorld) 1 "t".toList := by
  have hblocked : Blocked (served abandonedWorld) 1 "t".toList := by decide +kernel
  have hholds : Holds (served abandonedWorld) 0 "t".toList := by decide +kernel
  have hclosed : isClosed ((served abandonedWorld).thread 0) = true := by decide +kernel
  refine ⟨(at_rest_iff (fun _ => rfl) (System.run_follow _ _ _)).mpr (.inr fun t ht => ?_),
    hblocked⟩
  rcases Finset.mem_insert.mp ht with rfl | ht
  · exact .inl hclosed
  · obtain rfl := Finset.mem_singleton.mp ht
    exact .inr ⟨_, 0, hblocked, hholds, hclosed⟩

/-! ### Sessions that are served to the end -/

section Served

variable {addrLe : Str → Str → Bool} {sources : SessionId → Str} {ts : Finset SessionId}
  {w : Pool SessionId Unit (Local Str × Str) (Tables Str) (Call Str) Call.Result}

/-- A move of one of these sessions, which does not end it in a transaction that has locked a
table. -/
def PartsUnlocked (ts : Finset SessionId)
    (w : Pool SessionId Unit (Local Str × Str) (Tables Str) (Call Str) Call.Result)
    (a : Act SessionId Unit) : Prop :=
  a.thread ∈ ts ∧ ∀ t ∈ ts, EndsUnlocked t (served w) (System.forgetAct nextLine w a)

/-- A session that has ended after such moves has left nothing locked. -/
theorem not_holds_of_parted
    (h : (streamSystem (serverEnv addrLe)).Run (PartsUnlocked ts) (startWith sources) w)
    {t : SessionId} (ht : t ∈ ts) (hclosed : isClosed ((served w).thread t) = true) (tbl : Str) :
    ¬Holds (served w) t tbl := by
  intro hholds
  have hrun : (system (serverEnv addrLe)).Run (EndsUnlocked t) start (served w) :=
    System.run_forget_of (EndsUnlocked t) (h.mono fun v a ha => ha.2 t ht)
  cases hx : (served w).thread t with
  | run i l p =>
    rw [hx] at hclosed
    exact absurd hclosed Bool.false_ne_true
  | rest l =>
    rw [hx] at hclosed
    obtain ⟨hin, hmem⟩ := holds_of_rest (hrun.mono fun _ _ _ => trivial) hx hholds
    rw [TableSet.mem_def, (unlocked_of_run hrun).1 l hx hclosed hin] at hmem
    exact absurd hmem List.not_mem_nil

/-- **All sessions are served to the end**, if none of them ends in a transaction that has locked
a table: they can only go on for so long, and when nothing moves any more all of them have ended
and no table is locked, unless everything is down. -/
theorem all_served {mutexes : Str → Option SessionId} (hfree : ∀ tbl, mutexes tbl = none)
    (h : (streamSystem (serverEnv addrLe)).Run (PartsUnlocked ts) (startOn mutexes sources) w) :
    Acc (fun w' w => ∃ a : Act SessionId Unit, a.thread ∈ ts ∧
      (streamSystem (serverEnv addrLe)).step w a = some w') w ∧
    ((streamSystem (serverEnv addrLe)).Settled ts w → w.down = true ∨
      (∀ t ∈ ts, isClosed ((served w).thread t) = true) ∧
        ∀ tbl, (w.shared.table tbl).holder = none) := by
  obtain rfl : mutexes = fun _ => none := funext hfree
  have hmoves : (streamSystem (serverEnv addrLe)).Run (fun _ a => a.thread ∈ ts)
      (startWith sources) w := h.mono fun _ _ ha => ha.1
  refine ⟨(wellFounded_sessions _ ts).apply w, fun hw => ?_⟩
  refine (closed_or_waiting_of_settled hmoves hw).imp_right fun hall => ?_
  have hclosed : ∀ t ∈ ts, isClosed ((served w).thread t) = true := fun t ht => by
    refine (hall t ht).resolve_right ?_
    rintro ⟨tbl, t', -, hholds, hclosed'⟩
    exact not_holds_of_parted h (mem_of_holds hmoves hholds) hclosed' tbl hholds
  refine ⟨hclosed, fun tbl => Option.eq_none_iff_forall_ne_some.mpr fun t hholder => ?_⟩
  have hmem := mem_of_holds hmoves hholder
  exact not_holds_of_parted h hmem (hclosed t hmem) tbl hholder

instance (ts : Finset SessionId)
    (w : Pool SessionId Unit (Local Str × Str) (Tables Str) (Call Str) Call.Result)
    (a : Act SessionId Unit) : Decidable (PartsUnlocked ts w a) :=
  inferInstanceAs (Decidable (_ ∧ _))

/-- What two clients send that store in the same table. -/
def sendBoth (t : SessionId) : Str :=
  if t = 0 then "LOGIN alice\nCREATE t\nPUSH 1\nBEGIN\nSET t x\nCOMMIT\nBYE\n".toList
  else "LOGIN bob\nPUSH 2\nSET t x\n".toList

/-- Both have been served: session `1` after the transaction of session `0`. -/
def servedWorld : Pool SessionId Unit (Local Str × Str) (Tables Str) (Call Str) Call.Result :=
  (streamSystem plainEnv).follow (PartsUnlocked {0, 1}) (startOn (fun _ => none) sendBoth)
    (round 0 0 ++ round 0 1 ++ round 0 0 ++ round 0 0 ++ round 1 0 ++ round 1 0 ++ round 0 2 ++
      round 0 4 ++ round 1 5 ++ round 0 0 ++ round 1 0)

/-- Their table is not locked then. -/
theorem all_served_servedWorld : (servedWorld.shared.table "t".toList).holder = none := by
  have hrun : (streamSystem plainEnv).Run (PartsUnlocked {0, 1})
      (startOn (fun _ => none) sendBoth) servedWorld := System.run_follow (PartsUnlocked {0, 1}) _ _
  have hclosed : ∀ t ∈ ({0, 1} : Finset SessionId),
      isClosed ((served servedWorld).thread t) = true := by decide +kernel
  have hlive : ¬servedWorld.down = true := by decide +kernel
  -- no need to look at this state again
  generalize servedWorld = w at hrun hclosed hlive ⊢
  have hsettled : (streamSystem plainEnv).Settled {0, 1} w :=
    System.settled_iff.mpr (.inr fun t ht => stuck_of_closed (hclosed t ht))
  exact (((all_served (fun _ => rfl) hrun).2 hsettled).resolve_left hlive).2 _

end Served

end Server

end Csf
