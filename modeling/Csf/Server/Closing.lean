import Csf.Server.Line
import Csf.Server.Ownership

/-!
# What a session leaves behind

`chat_with_client` has no rollback on its way out, and neither has the destructor
of `ClientConnection`. A session that ends in a transaction leaves its tables
locked, for good: nobody else unlocks them.

It is one input that decides this, the one `chat_with_client` returns on: a `BYE`,
the end of the input, or a line it rejects with an `ERROR` and nothing else. What
the handlers throw into the `catch` block that ends a session is thrown outside of
transactions (`Csf.Server.RoundEnd`). So **a session on which no such input falls
while it is in a transaction that has locked a table leaves nothing locked**
(`Csf.Server.closed_holds_nothing`).
-/

namespace Csf

namespace Server

open Interaction

/-- The input ends the session of the thread in a transaction that has locked a
table. -/
def leavesLocked (i : Input) : Thread Input (Local Str) (Call Str) Call.Result → Bool
  | .rest l => i.ends l.conn && l.conn.inTransaction && !l.conn.lockedTables.toList.isEmpty
  | .run _ _ _ => false

/-- A move does not end session `t` in a transaction that has locked a table. -/
def EndsUnlocked (t : SessionId) (w : World Str) : Act SessionId Input → Prop
  | .input u i => u = t → leavesLocked i (w.thread t) = false
  | .advance _ => True
  | .fail _ => True

instance (t : SessionId) (w : World Str) :
    (a : Act SessionId Input) → Decidable (EndsUnlocked t w a)
  | .input _ _ => inferInstanceAs (Decidable (_ → _ = false))
  | .advance _ => inferInstanceAs (Decidable True)
  | .fail _ => inferInstanceAs (Decidable True)

/-- A session has locked no table, or is in no transaction. -/
def Unlocked (s : ClientConnection Str) : Prop :=
  s.inTransaction = true → s.lockedTables.toList = []

/-- After such moves session `t`, if it has ended, has locked no table; and if it
is serving an input that will end it, then it had locked none when that came in. -/
theorem unlocked_of_run {addrLe : Str → Str → Bool} {w : World Str} {t : SessionId}
    (h : (system (serverEnv addrLe)).Run (EndsUnlocked t) start w) :
    (∀ l, w.thread t = .rest l → l.closed = true → Unlocked l.conn) ∧
      ∀ i l p, w.thread t = .run i l p → i.ends l.conn = true → Unlocked l.conn := by
  induction h with
  | refl =>
    refine ⟨fun l hl hclosed => ?_, fun i l p hl => nomatch hl⟩
    obtain rfl : {} = l := Thread.rest.inj hl
    exact absurd hclosed Bool.false_ne_true
  | tail hrun hstep ih =>
    obtain ⟨a, ha, hs⟩ := hstep
    rcases System.step_cases hs with ⟨u, i, m, p, rfl, hu, hp, rfl⟩ | ⟨u, i, m, m', rfl, hu, rfl⟩ |
      ⟨u, i, m, c, k, r, σ, rfl, hu, hex, rfl⟩ | ⟨u, i, m, c, k, rfl, hu, hc, rfl⟩
    case inr.inr.inr => exact ih
    all_goals
      rw [System.put_thread]
      rcases eq_or_ne t u with rfl | hne
      case inr =>
        rw [Function.update_of_ne hne]
        exact ih
      rw [Function.update_self]
    · -- an input comes in: it is not one that ends the session with tables locked
      refine ⟨fun l hl => (nomatch hl), fun j l q hl hends hin => ?_⟩
      obtain ⟨rfl, rfl, -⟩ := Thread.run.inj hl
      have hobeys := ha rfl
      rw [hu, leavesLocked, hends, hin] at hobeys
      simpa using hobeys
    · -- the session comes to rest: it parts outside of a transaction, or as it was
      refine ⟨fun l hl hclosed hin => ?_, fun j l q hl => nomatch hl⟩
      obtain rfl := Thread.rest.inj hl
      obtain ⟨γ, -, hok⟩ := rounds_of_run hrun
      have hround := hok t
      rw [hu] at hround
      rcases hround.2.2 hclosed with hout | ⟨hends, hsame⟩
      · exact absurd (hin.symm.trans hout) (by decide)
      · rw [hsame.lockedTables]
        exact ih.2 i m _ hu hends (hsame.inTransaction ▸ hin)
    · refine ⟨fun l hl => (nomatch hl), fun j l q hl hends => ?_⟩
      obtain ⟨rfl, rfl, -⟩ := Thread.run.inj hl
      exact ih.2 _ _ _ hu hends

/-- **A session that does not end in a transaction that has locked a table leaves
no table locked.** -/
theorem closed_holds_nothing {addrLe : Str → Str → Bool} {w : World Str} (t : SessionId)
    (h : (system (serverEnv addrLe)).Run (EndsUnlocked t) start w)
    (ht : isClosed (w.thread t) = true) (tbl : Str) : ¬Holds w t tbl := by
  intro hh
  cases hw : w.thread t with
  | run i l p =>
    rw [hw] at ht
    exact absurd ht (by simp [isClosed])
  | rest l =>
    rw [hw] at ht
    have hreach : Reachable (serverEnv addrLe) w := h.mono fun _ _ _ => trivial
    obtain ⟨hin, hmem⟩ := holds_of_rest hreach hw hh
    rw [TableSet.mem_def, (unlocked_of_run h).1 l hw ht hin] at hmem
    exact absurd hmem (by simp)

/-- A session that commits before it ends. -/
def committedWorld : World Str :=
  (system plainEnv).follow (EndsUnlocked 0) start
    (prelude 0 ++ talk 0 "BEGIN\n" 0 ++ talk 0 "SET t x\n" 2 ++ talk 0 "COMMIT\n" 4 ++
      talk 0 "BYE\n" 0)

theorem closed_holds_nothing_committedWorld :
    isClosed (committedWorld.thread 0) = true ∧ ∀ tbl, ¬Holds committedWorld 0 tbl := by
  have hc : isClosed (committedWorld.thread 0) = true := by decide +kernel
  have hrun : (system plainEnv).Run (EndsUnlocked 0) start committedWorld :=
    System.run_follow (EndsUnlocked 0) start _
  exact ⟨hc, closed_holds_nothing 0 hrun hc⟩

/-- A session that says `BYE` in the middle of a transaction. -/
def byeWorld : World Str :=
  (system plainEnv).follow (fun _ _ => True) start
    (prelude 0 ++ talk 0 "BEGIN\n" 0 ++ talk 0 "SET t x\n" 2 ++ talk 0 "BYE\n" 0)

/-- **Not every session that ends lets go of its locks.** -/
theorem not_closed_holds_nothing :
    ¬∀ w : World Str, Reachable plainEnv w → ∀ t, isClosed (w.thread t) = true →
      ∀ tbl, ¬Holds w t tbl := by
  intro h
  have hrun : Reachable plainEnv byeWorld := System.run_follow (fun _ _ => True) start _
  have hclosed : isClosed (byeWorld.thread 0) = true := by decide +kernel
  have hholds : Holds byeWorld 0 "t".toList := by decide +kernel
  exact h byeWorld hrun 0 hclosed "t".toList hholds

end Server

end Csf
