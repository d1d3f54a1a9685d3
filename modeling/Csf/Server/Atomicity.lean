import Csf.Server.Provenance

/-!
# What becomes of the writes of an aborted transaction

`rollback_transaction` resets the tables and lets go of the locks, but leaves
`m_transaction_buffer` as it is, and so does `begin`: a transaction that follows on
the same connection finds the writes of the aborted one in its own buffer, reads
them, and commits them.

A run is watched here (`Csf.Server.Watched`) by keeping the numbers of the inputs
each session has been given in its open transaction and, when a transaction ends
otherwise than by a `COMMIT` answered `OK`, the tags its `SET`s have written as
*aborted*. **If no transaction begins with something left over in the buffer, an
aborted tag is never found in a table, nor ever returned by a `GET`**
(`Csf.Server.aborted_invisible`).

The invariant (`Csf.Server.Sound`) is that whatever a table holds, or a session has
read from one, is *settled* (`Csf.Server.Settled`): its tag is not aborted and does
not belong to a transaction that may still be – a transaction whose `COMMIT` is
being served no longer can.
-/

namespace Csf

namespace Server

open Interaction Function

/-! ### Watching a run -/

/-- What is kept of a run beside its state. -/
structure Watch where
  /-- The tags of the transactions that were rolled back. -/
  aborted : List Tag := []
  /-- The numbers of the inputs of each open transaction. -/
  inputs : SessionId → List ℕ := fun _ => []

/-- The round is that of a `COMMIT` that has been answered `OK`. -/
def committedOk (i : Input) (l l' : Local Cell) : Bool :=
  (match i.request? with
    | some req => req.messageType == .commit
    | none => false) && decide (l'.conn.written = l.conn.written ++ [okLine])

namespace Watch

/-- Session `t` is given an input in the state `l`. -/
def enter (m : Watch) (t : SessionId) (l : Local Cell) : Watch :=
  if l.conn.inTransaction then { m with inputs := update m.inputs t (l.served :: m.inputs t) }
  else m

/-- Session `t` has served the input `i` and comes to rest. If it has left a
transaction on the way, that was committed or else rolled back. -/
def leave (m : Watch) (t : SessionId) (i : Input) (l l' : Local Cell) : Watch :=
  if l.conn.inTransaction && !l'.conn.inTransaction then
    { aborted := if committedOk i l l' then m.aborted else (m.inputs t).map (t, ·) ++ m.aborted
      inputs := update m.inputs t [] }
  else m

/-- A move is made in the state `w`. -/
def observe (m : Watch) (w : World Cell) : Act SessionId Input → Watch
  | .input t _ =>
      match w.thread t with
      | .rest l => m.enter t l
      | .run _ _ _ => m
  | .advance t =>
      match w.thread t with
      | .run i l (.ret l') => m.leave t i l l'
      | _ => m
  | .fail _ => m

end Watch

/-- **A watched run**, all of whose moves satisfy `ok`. -/
inductive Watched (addrLe : Str → Str → Bool) (ok : World Cell → Act SessionId Input → Prop) :
    World Cell → Watch → Prop where
  | start : Watched addrLe ok start {}
  | step {w w' : World Cell} {m : Watch} {a : Act SessionId Input} (h : Watched addrLe ok w m)
      (ha : ok w a) (hs : (system (taggedEnv addrLe)).step w a = some w') :
      Watched addrLe ok w' (m.observe w a)

/-- The state and the watch after a list of moves, up to the first that is not
possible or does not satisfy `ok`. -/
def watch (addrLe : Str → Str → Bool) (ok : World Cell → Act SessionId Input → Prop)
    [∀ w a, Decidable (ok w a)] (w : World Cell) (m : Watch) :
    List (Act SessionId Input) → World Cell × Watch
  | [] => (w, m)
  | a :: as =>
      match (if ok w a then (system (taggedEnv addrLe)).step w a else none) with
      | some w' => watch addrLe ok w' (m.observe w a) as
      | none => (w, m)

theorem watched_watch {addrLe : Str → Str → Bool} {ok : World Cell → Act SessionId Input → Prop}
    [∀ w a, Decidable (ok w a)] {w : World Cell} {m : Watch} (h : Watched addrLe ok w m)
    (as : List (Act SessionId Input)) :
    Watched addrLe ok (watch addrLe ok w m as).1 (watch addrLe ok w m as).2 := by
  induction as generalizing w m with
  | nil => exact h
  | cons a as ih =>
    rw [watch]
    by_cases ha : ok w a
    · rw [if_pos ha]
      cases hs : (system (taggedEnv addrLe)).step w a with
      | none => exact h
      | some w' => exact ih (.step h ha hs)
    · rw [if_neg ha]
      exact h

/-- No transaction begins with something left over in the buffer. -/
def BeginsFresh (w : World Cell) : Act SessionId Input → Prop
  | .input t i =>
      match w.thread t with
      | .rest l => beginsStale i l.conn = false
      | .run _ _ _ => True
  | .advance _ => True
  | .fail _ => True

instance (w : World Cell) : (a : Act SessionId Input) → Decidable (BeginsFresh w a)
  | .input t i =>
      match h : w.thread t with
      | .rest l => decidable_of_iff (beginsStale i l.conn = false) (by rw [BeginsFresh, h])
      | .run _ _ _ => isTrue (by rw [BeginsFresh, h]; trivial)
  | .advance _ => isTrue trivial
  | .fail _ => isTrue trivial

/-! ### The invariant -/

/-- The state a thread rests in, or rested in before it began what it is doing. -/
def entry : Thread Input (Local Cell) (Call Cell) Call.Result → Local Cell
  | .rest l => l
  | .run _ l _ => l

/-- The number of inputs a thread has been given. -/
def started : Thread Input (Local Cell) (Call Cell) Call.Result → ℕ
  | .rest l => l.served
  | .run _ l _ => l.served + 1

/-- The thread is serving a `COMMIT`. -/
def committing : Thread Input (Local Cell) (Call Cell) Call.Result → Bool
  | .rest _ => false
  | .run i l _ => commits i l.conn

/-- The tag is not aborted, and will not be: its transaction, if it is still open,
is about to be committed. -/
def Settled (w : World Cell) (m : Watch) (tag : Option Tag) : Prop :=
  ∀ t n, tag = some (t, n) → n < started (w.thread t) ∧ (t, n) ∉ m.aborted ∧
    (n ∈ m.inputs t → committing (w.thread t) = true)

/-- The cell is stored in a table. -/
def Stored (σ : Tables Cell) (c : Cell) : Prop :=
  ∃ tbl k : Str, (σ.table tbl).data[k]? = some c ∨ (σ.table tbl).tempData[k]? = some c

/-- What is kept of session `t`, given its thread and the tags it has read. -/
structure SoundAt (m : Watch) (t : SessionId)
    (x : Thread Input (Local Cell) (Call Cell) Call.Result) (g : Set (Option Tag)) : Prop where
  /-- Aborted tags are of rounds that are over. -/
  aborted : ∀ n, (t, n) ∈ m.aborted → n < (entry x).served
  /-- The inputs of an open transaction. -/
  inputs : ∀ n ∈ m.inputs t, n < started x ∧ (t, n) ∉ m.aborted ∧
    (entry x).conn.inTransaction = true
  /-- The input being served in a transaction is one of them. -/
  current : ∀ i l p, x = .run i l p → l.conn.inTransaction = true → l.served ∈ m.inputs t
  /-- What is buffered in a transaction was written by one of them. -/
  buffered : (entry x).conn.inTransaction = true → ∀ c, Buffered (entry x).conn c →
    ∃ n ∈ m.inputs t, c.tag = some (t, n)
  /-- A round that has begun will end as it should. -/
  round : ∀ i l p, x = .run i l p →
    (tracing (writable t l.served i l.conn)).wp p (fun g' l' => RoundKept t i l g' l') g

/-- **The invariant** of a watched run. -/
structure Sound (w : World Cell) (m : Watch) (γ : SessionId → Set (Option Tag)) : Prop where
  /-- What is stored is settled. -/
  stored : ∀ c, Stored w.shared c → Settled w m c.tag
  /-- What a session has read is settled. -/
  read : ∀ t, ∀ tag ∈ γ t, Settled w m tag
  /-- Every session is in order. -/
  session : ∀ t, SoundAt m t (w.thread t) (γ t)

/-- What is known of a session depends on its own part of the watch. -/
theorem SoundAt.congr {m m' : Watch} {t : SessionId}
    {x : Thread Input (Local Cell) (Call Cell) Call.Result} {g : Set (Option Tag)}
    (h : SoundAt m t x g) (hin : m'.inputs t = m.inputs t)
    (hab : ∀ n, (t, n) ∈ m'.aborted ↔ (t, n) ∈ m.aborted) : SoundAt m' t x g := by
  refine ⟨fun n hn => h.aborted n ((hab n).mp hn), fun n hn => ?_, ?_, ?_, h.round⟩
  · obtain ⟨hlt, hnab, htxn⟩ := h.inputs n (hin ▸ hn)
    exact ⟨hlt, fun hn' => hnab ((hab n).mp hn'), htxn⟩
  · rw [hin]
    exact h.current
  · rw [hin]
    exact h.buffered

/-- What is known of one tag depends on the thread of its session, and on its
session's part of the watch. -/
theorem Settled.of_session {w w' : World Cell} {m m' : Watch} {tag : Option Tag}
    (h : Settled w m tag) {t : SessionId} (hthr : ∀ u, u ≠ t → w'.thread u = w.thread u)
    (hin : ∀ u, u ≠ t → m'.inputs u = m.inputs u)
    (hab : ∀ u n, u ≠ t → ((u, n) ∈ m'.aborted ↔ (u, n) ∈ m.aborted))
    (ht : ∀ n, tag = some (t, n) → n < started (w'.thread t) ∧ (t, n) ∉ m'.aborted ∧
      (n ∈ m'.inputs t → committing (w'.thread t) = true)) : Settled w' m' tag := by
  intro u n htag
  rcases eq_or_ne u t with rfl | hu
  · exact ht n htag
  · obtain ⟨hlt, hnab, hcom⟩ := h u n htag
    rw [hthr u hu, hin u hu]
    exact ⟨hlt, fun hn => hnab ((hab u n hu).mp hn), hcom⟩

namespace Watch

variable (m : Watch) {t u : SessionId} (i : Input) (l l' : Local Cell)

@[simp] theorem enter_aborted : (m.enter t l).aborted = m.aborted := by
  rw [enter, apply_ite aborted, ite_self]

theorem enter_inputs_of_ne (h : u ≠ t) : (m.enter t l).inputs u = m.inputs u := by
  rw [enter]
  split
  · exact update_of_ne h _ _
  · rfl

theorem mem_enter_inputs (n : ℕ) : n ∈ (m.enter t l).inputs t ↔
    (l.conn.inTransaction = true ∧ n = l.served) ∨ n ∈ m.inputs t := by
  rw [enter]
  split
  · rename_i hin
    change n ∈ update m.inputs t (l.served :: m.inputs t) t ↔ _
    rw [update_self, List.mem_cons, and_iff_right hin]
  · rename_i hin
    rw [or_iff_right fun h => hin h.1]

theorem leave_inputs_of_ne (h : u ≠ t) : (m.leave t i l l').inputs u = m.inputs u := by
  rw [leave]
  split
  · exact update_of_ne h _ _
  · rfl

theorem leave_aborted_of_ne (h : u ≠ t) (n : ℕ) :
    (u, n) ∈ (m.leave t i l l').aborted ↔ (u, n) ∈ m.aborted := by
  rw [leave]
  split
  · change (u, n) ∈ (if committedOk i l l' then m.aborted else _) ↔ _
    split
    · rfl
    · rw [List.mem_append, or_iff_right]
      intro hn
      obtain ⟨k, -, hk⟩ := List.mem_map.mp hn
      exact h (Prod.mk.inj hk).1.symm
  · rfl

/-- A session that rests outside of transactions has no inputs of one, and what it
has aborted just now were the inputs of the transaction it has left. -/
theorem mem_leave (n : ℕ) :
    (n ∈ (m.leave t i l l').inputs t → n ∈ m.inputs t ∧
      (l.conn.inTransaction = true → l'.conn.inTransaction = true)) ∧
    ((t, n) ∈ (m.leave t i l l').aborted → (t, n) ∈ m.aborted ∨
      n ∈ m.inputs t ∧ committedOk i l l' = false ∧ l'.conn.inTransaction = false) := by
  rw [leave]
  split
  · rename_i hleft
    obtain ⟨-, hout⟩ := Bool.and_eq_true_iff.mp hleft
    refine ⟨fun hn => ?_, fun hn => ?_⟩
    · change n ∈ update m.inputs t [] t at hn
      rw [update_self] at hn
      exact absurd hn List.not_mem_nil
    · change (t, n) ∈ (if committedOk i l l' then m.aborted else _) at hn
      split at hn
      · exact Or.inl hn
      · rename_i hcom
        rcases List.mem_append.mp hn with hn | hn
        · obtain ⟨k, hk, he⟩ := List.mem_map.mp hn
          obtain rfl := (Prod.mk.inj he).2
          exact Or.inr ⟨hk, Bool.eq_false_iff.mpr hcom, by simpa using hout⟩
        · exact Or.inl hn
  · rename_i hleft
    refine ⟨fun hn => ⟨hn, fun hin => ?_⟩, Or.inl⟩
    by_contra hout
    exact hleft (by simp [hin, hout])

theorem mem_leave_inputs {n : ℕ} (hin : l'.conn.inTransaction = true) (hn : n ∈ m.inputs t) :
    n ∈ (m.leave t i l l').inputs t := by
  rw [leave, if_neg (by simp [hin])]
  exact hn

end Watch

variable {w : World Cell} {m : Watch} {γ : SessionId → Set (Option Tag)}

/-- **An input comes in.** -/
theorem sound_input {addrLe : Str → Str → Bool} {t : SessionId} {i : Input} {l : Local Cell}
    (hs : Sound w m γ) (ht : w.thread t = .rest l) (hstale : beginsStale i l.conn = false)
    (d : Bool) :
    Sound (System.put w t (.run i l ((chatBody (taggedEnv addrLe t l.served) i l.conn).bind
      (endRound l))) w.shared d) (m.enter t l) γ := by
  have hsess := hs.session t
  rw [ht] at hsess
  -- what was settled still is: the new input has a number of its own
  have hsettled : ∀ tag, Settled w m tag →
      Settled (System.put w t (.run i l ((chatBody (taggedEnv addrLe t l.served) i l.conn).bind
        (endRound l))) w.shared d) (m.enter t l) tag := by
    intro tag htag
    refine htag.of_session (fun u hu => update_of_ne hu _ _) (fun u hu => m.enter_inputs_of_ne l hu)
      (fun u n _ => by rw [m.enter_aborted l]) fun n he => ?_
    obtain ⟨hlt, hab, hin⟩ := htag t n he
    rw [ht] at hlt hin
    rw [System.put_thread, update_self, m.enter_aborted]
    refine ⟨Nat.lt_succ_of_lt hlt, hab, fun hn => ?_⟩
    rcases (m.mem_enter_inputs l n).mp hn with ⟨-, rfl⟩ | hn
    · exact absurd hlt (lt_irrefl _)
    · exact absurd (hin hn) Bool.false_ne_true
  refine ⟨fun c hc => hsettled _ (hs.stored c hc),
    fun u tag htag => hsettled _ (hs.read u tag htag), fun u => ?_⟩
  rw [System.put_thread]
  rcases eq_or_ne u t with rfl | hu
  · rw [update_self]
    refine ⟨fun n hn => hsess.aborted n (m.enter_aborted l ▸ hn), fun n hn => ?_, ?_, ?_, ?_⟩
    · rw [m.enter_aborted]
      rcases (m.mem_enter_inputs l n).mp hn with ⟨hin, rfl⟩ | hn
      · exact ⟨Nat.lt_succ_self _, fun hab => absurd (hsess.aborted _ hab) (lt_irrefl _), hin⟩
      · obtain ⟨hlt, hab, hin⟩ := hsess.inputs n hn
        exact ⟨Nat.lt_succ_of_lt hlt, hab, hin⟩
    · intro j k p hjk hin
      obtain ⟨-, rfl, -⟩ := Thread.run.inj hjk
      exact (m.mem_enter_inputs l _).mpr (Or.inl ⟨hin, rfl⟩)
    · intro hin c hc
      obtain ⟨n, hn, htag⟩ := hsess.buffered hin c hc
      exact ⟨n, (m.mem_enter_inputs l n).mpr (Or.inr hn), htag⟩
    · intro j k p hjk
      obtain ⟨rfl, rfl, rfl⟩ := Thread.run.inj hjk
      exact wp_roundKept hstale
  · rw [update_of_ne hu]
    exact (hs.session u).congr (m.enter_inputs_of_ne l hu) fun n => by rw [m.enter_aborted l]

/-- **A session comes to rest.** -/
theorem sound_rest {t : SessionId} {i : Input} {l l' : Local Cell} (hs : Sound w m γ)
    (ht : w.thread t = .run i l (.ret l')) (d : Bool) :
    Sound (System.put w t (.rest l') w.shared d) (m.leave t i l l') γ := by
  have hsess := hs.session t
  rw [ht] at hsess
  have hkept : RoundKept t i l (γ t) l' := hsess.round i l _ rfl
  -- a transaction whose `COMMIT` was served is not aborted
  have hcom : commits i l.conn = true → committedOk i l l' = true := by
    intro hc
    have hwritten := (hkept.committed hc).2
    rw [commits] at hc
    rw [committedOk]
    cases hreq : i.request? with
    | none => simp [hreq] at hc
    | some req =>
      simp only [hreq, Bool.and_eq_true] at hc
      simp [hc.1.2, hwritten]
  have hsettled : ∀ tag, Settled w m tag →
      Settled (System.put w t (.rest l') w.shared d) (m.leave t i l l') tag := by
    intro tag htag
    refine htag.of_session (fun u hu => update_of_ne hu _ _)
      (fun u hu => m.leave_inputs_of_ne i l l' hu) (fun u n hu => m.leave_aborted_of_ne i l l' hu n)
      fun n he => ?_
    obtain ⟨hlt, hab, hin⟩ := htag t n he
    rw [ht] at hlt hin
    rw [System.put_thread, update_self]
    refine ⟨lt_of_lt_of_eq hlt hkept.served.symm, fun hn => ?_, fun hn => ?_⟩
    · rcases (m.mem_leave i l l' n).2 hn with hn | ⟨hn, hnot, -⟩
      · exact hab hn
      · exact absurd ((hcom (hin hn)).symm.trans hnot) (by decide)
    · obtain ⟨hn, hstay⟩ := (m.mem_leave i l l' n).1 hn
      have hout := (hkept.committed (hin hn)).1
      rw [hstay (hsess.inputs n hn).2.2] at hout
      exact absurd hout (by decide)
  refine ⟨fun c hc => hsettled _ (hs.stored c hc),
    fun u tag htag => hsettled _ (hs.read u tag htag), fun u => ?_⟩
  rw [System.put_thread]
  rcases eq_or_ne u t with rfl | hu
  · rw [update_self]
    have hserved : l.served < l'.served := hkept.served ▸ Nat.lt_succ_self _
    refine ⟨fun n hn => ?_, fun n hn => ?_, ?_, fun hin c hc => ?_, ?_⟩
    · rcases (m.mem_leave i l l' n).2 hn with hn | ⟨hn, -⟩
      · exact lt_trans (hsess.aborted n hn) hserved
      · exact lt_of_lt_of_eq (hsess.inputs n hn).1 hkept.served.symm
    · obtain ⟨hn', hstay⟩ := (m.mem_leave i l l' n).1 hn
      obtain ⟨hlt, hab, hin⟩ := hsess.inputs n hn'
      have hin' := hstay hin
      refine ⟨lt_of_lt_of_eq hlt hkept.served.symm, fun hn => ?_, hin'⟩
      rcases (m.mem_leave i l l' n).2 hn with hn | ⟨-, -, hout⟩
      · exact hab hn
      · exact absurd (hin'.symm.trans hout) (by decide)
    · rintro j k p ⟨⟩
    · -- what is buffered was buffered, or written just now
      obtain ⟨hin₀, htag | hold⟩ := hkept.buffered hin c hc
      · exact ⟨l.served, m.mem_leave_inputs i l l' hin (hsess.current i l _ rfl hin₀), htag⟩
      · obtain ⟨n, hn, htag⟩ := hsess.buffered hin₀ c hold
        exact ⟨n, m.mem_leave_inputs i l l' hin hn, htag⟩
    · rintro j k p ⟨⟩
  · rw [update_of_ne hu]
    exact (hs.session u).congr (m.leave_inputs_of_ne i l l' hu)
      fun n => m.leave_aborted_of_ne i l l' hu n

/-- A call stores nothing but what it is told to. -/
theorem stored_exec {t : SessionId} {c : Call Cell} {σ σ' : Tables Cell} {r : c.Result}
    (h : c.exec t σ = some (r, σ')) {v : Cell} (hv : Stored σ' v) :
    Stored σ v ∨ ∃ tbl k, c = .set tbl k v := by
  obtain ⟨tbl, k, hstores⟩ := hv
  exact (Call.stores_exec h hstores).imp_left fun hstores => ⟨tbl, k, hstores⟩

/-- What `Table::get` returns is stored. -/
theorem stored_of_get {σ : Tables Cell} {tbl key : Str} {v : Cell}
    (h : (σ.table tbl).get key = .ok v) : Stored σ v :=
  ⟨tbl, key, Table.Stores.of_get h⟩

/-- What a session has read after a call, it had read before, or is stored. -/
theorem read_exec {W : Set (Option Tag)} {t : SessionId} {c : Call Cell} {σ σ' : Tables Cell}
    {r : c.Result} (h : c.exec t σ = some (r, σ')) {g : Set (Option Tag)} {tag : Option Tag}
    (htag : tag ∈ (tracing W).after c g r) : tag ∈ g ∨ ∃ v, Stored σ v ∧ v.tag = tag := by
  cases c with
  | get tbl key =>
    obtain ⟨hr, -⟩ := Prod.mk.inj (Option.some.inj h)
    cases r with
    | error e => exact Or.inl htag
    | ok v =>
      rcases Set.mem_insert_iff.mp htag with rfl | htag
      · exact Or.inr ⟨v, stored_of_get hr, rfl⟩
      · exact Or.inl htag
  | _ => exact Or.inl htag

/-- **A call is answered.** -/
theorem sound_call {t : SessionId} {i : Input} {l : Local Cell} {c : Call Cell}
    {k : c.Result → Program (Call Cell) Call.Result (Local Cell)} {r : c.Result} {σ : Tables Cell}
    (hs : Sound w m γ) (ht : w.thread t = .run i l (.call c k))
    (hex : c.exec t w.shared = some (r, σ)) (d : Bool) :
    Sound (System.put w t (.run i l (k r)) σ d) m
      (update γ t ((tracing (writable t l.served i l.conn)).after c (γ t) r)) := by
  have hsess := hs.session t
  rw [ht] at hsess
  obtain ⟨hpre, hnext⟩ := hsess.round i l _ rfl
  have hsettled : ∀ tag, Settled w m tag → Settled (System.put w t (.run i l (k r)) σ d) m tag := by
    intro tag htag
    refine htag.of_session (fun u hu => update_of_ne hu _ _) (fun _ _ => rfl) (fun _ _ _ => Iff.rfl)
      fun n he => ?_
    have := htag t n he
    rw [ht] at this
    rwa [System.put_thread, update_self]
  -- a tag the session may write is settled
  have hwritable : ∀ tag ∈ writable t l.served i l.conn, Settled w m tag := by
    intro tag htag
    change if _ then _ else _ at htag
    split at htag
    · rename_i hin
      obtain ⟨hcom, v, hv, rfl⟩ := htag
      obtain ⟨n, hn, htag⟩ := hsess.buffered hin v hv
      intro u n' he
      obtain ⟨rfl, rfl⟩ := Prod.mk.inj (Option.some.inj (htag.symm.trans he))
      obtain ⟨hlt, hab, -⟩ := hsess.inputs n hn
      rw [ht]
      exact ⟨hlt, hab, fun _ => hcom⟩
    · rename_i hin
      intro u n he
      obtain ⟨rfl, rfl⟩ := Prod.mk.inj (Option.some.inj (htag.symm.trans he))
      rw [ht]
      refine ⟨Nat.lt_succ_self _, fun hab => absurd (hsess.aborted _ hab) (lt_irrefl _),
        fun hn => ?_⟩
      exact absurd (hsess.inputs _ hn).2.2 hin
  refine ⟨fun v hv => hsettled _ ?_, fun u tag htag => hsettled _ ?_, fun u => ?_⟩
  · rcases stored_exec hex hv with hv | ⟨tbl, key, rfl⟩
    · exact hs.stored v hv
    · exact hwritable _ hpre
  · rcases eq_or_ne u t with rfl | hu
    · rw [update_self] at htag
      rcases read_exec hex htag with htag | ⟨v, hv, rfl⟩
      · exact hs.read u tag htag
      · exact hs.stored v hv
    · rw [update_of_ne hu] at htag
      exact hs.read u tag htag
  · rw [System.put_thread]
    rcases eq_or_ne u t with rfl | hu
    · rw [update_self, update_self]
      refine ⟨hsess.aborted, hsess.inputs, fun j q p hjq => ?_, hsess.buffered, fun j q p hjq => ?_⟩
      · obtain ⟨rfl, rfl, -⟩ := Thread.run.inj hjq
        exact hsess.current i l _ rfl
      · obtain ⟨rfl, rfl, rfl⟩ := Thread.run.inj hjq
        exact hnext r trivial
    · rw [update_of_ne hu, update_of_ne hu]
      exact hs.session u

/-- **Every state of a watched run is sound**, if no transaction begins with
something left over. -/
theorem sound_of_watched {addrLe : Str → Str → Bool} (h : Watched addrLe BeginsFresh w m) :
    ∃ γ, Sound w m γ := by
  induction h with
  | start =>
    refine ⟨fun _ => ∅, ?_, fun _ _ h => h.elim, fun t => ?_⟩
    · rintro c ⟨tbl, k, h⟩
      simp [start] at h
    · exact ⟨fun _ h => (nomatch h), fun _ h => (nomatch h), fun _ _ _ h => (nomatch h),
        fun h => (nomatch h), fun _ _ _ h => (nomatch h)⟩
  | step hrun ha hstep ih =>
    obtain ⟨γ, hs⟩ := ih
    rcases System.step_cases hstep with ⟨t, i, l, p, rfl, ht, hp, rfl⟩ |
      ⟨t, i, l, l', rfl, ht, rfl⟩ | ⟨t, i, l, c, k, r, σ, rfl, ht, hex, rfl⟩ |
      ⟨t, i, l, c, k, rfl, ht, hc, rfl⟩
    · rw [BeginsFresh, ht] at ha
      rw [system] at hp
      simp only at hp
      split at hp
      · exact absurd hp (by simp)
      · obtain rfl := Option.some.inj hp
        rw [Watch.observe, ht]
        exact ⟨γ, sound_input hs ht ha _⟩
    · rw [Watch.observe, ht]
      exact ⟨γ, sound_rest hs ht _⟩
    · rw [Watch.observe, ht]
      exact ⟨_, sound_call hs ht hex _⟩
    · exact ⟨γ, hs.stored, hs.read, hs.session⟩

/-- **Aborted writes are invisible**: in a run in which no transaction begins with
something left over in the buffer, a tag of a transaction that was rolled back is in
no table, and no `GET` that comes after returns a cell that has it. -/
theorem aborted_invisible {addrLe : Str → Str → Bool} (h : Watched addrLe BeginsFresh w m) :
    (∀ c, Stored w.shared c → ∀ tag ∈ m.aborted, c.tag ≠ some tag) ∧
      ∀ t i l l' v, w.thread t = .run i l (.ret l') → isGet i = true →
        l'.conn.stack = v :: l.conn.stack → ∀ tag ∈ m.aborted, v.tag ≠ some tag := by
  obtain ⟨γ, hs⟩ := sound_of_watched h
  have hsettled : ∀ {tag : Option Tag}, Settled w m tag → ∀ tag' ∈ m.aborted, tag ≠ some tag' :=
    fun htag ⟨t, n⟩ hab he => (htag t n he).2.1 hab
  refine ⟨fun c hc => hsettled (hs.stored c hc), ?_⟩
  intro t i l l' v ht hget hv
  have hsess := hs.session t
  rw [ht] at hsess
  have hkept : RoundKept t i l (γ t) l' := hsess.round i l _ rfl
  rcases hkept.fetched hget v hv with hread | ⟨hin, hbuf⟩
  · exact hsettled (hs.read t _ hread)
  · -- its own buffer: a write of the open transaction
    obtain ⟨n, hn, htag⟩ := hsess.buffered hin v hbuf
    rintro tag hab he
    obtain rfl := Option.some.inj (htag.symm.trans he)
    exact (hsess.inputs n hn).2.1 hab

/-- A transaction that writes to the table `t` and is then rolled back, having asked
for a key that is not there. -/
def rolledBackLines : List (Act SessionId Input) :=
  prelude 0 ++ talk 0 "BEGIN\n" 0 ++ talk 0 "SET t x\n" 2 ++ talk 0 "GET t y\n" 4

/-- After it, another value is written, and read. -/
def writtenAnew : World Cell × Watch :=
  watch (fun _ _ => true) BeginsFresh start {}
    (rolledBackLines ++ talk 0 "PUSH 2\n" 0 ++ talk 0 "SET t x\n" 5 ++ talk 0 "GET t x\n" 4)

theorem aborted_invisible_writtenAnew :
    (0, 4) ∈ writtenAnew.2.aborted ∧ Stored writtenAnew.1.shared ⟨"2".toList, some (0, 7)⟩ ∧
      ∀ c, Stored writtenAnew.1.shared c → c.tag ≠ some (0, 4) := by
  have hrun : Watched (fun _ _ => true) BeginsFresh writtenAnew.1 writtenAnew.2 :=
    watched_watch .start _
  have haborted : (0, 4) ∈ writtenAnew.2.aborted := by decide +kernel
  have hstored : (writtenAnew.1.shared.table "t".toList).data["x".toList]? =
      some ⟨"2".toList, some (0, 7)⟩ := by decide +kernel
  exact ⟨haborted, ⟨_, _, Or.inl hstored⟩, fun c hc => (aborted_invisible hrun).1 c hc _ haborted⟩

/-- After it, an empty transaction is committed. -/
def committedAfter : World Cell × Watch :=
  watch (fun _ _ => true) (fun _ _ => True) start {}
    (rolledBackLines ++ talk 0 "BEGIN\n" 0 ++ talk 0 "COMMIT\n" 2)

/-- **Aborted writes may become visible.** -/
theorem not_aborted_invisible :
    ¬∀ (w : World Cell) (m : Watch), Watched (fun _ _ => true) (fun _ _ => True) w m →
      (∀ c, Stored w.shared c → ∀ tag ∈ m.aborted, c.tag ≠ some tag) ∧
        ∀ t i l l' v, w.thread t = .run i l (.ret l') → isGet i = true →
          l'.conn.stack = v :: l.conn.stack → ∀ tag ∈ m.aborted, v.tag ≠ some tag := by
  intro h
  have hrun : Watched (fun _ _ => true) (fun _ _ => True) committedAfter.1 committedAfter.2 :=
    watched_watch .start _
  have haborted : (0, 4) ∈ committedAfter.2.aborted := by decide +kernel
  have hstored : (committedAfter.1.shared.table "t".toList).tempData["x".toList]? =
      some ⟨"1".toList, some (0, 4)⟩ := by decide +kernel
  exact (h _ _ hrun).1 _ ⟨_, _, Or.inr hstored⟩ _ haborted rfl

end Server

end Csf
