import Csf.Server.Ownership

/-!
# The lock discipline

`table.h` asks that a table is only read, written, committed, rolled back or
unlocked by a session that holds its lock. The server breaks this in four places,
and only there:

* `get` outside of a transaction looks into the table, and unlocks it, without
  ever having locked it;
* the `catch` block of `set` outside of a transaction unlocks the table also when
  the operand stack was empty, before the table was locked;
* a `trylock` that fails rolls the transaction back with the table already in
  `m_locked_tables`, and so resets and unlocks a table somebody else holds;
* `commit` writes what `m_transaction_buffer` has, which may be left over from a
  transaction that was rolled back and name tables this one never locked.

`Csf.Server.ObeysWhen` is the condition on the moves of a run that none of this
happens. Under it the handlers are run against the protocol
`Csf.Server.discipline`, whose ghost value is exactly the set of tables a session
holds; between two lines these are the tables of `m_locked_tables` in a
transaction, and none outside of one (`Csf.Server.Owned`).
-/

namespace Csf

namespace Server

open Interaction Handler

variable {β : Type}

/-- The table a call must hold the lock of. -/
def Call.guarded : Call β → Option Str
  | .unlock t | .set t _ _ | .get t _ | .hasKey t _ | .commitChanges t | .rollbackChanges t =>
      some t
  | _ => none

/-- The table the next call of a thread must hold the lock of. -/
def atGuarded : Thread Input (Local β) (Call β) Call.Result → Option Str
  | .run _ _ (.call c _) => c.guarded
  | _ => none

/-- **The lock discipline**: whatever call comes next of any session, the session
holds the lock it needs. -/
def Disciplined (w : World β) : Prop :=
  ∀ t tbl, atGuarded (w.thread t) = some tbl → Holds w t tbl

/-! ### The four places -/

/-- An input would look a table up only to use it without its lock: a `GET`
outside of a transaction, or a `SET` outside of one with nothing to pop. -/
def usesUnlocked (i : Input) (s : ClientConnection β) : Bool :=
  match i.request? with
  | some req =>
      !s.inTransaction && (req.messageType == .get ||
        (req.messageType == .set && s.hasStack && s.stack.isEmpty))
  | none => false

/-- An input would commit writes to a table the transaction has not locked. -/
def commitsUnlocked (i : Input) (s : ClientConnection β) : Bool :=
  match i.request? with
  | some req =>
      req.isValid && req.messageType == .commit && s.inTransaction &&
        s.transactionBuffer.toList.any fun p => decide (p.1 ∉ s.lockedTables)
  | none => false

/-- What the next move of a thread finds on the tables: an input that uses tables
unlocked finds none of the name, and a `trylock` finds the table free. -/
def finds (σ : Tables β) : Thread Input (Local β) (Call β) Call.Result → Bool
  | .run i l (.call (.findTable name) _) => !(usesUnlocked i l.conn && σ.created name)
  | .run _ _ (.call (.trylock t) _) => (σ.table t).holder.isNone
  | _ => true

/-- **The condition on the moves**: no `COMMIT` comes in that would write to tables
not locked, and every move finds what it should. -/
def ObeysWhen (w : World β) : Act SessionId Input → Prop
  | .input t i =>
      match w.thread t with
      | .rest l => commitsUnlocked i l.conn = false
      | .run _ _ _ => True
  | .advance t => finds w.shared (w.thread t) = true
  | .fail _ => True

instance (w : World β) : (a : Act SessionId Input) → Decidable (ObeysWhen w a)
  | .input t i =>
      match h : w.thread t with
      | .rest l => decidable_of_iff (commitsUnlocked i l.conn = false) (by rw [ObeysWhen, h])
      | .run _ _ _ => isTrue (by rw [ObeysWhen, h]; trivial)
  | .advance _ => inferInstanceAs (Decidable (_ = true))
  | .fail _ => isTrue trivial

/-! ### The protocol -/

/-- The protocol of a session that keeps the discipline: the ghost value is the
set of tables it holds. `strict` is set while an input is served that uses tables
without their lock; it finds none. -/
def discipline (strict : Bool) : Protocol (Call β) Call.Result (Set Str) where
  pre c g := ∀ t, c.guarded = some t → t ∈ g
  may c _ r := match c, r with
    | .findTable name, (t? : Option Str) => ∀ t, t? = some t → strict = false ∧ t = name
    | .trylock _, (b : Bool) => b = true
    | _, _ => True
  after := ownership.after

/-- **What a session holds between two lines**: in a transaction, the tables of
`m_locked_tables`. -/
def Owned (s : ClientConnection β) (g : Set Str) : Prop :=
  ∀ t, t ∈ g ↔ s.inTransaction = true ∧ t ∈ s.lockedTables

theorem Owned.of_sameTxn {s s' : ClientConnection β} {g : Set Str} (h : SameTxn s s')
    (hg : Owned s g) : Owned s' g := by
  intro t
  rw [hg t, h.inTransaction, h.lockedTables]

theorem owned_empty {s : ClientConnection β} (hs : s.inTransaction = false) : Owned s ∅ := by
  intro t
  simp [hs]

theorem Owned.eq_empty {s : ClientConnection β} {g : Set Str} (hg : Owned s g)
    (hs : s.inTransaction = false) : g = ∅ :=
  Set.eq_empty_of_forall_notMem fun t ht => by simpa [hs] using (hg t).mp ht

variable {strict : Bool}

/-- A call that needs no lock can always be made. -/
theorem pre_of_unguarded {c : Call β} {g : Set Str} (hc : c.guarded = none) :
    (discipline strict).pre c g := fun _ h => absurd (hc.symm.trans h) (by simp)

theorem lenient_discipline :
    Lenient (discipline strict : Protocol (Call β) Call.Result (Set Str)) :=
  ⟨fun _ => pre_of_unguarded rfl, fun _ _ => ⟨pre_of_unguarded rfl, fun _ => rfl⟩⟩

theorem owned_quiet {α : Type} {h : Handler β α} (hh : Quiet h) :
    Keeps (discipline strict) Owned h :=
  hh.keeps (fun _ _ _ hs hg => hg.of_sameTxn hs) lenient_discipline

/-- A call on a table that is held, which does not unlock it, changes nothing. -/
theorem wp_guarded {c : Call β} {s : ClientConnection β} {g : Set Str}
    (hc : ∀ t, c.guarded = some t → t ∈ g) (hafter : ∀ r, ownership.after c g r = g)
    {Q : Set Str → Except Exn c.Result × ClientConnection β → Prop} (hQ : ∀ r, Q g (.ok r, s)) :
    (discipline strict).wp (ask c s) Q g :=
  ⟨hc, fun r _ => by
    change Q (ownership.after c g r) (.ok r, s)
    rw [hafter]
    exact hQ r⟩

/-- Unlocking all that is held, table by table. -/
theorem wp_unlock_owned {ts : List Str} (hts : ts.Nodup) {s : ClientConnection β} {g : Set Str}
    (hg : ∀ t, t ∈ g ↔ t ∈ ts) :
    (discipline strict).wp ((ts.forM fun t => ask (.unlock t)) s)
      (fun g' rs => rs.1 = .ok () ∧ rs.2 = s ∧ g' = ∅) g := by
  refine (discipline strict).wp_mono
    (wp_forM (I := fun xs s' g' => s' = s ∧ xs.Nodup ∧ ∀ t, t ∈ g' ↔ t ∈ xs) ?_ ⟨rfl, hts, hg⟩) ?_
  · rintro x xs s' g' ⟨rfl, hnd, hg'⟩
    obtain ⟨hx, hnd⟩ := List.nodup_cons.mp hnd
    refine ⟨fun t ht => ?_, fun _ _ => ⟨rfl, rfl, hnd, fun t => ?_⟩⟩
    · obtain rfl : x = t := Option.some.inj ht
      exact (hg' x).mpr List.mem_cons_self
    · change t ∈ g' ∧ t ∉ {x} ↔ t ∈ xs
      rw [hg' t, List.mem_cons, Set.mem_singleton_iff]
      constructor
      · rintro ⟨rfl | h, hne⟩
        · exact absurd rfl hne
        · exact h
      · exact fun h => ⟨Or.inr h, fun he => hx (he ▸ h)⟩
  · rintro g' rs ⟨hr, hs, -, hg'⟩
    exact ⟨hr, hs, Set.eq_empty_of_forall_notMem fun t ht => by simpa using (hg' t).mp ht⟩

theorem owned_rollback :
    Keeps (discipline strict) Owned (rollbackTransaction : Handler β Unit) := by
  refine Keeps.self_bind fun s g hg => ?_
  split
  · rename_i hs
    have hmem : ∀ t, t ∈ g ↔ t ∈ s.lockedTables.toList := fun t => by
      rw [hg t, TableSet.mem_def, and_iff_right hs]
    refine wp_then
      (wp_forM_const fun t ht => wp_guarded ?_ (fun _ => rfl) fun _ => ⟨rfl, rfl, rfl⟩) ?_
    · rintro u hu
      obtain rfl : t = u := Option.some.inj hu
      exact (hmem t).mpr ht
    · rintro g' _ s' ⟨rfl, rfl, rfl⟩
      refine ⟨(), rfl, wp_then (wp_unlock_owned s'.lockedTables.nodup hmem) ?_⟩
      rintro g' _ s'' ⟨rfl, rfl, rfl⟩
      exact ⟨(), rfl, owned_empty rfl⟩
  · exact hg

/-- What a transaction owns while it works on the table `t`. -/
def Working (t : Str) (s : ClientConnection β) (g : Set Str) : Prop :=
  Owned s g ∧ s.inTransaction = true ∧ t ∈ s.lockedTables

theorem Working.mem {t : Str} {s : ClientConnection β} {g : Set Str} (h : Working t s g) : t ∈ g :=
  (h.1 t).mpr ⟨h.2.1, h.2.2⟩

theorem working_quiet {t : Str} {α : Type} {h : Handler β α} (hh : Quiet h) :
    Keeps (discipline strict) (Working t) h := by
  refine hh.keeps (fun s s' g hs hg => ⟨hg.1.of_sameTxn hs, ?_, ?_⟩) lenient_discipline
  · rw [hs.inTransaction]
    exact hg.2.1
  · rw [hs.lockedTables]
    exact hg.2.2

/-- A call on the table worked on, which does not unlock it, changes nothing. -/
theorem working_ask {t : Str} {c : Call β} (hc : c.guarded = some t)
    (hafter : ∀ g r, ownership.after c g r = g) : Keeps (discipline strict) (Working t) (ask c) :=
  fun _ g hw => wp_guarded (fun _ hu => Option.some.inj (hc.symm.trans hu) ▸ hw.mem)
    (hafter g) fun _ => hw

/-- **In a transaction, `lockForTransaction` ends with the table locked**, since it
finds the table free. -/
theorem wp_lockForTransaction {E : Env β} {t : Str} {s : ClientConnection β} {g : Set Str}
    (hs : s.inTransaction = true) (hg : Owned s g) :
    (discipline strict).wp (lockForTransaction E t s)
      (fun g' rs => rs.1 = .ok () ∧ Working t rs.2 g' ∧ rs.2.stack = s.stack) g := by
  rw [lockForTransaction, bind_apply, insertLocked]
  split
  · rename_i ht
    exact ⟨rfl, ⟨hg, hs, ht⟩, rfl⟩
  · rename_i ht
    refine ⟨pre_of_unguarded rfl, fun b hb => ?_⟩
    obtain rfl : b = true := hb
    refine ⟨rfl, ⟨fun u => ?_, hs, (TableSet.mem_insert _ ht).mpr (Or.inl rfl)⟩, rfl⟩
    change u = t ∨ u ∈ g ↔ _
    rw [hg u, and_iff_right hs, and_iff_right hs]
    exact (TableSet.mem_insert _ ht).symm

theorem owned_create (req : Message) :
    Keeps (discipline strict) Owned (create req : Handler β Unit) := by
  refine Keeps.ite (owned_quiet (.throw _))
    (Keeps.bind (fun s g hg => ?_) fun _ => owned_quiet .sendOk)
  exact wp_guarded (fun _ h => absurd h (by simp [Call.guarded])) (fun _ => rfl) fun _ => hg

theorem owned_begin : Keeps (discipline strict) Owned (begin : Handler β Unit) := by
  refine Keeps.self_bind fun s g hg => ?_
  split
  · exact owned_quiet (.sendFailed _) s g hg
  · rename_i hs
    obtain rfl := hg.eq_empty (Bool.eq_false_iff.mpr hs)
    refine owned_quiet .sendOk { s with inTransaction := true, lockedTables := TableSet.empty } ∅ ?_
    intro t
    simp

/-- A commit obeys when the buffer names locked tables only. -/
theorem owned_commit {s : ClientConnection β} {g : Set Str} (hg : Owned s g)
    (hbuf : s.inTransaction = true → ∀ p ∈ s.transactionBuffer.toList, p.1 ∈ s.lockedTables) :
    EndsIn (discipline strict) Owned commit s g := by
  rw [commit]
  change EndsIn _ _ (if _ then _ else _) s g
  split
  · exact owned_quiet (.sendFailed _) s g hg
  · rename_i hs
    have hs : s.inTransaction = true := by simpa using hs
    have hmem : ∀ t, t ∈ g ↔ t ∈ s.lockedTables.toList := fun t => by
      rw [hg t, TableSet.mem_def, and_iff_right hs]
    refine EndsIn.tryCatch_keeps ?_
      fun _ => Keeps.bind owned_rollback fun _ => owned_quiet (.throw _)
    refine wp_then (wp_forM_const ?_) ?_
    · rintro ⟨name, keyvals⟩ hp
      refine ⟨pre_of_unguarded rfl, fun t? ht => ?_⟩
      cases t? with
      | none => exact ⟨rfl, rfl, rfl⟩
      | some t =>
        obtain ⟨-, rfl⟩ := ht t rfl
        refine wp_forM_const fun p _ => wp_guarded ?_ (fun _ => rfl) fun _ => ⟨rfl, rfl, rfl⟩
        rintro u hu
        obtain rfl : t = u := Option.some.inj hu
        exact (hmem t).mpr (hbuf hs _ hp)
    · rintro g' _ s' ⟨rfl, rfl, rfl⟩
      refine ⟨(), rfl, wp_then (wp_forM_const fun t ht => wp_guarded ?_ (fun _ => rfl)
        fun _ => ⟨rfl, rfl, rfl⟩) ?_⟩
      · rintro u hu
        obtain rfl : t = u := Option.some.inj hu
        exact (hmem t).mpr ht
      · rintro g' _ s'' ⟨rfl, rfl, rfl⟩
        refine ⟨(), rfl, wp_then (wp_unlock_owned s''.lockedTables.nodup hmem) ?_⟩
        rintro g' _ s''' ⟨rfl, rfl, rfl⟩
        exact ⟨(), rfl, owned_quiet .sendOk _ _ (owned_empty rfl)⟩

theorem wp_storeValue {E : Env β} {t table key : Str} {v : β} {s : ClientConnection β} {g : Set Str}
    (hg : Owned s g) :
    (discipline strict).wp (storeValue E t table key v s)
      (fun g' rs => rs.1 = .ok () ∧ Owned rs.2 g') g := by
  rw [storeValue, bind_apply, self_apply, Program.ret_bind]
  dsimp only
  split
  · rename_i hs
    refine wp_then (wp_lockForTransaction hs hg) ?_
    rintro g' _ s' ⟨rfl, hw, -⟩
    exact ⟨(), rfl, rfl, fun u => hw.1 u⟩
  · rename_i hs
    have hs : s.inTransaction = false := Bool.eq_false_iff.mpr hs
    obtain rfl := hg.eq_empty hs
    have hheld : ∀ u, some t = some u → u ∈ insert t (∅ : Set Str) := fun u hu =>
      Or.inl (Option.some.inj hu).symm
    refine ⟨pre_of_unguarded rfl, fun _ _ => ?_⟩
    refine ⟨hheld, fun _ _ => ⟨hheld, fun _ _ => ⟨hheld, fun _ _ => ⟨rfl, fun u => ?_⟩⟩⟩⟩
    change u ∈ insert t (∅ : Set Str) \ {t} ↔ _
    simp [hs]

/-- A `SET` keeps the discipline when outside of a transaction it has a value to
store, or finds no table. -/
theorem owned_set {E : Env β} {req : Message} {s : ClientConnection β} {g : Set Str}
    (hg : Owned s g)
    (hstrict : s.inTransaction = false → s.hasStack = true → s.stack = [] → strict = true) :
    EndsIn (discipline strict) Owned (set E req) s g := by
  rw [set]
  change EndsIn _ _ (if _ then _ else if _ then _ else _) s g
  split
  · exact owned_quiet (.throw _) s g hg
  split
  · exact owned_quiet (.throw _) s g hg
  refine ⟨pre_of_unguarded rfl, fun t? ht => ?_⟩
  change EndsIn _ _ (if _ then _ else _) s g
  split
  · exact owned_quiet (.sendFailed _) s g hg
  rename_i hstack
  have hstack : s.hasStack = true := by simpa using hstack
  cases t? with
  | none => exact owned_quiet (.sendFailed _) s g hg
  | some t =>
    obtain ⟨rfl, -⟩ := ht t rfl
    refine EndsIn.tryCatch ?_
    cases hvs : s.stack with
    | nil =>
      -- nothing has been locked when the stack turns out to be empty
      have hin : s.inTransaction = true := by
        by_contra h
        exact absurd (hstrict (Bool.eq_false_iff.mpr h) hstack hvs) (by decide)
      rw [bind_apply, stackGetTop, bind_apply, self_apply, Program.ret_bind]
      dsimp only
      rw [hvs]
      change EndsIn _ _ (catchSet t _) s g
      rw [catchSet, EndsIn, bind_apply, self_apply, Program.ret_bind]
      dsimp only
      rw [hin]
      exact owned_quiet (.sendFailed _) s g hg
    | cons v vs =>
      have htop : stackGetTop s = .ret (.ok v, s) := by
        rw [stackGetTop, bind_apply, self_apply, Program.ret_bind]
        simp [hvs]
      have hpop : stackPop s = .ret (.ok (), { s with stack := vs }) := by
        rw [stackPop, bind_apply, self_apply, Program.ret_bind]
        simp [hvs]
      rw [bind_apply, htop, Program.ret_bind]
      dsimp only
      rw [bind_apply, hpop, Program.ret_bind]
      dsimp only
      have hg' : Owned { s with stack := vs } g := fun u => hg u
      refine wp_then (wp_storeValue hg') ?_
      rintro g' _ s' ⟨rfl, hw⟩
      exact ⟨(), rfl, pre_of_unguarded rfl, fun _ _ u => hw u⟩

theorem working_readValue (t table key : Str) :
    Keeps (discipline strict) (Working t) (readValue t table key : Handler β β) := by
  refine Keeps.bind (working_quiet .self) fun s => ?_
  split
  · exact working_quiet (.pure _)
  refine Keeps.bind (working_ask rfl fun _ _ => rfl) fun b =>
    Keeps.ite (working_quiet (.throw _)) ?_
  exact Keeps.bind (working_ask rfl fun _ _ => rfl) fun r => working_quiet (.fromExcept r)

theorem owned_catchGet {t : Str} {e : Exn} {s : ClientConnection β} {g : Set Str}
    (hw : Working t s g) : EndsIn (discipline strict) Owned (catchGet t e) s g := by
  cases e with
  | operationException what =>
    rw [catchGet, EndsIn, bind_apply, self_apply, Program.ret_bind]
    dsimp only
    rw [hw.2.1]
    exact Keeps.bind owned_rollback (fun _ => owned_quiet (.throw _)) s g hw.1
  | _ => exact owned_quiet (.throw _) s g hw.1

theorem owned_getFrom {t table key : Str} {s : ClientConnection β} {g : Set Str}
    (hw : Working t s g) : EndsIn (discipline strict) Owned (getFrom t table key) s g := by
  refine EndsIn.tryCatch ((discipline strict).wp_mono (Q := fun g' rs => Working t rs.2 g') ?_ ?_)
  · refine Keeps.bind (working_readValue t _ _) (fun v => Keeps.bind (working_quiet (.stackPush v))
      fun _ => Keeps.bind (working_quiet (.noteUse _ _)) fun _ => Keeps.self_bind ?_) s g hw
    rintro s' g' hw'
    dsimp only
    rw [hw'.2.1]
    exact working_quiet .sendOk s' g' hw'
  · rintro g' ⟨_ | _, s'⟩ hw'
    · exact owned_catchGet hw'
    · exact hw'.1

/-- A `GET` keeps the discipline when in a transaction, or when it finds no
table. -/
theorem owned_get {E : Env β} {req : Message} {s : ClientConnection β} {g : Set Str}
    (hg : Owned s g) (hstrict : s.inTransaction = false → strict = true) :
    EndsIn (discipline strict) Owned (get E req) s g := by
  refine ⟨pre_of_unguarded rfl, fun t? ht => ?_⟩
  cases t? with
  | none => exact owned_quiet (.sendFailed _) s g hg
  | some t =>
    obtain ⟨rfl, -⟩ := ht t rfl
    have hin : s.inTransaction = true := by
      by_contra h
      exact absurd (hstrict (Bool.eq_false_iff.mpr h)) (by decide)
    change EndsIn _ _ (if _ then _ else _) s g
    rw [if_pos hin]
    refine wp_then (wp_lockForTransaction hin hg) ?_
    rintro g' _ s' ⟨rfl, hw, -⟩
    exact ⟨(), rfl, owned_getFrom hw⟩

/-- Every handler that is not quiet keeps the discipline under the conditions. -/
theorem owned_txnHandler {E : Env β} {i : Input} {req : Message} {h : Handler β Unit}
    {s : ClientConnection β} {g : Set Str} (hreq : i.request? = some req)
    (hvalid : req.isValid = true) (hh : txnHandler E req = some h) (hg : Owned s g)
    (hi : commitsUnlocked i s = false) :
    EndsIn (discipline (usesUnlocked i s)) Owned h s g := by
  rw [commitsUnlocked, hreq] at hi
  have huses : usesUnlocked i s = (!s.inTransaction && (req.messageType == .get ||
      (req.messageType == .set && s.hasStack && s.stack.isEmpty))) := by
    rw [usesUnlocked, hreq]
  unfold txnHandler at hh
  split at hh
  · exact Option.some.inj hh ▸ owned_create req s g hg
  · rename_i hty
    refine Option.some.inj hh ▸ owned_set hg fun hin hstack hvs => ?_
    rw [huses, hin, hstack, hvs, hty]
    rfl
  · rename_i hty
    refine Option.some.inj hh ▸ owned_get hg fun hin => ?_
    rw [huses, hin, hty]
    rfl
  · exact Option.some.inj hh ▸ owned_begin s g hg
  · rename_i hty
    refine Option.some.inj hh ▸ owned_commit hg fun hin p hp => ?_
    have hall :
        (s.transactionBuffer.toList.any fun p => decide (p.1 ∉ s.lockedTables)) = false := by
      simpa only [hvalid, hty, hin, beq_self_eq_true, Bool.true_and] using hi
    simpa using List.any_eq_false.mp hall p hp
  · exact absurd hh (by simp)

/-! ### All sessions at once -/

/-- The ghost values are what the sessions hold. -/
def Exact (σ : Tables β) (γ : SessionId → Set Str) : Prop :=
  ∀ tbl t, (σ.table tbl).holder = some t ↔ tbl ∈ γ t

/-- Nobody else counts a table among its own that is free, or held by `t`. -/
theorem Exact.notMem {σ : Tables β} {γ : SessionId → Set Str} {t u : SessionId} {tbl : Str}
    (hγ : Exact σ γ) (hholder : (σ.table tbl).holder = none ∨ (σ.table tbl).holder = some t)
    (hu : u ≠ t) : tbl ∉ γ u := by
  rw [← hγ tbl u]
  rcases hholder with h | h <;> simp [h, hu.symm]

/-- **A table that was free is taken**, and is in no other's ghost value. -/
theorem Exact.acquire {σ : Tables β} {γ : SessionId → Set Str} {t : SessionId} {v : Str}
    (hγ : Exact σ γ) (hv : (σ.table v).holder = none) (tbl : Str) (u : SessionId) :
    (if tbl = v then some t else (σ.table tbl).holder) = some u ↔
      tbl ∈ Function.update γ t (insert v (γ t)) u := by
  rcases eq_or_ne tbl v with rfl | hne
  · rw [if_pos rfl]
    rcases eq_or_ne u t with rfl | hu
    · simp
    · rw [Function.update_of_ne hu]
      exact iff_of_false (by simpa using hu.symm) (hγ.notMem (Or.inl hv) hu)
  · rw [if_neg hne, hγ tbl u]
    rcases eq_or_ne u t with rfl | hu
    · simp [hne]
    · rw [Function.update_of_ne hu]

/-- **A table is given back by the one who held it.** -/
theorem Exact.release {σ : Tables β} {γ : SessionId → Set Str} {t : SessionId} {v : Str}
    (hγ : Exact σ γ) (hv : (σ.table v).holder = some t) (tbl : Str) (u : SessionId) :
    (if tbl = v then none else (σ.table tbl).holder) = some u ↔
      tbl ∈ Function.update γ t (γ t \ {v}) u := by
  rcases eq_or_ne tbl v with rfl | hne
  · rw [if_pos rfl]
    rcases eq_or_ne u t with rfl | hu
    · simp
    · rw [Function.update_of_ne hu]
      exact iff_of_false (by simp) (hγ.notMem (Or.inr hv) hu)
  · rw [if_neg hne, hγ tbl u]
    rcases eq_or_ne u t with rfl | hu
    · simp [hne]
    · rw [Function.update_of_ne hu]

/-- **A call made in discipline keeps the ghost values exact.** -/
theorem exact_exec {σ σ' : Tables β} {γ : SessionId → Set Str} {t : SessionId} {c : Call β}
    {r : c.Result} (hγ : Exact σ γ) (hpre : ∀ tbl, c.guarded = some tbl → tbl ∈ γ t)
    (h : c.exec t σ = some (r, σ')) :
    Exact σ' (Function.update γ t (ownership.after c (γ t) r)) := by
  intro tbl u
  rw [Call.holder_exec h]
  cases c with
  | lock v =>
    have hv : (σ.table v).holder = none := by
      by_contra hv
      rw [Call.exec, if_pos (Option.isSome_iff_ne_none.mpr hv)] at h
      exact absurd h (by simp)
    exact hγ.acquire hv tbl u
  | trylock v =>
    cases r with
    | false =>
      have hsame : Function.update γ t (γ t) = γ := Function.update_eq_self t γ
      simpa [Call.holderAfter, ownership, hsame] using hγ tbl u
    | true =>
      have hv : (σ.table v).holder = none := by
        by_contra hv
        rw [Call.exec, if_pos (Option.isSome_iff_ne_none.mpr hv)] at h
        exact absurd h (by simp)
      rw [Call.holderAfter]
      simp only [and_true]
      exact hγ.acquire hv tbl u
  | unlock v => exact hγ.release ((hγ v t).mpr (hpre v rfl)) tbl u
  | _ =>
    change (σ.table tbl).holder = some u ↔ tbl ∈ Function.update γ t (γ t) u
    rw [Function.update_eq_self, hγ tbl u]

/-- **A run that obeys the condition keeps the lock discipline.** -/
theorem disciplined_of_run {env : SessionId → ℕ → Env β} {w : World β}
    (h : (system env).Run ObeysWhen start w) : Disciplined w := by
  obtain ⟨γ, hγ, hok⟩ : System.Ok (fun _ i l => discipline (usesUnlocked i l.conn))
      (fun _ _ _ l g => Owned l.conn g) (fun _ l g => Owned l.conn g) Exact w := by
    refine System.ok_of_run ?_ ?_ ?_ ⟨fun _ => ∅, ?_, ?_⟩ h
    · exact fun _ _ _ _ _ hl => hl
    · intro w γ t i l p hobeys hw _ hp hl
      rw [ObeysWhen, hw] at hobeys
      rw [system] at hp
      simp only at hp
      split at hp
      · exact absurd hp (by simp)
      · obtain rfl := Option.some.inj hp
        refine wp_round ((discipline _).wp_mono
          (endsIn_chatBody ?_ ?_ owned_rollback hl
            fun req h hreq hadm hh => owned_txnHandler hreq hadm.valid hh hl hobeys) ?_)
        · exact fun _ _ _ hs hg => hg.of_sameTxn hs
        · exact lenient_discipline
        · rintro g' ⟨_ | _, s'⟩ hg'
          · exact pre_of_unguarded rfl
          · exact hg'
    · intro w γ t i l c k r σ' hobeys hw hγ hpre hex
      refine ⟨?_, exact_exec hγ hpre hex⟩
      rw [ObeysWhen, hw] at hobeys
      cases c with
      | findTable name =>
        obtain ⟨rfl, -⟩ := Prod.mk.inj (Option.some.inj hex)
        intro t' ht'
        split at ht'
        · rename_i hc
          refine ⟨?_, (Option.some.inj ht').symm⟩
          simpa [finds, hc] using hobeys
        · exact absurd ht' (by simp)
      | trylock v =>
        have hv : (w.shared.table v).holder = none := by simpa [finds] using hobeys
        rw [system] at hex
        simp only [Call.exec, hv] at hex
        exact (Prod.mk.inj (Option.some.inj hex)).1.symm
      | _ => trivial
    · intro tbl t
      simp [start]
    · intro t
      exact owned_empty rfl
  intro t tbl ht
  have htok := hok t
  unfold atGuarded at ht
  split at ht
  · rename_i heq
    rw [heq] at htok
    exact (hγ tbl t).mpr (htok.1 tbl ht)
  · exact absurd ht (by simp)

/-- Session `0` in the middle of a `COMMIT`, about to write to the table. -/
def committingWorld : World Str :=
  (system plainEnv).follow ObeysWhen start
    (prelude 0 ++ talk 0 "BEGIN\n" 0 ++ talk 0 "SET t x\n" 2 ++
      [.input 0 (.line "COMMIT\n".toList), .advance 0])

theorem disciplined_of_run_committingWorld :
    Disciplined committingWorld ∧ atGuarded (committingWorld.thread 0) = some "t".toList ∧
      Holds committingWorld 0 "t".toList := by
  have hrun : (system plainEnv).Run ObeysWhen start committingWorld :=
    System.run_follow ObeysWhen start _
  have hd := disciplined_of_run hrun
  have hat : atGuarded (committingWorld.thread 0) = some "t".toList := by decide +kernel
  exact ⟨hd, hat, hd 0 _ hat⟩

/-- Session `0` about to ask a table for a key it has never locked the table for. -/
def peekingWorld : World Str :=
  (system plainEnv).follow (fun _ _ => True) start
    (prelude 0 ++ [.input 0 (.line "GET t x\n".toList), .advance 0])

/-- **Sessions do not always keep the lock discipline.** -/
theorem not_always_disciplined :
    ¬∀ w : World Str, Reachable plainEnv w → Disciplined w := by
  intro h
  have hrun : Reachable plainEnv peekingWorld := System.run_follow (fun _ _ => True) start _
  have hat : atGuarded (peekingWorld.thread 0) = some "t".toList := by decide +kernel
  have hfree : ¬Holds peekingWorld 0 "t".toList := by decide +kernel
  exact hfree (h peekingWorld hrun 0 _ hat)

end Server

end Csf
