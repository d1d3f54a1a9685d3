import Csf.Server.Run

/-!
# Who owns a lock: no deadlock

The handlers are run here against a protocol that keeps, for each session, a set
of tables containing all whose lock it holds. A session may lose a lock without
noticing – another one's rollback can unlock a table it never locked – so the set
is only an upper bound; but nobody is given a lock behind his back, and that is
enough.

The invariant (`Csf.Server.Covered`) is that between two lines a session holds
locks of tables in `m_locked_tables` only, and only while it is in a transaction.

A session waits in `Table::lock` only outside a transaction, so it then holds
nothing: waiting has depth one, and there is **no cycle of waiting sessions**
(`Csf.Server.no_cyclic_waiting`).
-/

namespace Csf

namespace Server

open Interaction Handler

variable {β : Type}

/-- The protocol: the ghost value is a set of tables containing all the session
holds. It makes `lock` only when it is empty. -/
def ownership : Protocol (Call β) Call.Result (Set Str) where
  pre c g := match c with
    | .lock _ => g = ∅
    | _ => True
  may _ _ _ := True
  after c g r := match c, r with
    | .lock t, _ => insert t g
    | .trylock t, (b : Bool) => if b then insert t g else g
    | .unlock t, _ => g \ {t}
    | _, _ => g

/-- **What a session holds between two lines** is locked for its transaction. -/
def Covered (s : ClientConnection β) (g : Set Str) : Prop :=
  ∀ t ∈ g, s.inTransaction = true ∧ t ∈ s.lockedTables

theorem Covered.of_sameTxn {s s' : ClientConnection β} {g : Set Str} (h : SameTxn s s')
    (hg : Covered s g) : Covered s' g := by
  intro t ht
  rw [h.inTransaction, h.lockedTables]
  exact hg t ht

/-- Outside a transaction a session holds nothing. -/
theorem Covered.eq_empty {s : ClientConnection β} {g : Set Str} (hg : Covered s g)
    (hs : s.inTransaction = false) : g = ∅ := by
  refine Set.eq_empty_of_forall_notMem fun t ht => ?_
  rw [(hg t ht).1] at hs
  exact absurd hs (by decide)

theorem covered_empty (s : ClientConnection β) : Covered s ∅ := fun _ ht => ht.elim

/-- Unlocking every table of a list that contains what is held leaves nothing
held. -/
theorem wp_unlock_all {ts : List Str} {s : ClientConnection β} {g : Set Str}
    (h : ∀ t ∈ g, t ∈ ts) :
    ownership.wp ((ts.forM fun t => ask (.unlock t)) s)
      (fun g' rs => rs.1 = .ok () ∧ rs.2 = s ∧ g' = ∅) g := by
  refine ownership.wp_mono (wp_forM (I := fun xs s' g' => s' = s ∧ ∀ t ∈ g', t ∈ xs) ?_ ⟨rfl, h⟩) ?_
  · rintro x xs s' g' ⟨rfl, hg'⟩
    refine ⟨trivial, fun _ _ => ⟨rfl, rfl, ?_⟩⟩
    rintro t ⟨ht, hne⟩
    exact (List.mem_cons.mp (hg' t ht)).resolve_left hne
  · rintro g' rs ⟨hr, hs, hg'⟩
    exact ⟨hr, hs, Set.eq_empty_of_forall_notMem fun t ht => by simpa using hg' t ht⟩

/-- **A rollback lets go of everything.** -/
theorem wp_rollback {s : ClientConnection β} {g : Set Str} (hg : Covered s g) :
    ownership.wp (rollbackTransaction s)
      (fun g' rs => rs.1 = .ok () ∧ rs.2.inTransaction = false ∧ g' = ∅) g := by
  rw [rollbackTransaction, bind_apply, self_apply, Program.ret_bind]
  dsimp only
  split
  · refine wp_then (wp_forM_const fun x _ => ⟨trivial, fun _ _ => ⟨rfl, rfl, rfl⟩⟩) ?_
    rintro g' _ s' ⟨rfl, rfl, rfl⟩
    refine ⟨(), rfl, wp_then (wp_unlock_all fun t ht => (hg t ht).2) ?_⟩
    rintro g' _ s'' ⟨rfl, rfl, rfl⟩
    exact ⟨(), rfl, rfl, rfl, rfl⟩
  · rename_i hs
    exact ⟨rfl, Bool.eq_false_iff.mpr hs, hg.eq_empty (Bool.eq_false_iff.mpr hs)⟩

theorem keeps_rollback : Keeps ownership Covered (rollbackTransaction : Handler β Unit) := by
  intro s g hg
  refine ownership.wp_mono (wp_rollback hg) ?_
  rintro g' ⟨_, s'⟩ ⟨-, -, rfl⟩
  exact covered_empty _

theorem lenient_ownership : Lenient (ownership : Protocol (Call β) Call.Result _) :=
  ⟨fun _ => trivial, fun _ _ => ⟨trivial, fun _ => rfl⟩⟩

/-- A quiet handler keeps what a session holds. -/
theorem keeps_quiet {α : Type} {h : Handler β α} (hh : Quiet h) : Keeps ownership Covered h :=
  hh.keeps (fun _ _ _ hs hg => hg.of_sameTxn hs) lenient_ownership

/-- In a transaction, `lockForTransaction` keeps what the session holds covered:
the table goes into `m_locked_tables` before it is locked. -/
theorem endsIn_lockForTransaction {E : Env β} {t : Str} {s : ClientConnection β} {g : Set Str}
    (hs : s.inTransaction = true) (hg : Covered s g) :
    EndsIn ownership Covered (lockForTransaction E t) s g := by
  rw [lockForTransaction]
  refine EndsIn.bind ?_
  rw [insertLocked]
  split
  · exact hg
  · rename_i ht
    refine ⟨trivial, fun b _ => ?_⟩
    have hg' : Covered { s with lockedTables := s.lockedTables.insert E.addrLe t ht }
        (ownership.after (.trylock t) g b) := by
      intro u hu
      refine ⟨hs, (TableSet.mem_insert _ ht).mpr ?_⟩
      cases b with
      | false => exact Or.inr (hg u hu).2
      | true => exact (Set.mem_insert_iff.mp hu).imp_right fun hu => (hg u hu).2
    cases b with
    | true => exact hg'
    | false => exact Keeps.bind keeps_rollback (fun _ => keeps_quiet (.throw _)) _ _ hg'

theorem keeps_create (req : Message) : Keeps ownership Covered (create req : Handler β Unit) := by
  refine Keeps.ite (keeps_quiet (.throw _)) (Keeps.bind ?_ fun _ => keeps_quiet .sendOk)
  exact fun s g hg => ⟨trivial, fun _ _ => hg⟩

theorem keeps_begin : Keeps ownership Covered (begin : Handler β Unit) := by
  refine Keeps.self_bind fun s g hg => ?_
  split
  · exact keeps_quiet (.sendFailed _) s g hg
  · rename_i hs
    obtain rfl := hg.eq_empty (Bool.eq_false_iff.mpr hs)
    exact keeps_quiet .sendOk _ _ (covered_empty _)

theorem keeps_commit : Keeps ownership Covered (commit : Handler β Unit) := by
  refine Keeps.self_bind fun s g hg => ?_
  dsimp only
  split
  · exact keeps_quiet (.sendFailed _) s g hg
  · refine EndsIn.tryCatch_keeps ?_ fun _ =>
      Keeps.bind keeps_rollback fun _ => keeps_quiet (.throw _)
    refine wp_then (wp_forM_const ?_) ?_
    · rintro ⟨name, keyvals⟩ -
      refine ⟨trivial, fun t? _ => ?_⟩
      cases t? with
      | none => exact ⟨rfl, rfl, rfl⟩
      | some t => exact wp_forM_const fun x _ => ⟨trivial, fun _ _ => ⟨rfl, rfl, rfl⟩⟩
    · rintro g' _ s' ⟨rfl, rfl, rfl⟩
      refine ⟨(), rfl, wp_then (wp_forM_const fun x _ => ⟨trivial, fun _ _ => ⟨rfl, rfl, rfl⟩⟩) ?_⟩
      rintro g' _ s'' ⟨rfl, rfl, rfl⟩
      refine ⟨(), rfl, wp_then (wp_unlock_all fun t ht => (hg t ht).2) ?_⟩
      rintro g' _ s''' ⟨rfl, rfl, rfl⟩
      exact ⟨(), rfl, keeps_quiet .sendOk _ _ (covered_empty _)⟩

/-- A call that is neither `lock` nor `trylock` keeps what the session holds
covered: it holds no more afterwards. -/
theorem keeps_ask {c : Call β} (hpre : ∀ g, ownership.pre c g)
    (hafter : ∀ g r, ownership.after c g r ⊆ g) : Keeps ownership Covered (ask c) :=
  fun _ g hg => ⟨hpre g, fun r _ u hu => hg u (hafter g r hu)⟩

theorem keeps_unlock (t : Str) : Keeps ownership Covered (ask (.unlock t) : Handler β Unit) :=
  keeps_ask (fun _ => trivial) fun _ _ => Set.sdiff_subset

theorem keeps_storeValue (E : Env β) (t table key : Str) (val : β) :
    Keeps ownership Covered (storeValue E t table key val) := by
  refine Keeps.self_bind fun s g hg => ?_
  split
  · rename_i hs
    refine EndsIn.bind (ownership.wp_mono (endsIn_lockForTransaction hs hg) ?_)
    rintro g' ⟨_ | _, s'⟩ hg'
    · exact hg'
    · exact fun u hu => hg' u hu
  · rename_i hs
    -- outside a transaction the session holds nothing when it waits for the lock
    obtain rfl := hg.eq_empty (Bool.eq_false_iff.mpr hs)
    refine ⟨rfl, fun _ _ => ⟨trivial, fun _ _ => ⟨trivial, fun _ _ => ⟨trivial, fun _ _ => ?_⟩⟩⟩⟩
    rintro u ⟨hu, hne⟩
    exact absurd ((Set.mem_insert_iff.mp hu).resolve_right (Set.notMem_empty u)) hne

theorem keeps_catchSet (t : Str) (e : Exn) :
    Keeps ownership Covered (catchSet t e : Handler β Unit) := by
  refine Keeps.bind (keeps_quiet .self) fun s => ?_
  exact Keeps.ite (Keeps.bind (keeps_unlock t) fun _ => keeps_quiet (.sendFailed _))
    (keeps_quiet (.sendFailed _))

theorem keeps_set (E : Env β) (req : Message) : Keeps ownership Covered (set E req) := by
  refine Keeps.ite (keeps_quiet (.throw _)) (Keeps.ite (keeps_quiet (.throw _)) ?_)
  refine Keeps.bind (keeps_ask (fun _ => trivial) fun _ _ => subset_rfl) fun t? => ?_
  refine Keeps.bind (keeps_quiet .self) fun s => Keeps.ite (keeps_quiet (.sendFailed _)) ?_
  cases t? with
  | none => exact keeps_quiet (.sendFailed _)
  | some t =>
    refine fun s g hg => EndsIn.tryCatch_keeps ?_ (keeps_catchSet t)
    exact Keeps.bind (keeps_quiet .stackGetTop) (fun val => Keeps.bind (keeps_quiet .stackPop)
      fun _ => Keeps.bind (keeps_storeValue E t _ _ val) fun _ =>
        keeps_quiet (.bind (.noteUse _ _) fun _ => .sendOk)) s g hg

theorem keeps_readValue (t table key : Str) :
    Keeps ownership Covered (readValue t table key : Handler β β) := by
  refine Keeps.bind (keeps_quiet .self) fun s => ?_
  split
  · exact keeps_quiet (.pure _)
  · refine Keeps.bind (keeps_ask (fun _ => trivial) fun _ _ => subset_rfl) fun b => ?_
    refine Keeps.ite (keeps_quiet (.throw _)) ?_
    exact Keeps.bind (keeps_ask (fun _ => trivial) fun _ _ => subset_rfl) fun r =>
      keeps_quiet (.fromExcept r)

theorem keeps_catchGet (t : Str) (e : Exn) :
    Keeps ownership Covered (catchGet t e : Handler β Unit) := by
  cases e with
  | operationException what =>
    refine Keeps.bind (keeps_quiet .self) fun s => ?_
    exact Keeps.ite (Keeps.bind keeps_rollback fun _ => keeps_quiet (.throw _))
      (Keeps.bind (keeps_unlock t) fun _ => keeps_quiet (.sendFailed _))
  | _ => exact keeps_quiet (.throw _)

theorem keeps_getFrom (t table key : Str) :
    Keeps ownership Covered (getFrom t table key : Handler β Unit) := by
  refine fun s g hg => EndsIn.tryCatch_keeps ?_ (keeps_catchGet t)
  refine Keeps.bind (keeps_readValue t _ _) (fun val => Keeps.bind (keeps_quiet (.stackPush val))
    fun _ => Keeps.bind (keeps_quiet (.noteUse _ _)) fun _ =>
      Keeps.bind (keeps_quiet .self) fun s => ?_) s g hg
  exact Keeps.ite (Keeps.bind (keeps_unlock t) fun _ => keeps_quiet .sendOk)
    (keeps_quiet .sendOk)

theorem keeps_get (E : Env β) (req : Message) : Keeps ownership Covered (get E req) := by
  refine Keeps.bind (keeps_ask (fun _ => trivial) fun _ _ => subset_rfl) fun t? => ?_
  cases t? with
  | none => exact keeps_quiet (.sendFailed _)
  | some t =>
    refine Keeps.self_bind fun s g hg => ?_
    dsimp only
    split
    · rename_i hs
      refine EndsIn.bind (ownership.wp_mono (endsIn_lockForTransaction hs hg) ?_)
      rintro g' ⟨_ | _, s'⟩ hg'
      · exact hg'
      · exact keeps_getFrom t _ _ s' g' hg'
    · exact keeps_getFrom t _ _ s g hg

/-- Every handler that is not quiet keeps what the session holds covered. -/
theorem keeps_txnHandler {E : Env β} {req : Message} {h : Handler β Unit}
    (hh : txnHandler E req = some h) : Keeps ownership Covered h := by
  unfold txnHandler at hh
  split at hh
  · exact Option.some.inj hh ▸ keeps_create req
  · exact Option.some.inj hh ▸ keeps_set E req
  · exact Option.some.inj hh ▸ keeps_get E req
  · exact Option.some.inj hh ▸ keeps_begin
  · exact Option.some.inj hh ▸ keeps_commit
  · exact absurd hh (by simp)

/-! ### All sessions at once -/

/-- The ghost values contain what the sessions hold. -/
def Contains (σ : Tables β) (γ : SessionId → Set Str) : Prop :=
  ∀ tbl t, (σ.table tbl).holder = some t → tbl ∈ γ t

/-- **A call keeps the ghost values above what is held**: nobody is given a lock
he did not ask for. -/
theorem contains_exec {σ σ' : Tables β} {γ : SessionId → Set Str} {t : SessionId} {c : Call β}
    {r : c.Result} (hγ : Contains σ γ) (h : c.exec t σ = some (r, σ')) :
    Contains σ' (Function.update γ t (ownership.after c (γ t) r)) := by
  intro tbl u hu
  rw [Call.holder_exec h] at hu
  have hother : ∀ {v}, (σ.table tbl).holder = some v → v ≠ t →
      tbl ∈ Function.update γ t (ownership.after c (γ t) r) v := fun hv hne => by
    rw [Function.update_of_ne hne]
    exact hγ tbl _ hv
  rcases eq_or_ne u t with rfl | hne
  · rw [Function.update_self]
    cases c with
    | lock v =>
      rw [Call.holderAfter] at hu
      split at hu
      · rename_i hv
        exact Or.inl hv
      · exact Or.inr (hγ tbl u hu)
    | unlock v =>
      rw [Call.holderAfter] at hu
      split at hu
      · exact absurd hu (by simp)
      · rename_i hv
        exact ⟨hγ tbl u hu, hv⟩
    | trylock v =>
      cases r with
      | false =>
        refine hγ tbl u ?_
        simpa [Call.holderAfter] using hu
      | true =>
        rw [Call.holderAfter] at hu
        split at hu
        · rename_i hv
          exact Or.inl hv.1
        · exact Or.inr (hγ tbl u hu)
    | _ => exact hγ tbl u hu
  · refine hother ?_ hne
    cases c with
    | lock v =>
      rw [Call.holderAfter] at hu
      split at hu
      · exact absurd (Option.some.inj hu).symm hne
      · exact hu
    | unlock v =>
      rw [Call.holderAfter] at hu
      split at hu
      · exact absurd hu (by simp)
      · exact hu
    | trylock v =>
      rw [Call.holderAfter] at hu
      split at hu
      · exact absurd (Option.some.inj hu).symm hne
      · exact hu
    | _ => exact hu

/-- **In every reachable state, what each session holds is covered.** -/
theorem covered_of_run {env : SessionId → ℕ → Env β} {ok : World β → Act SessionId Input → Prop}
    {w : World β} (h : (system env).Run ok start w) :
    System.Ok (fun _ _ _ => ownership) (fun _ _ _ l g => Covered l.conn g)
      (fun _ l g => Covered l.conn g) Contains w := by
  refine System.ok_of_run ?_ ?_ ?_ ⟨fun _ => ∅, ?_, ?_⟩ h
  · exact fun _ _ _ _ _ hl => hl
  · intro w γ t i l p _ _ _ hp hl
    rw [system] at hp
    simp only at hp
    split at hp
    · exact absurd hp (by simp)
    · obtain rfl := Option.some.inj hp
      refine wp_round (ownership.wp_mono (endsIn_chatBody ?_ ?_ keeps_rollback hl
        fun req h _ _ hh => keeps_txnHandler hh _ _ hl) ?_)
      · exact fun _ _ _ hs hg => hg.of_sameTxn hs
      · exact lenient_ownership
      · rintro g' ⟨_ | _, s'⟩ hg'
        · trivial
        · exact hg'
  · intro w γ t i l c k r σ' _ _ hγ _ hex
    exact ⟨trivial, contains_exec hγ hex⟩
  · exact fun tbl t ht => absurd ht (by simp [start])
  · intro t
    exact covered_empty _

/-- A session between two lines holds locks of its `m_locked_tables` only, and
only in a transaction. -/
theorem holds_of_rest {env : SessionId → ℕ → Env β} {w : World β} (h : Reachable env w)
    {t : SessionId} {l : Local β} (ht : w.thread t = .rest l) {tbl : Str} (hh : Holds w t tbl) :
    l.conn.inTransaction = true ∧ tbl ∈ l.conn.lockedTables := by
  obtain ⟨γ, hγ, hok⟩ := covered_of_run h
  have hl : Covered l.conn (γ t) := by
    have := hok t
    rwa [ht] at this
  exact hl tbl (hγ tbl t hh)

/-! ### Waiting -/

/-- The table whose lock a thread is about to wait for, or to take. -/
def atLock : Thread Input (Local β) (Call β) Call.Result → Option Str
  | .run _ _ (.call (.lock tbl) _) => some tbl
  | _ => none

/-- Session `t` is blocked in `Table::lock`. -/
def Blocked (w : World β) (t : SessionId) (tbl : Str) : Prop :=
  atLock (w.thread t) = some tbl ∧ (w.shared.table tbl).holder.isSome

instance (w : World β) (t : SessionId) (tbl : Str) : Decidable (Blocked w t tbl) :=
  inferInstanceAs (Decidable (_ ∧ _))

/-- Session `t` is blocked on a lock that session `t'` holds. -/
def WaitsFor (w : World β) (t t' : SessionId) : Prop :=
  ∃ tbl, Blocked w t tbl ∧ Holds w t' tbl

/-- Whoever is at a `lock` holds nothing. -/
theorem not_holds_of_atLock {env : SessionId → ℕ → Env β} {w : World β} (h : Reachable env w)
    {t : SessionId} {tbl : Str} (ht : atLock (w.thread t) = some tbl) (u : Str) :
    ¬Holds w t u := by
  obtain ⟨γ, hγ, hok⟩ := covered_of_run h
  intro hu
  have htok := hok t
  unfold atLock at ht
  split at ht
  · rename_i heq
    rw [heq] at htok
    have hempty : γ t = ∅ := htok.1
    exact absurd (hγ u t hu) (by simp [hempty])
  · exact absurd ht (by simp)

/-- **No cyclic waiting.** A session blocked in `Table::lock` holds no lock, so
nobody waits for it: there is no cycle of waiting sessions, and in particular no
session waits for itself. -/
theorem no_cyclic_waiting {env : SessionId → ℕ → Env β} {w : World β} (h : Reachable env w) :
    (∀ t tbl, Blocked w t tbl → ∀ u, ¬Holds w t u) ∧
      ∀ t, ¬Relation.TransGen (WaitsFor w) t t := by
  have hblocked : ∀ t tbl, Blocked w t tbl → ∀ u, ¬Holds w t u :=
    fun t tbl hb u => not_holds_of_atLock h hb.1 u
  refine ⟨hblocked, fun t ht => ?_⟩
  -- whoever is waited for holds a lock, and whoever waits holds none
  obtain ⟨t', htt', -⟩ := Relation.TransGen.head'_iff.mp ht
  obtain ⟨u, -, ⟨tbl, -, hholds⟩⟩ := Relation.TransGen.tail'_iff.mp ht
  obtain ⟨tbl', hb, -⟩ := htt'
  exact hblocked t tbl' hb tbl hholds

/-- Session `0` has locked the table `t` in a transaction, and session `1` is
blocked on it. -/
def blockedWorld : World Str :=
  (system plainEnv).follow (fun _ _ => True) start
    (prelude 0 ++ talk 0 "BEGIN\n" 0 ++ talk 0 "SET t x\n" 2 ++
      talk 1 "LOGIN bob\n" 0 ++ talk 1 "PUSH 2\n" 0 ++ talk 1 "SET t x\n" 4)

theorem no_cyclic_waiting_blockedWorld :
    Blocked blockedWorld 1 "t".toList ∧ Holds blockedWorld 0 "t".toList ∧
      (∀ u, ¬Holds blockedWorld 1 u) ∧ ¬Relation.TransGen (WaitsFor blockedWorld) 0 0 := by
  have hb : Blocked blockedWorld 1 "t".toList := by decide +kernel
  have hrun : Reachable plainEnv blockedWorld := System.run_follow (fun _ _ => True) start _
  have h := no_cyclic_waiting hrun
  exact ⟨hb, by decide +kernel, h.1 1 _ hb, h.2 0⟩

end Server

end Csf
