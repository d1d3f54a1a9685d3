import Csf.Server.Solo

/-!
# Requests on tables, served without interruption

What `SET`, `GET` and `COMMIT` do to the tables when they are served without
interruption (`Csf.Server.Handler.run`), compared with the store the session shows
its client.

In a transaction a `SET` or a `GET` locks its table, if it can, and leaves what
the tables hold as it was (`Csf.Server.run_inTransaction`): it is the buffer that
changes. The `COMMIT` then writes the buffer out (`Csf.Server.run_commit`), so that
the tables hold what the session has been showing. Outside of a transaction a `SET`
does this by itself (`Csf.Server.run_autocommit`).
-/

namespace Csf

namespace Server

open Interaction Handler

variable {β γ : Type}

/-! ### Loops over tables -/

section Loops

/-- Changing one table after another, each once. -/
theorem foldl_modify_table {ts : List Str} (hts : ts.Nodup) (f : Table β → Table β)
    (σ : Tables β) (u : Str) :
    (ts.foldl (fun σ t => σ.modify t f) σ).table u =
      if u ∈ ts then f (σ.table u) else σ.table u := by
  induction ts generalizing σ with
  | nil => rfl
  | cons t ts ih =>
    obtain ⟨ht, hts⟩ := List.nodup_cons.mp hts
    rw [List.foldl_cons, ih hts]
    rcases eq_or_ne u t with rfl | hne
    · rw [if_neg ht, if_pos List.mem_cons_self, Tables.modify_table_self]
    · simp only [Tables.modify_table_of_ne σ hne, List.mem_cons, hne, false_or]

theorem foldl_modify_created (ts : List γ) (t : γ → Str) (f : γ → Table β → Table β)
    (σ : Tables β) :
    (ts.foldl (fun σ x => σ.modify (t x) (f x)) σ).created = σ.created := by
  induction ts generalizing σ with
  | nil => rfl
  | cons x ts ih => exact ih _

/-- Setting one key after another of a table. -/
theorem foldl_set_table (t : Str) (kvs : List (Str × β)) (σ : Tables β) (u : Str) :
    (kvs.foldl (fun σ kv => σ.modify t fun x => x.set kv.1 kv.2) σ).table u =
      if u = t then { σ.table u with
        tempData := kvs.foldl (fun m kv => m.insert kv.1 kv.2) (σ.table u).tempData }
      else σ.table u := by
  induction kvs generalizing σ with
  | nil => rw [List.foldl_nil, List.foldl_nil, ite_self]
  | cons kv kvs ih =>
    rw [List.foldl_cons, List.foldl_cons, ih]
    rcases eq_or_ne u t with rfl | hne
    · rw [if_pos rfl, if_pos rfl, Tables.modify_table_self, Table.set]
    · rw [if_neg hne, if_neg hne, Tables.modify_table_of_ne σ hne]

/-- What `commit` does with the changes of one table. -/
def writeOut (σ : Tables β) (tm : Str × StrMap β) : Tables β :=
  if σ.created tm.1 then
    tm.2.toList.foldl (fun σ kv => σ.modify tm.1 fun x => x.set kv.1 kv.2) σ
  else σ

@[simp] theorem writeOut_created (σ : Tables β) (tm : Str × StrMap β) :
    (writeOut σ tm).created = σ.created := by
  rw [writeOut]
  split
  · exact foldl_modify_created _ (fun _ => tm.1) _ σ
  · rfl

theorem writeOut_table (σ : Tables β) (tm : Str × StrMap β) (u : Str) :
    (writeOut σ tm).table u =
      if u = tm.1 ∧ σ.created u then
        { σ.table u with tempData := overlay (σ.table u).tempData tm.2 }
      else σ.table u := by
  rw [writeOut]
  rcases eq_or_ne u tm.1 with rfl | hne
  · cases h : σ.created tm.1
    · rw [if_neg (by simp), if_neg (by simp)]
    · rw [if_pos rfl, foldl_set_table, if_pos rfl, if_pos ⟨rfl, rfl⟩]
      rfl
  · have hu : ¬(u = tm.1 ∧ σ.created u = true) := fun h => hne h.1
    rw [if_neg hu]
    by_cases h : σ.created tm.1 = true
    · rw [if_pos h, foldl_set_table, if_neg hne]
    · rw [if_neg h]

/-- **Writing a buffer out** into tables that exist: each table has its changes
laid over the temporary ones. -/
theorem foldl_writeOut_table (l : List (Str × StrMap β))
    (hl : l.Pairwise fun a b => ¬compare a.1 b.1 = .eq) (σ : Tables β) (u : Str)
    (o : Option (StrMap β)) (ho : ∀ m, (u, m) ∈ l ↔ o = some m)
    (hcreated : o.isSome → σ.created u = true) :
    (l.foldl writeOut σ).table u = o.elim (σ.table u) fun m =>
      { σ.table u with tempData := overlay (σ.table u).tempData m } := by
  induction l generalizing σ o with
  | nil =>
    have : o = none := Option.eq_none_iff_forall_ne_some.mpr fun m hm => by
      simpa using (ho m).mpr hm
    rw [this]
    rfl
  | cons tm l ih =>
    obtain ⟨htm, hl⟩ := List.pairwise_cons.mp hl
    rw [List.foldl_cons]
    rcases eq_or_ne u tm.1 with rfl | hne
    · -- the table is that of the first changes, so no later ones are its
      have ho' : o = some tm.2 := (ho tm.2).mp (by simp)
      have hnone : ∀ m, (tm.1, m) ∈ l ↔ (none : Option (StrMap β)) = some m := by
        refine fun m => ⟨fun hm => absurd ?_ (htm (tm.1, m) hm), fun h => absurd h (by simp)⟩
        exact Std.ReflCmp.compare_self
      rw [ih hl _ none hnone (by simp), ho', writeOut_table, if_pos ⟨rfl, hcreated (by simp [ho'])⟩]
      rfl
    · have ho' : ∀ m, (u, m) ∈ l ↔ o = some m := by
        intro m
        rw [← ho m, List.mem_cons]
        exact (or_iff_right fun h => hne (congrArg Prod.fst h)).symm
      rw [ih hl _ o ho' (by rwa [writeOut_created]), writeOut_table, if_neg fun h => hne h.1]

end Loops

/-! ### Beginning and committing -/

section Ends

variable {E : Env β} {s : SessionId} {c : ClientConnection β} {σ : Tables β} {req : Message}

/-- The tables of the buffer are there and are locked for the transaction. -/
def ClientConnection.Covered (c : ClientConnection β) (created : Str → Bool) : Prop :=
  ∀ t m, c.transactionBuffer[t]? = some m → created t = true ∧ t ∈ c.lockedTables

/-- No table has changes that are not committed. -/
def Tables.Clean (σ : Tables β) : Prop := ∀ t, (σ.table t).tempData = ∅

/-- The tables once the transaction of `c` is committed. -/
structure Committed (c : ClientConnection β) (σ σ' : Tables β) : Prop where
  /-- The same tables. -/
  created : σ'.created = σ.created
  /-- Tables that are not locked for the transaction stay. -/
  frame : ∀ t, t ∉ c.lockedTables → σ'.table t = σ.table t
  /-- The others are unlocked. -/
  holder : ∀ t ∈ c.lockedTables, (σ'.table t).holder = none
  /-- The changes have been made. -/
  clean : σ.Clean → σ'.Clean
  /-- The tables hold what the session has been showing. -/
  values : σ.Clean → ∀ t k, σ'.values t k = (c.buffered t k).or (σ.values t k)

/-- A connection after `COMMIT`. -/
def ClientConnection.committed (c : ClientConnection β) : ClientConnection β :=
  { c with transactionBuffer := ∅, lockedTables := TableSet.empty, inTransaction := false }

/-- The tables after the three loops of `commit`. -/
def Tables.commit (σ : Tables β) (c : ClientConnection β) : Tables β :=
  c.lockedTables.toList.foldl (fun σ t => σ.modify t fun x => { x with holder := none })
    (c.lockedTables.toList.foldl (fun σ t => σ.modify t Table.commitChanges)
      (c.transactionBuffer.toList.foldl writeOut σ))

theorem commit_created : (σ.commit c).created = σ.created := by
  have hwrite : ∀ (l : List (Str × StrMap β)) (σ : Tables β),
      (l.foldl writeOut σ).created = σ.created := by
    intro l
    induction l with
    | nil => exact fun _ => rfl
    | cons tm l ih => exact fun σ => (ih _).trans (writeOut_created σ tm)
  rw [Tables.commit]
  refine (foldl_modify_created _ id _ _).trans ((foldl_modify_created _ id _ _).trans ?_)
  exact hwrite _ σ

/-- **What `commit` makes of a table** that is locked, and of one that is not. -/
theorem commit_table (hcov : c.Covered σ.created) (t : Str) :
    (σ.commit c).table t = if t ∈ c.lockedTables then
      { holder := none
        data := overlay (σ.table t).data (c.transactionBuffer[t]?.elim (σ.table t).tempData fun m =>
          overlay (σ.table t).tempData m)
        tempData := ∅ } else σ.table t := by
  have hout := foldl_writeOut_table c.transactionBuffer.toList
    Std.ExtTreeMap.distinct_keys_toList σ t c.transactionBuffer[t]?
    (fun m => Std.ExtTreeMap.mem_toList_iff_getElem?_eq_some)
    fun h => (hcov t _ (Option.some_get h).symm).1
  rw [Tables.commit, foldl_modify_table c.lockedTables.nodup,
    foldl_modify_table c.lockedTables.nodup, hout]
  by_cases ht : t ∈ c.lockedTables
  · have ht' : t ∈ c.lockedTables.toList := ht
    rw [if_pos ht', if_pos ht', if_pos ht, Table.commitChanges]
    cases c.transactionBuffer[t]? <;> rfl
  · have ht' : t ∉ c.lockedTables.toList := ht
    rw [if_neg ht', if_neg ht', if_neg ht]
    cases hm : c.transactionBuffer[t]? with
    | none => rfl
    | some m => exact absurd (hcov t m hm).2 ht

/-- The loops of `commit` commit. -/
theorem committed_commit (hcov : c.Covered σ.created) : Committed c σ (σ.commit c) := by
  have htable := commit_table hcov
  refine ⟨commit_created, fun t ht => ?_, fun t ht => ?_, fun hσ t => ?_, fun hσ t k => ?_⟩
  · rw [htable, if_neg ht]
  · rw [htable, if_pos ht]
  · rw [htable]
    split
    · rfl
    · exact hσ t
  · rw [Tables.values, htable, ClientConnection.buffered]
    by_cases ht : t ∈ c.lockedTables
    · rw [if_pos ht, hσ t]
      cases hm : c.transactionBuffer[t]? with
      | none => simp [Tables.values]
      | some m => simp [Tables.values]
    · rw [if_neg ht]
      cases hm : c.transactionBuffer[t]? with
      | none => rfl
      | some m => exact absurd (hcov t m hm).2 ht

/-- The body of the loop of `commit` over the buffer. -/
def writeTable : Str × StrMap β → Handler β Unit := fun (tableName, keyvalMap) => do
  match ← ask (.findTable tableName) with
  | none => pure ()
  | some t => keyvalMap.toList.forM fun (key, val) => ask (.set t key val)

/-- **`COMMIT`** in a transaction. -/
theorem run_commit (hin : c.inTransaction = true) :
    (commit : Handler β Unit).run s c σ =
      some ((.ok (), c.committed.say okLine), σ.commit c) := by
  have hwrite : ∀ (tm : Str × StrMap β) (σ : Tables β),
      (writeTable tm).run s c σ = some ((.ok (), c), writeOut σ tm) := by
    rintro ⟨t, m⟩ σ
    have hset : ∀ (kv : Str × β) (σ : Tables β),
        (ask (.set t kv.1 kv.2) : Handler β Unit).run s c σ =
        some ((.ok (), c), σ.modify t fun x => x.set kv.1 kv.2) := fun _ _ => rfl
    rw [writeTable, writeOut, run_bind_ok (run_ask rfl)]
    cases h : σ.created t
    · rfl
    · exact run_forM hset _ σ
  have hcommit : ∀ (t : Str) (σ : Tables β), (ask (.commitChanges t) : Handler β Unit).run s c σ =
      some ((.ok (), c), σ.modify t Table.commitChanges) := fun _ _ => rfl
  have hunlock : ∀ (t : Str) (σ : Tables β), (ask (.unlock t) : Handler β Unit).run s c σ =
      some ((.ok (), c), σ.modify t fun x => { x with holder := none }) := fun _ _ => rfl
  rw [commit, run_self_bind, if_neg (by simp [hin])]
  refine run_tryCatch_ok ?_
  refine (run_bind_ok (run_forM hwrite _ σ)).trans ?_
  rw [run_bind_ok (run_forM hcommit _ _), run_bind_ok (run_forM hunlock _ _)]
  rfl

/-- A connection after `BEGIN`. -/
def ClientConnection.begun (c : ClientConnection β) : ClientConnection β :=
  { c with inTransaction := true, lockedTables := TableSet.empty }

/-- **`BEGIN`** outside of a transaction. -/
theorem run_begin (hin : c.inTransaction = false) :
    (begin : Handler β Unit).run s c σ = some ((.ok (), c.begun.say okLine), σ) := by
  rw [begin, run_self_bind, if_neg (by simp [hin])]
  rfl

/-- A `BEGIN` in a transaction is refused. -/
theorem refused_begin (hin : c.inTransaction = true) :
    Refused c σ ((begin : Handler β Unit).run s c σ) := by
  rw [begin, run_self_bind, if_pos hin]
  exact refused_sendFailed _

/-- A `COMMIT` outside of a transaction is refused. -/
theorem refused_commit (hin : c.inTransaction = false) :
    Refused c σ ((commit : Handler β Unit).run s c σ) := by
  rw [commit, run_self_bind, if_pos (by simp [hin])]
  exact refused_sendFailed _

end Ends

/-! ### Using a table in a transaction -/

section InTransaction

variable {E : Env β} {s : SessionId} {c : ClientConnection β} {σ : Tables β} {req : Message}
  {V : Str → Str → Option β}

/-- The transaction may use the table: it is locked for it, or free. -/
def Available (c : ClientConnection β) (σ : Tables β) (t : Str) : Prop :=
  t ∈ c.lockedTables ∨ (σ.table t).holder = none

/-- The tables once `t` is locked for the transaction. -/
def Tables.secured (σ : Tables β) (s : SessionId) (c : ClientConnection β) (t : Str) : Tables β :=
  if t ∈ c.lockedTables then σ else σ.modify t fun x => { x with holder := some s }

@[simp] theorem secured_created (t : Str) : (σ.secured s c t).created = σ.created := by
  rw [Tables.secured, apply_ite Tables.created, Tables.modify_created, ite_self]

theorem frame_secured (t : Str) : Frame σ (σ.secured s c t) := by
  rw [Tables.secured]
  split
  · exact .refl σ
  · exact frame_modify (fun _ => rfl) fun _ h => h

theorem secured_data (t u : Str) : ((σ.secured s c t).table u).data = (σ.table u).data :=
  (frame_secured t).data u

theorem secured_tempData (t u : Str) :
    ((σ.secured s c t).table u).tempData = (σ.table u).tempData := by
  rw [Tables.secured]
  split
  · rfl
  · rw [Tables.modify_table]
    split <;> rfl

/-- **Locking a table that is available.** -/
theorem run_lockForTransaction {t : Str} (h : Available c σ t) :
    ∃ ts, (lockForTransaction E t).run s c σ =
      some ((.ok (), { c with lockedTables := ts }), σ.secured s c t) ∧
      ∀ u, u ∈ ts ↔ u = t ∨ u ∈ c.lockedTables := by
  by_cases ht : t ∈ c.lockedTables
  · have hins : (insertLocked E t).run s c σ = some ((.ok false, c), σ) := by
      rw [Handler.run, insertLocked, dif_pos ht]
      rfl
    refine ⟨c.lockedTables, ?_, fun u => ⟨Or.inr, fun hu => hu.elim (· ▸ ht) id⟩⟩
    rw [lockForTransaction, run_bind_ok hins, Tables.secured, if_pos ht]
    rfl
  · have hfree : (σ.table t).holder = none := h.resolve_left ht
    have hins : (insertLocked E t).run s c σ = some ((.ok true,
        { c with lockedTables := c.lockedTables.insert E.addrLe t ht }), σ) := by
      rw [Handler.run, insertLocked, dif_neg ht]
      rfl
    refine ⟨_, ?_, fun u => TableSet.mem_insert E.addrLe ht⟩
    have htry : (Call.trylock t).exec s σ =
        some (true, σ.modify t fun x => { x with holder := some s }) :=
      if_neg (by simp [hfree])
    rw [lockForTransaction, run_bind_ok hins, Tables.secured, if_neg ht]
    exact (run_bind_ok (run_ask htry)).trans rfl

/-- **A table that is not available** ends the transaction. -/
theorem run_lockForTransaction_error {t : Str} (h : ¬Available c σ t) :
    ∃ c' σ', (lockForTransaction E t).run s c σ =
      some ((.error (.failedTransaction "could not lock table".toList), c'), σ') ∧
      Frame σ σ' ∧ c'.written = c.written ∧ c'.inTransaction = false := by
  obtain ⟨ht, hheld⟩ := not_or.mp h
  let c₁ : ClientConnection β := { c with lockedTables := c.lockedTables.insert E.addrLe t ht }
  have hins : (insertLocked E t).run s c σ = some ((.ok true, c₁), σ) := by
    rw [Handler.run, insertLocked, dif_neg ht]
    rfl
  have htry : (Call.trylock t).exec s σ = some (false, σ) :=
    if_pos (Option.isSome_iff_ne_none.mpr hheld)
  obtain ⟨σ', hroll, hframe⟩ := run_rollback (s := s) (c := c₁) (σ := σ)
  refine ⟨c₁.rolledBack, σ', ?_, hframe, rolledBack_written c₁, rolledBack_inTransaction c₁⟩
  rw [lockForTransaction, run_bind_ok hins]
  refine (run_bind_ok (run_ask htry)).trans ?_
  exact (run_bind_ok hroll).trans rfl

/-- A request on the table `t` has left the transaction open. -/
structure Advances (t : Str) (c c' : ClientConnection β) : Prop where
  inTransaction : c'.inTransaction = true
  /-- The table is locked now. -/
  locked : ∀ u, u ∈ c'.lockedTables ↔ u = t ∨ u ∈ c.lockedTables
  /-- The changes to other tables are what they were. -/
  buffer : ∀ u, u ≠ t → c'.transactionBuffer[u]? = c.transactionBuffer[u]?

theorem Advances.covered {t : Str} {c' : ClientConnection β} {created : Str → Bool}
    (h : Advances t c c') (hcov : c.Covered created) (ht : created t = true) :
    c'.Covered created := by
  intro u m hm
  rcases eq_or_ne u t with rfl | hne
  · exact ⟨ht, (h.locked u).mpr (Or.inl rfl)⟩
  · rw [h.buffer u hne] at hm
    exact ⟨(hcov u m hm).1, (h.locked u).mpr (Or.inr (hcov u m hm).2)⟩

/-- What was available stays available. -/
theorem Advances.available {t u : Str} {c' : ClientConnection β} (h : Advances t c c')
    (hu : Available c σ u) : Available c' (σ.secured s c t) u := by
  rcases eq_or_ne u t with rfl | hne
  · exact Or.inl ((h.locked u).mpr (Or.inl rfl))
  · refine hu.imp (fun hu => (h.locked u).mpr (Or.inr hu)) fun hu => ?_
    rw [Tables.secured]
    split
    · exact hu
    · rw [Tables.modify_table_of_ne σ hne]
      exact hu

/-- How the server compares with what a request should do that uses the table `t`
in a transaction. -/
structure AgreesOn (V : Str → Str → Option β) (s : SessionId) (c : ClientConnection β)
    (σ : Tables β) (t : Str) (out : Option (Str × Store β)) (h : Handler β Unit) : Prop where
  answered : ∀ line x, out = some (line, x) → Available c σ t → σ.created t = true ∧ ∃ c',
    h.run s c σ = some ((.ok (), c'), σ.secured s c t) ∧ c'.written = c.written ++ [line] ∧
      c'.shows σ.created V = x ∧ Advances t c c'
  refused : out = none ∨ ¬Available c σ t → Refused c σ (h.run s c σ)

/-- Where nothing is answered, the handler is to refuse. -/
theorem AgreesOn.of_refused {t : Str} {h : Handler β Unit} (href : Refused c σ (h.run s c σ)) :
    AgreesOn V s c σ t none h :=
  ⟨fun _ _ hout => absurd hout (Option.some_ne_none _).symm, fun _ => href⟩

/-- A change in the buffer. -/
theorem buffered_insert {c' : ClientConnection β} {t k : Str} {v : β}
    (h : c'.transactionBuffer = c.transactionBuffer.insert t
      ((c.transactionBuffer[t]?.getD ∅).insert k v)) (t' k' : Str) :
    c'.buffered t' k' = Function.update c.buffered t (Function.update (c.buffered t) k (some v))
      t' k' := by
  rw [ClientConnection.buffered, h, Std.ExtTreeMap.getElem?_insert]
  rcases eq_or_ne t' t with rfl | hne
  · rw [if_pos Std.ReflCmp.compare_self, Function.update_self, Option.bind_some,
      Std.ExtTreeMap.getElem?_insert]
    rcases eq_or_ne k' k with rfl | hnek
    · rw [if_pos Std.ReflCmp.compare_self, Function.update_self]
    · rw [if_neg fun hk => hnek (Std.LawfulEqCmp.eq_of_compare hk).symm,
        Function.update_of_ne hnek, ClientConnection.buffered]
      cases c.transactionBuffer[t']? <;> simp
  · rw [if_neg fun ht => hne (Std.LawfulEqCmp.eq_of_compare ht).symm, Function.update_of_ne hne]
    rfl

/-- **A change in the buffer is a change in what is shown.** -/
theorem shows_value_insert {c' : ClientConnection β} {t k : Str} {v : β}
    (h : c'.transactionBuffer = c.transactionBuffer.insert t
      ((c.transactionBuffer[t]?.getD ∅).insert k v)) (created : Str → Bool)
    (V : Str → Str → Option β) : (c'.shows created V).value =
      Function.update (c.shows created V).value t
        (Function.update ((c.shows created V).value t) k (some v)) := by
  funext t' k'
  refine (congrArg (Option.or · (V t' k')) (buffered_insert h t' k')).trans ?_
  rcases eq_or_ne t' t with rfl | ht
  · rw [Function.update_self, Function.update_self]
    rcases eq_or_ne k' k with rfl | hk
    · rw [Function.update_self, Function.update_self, Option.some_or]
    · rw [Function.update_of_ne hk, Function.update_of_ne hk]
      rfl
  · rw [Function.update_of_ne ht, Function.update_of_ne ht]
    rfl

/-- A well-formed request on a table names the table and the key by identifiers. -/
theorem isValidIdentifier_of_isValid (hty : req.messageType = .set ∨ req.messageType = .get)
    (hvalid : req.isValid = true) : Message.isValidIdentifier req.getTable = true ∧
      Message.isValidIdentifier req.getKey = true := by
  obtain ⟨type, args⟩ := req
  rcases hty with rfl | rfl <;>
  · rw [Message.isValid] at hvalid
    dsimp only at hvalid
    split at hvalid
    · exact (Bool.and_eq_true _ _).mp hvalid
    · exact absurd hvalid (by decide)

/-- The `try` of `set`. -/
def popInto (E : Env β) (t table key : Str) : Handler β Unit := do
  let val ← stackGetTop
  stackPop
  storeValue E t table key val
  noteUse table key
  sendOk

/-- A `SET` up to where it pops its value. -/
theorem run_set (hty : req.messageType = .set) (hvalid : req.isValid = true) :
    (set E req).run s c σ =
      (if c.hasStack && σ.created req.getTable then
        MonadExcept.tryCatch (popInto E req.getTable req.getTable req.getKey)
          (catchSet req.getTable)
      else if c.hasStack then sendFailed "no such table".toList
      else sendFailed "no active key".toList : Handler β Unit).run s c σ := by
  obtain ⟨htable, hkey⟩ := isValidIdentifier_of_isValid (Or.inl hty) hvalid
  have hfind : (Call.findTable req.getTable).exec s σ =
      some (if σ.created req.getTable then some req.getTable else none, σ) := rfl
  rw [set]
  change (if _ then _ else if _ then _ else _ : Handler β Unit).run s c σ = _
  rw [if_neg (by simp [hkey]), if_neg (by simp [htable]), run_bind_ok (run_ask hfind),
    run_self_bind]
  cases c.hasStack
  · rfl
  · cases σ.created req.getTable <;> rfl

/-- Whatever the `catch` block of `set` has caught, it refuses the request. -/
theorem refused_catchSet (t : Str) (e : Exn) : Refused c σ ((catchSet t e).run s c σ) := by
  rw [catchSet, run_self_bind]
  dsimp only
  split
  · rw [run_bind_ok (run_ask rfl)]
    exact (refused_sendFailed _).of_frame rfl (frame_modify (fun _ => rfl) fun _ h => h)
  · exact refused_sendFailed _

/-- The store after a `SET` of `v`, `vs` being what is left of the stack. -/
def Store.stored (x : Store β) (E : Env β) (t key : Str) (v : β) (vs : List β) : Store β :=
  { x with
    stack := vs
    value := Function.update x.value t (Function.update (x.value t) key (some (E.stamp v))) }

theorem act_set (hty : req.messageType = .set) :
    act E req (c.shows σ.created V) =
      match c.hasStack && σ.created req.getTable, c.stack with
      | true, v :: vs => some (okLine,
          (c.shows σ.created V).stored E req.getTable req.getKey v vs)
      | _, _ => none := by
  rw [act, hty]
  rfl

/-- **A `SET` up to where it stores**: it fails, or pops a value and goes on. -/
theorem set_cases (hty : req.messageType = .set) (hvalid : req.isValid = true) :
    (act E req (c.shows σ.created V) = none ∧ Refused c σ ((set E req).run s c σ)) ∨
      ∃ v vs, c.stack = v :: vs ∧ c.hasStack = true ∧ σ.created req.getTable = true ∧
        act E req (c.shows σ.created V) =
          some (okLine, (c.shows σ.created V).stored E req.getTable req.getKey v vs) ∧
        (set E req).run s c σ = (MonadExcept.tryCatch (do
          storeValue E req.getTable req.getTable req.getKey v
          noteUse req.getTable req.getKey
          sendOk) (catchSet req.getTable) : Handler β Unit).run s { c with stack := vs } σ := by
  have hact := act_set (E := E) (c := c) (σ := σ) (V := V) hty
  have hrun := run_set (E := E) (s := s) (c := c) (σ := σ) hty hvalid
  by_cases hthere : (c.hasStack && σ.created req.getTable) = true
  · rw [if_pos hthere] at hrun
    rw [hthere] at hact
    rcases hstack : c.stack with _ | ⟨v, vs⟩
    · -- there is nothing to store
      rw [hstack] at hact
      refine Or.inl ⟨hact, ?_⟩
      have hpop : (popInto E req.getTable req.getTable req.getKey).run s c σ =
          some ((.error (.operationException "ValueStack is empty".toList), c), σ) := by
        refine run_bind_error ?_
        rw [stackGetTop, run_self_bind, hstack]
        rfl
      rw [hrun, run_tryCatch_error hpop]
      exact refused_catchSet _ _
    · rw [hstack] at hact
      obtain ⟨hstk, hcreated⟩ := (Bool.and_eq_true _ _).mp hthere
      refine Or.inr ⟨v, vs, rfl, hstk, hcreated, hact, hrun.trans ?_⟩
      refine run_tryCatch_congr ?_
      rw [popInto, run_bind_ok (run_stackGetTop hstack), run_bind_ok (run_stackPop hstack)]
  · rw [if_neg hthere] at hrun
    refine Or.inl ⟨?_, ?_⟩
    · rw [hact, Bool.not_eq_true _ |>.mp hthere]
    · rw [hrun]
      split <;> exact refused_sendFailed _

/-- **A `SET` in a transaction**. -/
theorem agreesOn_set (hty : req.messageType = .set) (hvalid : req.isValid = true)
    (hin : c.inTransaction = true) :
    AgreesOn V s c σ req.getTable (act E req (c.shows σ.created V)) (set E req) := by
  rcases set_cases (E := E) (s := s) (c := c) (σ := σ) (V := V) hty hvalid with
    ⟨hact, hrun⟩ | ⟨v, vs, hstack, hstk, hcreated, hact, hrun⟩
  · rw [hact]
    exact .of_refused hrun
  · refine ⟨fun line x hout hav => ?_, fun h => ?_⟩
    · obtain ⟨ts, hlock, hts⟩ := run_lockForTransaction (E := E) (s := s)
        (c := { c with stack := vs }) (t := req.getTable) hav
      let c' : ClientConnection β := { c with
        stack := vs
        lockedTables := ts
        transactionBuffer := c.transactionBuffer.insert req.getTable
          ((c.transactionBuffer[req.getTable]?.getD ∅).insert req.getKey (E.stamp v))
        table := req.getTable
        key := req.getKey
        hasStack := true }
      have hstore : (storeValue E req.getTable req.getTable req.getKey v).run s
          { c with stack := vs } σ = some ((.ok (), { c with
            stack := vs
            lockedTables := ts
            transactionBuffer := c.transactionBuffer.insert req.getTable
              ((c.transactionBuffer[req.getTable]?.getD ∅).insert req.getKey (E.stamp v)) }),
            σ.secured s c req.getTable) := by
        rw [storeValue, run_self_bind, if_pos hin, run_bind_ok hlock]
        rfl
      obtain ⟨rfl, rfl⟩ := Prod.mk.inj (Option.some.inj (hact.symm.trans hout))
      refine ⟨hcreated, c'.say okLine, ?_, rfl, ?_, hin, hts, fun u hu => ?_⟩
      · rw [hrun]
        exact run_tryCatch_ok (run_bind_ok hstore)
      · -- what is shown has changed where the buffer has
        have hvalue : (c'.shows σ.created V).value = _ := shows_value_insert rfl σ.created V
        have hshows : (c'.say okLine).shows σ.created V = { c.shows σ.created V with
            stack := vs
            hasStack := true
            value := (c'.shows σ.created V).value } := rfl
        rw [hshows, hvalue, ← hstk]
        rfl
      · exact (Std.ExtTreeMap.getElem?_insert ..).trans
          (if_neg fun h => hu (Std.LawfulEqCmp.eq_of_compare h).symm)
    · have hav : ¬Available c σ req.getTable := h.resolve_left (by rw [hact]; nofun)
      obtain ⟨c', σ', hlock, hframe, hw, hin'⟩ := run_lockForTransaction_error (E := E) (s := s)
        (c := { c with stack := vs }) (t := req.getTable) hav
      have hstore : (storeValue E req.getTable req.getTable req.getKey v).run s
          { c with stack := vs } σ =
          some ((.error (.failedTransaction "could not lock table".toList), c'), σ') := by
        rw [storeValue, run_self_bind, if_pos hin]
        exact run_bind_error hlock
      rw [hrun, run_tryCatch_error (run_bind_error hstore)]
      exact (refused_catchSet _ _).of_frame hw hframe

/-- What `get` finds in a table without temporary changes. -/
def found (c : ClientConnection β) (σ : Tables β) (t key : Str) : Option β :=
  (if c.inTransaction then c.buffered t key else none).or (σ.values t key)

theorem run_readValue {t key : Str} (htemp : (σ.table t).tempData = ∅) :
    (readValue t t key).run s c σ = some ((match found c σ t key with
      | some v => .ok v
      | none => .error (.operationException "no such key".toList), c), σ) := by
  have hhas : (Call.hasKey t key).exec s σ = some ((σ.values t key).isSome, σ) := by
    rw [Call.exec, Table.hasKey, htemp]
    simp [Tables.values]
  have hget : (Call.get t key).exec s σ = some (match σ.values t key with
      | some v => .ok v
      | none => .error (.operationException ("Key not found: ".toList ++ key)), σ) := by
    rw [Call.exec, Table.get, htemp]
    simp only [Std.ExtTreeMap.getElem?_empty]
    rfl
  rw [readValue, run_self_bind]
  simp only [found, ClientConnection.buffered]
  cases hbuf : (if c.inTransaction then c.transactionBuffer[t]?.bind (·[key]?) else none) with
  | some v => rfl
  | none =>
    dsimp only
    rw [run_bind_ok (run_ask hhas), Option.none_or]
    cases hval : σ.values t key with
    | none => rfl
    | some v =>
      rw [hval] at hget
      exact (run_bind_ok (run_ask hget)).trans rfl

/-- A `GET` up to where it looks for the table. -/
theorem run_get (req : Message) : (get E req).run s c σ =
      (if σ.created req.getTable then
        if c.inTransaction then do
          lockForTransaction E req.getTable
          getFrom req.getTable req.getTable req.getKey
        else getFrom req.getTable req.getTable req.getKey
      else sendFailed "no such table".toList : Handler β Unit).run s c σ := by
  have hfind : (Call.findTable req.getTable).exec s σ =
      some (if σ.created req.getTable then some req.getTable else none, σ) := rfl
  rw [get]
  dsimp only
  rw [run_bind_ok (run_ask hfind)]
  cases σ.created req.getTable
  · rfl
  · simp only [if_true, run_self_bind]

/-- A key that is not there: `GET` fails. -/
theorem refused_getFrom {t key : Str} (htemp : (σ.table t).tempData = ∅)
    (hnone : found c σ t key = none) : Refused c σ ((getFrom t t key).run s c σ) := by
  have hread : (readValue t t key).run s c σ =
      some ((.error (.operationException "no such key".toList), c), σ) := by
    rw [run_readValue htemp, hnone]
  rw [getFrom, run_tryCatch_error (run_bind_error hread), catchGet, run_self_bind]
  split
  · obtain ⟨σ', hroll, hframe⟩ := run_rollback (s := s) (c := c) (σ := σ)
    rw [run_bind_ok hroll]
    exact refused_error (rolledBack_written c) hframe
  · rw [run_bind_ok (run_ask rfl)]
    exact (refused_sendFailed _).of_frame rfl (frame_modify (fun _ => rfl) fun _ h => h)

/-- A connection after a `GET` that has found `v`. -/
def ClientConnection.got (c : ClientConnection β) (t key : Str) (v : β) : ClientConnection β :=
  { c with stack := v :: c.stack, table := t, key := key, hasStack := true }

/-- A key that is there. -/
theorem run_getFrom {t key : Str} {v : β} (htemp : (σ.table t).tempData = ∅)
    (hsome : found c σ t key = some v) :
    (getFrom t t key).run s c σ = some ((.ok (), (c.got t key v).say okLine),
      if c.inTransaction then σ else σ.modify t fun x => { x with holder := none }) := by
  have hread : (readValue t t key).run s c σ = some ((.ok v, c), σ) := by
    rw [run_readValue htemp, hsome]
  refine run_tryCatch_ok ?_
  rw [run_bind_ok hread]
  change ((do
    if !(← self).inTransaction then ask (.unlock t)
    sendOk : Handler β Unit)).run s (c.got t key v) σ = _
  rw [run_self_bind]
  change (if !c.inTransaction then _ else _ : Handler β Unit).run s (c.got t key v) σ = _
  cases c.inTransaction <;> rfl

/-- **A `GET` in a transaction**. -/
theorem agreesOn_get (hty : req.messageType = .get) (hin : c.inTransaction = true)
    (htemp : (σ.table req.getTable).tempData = ∅)
    (hV : ∀ k, V req.getTable k = σ.values req.getTable k) :
    AgreesOn V s c σ req.getTable (act E req (c.shows σ.created V)) (get E req) := by
  have hvalue : (c.shows σ.created V).value req.getTable req.getKey =
      found c σ req.getTable req.getKey := by
    rw [found, if_pos hin, ← hV]
    rfl
  have hact := act_get E hty (c.shows σ.created V)
  rw [hvalue, ClientConnection.shows_created] at hact
  have hrun := run_get (E := E) (s := s) (c := c) (σ := σ) req
  by_cases hcreated : σ.created req.getTable = true
  swap
  · rw [if_neg hcreated] at hrun
    rw [hact, if_neg hcreated]
    refine .of_refused ?_
    rw [hrun]
    exact refused_sendFailed _
  rw [if_pos hcreated, if_pos hin] at hrun
  rw [if_pos hcreated] at hact
  by_cases hav : Available c σ req.getTable
  · obtain ⟨ts, hlock, hts⟩ := run_lockForTransaction (E := E) (s := s) hav
    have hfound : found { c with lockedTables := ts } (σ.secured s c req.getTable) req.getTable
        req.getKey = found c σ req.getTable req.getKey := by
      rw [found, found, Tables.values, secured_data]
      rfl
    have htemp' := (secured_tempData (s := s) (c := c) (σ := σ) req.getTable req.getTable).trans
      htemp
    rw [run_bind_ok hlock] at hrun
    cases hf : found c σ req.getTable req.getKey with
    | none =>
      rw [hf] at hact hfound
      rw [hact]
      refine .of_refused ?_
      rw [hrun]
      exact (refused_getFrom htemp' hfound).of_frame rfl (frame_secured _)
    | some v =>
      rw [hf] at hact hfound
      rw [hact]
      refine ⟨?_, fun h => absurd hav (h.resolve_left (Option.some_ne_none _))⟩
      rintro _ _ ⟨⟩ -
      have hgot := run_getFrom (s := s) htemp' hfound
      rw [if_pos hin] at hgot
      exact ⟨hcreated, _, hrun.trans hgot, rfl, rfl, hin, hts, fun _ _ => rfl⟩
  · refine ⟨fun _ _ _ h => absurd h hav, fun _ => ?_⟩
    obtain ⟨c', σ', hlock, hframe, hw, -⟩ := run_lockForTransaction_error (E := E) (s := s) hav
    rw [hrun, run_bind_error hlock]
    exact refused_error hw hframe

/-- **A `SET` or a `GET` in a transaction**: answered as it should be, if its table
is available, and else refused. -/
theorem run_inTransaction (hty : req.messageType = .set ∨ req.messageType = .get)
    (hin : c.inTransaction = true) (htemp : (σ.table req.getTable).tempData = ∅)
    (hV : ∀ k, V req.getTable k = σ.values req.getTable k) :
    (∀ line x, perform E req (c.shows σ.created V) = some (line, x) →
      Available c σ req.getTable → σ.created req.getTable = true ∧ ∃ c',
        Answered E s req c σ line c' (σ.secured s c req.getTable) ∧ c'.shows σ.created V = x ∧
          Advances req.getTable c c') ∧
      (perform E req (c.shows σ.created V) = none ∨ ¬Available c σ req.getTable →
        Refused c σ ((serve E req).run s c σ)) := by
  rcases admitted_or_refused (E := E) (s := s) (σ := σ) req σ.created V with ⟨hadm, hp⟩ | ⟨hp, hrun⟩
  · obtain ⟨h, hh, hag⟩ : ∃ h, handlerOf E req = some h ∧
        AgreesOn V s c σ req.getTable (act E req (c.shows σ.created V)) h := by
      rcases hty with hty | hty
      · exact ⟨_, by rw [handlerOf, hty], agreesOn_set hty hadm.valid hin⟩
      · exact ⟨_, by rw [handlerOf, hty], agreesOn_get hty hin htemp hV⟩
    rw [hp]
    refine ⟨fun line x hout hav => ?_, fun h => refused_of_handler hadm hh (hag.refused h)⟩
    obtain ⟨hcreated, c', hrun, hw, hx, hadv⟩ := hag.answered line x hout hav
    exact ⟨hcreated, c', answered_of_handler hadm hh hrun hw, hx, hadv⟩
  · refine ⟨fun line x h => ?_, fun _ => hrun⟩
    rw [hp] at h
    exact absurd h (Option.some_ne_none _).symm

end InTransaction

/-! ### Using a table outside of transactions -/

section Autocommit

variable {E : Env β} {s : SessionId} {c : ClientConnection β} {σ : Tables β} {req : Message}

/-- How the server compares with what a request should do that uses the table `t`
outside of transactions. -/
def AgreesAuto (s : SessionId) (c : ClientConnection β) (σ : Tables β) (t : Str)
    (out : Option (Str × Store β)) (h : Handler β Unit) : Prop :=
  match out with
  | some (line, x) => ∃ c' σ', h.run s c σ = some ((.ok (), c'), σ') ∧
      c'.written = c.written ++ [line] ∧ c'.shows σ'.created σ'.values = x ∧ SameTxn c c' ∧
      σ'.Clean ∧ ∀ u, (σ'.table u).holder = if u = t then none else (σ.table u).holder
  | none => Refused c σ (h.run s c σ)

theorem buffered_of_empty (hbuf : c.transactionBuffer = ∅) (t k : Str) : c.buffered t k = none := by
  rw [ClientConnection.buffered, hbuf, Std.ExtTreeMap.getElem?_empty]
  rfl

/-- With nothing buffered, a session shows what is committed. -/
theorem shows_value_of_empty {created : Str → Bool} {V : Str → Str → Option β}
    (hbuf : c.transactionBuffer = ∅) (t k : Str) : (c.shows created V).value t k = V t k :=
  (congrArg (Option.or · (V t k)) (buffered_of_empty hbuf t k)).trans Option.none_or

/-- What a table is after an autocommitted `SET`. -/
def Table.stored (x : Table β) (key : Str) (v : β) : Table β where
  holder := none
  data := overlay x.data (x.tempData.insert key v)
  tempData := ∅

/-- **A value stored in a table is a change in what is shown**, with nothing buffered. -/
theorem values_stored (hbuf : c.transactionBuffer = ∅) (hclean : σ.Clean) {σ' : Tables β}
    {t key : Str} {v : β} (hself : σ'.table t = (σ.table t).stored key v)
    (hother : ∀ u, u ≠ t → σ'.table u = σ.table u) (created : Str → Bool) :
    σ'.values = Function.update (c.shows created σ.values).value t
      (Function.update ((c.shows created σ.values).value t) key (some v)) := by
  funext u k
  rw [Tables.values]
  rcases eq_or_ne u t with rfl | hu
  · rw [hself, Function.update_self, Table.stored, getElem?_overlay, hclean,
      Std.ExtTreeMap.getElem?_insert]
    rcases eq_or_ne k key with rfl | hk
    · rw [if_pos Std.ReflCmp.compare_self, Function.update_self, Option.some_or]
    · rw [if_neg fun h => hk (Std.LawfulEqCmp.eq_of_compare h).symm, Function.update_of_ne hk,
        Std.ExtTreeMap.getElem?_empty, Option.none_or, shows_value_of_empty hbuf]
      rfl
  · rw [hother u hu, Function.update_of_ne hu, shows_value_of_empty hbuf]
    rfl

/-- **A `SET` outside of transactions**. -/
theorem agreesAuto_set (hty : req.messageType = .set) (hvalid : req.isValid = true)
    (hin : c.inTransaction = false) (hbuf : c.transactionBuffer = ∅) (hclean : σ.Clean)
    (hfree : (σ.table req.getTable).holder = none) :
    AgreesAuto s c σ req.getTable (act E req (c.shows σ.created σ.values)) (set E req) := by
  rcases set_cases (E := E) (s := s) (c := c) (σ := σ) (V := σ.values) hty hvalid with
    ⟨hact, hrun⟩ | ⟨v, vs, hstack, hstk, hcreated, hact, hrun⟩
  · rw [hact]
    exact hrun
  rw [hact]
  have hlock : (Call.lock req.getTable).exec s σ =
      some ((), σ.modify req.getTable fun x => { x with holder := some s }) :=
    if_neg (by simp [hfree])
  let σ' := (((σ.modify req.getTable fun x => { x with holder := some s }).modify req.getTable
    fun x => x.set req.getKey (E.stamp v)).modify req.getTable Table.commitChanges).modify
      req.getTable fun x => { x with holder := none }
  have hself : σ'.table req.getTable =
      (σ.table req.getTable).stored req.getKey (E.stamp v) := by
    simp only [σ', Tables.modify_table_self]
    rfl
  have hother : ∀ t, t ≠ req.getTable → σ'.table t = σ.table t := by
    intro t ht
    simp only [σ', Tables.modify_table_of_ne _ ht]
  have hstore : (storeValue E req.getTable req.getTable req.getKey v).run s
      { c with stack := vs } σ = some ((.ok (), { c with stack := vs }), σ') := by
    rw [storeValue, run_self_bind, if_neg (by simp [hin]), run_bind_ok (run_ask hlock)]
    rfl
  refine ⟨_, σ', hrun.trans (run_tryCatch_ok (run_bind_ok hstore)), rfl, ?_, ⟨rfl, rfl, rfl⟩,
    fun t => ?_, fun t => ?_⟩
  · have hvalue := values_stored hbuf hclean hself hother σ.created
    have hshows : ClientConnection.shows ({ c with
        stack := vs, table := req.getTable, key := req.getKey, hasStack := true }.say okLine)
        σ'.created σ'.values = { c.shows σ.created σ.values with
          stack := vs
          hasStack := true
          value := (c.shows σ.created σ'.values).value } := rfl
    have hplain : (c.shows σ.created σ'.values).value = σ'.values :=
      funext fun t => funext fun k => shows_value_of_empty hbuf t k
    refine hshows.trans ?_
    rw [hplain, hvalue, ← hstk]
    rfl
  · rcases eq_or_ne t req.getTable with rfl | ht
    · rw [hself]
      rfl
    · rw [hother t ht]
      exact hclean t
  · rcases eq_or_ne t req.getTable with rfl | ht
    · rw [hself, if_pos rfl]
      rfl
    · rw [hother t ht, if_neg ht]

/-- **A `GET` outside of transactions**. -/
theorem agreesAuto_get (hty : req.messageType = .get) (hin : c.inTransaction = false)
    (hbuf : c.transactionBuffer = ∅) (hclean : σ.Clean) :
    AgreesAuto s c σ req.getTable (act E req (c.shows σ.created σ.values)) (get E req) := by
  have hfound : found c σ req.getTable req.getKey = σ.values req.getTable req.getKey := by
    rw [found, if_neg (by simp [hin]), Option.none_or]
  have hact := act_get E hty (c.shows σ.created σ.values)
  rw [shows_value_of_empty hbuf, ClientConnection.shows_created] at hact
  have hrun := run_get (E := E) (s := s) (c := c) (σ := σ) req
  by_cases hcreated : σ.created req.getTable = true
  swap
  · rw [if_neg hcreated] at hrun
    rw [hact, if_neg hcreated, AgreesAuto, hrun]
    exact refused_sendFailed _
  rw [if_pos hcreated, if_neg (by simp [hin])] at hrun
  rw [if_pos hcreated] at hact
  cases hf : σ.values req.getTable req.getKey with
  | none =>
    rw [hf] at hact
    rw [hact, Option.map_none, AgreesAuto, hrun]
    exact refused_getFrom (hclean _) (hfound.trans hf)
  | some v =>
    rw [hf] at hact
    rw [hact]
    have hgot := run_getFrom (s := s) (hclean _) (hfound.trans hf)
    rw [if_neg (by simp [hin])] at hgot
    have hframe : Frame σ (σ.modify req.getTable fun x => { x with holder := none }) :=
      frame_modify (fun _ => rfl) fun _ h => h
    refine ⟨_, _, hrun.trans hgot, rfl, ?_, ⟨rfl, rfl, rfl⟩,
      fun u => hframe.tempData u (hclean u), fun u => ?_⟩
    · rw [hframe.values, hframe.created]
      rfl
    · rw [Tables.modify_table, apply_ite Table.holder]

/-- **A `SET` or a `GET` outside of transactions**: answered as it should be, or
refused. -/
theorem run_autocommit (hty : req.messageType = .set ∨ req.messageType = .get)
    (hin : c.inTransaction = false) (hbuf : c.transactionBuffer = ∅) (hclean : σ.Clean)
    (hfree : (σ.table req.getTable).holder = none) :
    match perform E req (c.shows σ.created σ.values) with
    | some (line, x) => ∃ c' σ', Answered E s req c σ line c' σ' ∧
        c'.shows σ'.created σ'.values = x ∧ SameTxn c c' ∧ σ'.Clean ∧
        ∀ u, (σ'.table u).holder = if u = req.getTable then none else (σ.table u).holder
    | none => Refused c σ ((serve E req).run s c σ) := by
  rcases admitted_or_refused (E := E) (s := s) (σ := σ) req σ.created σ.values with
    ⟨hadm, hp⟩ | ⟨hp, hrun⟩
  · obtain ⟨h, hh, hag⟩ : ∃ h, handlerOf E req = some h ∧
        AgreesAuto s c σ req.getTable (act E req (c.shows σ.created σ.values)) h := by
      rcases hty with hty | hty
      · exact ⟨_, by rw [handlerOf, hty], agreesAuto_set hty hadm.valid hin hbuf hclean hfree⟩
      · exact ⟨_, by rw [handlerOf, hty], agreesAuto_get hty hin hbuf hclean⟩
    rw [hp]
    cases hact : act E req (c.shows σ.created σ.values) with
    | none =>
      rw [hact] at hag
      exact refused_of_handler hadm hh hag
    | some out =>
      rw [hact] at hag
      obtain ⟨c', σ', hrun, hw, hx, hrest⟩ := hag
      exact ⟨c', σ', answered_of_handler hadm hh hrun hw, hx, hrest⟩
  · rw [hp]
    exact hrun

end Autocommit

end Server

end Csf
