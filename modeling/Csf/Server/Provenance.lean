import Csf.Server.Run

/-!
# Where a stored value comes from

What becomes of the writes of a transaction is a question about particular writes,
not about values: the same value may well be written again. So here the server
stores cells that carry a *tag* beside their text – the session and the number of
the input of the `SET` that wrote them (`Csf.Server.taggedEnv`). The handlers are
the ones of the server; they never look at the tag.

For a round of the loop three things are shown, from the state `s₀` it begins in.

* Into the tables it writes its own tag outside of a transaction, and in one, only
  by a `COMMIT`, tags of the buffer (`Csf.Server.tracing`, `Csf.Server.writable`).
* The buffer it leaves, in a transaction, holds what was buffered and its own tag;
  and nothing when the transaction has just begun, if nothing was left over before
  (`Csf.Server.endsIn_buffered`).
* A `GET` pushes a cell it has read from a table, or its own buffer's
  (`Csf.Server.endsIn_fetched`).
-/

namespace Csf

namespace Server

open Interaction Handler

variable {α : Type}

/-- A `SET`: its session, and the number of its input there. -/
abbrev Tag := SessionId × ℕ

/-- A value that knows which `SET` has written it; a value that was pushed or
computed has been written by none. -/
structure Cell where
  /-- The value. -/
  text : Str
  /-- Its origin. -/
  tag : Option Tag
  deriving DecidableEq

/-- The server storing cells. -/
def taggedEnv (addrLe : Str → Str → Bool) : SessionId → ℕ → Env Cell := fun t n =>
  { lit := fun text => ⟨text, none⟩
    text := Cell.text
    stamp := fun c => ⟨c.text, some (t, n)⟩
    addrLe := addrLe }

/-- The cell is in `m_transaction_buffer`. -/
def Buffered (s : ClientConnection Cell) (c : Cell) : Prop :=
  ∃ (t : Str) (m : StrMap Cell) (k : Str), s.transactionBuffer[t]? = some m ∧ m[k]? = some c

theorem Buffered.of_sameTxn {s s' : ClientConnection Cell} (h : SameTxn s s') {c : Cell}
    (hc : Buffered s' c) : Buffered s c := by
  rwa [Buffered, h.transactionBuffer] at hc

/-- The protocol of a session that writes tags of `writable` only; the ghost value
is the set of the tags it has read from tables. -/
def tracing (writable : Set (Option Tag)) :
    Protocol (Call Cell) Call.Result (Set (Option Tag)) where
  pre c _ := match c with
    | .set _ _ v => v.tag ∈ writable
    | _ => True
  may _ _ _ := True
  after c g r := match c, r with
    | .get _ _, (.ok v : Except Exn Cell) => insert v.tag g
    | _, _ => g

theorem indifferent_tracing {W : Set (Option Tag)} : Indifferent (tracing W) :=
  ⟨fun _ _ => ⟨trivial, fun _ => rfl⟩, fun _ _ => ⟨trivial, fun _ => rfl⟩,
    fun _ _ => ⟨trivial, fun _ => rfl⟩⟩

theorem lenient_tracing {W : Set (Option Tag)} : Lenient (tracing W) :=
  ⟨fun _ => trivial, fun _ _ => ⟨trivial, fun _ => rfl⟩⟩

/-- The request is a `COMMIT` that is going to be served in a transaction. -/
def commits (i : Input) (s : ClientConnection Cell) : Bool :=
  match i.request? with
  | some req =>
      s.hasLoggedIn && req.isValid && req.messageType == .commit && s.inTransaction
  | none => false

/-- The tags a session may write to tables while it serves its input number `n`,
which came in the state `s₀`: in a transaction none, but for a `COMMIT`, which
writes what is buffered. -/
def writable (t : SessionId) (n : ℕ) (i : Input) (s₀ : ClientConnection Cell) :
    Set (Option Tag) :=
  fun tag => if s₀.inTransaction = true then commits i s₀ = true ∧ ∃ c, Buffered s₀ c ∧ c.tag = tag
    else tag = some (t, n)

/-- What may be buffered in a transaction, in the round that began in `s₀`. -/
def Keeping (tag : Tag) (s₀ s : ClientConnection Cell) (_ : Set (Option Tag)) : Prop :=
  s.inTransaction = true → ∀ c, Buffered s c →
    s₀.inTransaction = true ∧ (c.tag = some tag ∨ Buffered s₀ c)

section Buffer

variable {W : Set (Option Tag)} {tag : Tag} {s₀ : ClientConnection Cell}

theorem Keeping.of_sameTxn {s s' : ClientConnection Cell} {g : Set (Option Tag)}
    (h : SameTxn s s') (hs : Keeping tag s₀ s g) : Keeping tag s₀ s' g := fun hin c hc =>
  hs (h.inTransaction ▸ hin) c (hc.of_sameTxn h)

theorem keeping_quiet {h : Handler Cell α} (hh : Quiet h) :
    Keeps (tracing W) (Keeping tag s₀) h :=
  hh.keeps (fun _ _ _ hs hg => hg.of_sameTxn hs) lenient_tracing

/-- A call leaves the connection alone. -/
theorem keeping_ask {c : Call Cell} (hpre : ∀ g, (tracing W).pre c g) :
    Keeps (tracing W) (Keeping tag s₀) (ask c) :=
  fun _ g hs => ⟨hpre g, fun _ _ => hs⟩

theorem keeping_rollback : Keeps (tracing W) (Keeping tag s₀) rollbackTransaction := by
  refine fun s g hs => (tracing W).wp_mono indifferent_tracing.wp_rollbackTransaction ?_
  rintro g' _ ⟨rfl, -⟩ hin
  exact absurd hin (by simp)

theorem keeping_lockForTransaction (E : Env Cell) (t : Str) :
    Keeps (tracing W) (Keeping tag s₀) (lockForTransaction E t) := by
  refine fun s g hs => (tracing W).wp_mono indifferent_tracing.wp_lockForTransaction ?_
  rintro g' _ ⟨-, ts, rfl | rfl⟩ hin
  · exact hs hin
  · exact absurd hin (by simp)

theorem keeping_create (req : Message) :
    Keeps (tracing W) (Keeping tag s₀) (create req) :=
  Keeps.ite (keeping_quiet (.throw _))
    (Keeps.bind (keeping_ask fun _ => trivial) fun _ => keeping_quiet .sendOk)

/-- A transaction that begins with nothing left over in the buffer has nothing
buffered. -/
theorem endsIn_begin {g : Set (Option Tag)} (hg : Keeping tag s₀ s₀ g)
    (hempty : s₀.inTransaction = false → s₀.transactionBuffer = ∅) :
    EndsIn (tracing W) (Keeping tag s₀) begin s₀ g := by
  rw [begin]
  change EndsIn _ _ (if _ then _ else _) s₀ g
  split
  · exact keeping_quiet (.sendFailed _) s₀ g hg
  · rename_i hin
    refine keeping_quiet .sendOk
      { s₀ with inTransaction := true, lockedTables := TableSet.empty } g ?_
    rintro - c ⟨t, m, k, hm, -⟩
    rw [hempty (Bool.eq_false_iff.mpr hin)] at hm
    exact absurd hm (by simp)

/-- A write of the transaction goes into the buffer with the tag of the `SET`. -/
theorem endsIn_storeValue {E : Env Cell} (hstamp : ∀ c, (E.stamp c).tag = some tag)
    {t table key : Str} {val : Cell} {s : ClientConnection Cell} {g : Set (Option Tag)}
    (hs : Keeping tag s₀ s g) (hin : s.inTransaction = s₀.inTransaction)
    (hW : s₀.inTransaction = false → some tag ∈ W) :
    EndsIn (tracing W) (Keeping tag s₀) (storeValue E t table key val) s g := by
  rw [storeValue]
  change EndsIn _ _ (if _ then _ else _) s g
  split
  · rename_i htxn
    refine EndsIn.bind ((tracing W).wp_mono (keeping_lockForTransaction E t s g hs) ?_)
    rintro g' ⟨_ | _, s'⟩ hs'
    · exact hs'
    · rintro hin' c ⟨u, m, k, hm, hc⟩
      refine ⟨hin.symm.trans htxn, ?_⟩
      dsimp only at hm
      rw [Std.ExtTreeMap.getElem?_insert] at hm
      split at hm
      · -- the table written to: the new cell, and what was buffered for it
        obtain rfl := Option.some.inj hm
        rw [Std.ExtTreeMap.getElem?_insert] at hc
        split at hc
        · exact Or.inl (Option.some.inj hc ▸ hstamp val)
        · cases hb : s'.transactionBuffer[table]? with
          | none => simp [hb] at hc
          | some m => exact (hs' hin' c ⟨table, m, k, hb, by simpa [hb] using hc⟩).2
      · exact (hs' hin' c ⟨u, m, k, hm, hc⟩).2
  · rename_i htxn
    have hw : some tag ∈ W := hW (hin ▸ Bool.eq_false_iff.mpr htxn)
    refine ⟨trivial, fun _ _ => ⟨?_, fun _ _ => ⟨trivial, fun _ _ => ⟨trivial, fun _ _ => hs⟩⟩⟩⟩
    change (E.stamp val).tag ∈ W
    rw [hstamp]
    exact hw

theorem keeping_catchSet (t : Str) (e : Exn) :
    Keeps (tracing W) (Keeping tag s₀) (catchSet t e) := by
  refine Keeps.bind (keeping_quiet .self) fun s => ?_
  exact Keeps.ite (Keeps.bind (keeping_ask fun _ => trivial) fun _ => keeping_quiet (.sendFailed _))
    (keeping_quiet (.sendFailed _))

theorem endsIn_set {E : Env Cell} (hstamp : ∀ c, (E.stamp c).tag = some tag) {req : Message}
    {g : Set (Option Tag)} (hg : Keeping tag s₀ s₀ g)
    (hW : s₀.inTransaction = false → some tag ∈ W) :
    EndsIn (tracing W) (Keeping tag s₀) (set E req) s₀ g := by
  rw [set]
  change EndsIn _ _ (if _ then _ else if _ then _ else _) s₀ g
  split
  · exact keeping_quiet (.throw _) s₀ g hg
  split
  · exact keeping_quiet (.throw _) s₀ g hg
  refine ⟨trivial, fun t? _ => ?_⟩
  change EndsIn _ _ (if _ then _ else _) s₀ g
  split
  · exact keeping_quiet (.sendFailed _) s₀ g hg
  cases t? with
  | none => exact keeping_quiet (.sendFailed _) s₀ g hg
  | some t =>
    refine EndsIn.tryCatch_keeps ?_ (keeping_catchSet t)
    refine EndsIn.bind (Quiet.stackGetTop.wp lenient_tracing ?_)
    rintro (_ | v) s₁ h₁
    · exact hg.of_sameTxn h₁
    refine EndsIn.bind (Quiet.stackPop.wp lenient_tracing ?_)
    rintro (_ | _) s₂ h₂
    · exact hg.of_sameTxn (h₁.trans h₂)
    have h := h₁.trans h₂
    refine EndsIn.bind ((tracing W).wp_mono
      (endsIn_storeValue hstamp (hg.of_sameTxn h) h.inTransaction hW) ?_)
    rintro g' ⟨_ | _, s'⟩ hs'
    · exact hs'
    · exact keeping_quiet (W := W) (.bind (.noteUse _ _) fun _ => .sendOk) s' g' hs'

theorem keeping_get (E : Env Cell) (req : Message) :
    Keeps (tracing W) (Keeping tag s₀) (get E req) := by
  refine Keeps.bind (keeping_ask fun _ => trivial) fun t? => ?_
  cases t? with
  | none => exact keeping_quiet (.sendFailed _)
  | some t =>
    have hfrom : Keeps (tracing W) (Keeping tag s₀) (getFrom t req.getTable req.getKey) := by
      refine fun s g hs => EndsIn.tryCatch_keeps ?_ fun e => ?_
      · refine Keeps.bind (Keeps.bind (keeping_quiet .self) fun s => ?_) (fun v => ?_) s g hs
        · split
          · exact keeping_quiet (.pure _)
          · refine Keeps.bind (keeping_ask fun _ => trivial) fun b => ?_
            refine Keeps.ite (keeping_quiet (.throw _)) ?_
            exact Keeps.bind (keeping_ask fun _ => trivial) fun r => keeping_quiet (.fromExcept r)
        · refine Keeps.bind (keeping_quiet (.stackPush v)) fun _ => ?_
          refine Keeps.bind (keeping_quiet (.noteUse _ _)) fun _ => ?_
          refine Keeps.bind (keeping_quiet .self) fun s => Keeps.ite ?_ (keeping_quiet .sendOk)
          exact Keeps.bind (keeping_ask fun _ => trivial) fun _ => keeping_quiet .sendOk
      · cases e with
        | operationException what =>
          refine Keeps.bind (keeping_quiet .self) fun s => ?_
          exact Keeps.ite (Keeps.bind keeping_rollback fun _ => keeping_quiet (.throw _))
            (Keeps.bind (keeping_ask fun _ => trivial) fun _ => keeping_quiet (.sendFailed _))
        | _ => exact keeping_quiet (.throw _)
    refine Keeps.bind (keeping_quiet .self) fun s => Keeps.ite ?_ hfrom
    exact Keeps.bind (keeping_lockForTransaction E t) fun _ => hfrom

/-- **A `COMMIT` in a transaction** writes what is buffered, answers `OK` and
leaves the transaction. -/
theorem wp_commit {s : ClientConnection Cell} {g : Set (Option Tag)}
    (hin : s.inTransaction = true) (hW : ∀ c, Buffered s c → c.tag ∈ W) :
    (tracing W).wp (commit s) (fun _ rs => rs.1 = .ok () ∧ rs.2.inTransaction = false ∧
      rs.2.written = s.written ++ [okLine]) g := by
  rw [commit, bind_apply, self_apply, Program.ret_bind]
  dsimp only
  rw [if_neg (by simp [hin]), tryCatch_apply, Protocol.wp_bind]
  refine (tracing W).wp_mono (Q := fun _ rs => rs.1 = .ok () ∧ rs.2.inTransaction = false ∧
    rs.2.written = s.written ++ [okLine]) ?_ ?_
  · refine wp_then (wp_forM_const ?_) ?_
    · rintro ⟨name, keyvals⟩ hp
      refine ⟨trivial, fun t? _ => ?_⟩
      cases t? with
      | none => exact ⟨rfl, rfl, rfl⟩
      | some t =>
        refine wp_forM_const fun kv hkv => ⟨?_, fun _ _ => ⟨rfl, rfl, rfl⟩⟩
        exact hW kv.2 ⟨name, keyvals, kv.1,
          Std.ExtTreeMap.mem_toList_iff_getElem?_eq_some.mp hp,
          Std.ExtTreeMap.mem_toList_iff_getElem?_eq_some.mp hkv⟩
    · rintro g' _ s' ⟨rfl, rfl, -⟩
      refine ⟨(), rfl, wp_then (wp_forM_const fun _ _ => ⟨trivial, fun _ _ => ⟨rfl, rfl, rfl⟩⟩) ?_⟩
      rintro g' _ s'' ⟨rfl, rfl, -⟩
      refine ⟨(), rfl, wp_then (wp_forM_const fun _ _ => ⟨trivial, fun _ _ => ⟨rfl, rfl, rfl⟩⟩) ?_⟩
      rintro g' _ s₃ ⟨rfl, rfl, -⟩
      exact ⟨(), rfl, trivial, fun _ _ => ⟨rfl, rfl, rfl⟩⟩
  · rintro g' ⟨_ | _, s'⟩ ⟨hr, hout⟩
    · exact absurd hr (by simp)
    · exact ⟨rfl, hout⟩

end Buffer

/-! ### What a `GET` pushes -/

/-- A handler that does nothing but write to the client. -/
def OnlyWrites (h : Handler Cell α) : Prop :=
  ∀ s, (∃ r, h s = .ret (r, s)) ∨
    ∃ line r w, h s = .call (.write line) fun _ => .ret (r, { s with written := w })

theorem onlyWrites_send (resp : Message) : OnlyWrites (send resp) := by
  intro s
  rw [send, bind_apply, fromExcept_apply, Program.ret_bind]
  cases encode resp with
  | error e => exact .inl ⟨_, rfl⟩
  | ok line => exact .inr ⟨line, _, _, rfl⟩

/-- How far a `GET` has come that began in `s₀`: it has pushed nothing yet, or a
cell read from a table, or one of the buffer. -/
structure Fetching (s₀ s : ClientConnection Cell) (g : Set (Option Tag)) : Prop where
  /-- The buffer is as it was. -/
  buffer : s.transactionBuffer = s₀.transactionBuffer
  /-- No transaction has begun. -/
  inTransaction : s.inTransaction = true → s₀.inTransaction = true
  /-- What has been pushed. -/
  stack : s.stack = s₀.stack ∨ ∃ v, s.stack = v :: s₀.stack ∧
    (v.tag ∈ g ∨ s₀.inTransaction = true ∧ Buffered s₀ v)

section Get

variable {W : Set (Option Tag)} {s₀ : ClientConnection Cell}

theorem fetching_writes {h : Handler Cell α} (hh : OnlyWrites h) :
    Keeps (tracing W) (Fetching s₀) h := by
  intro s g hs
  rcases hh s with ⟨r, hr⟩ | ⟨line, r, w, hr⟩
  · rw [EndsIn, hr]
    exact hs
  · rw [EndsIn, hr]
    exact ⟨trivial, fun _ _ => ⟨hs.buffer, hs.inTransaction, hs.stack⟩⟩

theorem fetching_throw (e : Exn) :
    Keeps (tracing W) (Fetching s₀) (MonadExcept.throw e : Handler Cell α) := fun _ _ hs => hs

theorem fetching_pure (a : α) :
    Keeps (tracing W) (Fetching s₀) (Pure.pure a : Handler Cell α) := fun _ _ hs => hs

/-- A call that reads no value. -/
theorem fetching_ask {c : Call Cell} (hpre : ∀ g, (tracing W).pre c g)
    (hafter : ∀ g r, (tracing W).after c g r = g) : Keeps (tracing W) (Fetching s₀) (ask c) :=
  fun s g hs => ⟨hpre g, fun r _ => by
    change Fetching s₀ s ((tracing W).after c g r)
    rwa [hafter]⟩

theorem fetching_rollback : Keeps (tracing W) (Fetching s₀) rollbackTransaction := by
  refine fun s g hs => (tracing W).wp_mono indifferent_tracing.wp_rollbackTransaction ?_
  rintro g' _ ⟨rfl, rfl⟩
  exact ⟨by simpa using hs.buffer, by simp, by simpa using hs.stack⟩

/-- Reading a value: it comes from the table, or from the buffer. -/
theorem wp_readValue {t table key : Str} {s : ClientConnection Cell} {g : Set (Option Tag)}
    (hs : Fetching s₀ s g) :
    (tracing W).wp (readValue t table key s) (fun g' rs => rs.2 = s ∧ g ⊆ g' ∧
      ∀ v, rs.1 = .ok v → v.tag ∈ g' ∨ s₀.inTransaction = true ∧ Buffered s₀ v) g := by
  -- what is read from the table, if the buffer has nothing
  have hread : (tracing W).wp ((do
      if !(← ask (.hasKey t key)) then throw (.operationException "no such key".toList)
      else fromExcept (← ask (.get t key)) : Handler Cell Cell) s)
      (fun g' rs => rs.2 = s ∧ g ⊆ g' ∧
        ∀ v, rs.1 = .ok v → v.tag ∈ g' ∨ s₀.inTransaction = true ∧ Buffered s₀ v) g := by
    refine ⟨trivial, fun found _ => ?_⟩
    cases found with
    | false => exact ⟨rfl, subset_rfl, nofun⟩
    | true =>
      refine ⟨trivial, fun x _ => ?_⟩
      cases x with
      | error e => exact ⟨rfl, subset_rfl, nofun⟩
      | ok v =>
        exact ⟨rfl, Set.subset_insert _ _,
          fun _ hv => Or.inl (Except.ok.inj hv ▸ Set.mem_insert _ _)⟩
  rw [readValue, bind_apply, self_apply, Program.ret_bind]
  dsimp only
  by_cases hin : s.inTransaction = true
  · rw [if_pos hin]
    cases hb : s.transactionBuffer[table]?.bind (·[key]?) with
    | none => exact hread
    | some v =>
      obtain ⟨m, hm, hv⟩ := Option.bind_eq_some_iff.mp hb
      refine ⟨rfl, subset_rfl, fun v' hv' => Or.inr ⟨hs.inTransaction hin, ?_⟩⟩
      obtain rfl := Except.ok.inj hv'
      exact ⟨table, m, key, hs.buffer ▸ hm, hv⟩
  · rw [if_neg hin]
    exact hread

theorem fetching_catchGet (t : Str) (e : Exn) : Keeps (tracing W) (Fetching s₀) (catchGet t e) := by
  cases e with
  | operationException what =>
    refine Keeps.self_bind fun s g hs => ?_
    split
    · exact Keeps.bind fetching_rollback (fun _ => fetching_throw _) s g hs
    · exact Keeps.bind (fetching_ask (c := .unlock t) (fun _ => trivial) fun _ _ => rfl)
        (fun _ => fetching_writes (onlyWrites_send _)) s g hs
  | _ => exact fetching_throw _

theorem fetching_getFrom {t table key : Str} {s : ClientConnection Cell} {g : Set (Option Tag)}
    (hs : Fetching s₀ s g) (hstack : s.stack = s₀.stack) :
    EndsIn (tracing W) (Fetching s₀) (getFrom t table key) s g := by
  refine EndsIn.tryCatch_keeps (EndsIn.bind ((tracing W).wp_mono (wp_readValue hs) ?_))
    (fetching_catchGet t)
  rintro g' ⟨_ | v, s'⟩ ⟨rfl, -, hv⟩
  · exact ⟨hs.buffer, hs.inTransaction, Or.inl hstack⟩
  · -- from here on the value is on the stack
    have hpushed : Fetching s₀ { s' with stack := v :: s'.stack } g' :=
      ⟨hs.buffer, hs.inTransaction, Or.inr ⟨v, by rw [hstack], hv v rfl⟩⟩
    refine EndsIn.bind ?_
    refine Keeps.bind (fun s₁ g₁ h₁ => ?_) (fun _ => ?_) _ g' hpushed
    · exact ⟨h₁.buffer, h₁.inTransaction, h₁.stack⟩
    · refine Keeps.self_bind fun s₁ g₁ h₁ => ?_
      dsimp only
      split
      · exact Keeps.bind (fetching_ask (c := .unlock t) (fun _ => trivial) fun _ _ => rfl)
          (fun _ => fetching_writes (onlyWrites_send _)) s₁ g₁ h₁
      · exact fetching_writes (onlyWrites_send _) s₁ g₁ h₁

theorem fetching_get {E : Env Cell} {req : Message} {g : Set (Option Tag)} :
    EndsIn (tracing W) (Fetching s₀) (get E req) s₀ g := by
  have hstart : Fetching s₀ s₀ g := ⟨rfl, id, Or.inl rfl⟩
  refine ⟨trivial, fun t? _ => ?_⟩
  cases t? with
  | none => exact fetching_writes (onlyWrites_send _) s₀ g hstart
  | some t =>
    change EndsIn _ _ (if _ then _ else _) s₀ g
    split
    · -- locking pushes nothing
      refine EndsIn.bind ((tracing W).wp_mono indifferent_tracing.wp_lockForTransaction ?_)
      rintro g' _ ⟨rfl, ts, rfl | rfl⟩
      · exact fetching_getFrom ⟨rfl, id, Or.inl rfl⟩ rfl
      · exact ⟨by simp, by simp, Or.inl (by simp)⟩
    · exact fetching_getFrom hstart rfl

end Get

/-! ### A round of the loop -/

/-- The input holds a `GET`. -/
def isGet (i : Input) : Bool :=
  match i.request? with
  | some req => req.messageType == .get
  | none => false

/-- The input begins a transaction with something left over in the buffer. -/
def beginsStale (i : Input) (s : ClientConnection Cell) : Bool :=
  match i.request? with
  | some req =>
      req.isValid && req.messageType == .begin && !s.inTransaction && !s.transactionBuffer.isEmpty
  | none => false

section Round

variable {W : Set (Option Tag)} {addrLe : Str → Str → Bool} {t : SessionId} {n : ℕ} {i : Input}
  {s₀ : ClientConnection Cell} {g : Set (Option Tag)}

/-- A line that holds a request is that request. -/
theorem line_of_request {req : Message} (h : i.request? = some req) :
    ∃ buf, i = .line buf ∧ decode (cstr buf) = .ok req := by
  cases i with
  | line buf =>
    refine ⟨buf, rfl, ?_⟩
    rw [Input.request?] at h
    cases hd : decode (cstr buf) with
    | error e =>
      rw [hd] at h
      exact absurd h (Option.some_ne_none _).symm
    | ok req' =>
      rw [hd] at h
      rw [Option.some.inj h]
  | eof => simp [Input.request?] at h
  | error => simp [Input.request?] at h

/-- **The buffer after a round**, if the round does not begin a transaction with
something left over. -/
theorem endsIn_buffered (hstale : beginsStale i s₀ = false) (hg : Keeping (t, n) s₀ s₀ g) :
    EndsIn (tracing (writable t n i s₀)) (Keeping (t, n) s₀)
      (chatBody (taggedEnv addrLe t n) i) s₀ g := by
  refine endsIn_chatBody (fun _ _ _ hs hk => hk.of_sameTxn hs) lenient_tracing
    keeping_rollback hg ?_
  intro req h hreq hadm hh
  rw [beginsStale, hreq] at hstale
  unfold txnHandler at hh
  split at hh
  · exact Option.some.inj hh ▸ keeping_create req s₀ g hg
  · refine Option.some.inj hh ▸ endsIn_set (fun _ => rfl) hg fun hin => ?_
    change if _ then _ else _
    rw [if_neg (by simp [hin])]
  · exact Option.some.inj hh ▸ keeping_get _ req s₀ g hg
  · rename_i hty
    refine Option.some.inj hh ▸ endsIn_begin hg fun hin => ?_
    simpa [hadm.valid, hty, hin] using hstale
  · rename_i hty
    refine Option.some.inj hh ▸ ?_
    rcases Bool.eq_false_or_eq_true s₀.inTransaction with hin | hin
    · have hlogin : s₀.hasLoggedIn = true := hadm.loggedIn.resolve_right (by rw [hty]; decide)
      refine (tracing _).wp_mono (wp_commit hin fun c hc => ?_) ?_
      · change if _ then _ else _
        rw [if_pos hin, commits, hreq]
        exact ⟨by simp [hlogin, hadm.valid, hty, hin], c, hc, rfl⟩
      · rintro g' ⟨_, s'⟩ ⟨-, hout, -⟩ hin'
        exact absurd (hout.symm.trans hin') (by decide)
    · rw [commit]
      change EndsIn _ _ (if _ then _ else _) s₀ g
      rw [if_pos (by simp [hin])]
      exact keeping_quiet (.sendFailed _) s₀ g hg
  · exact absurd hh (by simp)

/-- **A `COMMIT` served in a transaction** ends it, with an `OK`. -/
theorem wp_committed {E : Env Cell} (hi : commits i s₀ = true)
    (hW : ∀ c, Buffered s₀ c → c.tag ∈ W) :
    (tracing W).wp (chatBody E i s₀) (fun _ rs => rs.2.inTransaction = false ∧
      rs.2.written = s₀.written ++ [okLine]) g := by
  rw [commits] at hi
  split at hi
  · rename_i req hreq
    obtain ⟨buf, rfl, hdec⟩ := line_of_request hreq
    simp only [Bool.and_eq_true, beq_iff_eq] at hi
    obtain ⟨⟨⟨hlogin, hvalid⟩, hty⟩, hin⟩ := hi
    rw [chatBody, tryCatch_apply, Protocol.wp_bind, bind_apply, fromExcept_apply, Program.ret_bind,
      hdec]
    dsimp only
    rw [chatRequest, bind_apply, self_apply, Program.ret_bind]
    dsimp only
    rw [if_neg (by simp [hlogin]), if_neg (by simp [hvalid])]
    simp only [hty]
    refine wp_then (wp_commit hin hW) ?_
    rintro g' r s' ⟨rfl, hout⟩
    exact ⟨(), rfl, hout⟩
  · exact absurd hi (by decide)

theorem fetching_catchBlocks (e : Exn) : Keeps (tracing W) (Fetching s₀) (catchBlocks e) := by
  cases e with
  | invalidMessage what =>
    exact Keeps.bind (fetching_writes (onlyWrites_send _)) fun _ => fetching_pure _
  | commException what => exact fetching_pure _
  | operationException what =>
    refine Keeps.bind (fetching_writes (onlyWrites_send _)) fun _ =>
      Keeps.self_bind fun s g hs => ?_
    split
    · exact Keeps.bind fetching_rollback (fun _ => fetching_pure _) s g hs
    · exact fetching_pure _ s g hs
  | failedTransaction what =>
    refine Keeps.bind (fetching_writes (onlyWrites_send _)) fun _ => ?_
    exact Keeps.bind fetching_rollback fun _ => fetching_pure _

/-- **What a round has pushed that serves a `GET`.** -/
theorem endsIn_fetched {E : Env Cell} (hi : isGet i = true) :
    EndsIn (tracing W) (Fetching s₀) (chatBody E i) s₀ g := by
  have hstart : Fetching s₀ s₀ g := ⟨rfl, id, Or.inl rfl⟩
  rw [isGet] at hi
  split at hi
  · rename_i req hreq
    obtain ⟨buf, rfl, hdec⟩ := line_of_request hreq
    have hty : req.messageType = .get := by simpa using hi
    refine EndsIn.tryCatch_keeps (EndsIn.bind ?_) fetching_catchBlocks
    rw [fromExcept_apply, Protocol.wp_ret, hdec]
    dsimp only
    rw [chatRequest]
    change EndsIn _ _ (if _ then _ else if _ then _ else _) s₀ g
    split
    · exact hstart
    split
    · exact hstart
    · simp only [hty]
      refine EndsIn.bind ((tracing W).wp_mono fetching_get ?_)
      rintro g' ⟨_ | _, s'⟩ hs'
      · exact hs'
      · exact hs'
  · exact absurd hi (by decide)

/-- What is known of a round of session `t` that began in `l` with the input `i`
and has ended in `l'`, having read the tags `g` from tables. -/
structure RoundKept (t : SessionId) (i : Input) (l : Local Cell) (g : Set (Option Tag))
    (l' : Local Cell) : Prop where
  /-- One more input has been served. -/
  served : l'.served = l.served + 1
  /-- What is buffered was buffered, or is written by this round. -/
  buffered : Keeping (t, l.served) l.conn l'.conn g
  /-- A `COMMIT` has ended the transaction, with an `OK`. -/
  committed : commits i l.conn = true →
    l'.conn.inTransaction = false ∧ l'.conn.written = l.conn.written ++ [okLine]
  /-- What a `GET` has pushed was read from a table, or from its own buffer. -/
  fetched : isGet i = true → ∀ v, l'.conn.stack = v :: l.conn.stack →
    v.tag ∈ g ∨ l.conn.inTransaction = true ∧ Buffered l.conn v

theorem wp_roundKept {l : Local Cell} (hstale : beginsStale i l.conn = false) :
    (tracing (writable t l.served i l.conn)).wp
      ((chatBody (taggedEnv addrLe t l.served) i l.conn).bind (endRound l))
      (fun g' l' => RoundKept t i l g' l') g := by
  have hkeep : Keeping (t, l.served) l.conn l.conn g := fun hin c hc => ⟨hin, Or.inr hc⟩
  -- the last two hold of a round that has such an input, and of every other trivially
  have hcommit : (tracing (writable t l.served i l.conn)).wp
      (chatBody (taggedEnv addrLe t l.served) i l.conn) (fun _ rs => commits i l.conn = true →
        rs.2.inTransaction = false ∧ rs.2.written = l.conn.written ++ [okLine]) g := by
    by_cases hi : commits i l.conn = true
    · refine (tracing _).wp_mono (wp_committed hi fun c hc => ?_) fun _ _ h _ => h
      have hin : l.conn.inTransaction = true := by
        rw [commits] at hi
        split at hi
        · exact (Bool.and_eq_true_iff.mp hi).2
        · exact absurd hi (by decide)
      change if _ then _ else _
      rw [if_pos hin]
      exact ⟨hi, c, hc, rfl⟩
    · exact (tracing _).wp_mono (endsIn_buffered hstale hkeep) fun _ _ _ h => absurd h hi
  have hget : (tracing (writable t l.served i l.conn)).wp
      (chatBody (taggedEnv addrLe t l.served) i l.conn) (fun g' rs => isGet i = true →
        Fetching l.conn rs.2 g') g := by
    by_cases hi : isGet i = true
    · exact (tracing _).wp_mono (endsIn_fetched hi) fun _ _ h _ => h
    · exact (tracing _).wp_mono (endsIn_buffered hstale hkeep) fun _ _ _ h => absurd h hi
  refine wp_round ((tracing _).wp_mono
    ((tracing _).wp_and (endsIn_buffered hstale hkeep) ((tracing _).wp_and hcommit hget)) ?_)
  rintro g' ⟨_ | next, s'⟩ ⟨hk, hc, hf⟩
  · trivial
  · refine ⟨rfl, hk, hc, fun hi v hv => ?_⟩
    rcases (hf hi).stack with hsame | ⟨v', hv', horigin⟩
    · exact absurd (hv.symm.trans hsame) (by simp)
    · obtain rfl : v = v' := (List.cons.inj (hv.symm.trans hv')).1
      exact horigin

end Round

end Server

end Csf
