import Csf.Server.Connection

/-!
# What the handlers leave alone

Two facts about member functions that are used whatever is being proved of them.

* Responses. A response with a short text is written and nothing else happens
  (`Csf.Server.sendError_apply`); a long one makes `encode` throw.
* The transaction. Most handlers neither make a call on a table nor touch the three
  fields a transaction is kept in: they are *quiet* (`Csf.Server.Quiet`). What remains to
  be looked at for anything about locks or transactions is `set`, `get`, `begin`,
  `commit` and the rollback.

The rules that follow run a handler against a protocol of calls: a quiet one
(`Csf.Server.Quiet.wp`), a round of the loop given what the handlers do that are
not quiet (`Csf.Server.endsIn_chatBody`), and a loop over a list
(`Csf.Server.wp_forM`). For a protocol that does not care about locks, the rollback
and `lockForTransaction` are done once for all (`Csf.Server.Indifferent`).
-/

namespace Csf

namespace Server

open Interaction Handler

variable {β α γ G : Type}

/-! ### Responses -/

/-- The line of an `OK`. -/
def okLine : Str := "OK\n".toList

/-- The line of a response with a quoted text, `FAILED` or `ERROR`. -/
def quotedLine (name what : Str) : Str := name ++ ' ' :: '"' :: what ++ ['"', '\n']

theorem length_quotedLine (name what : Str) :
    (quotedLine name what).length = name.length + what.length + 4 := by
  simp [quotedLine]
  omega

/-- Encoding a response with a quoted text: the text is what decides whether it
fits. -/
theorem encode_quoted {type : MessageType} {name : Str} (hname : type.name = some name)
    (hq : (type == .failed || type == .error) = true) (what : Str) :
    encode ⟨type, [what]⟩ =
      if name.length + what.length + 4 > maxEncodedLen then
        .error (.invalidMessage "Encoded message exceeds maximum size".toList)
      else .ok (quotedLine name what) := by
  have h : name ++ encodeArgs true [what] ++ ['\n'] = quotedLine name what := by
    simp [quotedLine, encodeArgs]
  simp only [encode, hname, hq, h, length_quotedLine]

/-- An error whose text is short enough is written. -/
theorem sendError_apply {what : Str} (h : what.length ≤ 1015) (s : ClientConnection β) :
    sendError what s =
      .call (.write (quotedLine "ERROR".toList what)) fun _ =>
        .ret (.ok (), { s with written := s.written ++ [quotedLine "ERROR".toList what] }) := by
  have hl : "ERROR".toList.length = 5 := by decide
  rw [sendError, send, bind_apply, encode_quoted rfl rfl, if_neg (by rw [hl, maxEncodedLen]; omega)]
  rfl

/-! ### Quiet handlers -/

/-- Two states of a connection agree on the transaction. -/
structure SameTxn (s s' : ClientConnection β) : Prop where
  inTransaction : s'.inTransaction = s.inTransaction
  transactionBuffer : s'.transactionBuffer = s.transactionBuffer
  lockedTables : s'.lockedTables = s.lockedTables

theorem SameTxn.refl (s : ClientConnection β) : SameTxn s s := ⟨rfl, rfl, rfl⟩

theorem SameTxn.trans {s s' s'' : ClientConnection β} (h : SameTxn s s') (h' : SameTxn s' s'') :
    SameTxn s s'' :=
  ⟨h'.1.trans h.1, h'.2.trans h.2, h'.3.trans h.3⟩

/-- The calls that have nothing to do with tables. -/
def Call.quiet : Call β → Bool
  | .write _ => true
  | .terminate => true
  | _ => false

/-- A program of a handler that makes no call on a table and ends with a connection
in relation to `s`. -/
def QuietFrom (s : ClientConnection β) :
    Program (Call β) Call.Result (Except Exn α × ClientConnection β) → Prop
  | .ret rs => SameTxn s rs.2
  | .call c k => c.quiet = true ∧ ∀ r, QuietFrom s (k r)

/-- What has been left alone before is left alone as well. -/
theorem QuietFrom.of_sameTxn {s s' : ClientConnection β} (h : SameTxn s s')
    {p : Program (Call β) Call.Result (Except Exn α × ClientConnection β)}
    (hp : QuietFrom s' p) : QuietFrom s p := by
  induction p with
  | ret rs => exact h.trans hp
  | call c k ih => exact ⟨hp.1, fun r => ih r (hp.2 r)⟩

/-- **A quiet handler**: it makes no call on a table, and leaves the transaction
alone. -/
def Quiet (h : Handler β α) : Prop := ∀ s, QuietFrom s (h s)

namespace Quiet

theorem pure (a : α) : Quiet (Pure.pure a : Handler β α) := fun s => SameTxn.refl s

theorem throw (e : Exn) : Quiet (MonadExcept.throw e : Handler β α) := fun s => SameTxn.refl s

theorem self : Quiet (Handler.self : Handler β _) := fun s => SameTxn.refl s

theorem fromExcept (x : Except Exn α) : Quiet (Handler.fromExcept x : Handler β α) :=
  fun s => SameTxn.refl s

theorem terminate : Quiet (Handler.terminate : Handler β α) := fun _ => ⟨rfl, nofun⟩

theorem write (line : Str) : Quiet (ask (.write line) : Handler β _) :=
  fun s => ⟨rfl, fun _ => SameTxn.refl s⟩

theorem update {f : ClientConnection β → ClientConnection β} (hf : ∀ s, SameTxn s (f s)) :
    Quiet (Handler.update f) := fun s => hf s

/-- What a quiet program has left alone is left alone by a quiet continuation. -/
theorem quietFrom_bind {δ : Type} {s : ClientConnection β}
    {p : Program (Call β) Call.Result (Except Exn α × ClientConnection β)} (hp : QuietFrom s p)
    {f : Except Exn α × ClientConnection β →
      Program (Call β) Call.Result (Except Exn δ × ClientConnection β)}
    (hf : ∀ rs, QuietFrom rs.2 (f rs)) : QuietFrom s (p.bind f) := by
  induction p with
  | call c k ih => exact ⟨hp.1, fun r => ih r (hp.2 r)⟩
  | ret rs => exact QuietFrom.of_sameTxn hp (hf rs)

theorem bind {h : Handler β α} {f : α → Handler β γ} (hh : Quiet h) (hf : ∀ a, Quiet (f a)) :
    Quiet (h >>= f) := fun s => by
  refine quietFrom_bind (hh s) ?_
  rintro ⟨_ | a, s'⟩
  · exact SameTxn.refl s'
  · exact hf a s'

theorem tryCatch {h : Handler β α} {f : Exn → Handler β α} (hh : Quiet h) (hf : ∀ e, Quiet (f e)) :
    Quiet (MonadExcept.tryCatch h f) := fun s => by
  refine quietFrom_bind (hh s) ?_
  rintro ⟨e | a, s'⟩
  · exact hf e s'
  · exact SameTxn.refl s'

theorem ite {p : Prop} [Decidable p] {h h' : Handler β α} (hh : Quiet h) (hh' : Quiet h') :
    Quiet (if p then h else h') := by
  split
  · exact hh
  · exact hh'

theorem send (resp : Message) : Quiet (send resp : Handler β Unit) :=
  bind (fromExcept _) fun line => bind (write line) fun _ => update fun _ => ⟨rfl, rfl, rfl⟩

theorem sendFailed (what : Str) : Quiet (sendFailed what : Handler β Unit) := send _

theorem sendError (what : Str) : Quiet (sendError what : Handler β Unit) := send _

theorem sendOk : Quiet (sendOk : Handler β Unit) := send _

theorem stackPush (v : β) : Quiet (stackPush v) := update fun _ => ⟨rfl, rfl, rfl⟩

theorem stackGetTop : Quiet (stackGetTop : Handler β β) :=
  bind self fun s => by
    split
    · exact throw _
    · exact pure _

theorem stackPop : Quiet (stackPop : Handler β Unit) :=
  bind self fun s => by
    split
    · exact throw _
    · exact update fun _ => ⟨rfl, rfl, rfl⟩

theorem noteUse (table key : Str) : Quiet (noteUse table key : Handler β Unit) :=
  update fun _ => ⟨rfl, rfl, rfl⟩

theorem push (E : Env β) (req : Message) : Quiet (push E req) := by
  have hpush : Quiet (do Server.stackPush (E.lit req.getValue); Server.sendOk) :=
    bind (stackPush _) fun _ => sendOk
  exact bind self fun _ => ite (bind (update fun _ => ⟨rfl, rfl, rfl⟩) fun _ => hpush) hpush

theorem pop : Quiet (pop : Handler β Unit) :=
  bind self fun _ => ite (sendFailed _)
    (tryCatch (bind stackPop fun _ => sendOk) fun _ => sendFailed _)

theorem top (E : Env β) : Quiet (top E) :=
  bind self fun _ => ite (sendFailed _)
    (tryCatch (bind stackGetTop fun _ => send _) fun _ => sendFailed _)

theorem operate (type : MessageType) (left right : ℤ) :
    Quiet (operate type left right : Handler β _) := by
  cases type <;> first | exact pure _ | exact ite terminate (pure _)

/-- Pushing the operands back and failing is quiet, in whichever order. -/
theorem restore (v v' : β) {h : Handler β Unit} (hh : Quiet h) :
    Quiet (do Server.stackPush v; Server.stackPush v'; h) :=
  bind (stackPush v) fun _ => bind (stackPush v') fun _ => hh

theorem arithmetic (E : Env β) (req : Message) : Quiet (arithmetic E req) := by
  refine bind self fun s => ite (throw _) ?_
  refine bind stackGetTop fun s1 => ite (sendFailed _) ?_
  refine bind stackPop fun _ => bind stackGetTop fun s2 =>
    ite (bind (stackPush s1) fun _ => sendFailed _) ?_
  refine bind stackPop fun _ => ?_
  split
  · exact restore s2 s1 (throw _)
  · exact restore s2 s1 (throw _)
  · refine ite (restore s2 s1 (sendError _)) ?_
    split
    · exact restore s1 s2 (throw _)
    · exact restore s2 s1 (throw _)
    · refine ite (restore s1 s2 (sendError _)) (ite (restore s1 s2 (sendError _)) ?_)
      refine bind (operate _ _ _) fun r => ?_
      split
      · exact restore s2 s1 (throw _)
      · exact bind (stackPush _) fun _ => sendOk

end Quiet

/-- A protocol that is only about tables. -/
structure Lenient (P : Protocol (Call β) Call.Result G) : Prop where
  terminate : ∀ g, P.pre .terminate g
  write : ∀ line g, P.pre (.write line) g ∧ ∀ r, P.after (.write line) g r = g

theorem QuietFrom.wp {P : Protocol (Call β) Call.Result G} (hP : Lenient P)
    {s : ClientConnection β}
    {p : Program (Call β) Call.Result (Except Exn α × ClientConnection β)} (hp : QuietFrom s p)
    {Q : G → Except Exn α × ClientConnection β → Prop} {g : G}
    (hQ : ∀ r s', SameTxn s s' → Q g (r, s')) : P.wp p Q g := by
  induction p with
  | ret rs => exact hQ rs.1 rs.2 hp
  | call c k ih =>
    obtain ⟨hc, hk⟩ := hp
    cases c with
    | write line =>
      refine ⟨(hP.write line g).1, fun r _ => ?_⟩
      rw [(hP.write line g).2]
      exact ih r (hk r)
    | terminate => exact ⟨hP.terminate g, nofun⟩
    | _ => exact absurd hc Bool.false_ne_true

/-- **A quiet handler obeys every protocol** that is only about tables. -/
theorem Quiet.wp {P : Protocol (Call β) Call.Result G} (hP : Lenient P)
    {h : Handler β α} (hh : Quiet h) {s : ClientConnection β}
    {Q : G → Except Exn α × ClientConnection β → Prop} {g : G}
    (hQ : ∀ r s', SameTxn s s' → Q g (r, s')) : P.wp (h s) Q g := (hh s).wp hP hQ

/-! ### Invariants of a session under a protocol -/

/-- The handlers that look at tables or change the transaction. -/
def txnHandler (E : Env β) (req : Message) : Option (Handler β Unit) :=
  match req.messageType with
  | .create => some (create req)
  | .set => some (set E req)
  | .get => some (get E req)
  | .begin => some begin
  | .commit => some commit
  | _ => none

/-- The request passes the checks made before it is served. -/
structure Admitted (req : Message) (s : ClientConnection β) : Prop where
  /-- It comes from a client that has logged in, or is about to. -/
  loggedIn : s.hasLoggedIn = true ∨ req.messageType = .login
  /-- It is well formed. -/
  valid : req.isValid = true

/-- The request an input holds, if it can be decoded. -/
def Input.request? : Input → Option Message
  | .line buf => (decode (cstr buf)).toOption
  | _ => none

section Keeps

variable (P : Protocol (Call β) Call.Result G) (I : ClientConnection β → G → Prop)

/-- From `s` and `g` the handler obeys the protocol, and however it ends, it ends
in the relation `I` of the connection and the ghost value. -/
def EndsIn (h : Handler β α) (s : ClientConnection β) (g : G) : Prop :=
  P.wp (h s) (fun g' rs => I rs.2 g') g

/-- **The handler keeps `I`.** -/
def Keeps (h : Handler β α) : Prop := ∀ s g, I s g → EndsIn P I h s g

variable {P I}

theorem EndsIn.bind {h : Handler β α} {f : α → Handler β γ} {s : ClientConnection β} {g : G}
    (hh : P.wp (h s) (fun g' rs => match rs.1 with
      | .ok a => EndsIn P I (f a) rs.2 g'
      | .error _ => I rs.2 g') g) :
    EndsIn P I (h >>= f) s g := by
  rw [EndsIn, bind_apply, Protocol.wp_bind]
  refine P.wp_mono hh ?_
  rintro g' ⟨_ | a, s'⟩ h'
  · exact h'
  · exact h'

theorem Keeps.bind {h : Handler β α} {f : α → Handler β γ} (hh : Keeps P I h)
    (hf : ∀ a, Keeps P I (f a)) : Keeps P I (h >>= f) := by
  refine fun s g hI => EndsIn.bind (P.wp_mono (hh s g hI) ?_)
  rintro g' ⟨_ | a, s'⟩ h'
  · exact h'
  · exact hf a s' g' h'

theorem EndsIn.tryCatch {h : Handler β α} {f : Exn → Handler β α} {s : ClientConnection β} {g : G}
    (hh : P.wp (h s) (fun g' rs => match rs.1 with
      | .ok _ => I rs.2 g'
      | .error e => EndsIn P I (f e) rs.2 g') g) :
    EndsIn P I (MonadExcept.tryCatch h f) s g := by
  rw [EndsIn, tryCatch_apply, Protocol.wp_bind]
  refine P.wp_mono hh ?_
  rintro g' ⟨e | a, s'⟩ h'
  · exact h'
  · exact h'

theorem EndsIn.tryCatch_keeps {h : Handler β α} {f : Exn → Handler β α} {s : ClientConnection β}
    {g : G} (hh : EndsIn P I h s g) (hf : ∀ e, Keeps P I (f e)) :
    EndsIn P I (MonadExcept.tryCatch h f) s g := by
  refine EndsIn.tryCatch (P.wp_mono hh ?_)
  rintro g' ⟨e | a, s'⟩ h'
  · exact hf e s' g' h'
  · exact h'

theorem Keeps.self_bind {f : ClientConnection β → Handler β α}
    (hf : ∀ s g, I s g → EndsIn P I (f s) s g) : Keeps P I (self >>= f) :=
  fun s g hI => hf s g hI

theorem Keeps.ite {p : Prop} [Decidable p] {h h' : Handler β α} (hh : Keeps P I h)
    (hh' : Keeps P I h') : Keeps P I (if p then h else h') := by
  split
  · exact hh
  · exact hh'

variable (hquiet : ∀ s s' g, SameTxn s s' → I s g → I s' g)
  (hlenient : Lenient P)

include hquiet hlenient

/-- A quiet handler keeps what only depends on the transaction. -/
theorem Quiet.keeps {h : Handler β α} (hh : Quiet h) : Keeps P I h :=
  fun s g hI => hh.wp hlenient fun _ s' hs => hquiet s s' g hs hI

variable (hroll : Keeps P I rollbackTransaction)

include hroll

/-- The `catch` blocks keep what the rollback keeps. -/
theorem keeps_catchBlocks (e : Exn) : Keeps P I (catchBlocks e) := by
  have hq : ∀ {α : Type} {h : Handler β α}, Quiet h → Keeps P I h :=
    fun hh => Quiet.keeps hquiet hlenient hh
  cases e with
  | invalidMessage what => exact hq (.bind (.sendError what) fun _ => .pure _)
  | commException what => exact hq (.pure _)
  | operationException what =>
    refine Keeps.bind (hq (.sendFailed what)) fun _ => Keeps.bind (hq .self) fun s => ?_
    exact Keeps.ite (Keeps.bind hroll fun _ => hq (.pure _)) (hq (.pure _))
  | failedTransaction what =>
    exact Keeps.bind (hq (.sendFailed what)) fun _ => Keeps.bind hroll fun _ => hq (.pure _)

omit hroll in
/-- **Serving a request**, given what the handlers that are not quiet do. -/
theorem endsIn_chatRequest {E : Env β} {req : Message} {s : ClientConnection β} {g : G}
    (hI : I s g)
    (hreq : Admitted req s → ∀ h, txnHandler E req = some h → EndsIn P I h s g) :
    EndsIn P I (chatRequest E req) s g := by
  have hq : ∀ {α : Type} {h : Handler β α}, Quiet h → EndsIn P I h s g :=
    fun hh => Quiet.keeps hquiet hlenient hh s g hI
  have hthen : ∀ {h : Handler β Unit} (n : Next), EndsIn P I h s g →
      EndsIn P I (h >>= fun _ => pure n) s g := by
    intro h n hh
    refine EndsIn.bind (P.wp_mono hh ?_)
    rintro g' ⟨_ | a, s'⟩ h'
    · exact h'
    · exact h'
  rw [chatRequest]
  change EndsIn P I (if _ then _ else _) s g
  split
  · exact hq (.throw _)
  · rename_i hlogin
    split
    · exact hq (.throw _)
    · rename_i hvalid
      have hreq := hreq ⟨by simpa [or_iff_not_imp_left] using hlogin, by simpa using hvalid⟩
      rw [txnHandler] at hreq
      split
      · exact hq (.ite (.throw _) (.bind (.update fun _ => ⟨rfl, rfl, rfl⟩)
          fun _ => .bind .sendOk fun _ => .pure _))
      all_goals rename_i hty; simp only [hty] at hreq
      · exact hthen _ (hreq _ rfl)
      · exact hq (.bind (.push E req) fun _ => .pure _)
      · exact hq (.bind .pop fun _ => .pure _)
      · exact hq (.bind (.top E) fun _ => .pure _)
      · exact hthen _ (hreq _ rfl)
      · exact hthen _ (hreq _ rfl)
      · exact hq (.bind (.arithmetic E req) fun _ => .pure _)
      · exact hq (.bind (.arithmetic E req) fun _ => .pure _)
      · exact hq (.bind (.arithmetic E req) fun _ => .pure _)
      · exact hq (.bind (.arithmetic E req) fun _ => .pure _)
      · exact hthen _ (hreq _ rfl)
      · exact hthen _ (hreq _ rfl)
      · exact hq (.bind .sendOk fun _ => .pure _)
      · exact hq (.throw _)

/-- **One round of the loop**, given what the handlers that are not quiet do with
the request that has come in. -/
theorem endsIn_chatBody {E : Env β} {i : Input} {s : ClientConnection β} {g : G} (hI : I s g)
    (hreq : ∀ req h, i.request? = some req → Admitted req s → txnHandler E req = some h →
      EndsIn P I h s g) :
    EndsIn P I (chatBody E i) s g := by
  have hcatch := keeps_catchBlocks hquiet hlenient hroll
  cases i with
  | eof => exact EndsIn.tryCatch_keeps (Quiet.keeps hquiet hlenient (.throw _) s g hI) hcatch
  | error => exact Quiet.keeps hquiet hlenient .terminate s g hI
  | line buf =>
    refine EndsIn.tryCatch_keeps (EndsIn.bind ?_) hcatch
    rw [fromExcept_apply, Protocol.wp_ret]
    cases hd : decode (cstr buf) with
    | error e => exact hI
    | ok req =>
      exact endsIn_chatRequest hquiet hlenient hI fun hv h hh =>
        hreq req h (by rw [Input.request?, hd]; rfl) hv hh

end Keeps

/-! ### Sequences and loops -/

/-- **The rule of a sequence** whose first half does not throw. -/
theorem wp_then {P : Protocol (Call β) Call.Result G} {h : Handler β α} {f : α → Handler β γ}
    {R : G → Except Exn α × ClientConnection β → Prop}
    {Q : G → Except Exn γ × ClientConnection β → Prop} {s : ClientConnection β} {g : G}
    (hh : P.wp (h s) R g)
    (hf : ∀ g' r s', R g' (r, s') → ∃ a, r = .ok a ∧ P.wp (f a s') Q g') :
    P.wp ((h >>= f) s) Q g := by
  rw [bind_apply, Protocol.wp_bind]
  refine P.wp_mono hh ?_
  rintro g' ⟨r, s'⟩ hR
  obtain ⟨a, rfl, hw⟩ := hf g' r s' hR
  exact hw

/-- **The rule of a loop over a list**: an invariant of the elements still to
come, kept by the body, which does not throw. -/
theorem wp_forM {P : Protocol (Call β) Call.Result G} {f : γ → Handler β Unit}
    {I : List γ → ClientConnection β → G → Prop}
    (h : ∀ x xs s g, I (x :: xs) s g → P.wp (f x s) (fun g' rs => rs.1 = .ok () ∧ I xs rs.2 g') g)
    {xs : List γ} {s : ClientConnection β} {g : G} (hI : I xs s g) :
    P.wp (xs.forM f s) (fun g' rs => rs.1 = .ok () ∧ I [] rs.2 g') g := by
  induction xs generalizing s g with
  | nil => exact ⟨rfl, hI⟩
  | cons x xs ih =>
    rw [List.forM_eq_forM, List.forM_cons]
    exact wp_then (h x xs s g hI) fun g' r s' hI' => ⟨(), hI'.1, ih hI'.2⟩

/-- A loop whose body changes nothing changes nothing. -/
theorem wp_forM_const {P : Protocol (Call β) Call.Result G} {f : γ → Handler β Unit} {xs : List γ}
    {s : ClientConnection β} {g : G}
    (hf : ∀ x ∈ xs, P.wp (f x s) (fun g' rs => rs.1 = .ok () ∧ rs.2 = s ∧ g' = g) g) :
    P.wp (xs.forM f s) (fun g' rs => rs.1 = .ok () ∧ rs.2 = s ∧ g' = g) g := by
  induction xs with
  | nil => exact ⟨rfl, rfl, rfl⟩
  | cons x xs ih =>
    rw [List.forM_eq_forM, List.forM_cons]
    refine wp_then (hf x List.mem_cons_self) ?_
    rintro g' _ s' ⟨rfl, rfl, rfl⟩
    exact ⟨(), rfl, ih fun y hy => hf y (List.mem_cons_of_mem x hy)⟩

/-! ### Rolling back and locking -/

/-- A connection after `rollback_transaction`. -/
def ClientConnection.rolledBack (s : ClientConnection β) : ClientConnection β :=
  if s.inTransaction then { s with lockedTables := TableSet.empty, inTransaction := false } else s

section RolledBack

variable (s : ClientConnection β)

@[simp] theorem rolledBack_inTransaction : s.rolledBack.inTransaction = false := by
  rw [ClientConnection.rolledBack]
  split
  · rfl
  · exact Bool.eq_false_iff.mpr ‹_›

@[simp] theorem rolledBack_transactionBuffer :
    s.rolledBack.transactionBuffer = s.transactionBuffer := by
  rw [ClientConnection.rolledBack, apply_ite ClientConnection.transactionBuffer, ite_self]

@[simp] theorem rolledBack_stack : s.rolledBack.stack = s.stack := by
  rw [ClientConnection.rolledBack, apply_ite ClientConnection.stack, ite_self]

@[simp] theorem rolledBack_written : s.rolledBack.written = s.written := by
  rw [ClientConnection.rolledBack, apply_ite ClientConnection.written, ite_self]

end RolledBack

/-- A protocol that lets tables be locked, unlocked and reset whenever. -/
structure Indifferent (P : Protocol (Call β) Call.Result G) : Prop where
  trylock : ∀ t g, P.pre (.trylock t) g ∧ ∀ r, P.after (.trylock t) g r = g
  unlock : ∀ t g, P.pre (.unlock t) g ∧ ∀ r, P.after (.unlock t) g r = g
  rollbackChanges : ∀ t g, P.pre (.rollbackChanges t) g ∧ ∀ r, P.after (.rollbackChanges t) g r = g

namespace Indifferent

variable {P : Protocol (Call β) Call.Result G} (hP : Indifferent P)

include hP

theorem wp_rollbackTransaction {s : ClientConnection β} {g : G} :
    P.wp (rollbackTransaction s) (fun g' rs => rs = (.ok (), s.rolledBack) ∧ g' = g) g := by
  rw [rollbackTransaction, bind_apply, self_apply, Program.ret_bind]
  dsimp only
  split
  · rename_i hin
    refine wp_then (wp_forM_const fun t _ => ⟨(hP.rollbackChanges t g).1, fun r _ => ?_⟩) ?_
    · exact ⟨rfl, rfl, (hP.rollbackChanges t g).2 r⟩
    rintro g' _ s' ⟨rfl, rfl, rfl⟩
    refine ⟨(), rfl, wp_then (wp_forM_const fun t _ => ⟨(hP.unlock t g').1, fun r _ => ?_⟩) ?_⟩
    · exact ⟨rfl, rfl, (hP.unlock t g').2 r⟩
    rintro g' _ s'' ⟨rfl, rfl, rfl⟩
    refine ⟨(), rfl, ?_, rfl⟩
    rw [ClientConnection.rolledBack, if_pos hin]
  · rename_i hin
    refine ⟨?_, rfl⟩
    rw [ClientConnection.rolledBack, if_neg hin]

/-- `lockForTransaction` adds the table to `m_locked_tables`, or ends the
transaction. -/
theorem wp_lockForTransaction {E : Env β} {t : Str} {s : ClientConnection β} {g : G} :
    P.wp (lockForTransaction E t s) (fun g' rs => g' = g ∧ ∃ ts,
      rs = (.ok (), { s with lockedTables := ts }) ∨
        rs = (.error (.failedTransaction "could not lock table".toList),
          { s with lockedTables := ts }.rolledBack)) g := by
  rw [lockForTransaction, bind_apply, insertLocked]
  split
  · exact ⟨rfl, s.lockedTables, Or.inl rfl⟩
  · refine ⟨(hP.trylock t g).1, fun locked _ => ?_⟩
    rw [(hP.trylock t g).2]
    cases locked with
    | true => exact ⟨rfl, _, Or.inl rfl⟩
    | false =>
      refine wp_then hP.wp_rollbackTransaction ?_
      rintro g' _ s' ⟨h, rfl⟩
      obtain ⟨rfl, rfl⟩ := Prod.mk.inj h
      exact ⟨(), rfl, rfl, _, Or.inr rfl⟩

end Indifferent

end Server

end Csf
