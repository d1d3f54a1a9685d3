import Csf.Server.Run
import Csf.Server.Store

/-!
# A request served without interruption

A request whose calls are made one right after the other, no other session moving
in between: then serving it is a function of the connection and the tables
(`Csf.Server.Handler.run`), and it can be compared with what it should do to the
store the session shows its client.

* A request that is *performed* on that store (`Csf.Server.perform`) is answered
  with the line it should be, and the store shown afterwards is the one it should
  be – in a transaction provided the table it uses is locked for it already or is
  free.
* Any other request is *refused* (`Csf.Server.Refused`): it is not answered by an
  `OK` or a `DATA`, and what the tables hold stays as it was.
-/

namespace Csf

namespace Server

open Interaction Handler

variable {α β γ : Type}

/-- **A handler running alone.** There is no result where it would have to wait,
or the process ends. -/
def Handler.run (h : Handler β α) (s : SessionId) (c : ClientConnection β) (σ : Tables β) :
    Option ((Except Exn α × ClientConnection β) × Tables β) :=
  (h c).exec (Call.exec s) σ

section Run

variable {s : SessionId} {c c' : ClientConnection β} {σ σ' : Tables β}

@[simp] theorem run_pure (a : α) : (pure a : Handler β α).run s c σ = some ((.ok a, c), σ) := rfl

@[simp] theorem run_throw (e : Exn) :
    (throw e : Handler β α).run s c σ = some ((.error e, c), σ) := rfl

@[simp] theorem run_update (f : ClientConnection β → ClientConnection β) :
    (update f).run s c σ = some ((.ok (), f c), σ) := rfl

@[simp] theorem run_fromExcept (x : Except Exn α) :
    (fromExcept x : Handler β α).run s c σ = some ((x, c), σ) := rfl

@[simp] theorem run_terminate : (terminate : Handler β α).run s c σ = none := rfl

theorem run_ask {q : Call β} {r : q.Result} (h : q.exec s σ = some (r, σ')) :
    (ask q).run s c σ = some ((.ok r, c), σ') := by
  rw [run, ask_apply, Program.exec_call, h]
  rfl

@[simp] theorem run_self_bind (f : ClientConnection β → Handler β α) :
    (self >>= f).run s c σ = (f c).run s c σ := rfl

theorem run_bind_ok {h : Handler β α} {f : α → Handler β γ} {a : α}
    (hh : h.run s c σ = some ((.ok a, c'), σ')) : (h >>= f).run s c σ = (f a).run s c' σ' := by
  rw [run, bind_apply, Program.exec_bind]
  exact congrArg (Option.bind · _) hh

theorem run_bind_error {h : Handler β α} {f : α → Handler β γ} {e : Exn}
    (hh : h.run s c σ = some ((.error e, c'), σ')) :
    (h >>= f).run s c σ = some ((.error e, c'), σ') := by
  rw [run, bind_apply, Program.exec_bind]
  exact congrArg (Option.bind · _) hh

theorem run_bind_none {h : Handler β α} {f : α → Handler β γ} (hh : h.run s c σ = none) :
    (h >>= f).run s c σ = none := by
  rw [run, bind_apply, Program.exec_bind]
  exact congrArg (Option.bind · _) hh

theorem run_tryCatch_ok {h : Handler β α} {f : Exn → Handler β α} {a : α}
    (hh : h.run s c σ = some ((.ok a, c'), σ')) :
    (MonadExcept.tryCatch h f).run s c σ = some ((.ok a, c'), σ') := by
  rw [run, tryCatch_apply, Program.exec_bind]
  exact congrArg (Option.bind · _) hh

theorem run_tryCatch_error {h : Handler β α} {f : Exn → Handler β α} {e : Exn}
    (hh : h.run s c σ = some ((.error e, c'), σ')) :
    (MonadExcept.tryCatch h f).run s c σ = (f e).run s c' σ' := by
  rw [run, tryCatch_apply, Program.exec_bind]
  exact congrArg (Option.bind · _) hh

theorem run_tryCatch_none {h : Handler β α} {f : Exn → Handler β α} (hh : h.run s c σ = none) :
    (MonadExcept.tryCatch h f).run s c σ = none := by
  rw [run, tryCatch_apply, Program.exec_bind]
  exact congrArg (Option.bind · _) hh

theorem run_tryCatch_congr {h h' : Handler β α} {f : Exn → Handler β α} {c₁ : ClientConnection β}
    (hh : h.run s c σ = h'.run s c₁ σ) :
    (MonadExcept.tryCatch h f).run s c σ = (MonadExcept.tryCatch h' f).run s c₁ σ := by
  rw [run, run, tryCatch_apply, tryCatch_apply, Program.exec_bind, Program.exec_bind]
  exact congrArg (Option.bind · _) hh

/-- A loop of calls that are always answered, at once and with nothing. -/
theorem run_forM {f : γ → Handler β Unit} {g : γ → Tables β → Tables β}
    (h : ∀ x σ, (f x).run s c σ = some ((.ok (), c), g x σ)) (xs : List γ) (σ : Tables β) :
    (xs.forM f).run s c σ = some ((.ok (), c), xs.foldl (fun σ x => g x σ) σ) := by
  induction xs generalizing σ with
  | nil => rfl
  | cons x xs ih =>
    rw [List.forM_eq_forM, List.forM_cons, run_bind_ok (h x σ)]
    exact ih (g x σ)

end Run

/-- **A request served without interruption is a run of the server**, in which no other
session moves. -/
theorem run_of_serve {env : SessionId → ℕ → Env β} {w : World β} {t : SessionId} {l : Local β}
    {buf : Str} {req : Message} {next : Next} {c' : ClientConnection β} {σ' : Tables β}
    (hdown : w.down = false) (hrest : w.thread t = .rest l) (hclosed : l.closed = false)
    (hdecode : decode (cstr buf) = .ok req)
    (hrun : (serve (env t l.served) req).run t l.conn w.shared = some ((.ok next, c'), σ')) :
    (system env).Run (fun _ _ => True) w (System.put w t
      (.rest { conn := c', closed := next == .done, served := l.served + 1 }) σ' false) := by
  have hbody :
      chatBody (env t l.served) (.line buf) l.conn = serve (env t l.served) req l.conn := by
    rw [chatBody, hdecode]
    rfl
  have hexec : ((chatBody (env t l.served) (.line buf) l.conn).bind (endRound l)).exec
      ((system env).exec t) w.shared =
        some ({ conn := c', closed := next == .done, served := l.served + 1 }, σ') := by
    rw [hbody, Program.exec_bind]
    exact (congrArg (Option.bind · _) hrun).trans rfl
  have hfatal : ∀ t (c : Call β) s,
      (system env).fatal c = true → (system env).exec t c s = none := by
    intro t c s hc
    cases c <;> first | rfl | exact nomatch hc
  refine Relation.ReflTransGen.head ⟨.input t (.line buf), trivial, ?_⟩
    (System.run_of_exec (i := .line buf) (l := l) hfatal hexec)
  rw [System.step, if_neg (by simp [hdown])]
  simp [hrest, system, hclosed]

/-! ### Responses -/

/-- The connection once a line has been written. -/
def ClientConnection.say (c : ClientConnection β) (line : Str) : ClientConnection β :=
  { c with written := c.written ++ [line] }

/-- `σ'` is `σ` but for locks and reset changes: it has the same tables, which hold
the same. -/
structure Frame (σ σ' : Tables β) : Prop where
  /-- The same tables. -/
  created : σ'.created = σ.created
  /-- What is committed stays. -/
  data : ∀ t, (σ'.table t).data = (σ.table t).data
  /-- No changes are made. -/
  tempData : ∀ t, (σ.table t).tempData = ∅ → (σ'.table t).tempData = ∅

theorem Frame.refl (σ : Tables β) : Frame σ σ := ⟨rfl, fun _ => rfl, fun _ h => h⟩

theorem Frame.trans {σ σ' σ'' : Tables β} (h : Frame σ σ') (h' : Frame σ' σ'') : Frame σ σ'' :=
  ⟨h'.1.trans h.1, fun t => (h'.2 t).trans (h.2 t), fun t ht => h'.3 t (h.3 t ht)⟩

theorem Frame.values {σ σ' : Tables β} (h : Frame σ σ') : σ'.values = σ.values :=
  funext fun t => funext fun k => congrArg (·[k]?) (h.data t)

theorem frame_modify {σ : Tables β} {t : Str} {f : Table β → Table β}
    (hdata : ∀ x, (f x).data = x.data) (htemp : ∀ x, x.tempData = ∅ → (f x).tempData = ∅) :
    Frame σ (σ.modify t f) := by
  refine ⟨rfl, fun u => ?_, fun u hu => ?_⟩ <;> rcases eq_or_ne u t with rfl | hne
  · rw [Tables.modify_table_self, hdata]
  · rw [Tables.modify_table_of_ne σ hne]
  · rw [Tables.modify_table_self]
    exact htemp _ hu
  · rw [Tables.modify_table_of_ne σ hne]
    exact hu

/-- **A request is refused**: it is not answered by an `OK` or a `DATA` – if it is
answered at all – and the tables hold what they held. -/
def Refused (c : ClientConnection β) (σ : Tables β)
    (x : Option ((Except Exn α × ClientConnection β) × Tables β)) : Prop :=
  ∀ r c' σ', x = some ((r, c'), σ') → Frame σ σ' ∧
    match r with
    | .ok _ => ∃ lines, c'.written = c.written ++ lines ∧ ∀ line ∈ lines, isGood line = false
    | .error _ => c'.written = c.written

section Refusals

variable {s : SessionId} {c c' : ClientConnection β} {σ σ' : Tables β}

theorem refused_none :
    Refused c σ (none : Option ((Except Exn α × ClientConnection β) × Tables β)) :=
  nofun

theorem refused_error {e : Exn} (hw : c'.written = c.written) (hσ : Frame σ σ') :
    Refused c σ (some ((.error e, c'), σ') : Option ((Except Exn α × _) × _)) := by
  rintro _ _ _ ⟨⟩
  exact ⟨hσ, hw⟩

theorem refused_ok {a : α} (lines : List Str) (hw : c'.written = c.written ++ lines)
    (hlines : ∀ line ∈ lines, isGood line = false) (hσ : Frame σ σ') :
    Refused c σ (some ((.ok a, c'), σ')) := by
  rintro _ _ _ ⟨⟩
  exact ⟨hσ, lines, hw, hlines⟩

/-- What is refused later on is refused. -/
theorem Refused.of_frame {x : Option ((Except Exn α × ClientConnection β) × Tables β)}
    (h : Refused c' σ' x) (hw : c'.written = c.written) (hσ : Frame σ σ') : Refused c σ x := by
  intro r c'' σ'' hx
  obtain ⟨hframe, hr⟩ := h r c'' σ'' hx
  refine ⟨hσ.trans hframe, ?_⟩
  cases r with
  | error e => exact hr.trans hw
  | ok a => rwa [hw] at hr

/-- A handler that refuses is followed by nothing that changes anything. -/
theorem Refused.bind {h : Handler β α} {f : α → Handler β γ}
    (hh : Refused c σ (h.run s c σ))
    (hf : ∀ a c' σ', ∃ b, (f a).run s c' σ' = some ((.ok b, c'), σ')) :
    Refused c σ ((h >>= f).run s c σ) := by
  cases hx : h.run s c σ with
  | none =>
    rw [run_bind_none hx]
    exact refused_none
  | some x =>
    obtain ⟨⟨r, c'⟩, σ'⟩ := x
    obtain ⟨hframe, hr⟩ := hh r c' σ' hx
    cases r with
    | error e =>
      rw [run_bind_error hx]
      exact refused_error hr hframe
    | ok a =>
      obtain ⟨b, hb⟩ := hf a c' σ'
      obtain ⟨lines, hw, hlines⟩ := hr
      rw [run_bind_ok hx, hb]
      exact refused_ok lines hw hlines hframe

theorem run_send_ok {resp : Message} {line : Str} (h : encode resp = .ok line) :
    (send resp).run s c σ = some ((.ok (), c.say line), σ) := by
  rw [send, h]
  rfl

theorem run_send_error {resp : Message} {e : Exn} (h : encode resp = .error e) :
    (send resp).run s c σ = some ((.error e, c), σ) := by
  rw [send, h]
  rfl

/-- A `FAILED` or an `ERROR` is no good answer, and if it is too long it is none. -/
theorem refused_send {type : MessageType} {name : Str} (hname : type.name = some name)
    (hq : (type == .failed || type == .error) = true)
    (hn : name = "FAILED".toList ∨ name = "ERROR".toList) (what : Str) :
    Refused c σ ((send ⟨type, [what]⟩ : Handler β Unit).run s c σ) := by
  cases h : encode ⟨type, [what]⟩ with
  | error e =>
    rw [run_send_error h]
    exact refused_error rfl (.refl σ)
  | ok line =>
    rw [run_send_ok h]
    refine refused_ok [line] rfl (fun l hl => ?_) (.refl σ)
    obtain rfl := List.mem_singleton.mp hl
    rw [encode_quoted hname hq] at h
    split at h
    · exact nomatch h
    · rw [← Except.ok.inj h]
      exact not_isGood_quotedLine hn what

theorem refused_sendFailed (what : Str) :
    Refused c σ ((sendFailed what : Handler β Unit).run s c σ) :=
  refused_send rfl rfl (Or.inl rfl) what

theorem refused_sendError (what : Str) :
    Refused c σ ((sendError what : Handler β Unit).run s c σ) :=
  refused_send rfl rfl (Or.inr rfl) what

/-- **A rollback** leaves the connection outside of transactions and what the tables
hold as it was. -/
theorem run_rollback : ∃ σ', (rollbackTransaction : Handler β Unit).run s c σ =
    some ((.ok (), c.rolledBack), σ') ∧ Frame σ σ' := by
  have hreset : ∀ (t : Str) (σ : Tables β), (ask (.rollbackChanges t) : Handler β Unit).run s c σ =
      some ((.ok (), c), σ.modify t Table.rollbackChanges) := fun _ _ => rfl
  have hunlock : ∀ (t : Str) (σ : Tables β), (ask (.unlock t) : Handler β Unit).run s c σ =
      some ((.ok (), c), σ.modify t fun x => { x with holder := none }) := fun _ _ => rfl
  -- every step of a loop keeps what the tables hold
  have hloop : ∀ (f : Table β → Table β), (∀ x, (f x).data = x.data) →
      (∀ x, x.tempData = ∅ → (f x).tempData = ∅) → ∀ (ts : List Str) (σ : Tables β),
      Frame σ (ts.foldl (fun σ t => σ.modify t f) σ) := by
    intro f hdata htemp ts
    induction ts with
    | nil => exact fun σ => .refl σ
    | cons t ts ih => exact fun σ => (frame_modify hdata htemp).trans (ih _)
  rw [rollbackTransaction, run_self_bind]
  rw [ClientConnection.rolledBack]
  split
  · rw [run_bind_ok (run_forM hreset _ σ), run_bind_ok (run_forM hunlock _ _)]
    refine ⟨_, rfl, (hloop Table.rollbackChanges (fun _ => rfl) (fun _ _ => rfl)
      c.lockedTables.toList σ).trans ?_⟩
    exact hloop (fun x => { x with holder := none }) (fun _ => rfl) (fun _ h => h) _ _
  · exact ⟨σ, rfl, .refl σ⟩

/-- **The `catch` blocks** refuse whatever has been thrown. -/
theorem refused_catchBlocks (e : Exn) : Refused c σ ((catchBlocks e).run s c σ) := by
  -- after the failure has been sent, a rollback changes nothing that counts
  have then_rollback : ∀ {what : Str} {f : Handler β Next},
      (∀ c' σ', ∃ c'' σ'', f.run s c' σ' = some ((.ok .again, c''), σ'') ∧ Frame σ' σ'' ∧
        c''.written = c'.written) →
      Refused c σ ((sendFailed what >>= fun _ => f).run s c σ) := by
    intro what f hf
    have hsend := refused_sendFailed (s := s) (c := c) (σ := σ) what
    cases hx : (sendFailed what : Handler β Unit).run s c σ with
    | none =>
      rw [run_bind_none hx]
      exact refused_none
    | some x =>
      obtain ⟨⟨r, c'⟩, σ'⟩ := x
      obtain ⟨hframe, hr⟩ := hsend r c' σ' hx
      cases r with
      | error e =>
        rw [run_bind_error hx]
        exact refused_error hr hframe
      | ok a =>
        obtain ⟨lines, hw, hlines⟩ := hr
        obtain ⟨c'', σ'', hrun, hframe', hw'⟩ := hf c' σ'
        rw [run_bind_ok hx, hrun]
        exact refused_ok lines (hw'.trans hw) hlines (hframe.trans hframe')
  cases e with
  | invalidMessage what => exact (refused_sendError what).bind fun _ _ _ => ⟨_, rfl⟩
  | commException what => exact refused_ok [] (by simp) (by simp) (.refl σ)
  | operationException what =>
    refine then_rollback fun c' σ' => ?_
    rw [run_self_bind]
    dsimp only
    split
    · obtain ⟨σ'', hrun, hframe⟩ := run_rollback (s := s) (c := c') (σ := σ')
      rw [run_bind_ok hrun]
      exact ⟨_, σ'', rfl, hframe, rolledBack_written c'⟩
    · exact ⟨c', σ', rfl, .refl σ', rfl⟩
  | failedTransaction what =>
    refine then_rollback fun c' σ' => ?_
    obtain ⟨σ'', hrun, hframe⟩ := run_rollback (s := s) (c := c') (σ := σ')
    rw [run_bind_ok hrun]
    exact ⟨_, σ'', rfl, hframe, rolledBack_written c'⟩

/-- **What serving a request refuses, the server refuses.** -/
theorem refused_serve {E : Env β} {req : Message}
    (h : Refused c σ ((chatRequest E req).run s c σ)) : Refused c σ ((serve E req).run s c σ) := by
  cases hx : (chatRequest E req).run s c σ with
  | none =>
    rw [serve, run_tryCatch_none hx]
    exact refused_none
  | some x =>
    obtain ⟨⟨r, c'⟩, σ'⟩ := x
    obtain ⟨hframe, hr⟩ := h r c' σ' hx
    cases r with
    | error e =>
      rw [serve, run_tryCatch_error hx]
      exact (refused_catchBlocks e).of_frame hr hframe
    | ok a =>
      obtain ⟨lines, hw, hlines⟩ := hr
      rw [serve, run_tryCatch_ok hx]
      exact refused_ok lines hw hlines hframe

end Refusals

/-! ### Requests that use no table -/

/-- What `chat_with_client` does after a request that was answered. -/
def nextOf (req : Message) : Next := if req.messageType = .bye then .done else .again

/-- The request is answered with `line`, and serving it ends in `c'` and `σ'`. -/
structure Answered (E : Env β) (s : SessionId) (req : Message) (c : ClientConnection β)
    (σ : Tables β) (line : Str) (c' : ClientConnection β) (σ' : Tables β) : Prop where
  /-- It is served. -/
  run : (serve E req).run s c σ = some ((.ok (nextOf req), c'), σ')
  /-- One line has been written. -/
  written : c'.written = c.written ++ [line]

section Plain

variable {E : Env β} {s : SessionId} {c : ClientConnection β} {σ : Tables β} {req : Message}

theorem run_stackGetTop {v : β} {vs : List β} (h : c.stack = v :: vs) :
    stackGetTop.run s c σ = some ((.ok v, c), σ) := by
  rw [stackGetTop, run_self_bind, h]
  rfl

theorem run_stackPop {v : β} {vs : List β} (h : c.stack = v :: vs) :
    stackPop.run s c σ = some ((.ok (), { c with stack := vs }), σ) := by
  rw [stackPop, run_self_bind, h]
  rfl

/-! ### Arithmetic -/

theorem intOperand_nil : intOperand [] = none := rfl

theorem intOperand_of_error {text : Str} {e : StoiExn} (h : stoi text = .error e) :
    intOperand text = none := by
  rw [intOperand, h]

/-- What `std::stoi` reads is an operand if it is the whole text, and has no point. -/
theorem intOperand_of_ok {text : Str} {n : ℤ} {pos : ℕ} (h : stoi text = .ok (n, pos)) :
    intOperand text = if pos ≠ text.length ∨ '.' ∈ text then none else some n := by
  rw [intOperand, h]
  simp only
  split_ifs <;> first | rfl | tauto

section Calculate

variable {v u : β} {rest : List β} {type : MessageType} {left right : ℤ}

/-- Without a right operand nothing is computed. -/
theorem calculate_of_right (h : intOperand (E.text v) = none) :
    calculate E type (v :: u :: rest) = none := by
  simp only [calculate, h]
  rfl

/-- Without a left operand nothing is computed. -/
theorem calculate_of_left (h : intOperand (E.text u) = none) :
    calculate E type (v :: u :: rest) = none := by
  simp only [calculate, h]
  cases intOperand (E.text v) <;> rfl

theorem calculate_of_operands (hright : intOperand (E.text v) = some right)
    (hleft : intOperand (E.text u) = some left) :
    calculate E type (v :: u :: rest) =
      (operation type left right).map fun n => E.lit (toDecimal n) :: rest := by
  rw [calculate, hright, hleft]
  change (do let r ← operation type left right; pure (E.lit (toDecimal r) :: rest)) = _
  cases operation type left right <;> rfl

/-- **The operations**, a left operand of zero of a division being refused before. -/
theorem run_operate (hty : type = .add ∨ type = .sub ∨ type = .mul ∨ type = .div)
    (hdiv : ¬(type = .div ∧ left = 0)) :
    (operate type left right).run s c σ =
      (operation type left right).map fun n => ((.ok (some n), c), σ) := by
  rcases hty with rfl | rfl | rfl | rfl
  · rfl
  · rfl
  · rfl
  · rw [operate, operation]
    by_cases hm : right = 0 ∨ ¬isInt32 (left.tdiv right)
    · rw [if_pos hm, if_pos (Or.inr hm)]
      rfl
    · rw [if_neg hm, if_neg fun h => h.elim (fun h0 => hdiv ⟨rfl, h0⟩) hm]
      rfl

/-- Operands are pushed back, and an error is reported. -/
theorem refused_pushBack (hw : c'.written = c.written) (a b : β) (what : Str) :
    Refused c σ ((do stackPush a; stackPush b; sendError what : Handler β Unit).run s c' σ) := by
  change Refused c σ ((sendError what : Handler β Unit).run s
    { c' with stack := b :: a :: c'.stack } σ)
  exact (refused_sendError what).of_frame hw (.refl σ)

end Calculate

/-- **Arithmetic**, computed or refused. -/
theorem run_arithmetic (hty : req.messageType = .add ∨ req.messageType = .sub ∨
      req.messageType = .mul ∨ req.messageType = .div) :
    match calculate E req.messageType c.stack with
    | some st => (arithmetic E req).run s c σ =
        some ((.ok (), { c with stack := st }.say okLine), σ)
    | none => Refused c σ ((arithmetic E req).run s c σ) := by
  have hrefl := Frame.refl σ
  rcases hstack : c.stack with _ | ⟨v, _ | ⟨u, rest⟩⟩
  · rw [arithmetic, run_self_bind, if_pos (by simp [hstack])]
    exact refused_error rfl hrefl
  · rw [arithmetic, run_self_bind, if_pos (by simp [hstack])]
    exact refused_error rfl hrefl
  rw [arithmetic, run_self_bind, if_neg (by simp [hstack]), run_bind_ok (run_stackGetTop hstack)]
  by_cases hv : E.text v = []
  · rw [if_pos hv, calculate_of_right (by rw [hv, intOperand_nil])]
    exact refused_sendFailed _
  rw [if_neg hv, run_bind_ok (run_stackPop hstack), run_bind_ok (run_stackGetTop (v := u) rfl)]
  by_cases hu : E.text u = []
  · rw [if_pos hu, calculate_of_left (by rw [hu, intOperand_nil])]
    change Refused c σ
      ((sendFailed "Insufficient values for operation".toList : Handler β Unit).run s
      { c with stack := v :: u :: rest } σ)
    exact (refused_sendFailed _).of_frame rfl hrefl
  rw [if_neg hu, run_bind_ok (run_stackPop (v := u) rfl)]
  -- the right operand
  cases hsv : stoi (E.text v) with
  | error e =>
    rw [calculate_of_right (intOperand_of_error hsv)]
    cases e <;> exact refused_error rfl hrefl
  | ok r =>
  obtain ⟨a, pos⟩ := r
  dsimp only
  have hright := intOperand_of_ok hsv
  by_cases hpos : pos ≠ (E.text v).length ∨ '.' ∈ E.text v
  · rw [if_pos hpos] at hright
    rw [if_pos hpos, calculate_of_right hright]
    exact refused_pushBack rfl u v _
  rw [if_neg hpos] at hright ⊢
  -- the left operand
  cases hsu : stoi (E.text u) with
  | error e =>
    rw [calculate_of_left (intOperand_of_error hsu)]
    cases e <;> exact refused_error rfl hrefl
  | ok r =>
  obtain ⟨b, pos'⟩ := r
  dsimp only
  have hleft := intOperand_of_ok hsu
  by_cases hpos' : pos' ≠ (E.text u).length ∨ '.' ∈ E.text u
  · rw [if_pos hpos'] at hleft
    rw [if_pos hpos', calculate_of_left hleft]
    exact refused_pushBack rfl v u _
  rw [if_neg hpos'] at hleft ⊢
  -- the operation
  rw [calculate_of_operands hright hleft]
  by_cases hdiv : req.messageType = .div ∧ b = 0
  · have hnone : operation req.messageType b a = none := by
      rw [hdiv.1]
      exact if_pos (Or.inl hdiv.2)
    rw [if_pos hdiv, hnone]
    exact refused_pushBack rfl v u _
  rw [if_neg hdiv]
  have hrun : (operate req.messageType b a).run s { c with stack := rest } σ = _ :=
    run_operate hty hdiv
  cases hop : operation req.messageType b a with
  | none =>
    rw [hop] at hrun
    rw [run_bind_none hrun]
    exact refused_none
  | some n =>
    rw [hop] at hrun
    exact run_bind_ok hrun

/-- The handler of a request. -/
def handlerOf (E : Env β) (req : Message) : Option (Handler β Unit) :=
  match req.messageType with
  | .create => some (create req)
  | .push => some (push E req)
  | .pop => some pop
  | .top => some (top E)
  | .set => some (set E req)
  | .get => some (get E req)
  | .add | .sub | .mul | .div => some (arithmetic E req)
  | .begin => some begin
  | .commit => some commit
  | _ => none

/-- A request that is admitted is served by its handler. -/
theorem run_chatRequest {h : Handler β Unit} (hadm : Admitted req c)
    (hh : handlerOf E req = some h) :
    (chatRequest E req).run s c σ = (h >>= fun _ => pure .again).run s c σ := by
  have hlogin : ¬(!c.hasLoggedIn && req.messageType != .login) = true := by
    rcases hadm.loggedIn with h | h <;> simp [h]
  have hvalid : ¬(!req.isValid) = true := by simp [hadm.valid]
  rw [chatRequest, run_self_bind, if_neg hlogin, if_neg hvalid]
  unfold handlerOf at hh
  split at hh <;> rename_i hty
  all_goals first
    | obtain rfl := Option.some.inj hh
      simp only [hty]
    | exact absurd hh (Option.some_ne_none _).symm

theorem ne_bye_of_handlerOf {h : Handler β Unit} (hh : handlerOf E req = some h) :
    nextOf req = .again := by
  refine if_neg fun hty => ?_
  simp [handlerOf, hty] at hh

/-- What a handler has answered, the server has. -/
theorem answered_of_handler {h : Handler β Unit} {line : Str} {c' : ClientConnection β}
    {σ' : Tables β} (hadm : Admitted req c) (hh : handlerOf E req = some h)
    (hrun : h.run s c σ = some ((.ok (), c'), σ')) (hw : c'.written = c.written ++ [line]) :
    Answered E s req c σ line c' σ' := by
  refine ⟨run_tryCatch_ok ?_, hw⟩
  rw [run_chatRequest hadm hh, run_bind_ok hrun, ne_bye_of_handlerOf hh]
  rfl

/-- What a handler has refused, the server has. -/
theorem refused_of_handler {h : Handler β Unit} (hadm : Admitted req c)
    (hh : handlerOf E req = some h) (hrun : Refused c σ (h.run s c σ)) :
    Refused c σ ((serve E req).run s c σ) := by
  refine refused_serve ?_
  rw [run_chatRequest hadm hh]
  exact hrun.bind fun _ _ _ => ⟨_, rfl⟩

/-- A request that is not admitted is refused, and is performed on no store. -/
theorem admitted_or_refused (req : Message) (created : Str → Bool) (V : Str → Str → Option β) :
    Admitted req c ∧ perform E req (c.shows created V) = act E req (c.shows created V) ∨
      perform E req (c.shows created V) = none ∧ Refused c σ ((serve E req).run s c σ) := by
  by_cases hlogin : (!c.hasLoggedIn && req.messageType != .login) = true
  · refine Or.inr ⟨if_pos hlogin, refused_serve ?_⟩
    rw [chatRequest, run_self_bind, if_pos hlogin]
    exact refused_error rfl (.refl σ)
  by_cases hvalid : (!req.isValid) = true
  · refine Or.inr ⟨(if_neg hlogin).trans (if_pos hvalid), refused_serve ?_⟩
    rw [chatRequest, run_self_bind, if_neg hlogin, if_pos hvalid]
    exact refused_error rfl (.refl σ)
  · refine Or.inl ⟨⟨?_, by simpa using hvalid⟩, (if_neg hlogin).trans (if_neg hvalid)⟩
    simpa [or_iff_not_imp_left] using hlogin

/-- How the server compares with what a request should do that uses no table. -/
def Agrees (V : Str → Str → Option β) (s : SessionId) (c : ClientConnection β) (σ : Tables β)
    (out : Option (Str × Store β)) (h : Handler β α) (a : α) : Prop :=
  match out with
  | some (line, x) => ∃ c' σ', h.run s c σ = some ((.ok a, c'), σ') ∧
      c'.written = c.written ++ [line] ∧ c'.shows σ'.created V = x ∧ SameTxn c c' ∧
      σ'.table = σ.table
  | none => Refused c σ (h.run s c σ)

variable {V : Str → Str → Option β}

theorem Agrees.some {out : Option (Str × Store β)} {h : Handler β α} {a : α} {line : Str}
    {c' : ClientConnection β} {σ' : Tables β} (hout : out = some (line, c'.shows σ'.created V))
    (hrun : h.run s c σ = some ((.ok a, c'), σ')) (hw : c'.written = c.written ++ [line])
    (hsame : SameTxn c c') (hσ : σ'.table = σ.table) : Agrees V s c σ out h a := by
  rw [hout]
  exact ⟨c', σ', hrun, hw, rfl, hsame, hσ⟩

theorem Agrees.none {out : Option (Str × Store β)} {h : Handler β α} {a : α} (hout : out = none)
    (hrun : Refused c σ (h.run s c σ)) : Agrees V s c σ out h a := by
  rw [hout]
  exact hrun

theorem agrees_create (hty : req.messageType = .create) (hvalid : req.isValid = true) :
    Agrees V s c σ (act E req (c.shows σ.created V)) (create req) () := by
  have hname : Message.isValidIdentifier req.getTable = true := by
    rw [Message.isValid, hty] at hvalid
    dsimp only at hvalid
    split at hvalid
    · rename_i t ht
      rwa [Message.getTable, hty, ht]
    · exact absurd hvalid (by decide)
  have hrun : (create req).run s c σ = Option.some ((.ok (), c.say okLine),
      { σ with created := Function.update σ.created req.getTable true }) := by
    rw [create]
    change (if _ then _ else _ : Handler β Unit).run s c σ = _
    rw [if_neg (by simp [hname])]
    rfl
  exact .some (by rw [act, hty]; rfl) hrun rfl ⟨rfl, rfl, rfl⟩ rfl

theorem agrees_push (hty : req.messageType = .push) :
    Agrees V s c σ (act E req (c.shows σ.created V)) (push E req) () := by
  cases hstack : c.hasStack
  · have hrun : (push E req).run s c σ = Option.some ((.ok (),
        ({ c with stack := [E.lit req.getValue], hasStack := true }).say okLine), σ) := by
      rw [push, run_self_bind, if_pos (by simp [hstack])]
      rfl
    refine .some ?_ hrun rfl ⟨rfl, rfl, rfl⟩ rfl
    simp [act, hty, ClientConnection.shows, ClientConnection.say, ClientConnection.buffered, hstack]
  · have hrun : (push E req).run s c σ = Option.some ((.ok (),
        ({ c with stack := E.lit req.getValue :: c.stack }).say okLine), σ) := by
      rw [push, run_self_bind, if_neg (by simp [hstack])]
      rfl
    refine .some ?_ hrun rfl ⟨rfl, rfl, rfl⟩ rfl
    simp [act, hty, ClientConnection.shows, ClientConnection.say, ClientConnection.buffered, hstack]

/-- A handler of the stack: without one, or with an empty one, it fails; else it
does what `h` does. -/
theorem agrees_stack {h : Handler β Unit} {out : Option (Str × Store β)}
    (hempty : c.hasStack = false ∨ c.stack = [] → out = Option.none)
    (hnil : c.stack = [] → ∃ e, h.run s c σ = Option.some ((.error e, c), σ))
    (hcons : c.hasStack = true → c.stack ≠ [] → Agrees V s c σ out
      (MonadExcept.tryCatch h fun _ => sendFailed "stack empty".toList) ()) :
    Agrees V s c σ out (do
      if !(← self).hasStack then sendFailed "no active key".toList
      else MonadExcept.tryCatch h fun _ => sendFailed "stack empty".toList) () := by
  cases hstack : c.hasStack
  · refine .none (hempty (Or.inl hstack)) ?_
    rw [run_self_bind, if_pos (by simp [hstack])]
    exact refused_sendFailed _
  · by_cases hvs : c.stack = []
    · obtain ⟨e, he⟩ := hnil hvs
      refine .none (hempty (Or.inr hvs)) ?_
      rw [run_self_bind, if_neg (by simp [hstack]), run_tryCatch_error he]
      exact refused_sendFailed _
    · have h' := hcons hstack hvs
      unfold Agrees at h' ⊢
      rwa [run_self_bind, if_neg (by simp [hstack])]

theorem agrees_pop (hty : req.messageType = .pop) :
    Agrees V s c σ (act E req (c.shows σ.created V)) pop () := by
  rw [act, hty]
  refine agrees_stack ?_ (fun hvs => ?_) fun hstack hvs => ?_
  · rintro (h | h) <;> simp [ClientConnection.shows, h]
  · refine ⟨.operationException "ValueStack is empty".toList, run_bind_error ?_⟩
    rw [stackPop, run_self_bind, hvs]
    rfl
  · obtain ⟨v, vs, hvs⟩ := List.exists_cons_of_ne_nil hvs
    have hrun : (do stackPop; sendOk : Handler β Unit).run s c σ =
        Option.some ((.ok (), ({ c with stack := vs }).say okLine), σ) :=
      run_bind_ok (run_stackPop hvs)
    refine .some ?_ (run_tryCatch_ok hrun) rfl ⟨rfl, rfl, rfl⟩ rfl
    simp [ClientConnection.shows, ClientConnection.say, ClientConnection.buffered, hstack, hvs]

theorem agrees_top (hty : req.messageType = .top) :
    Agrees V s c σ (act E req (c.shows σ.created V)) (top E) () := by
  rw [act, hty]
  refine agrees_stack ?_ (fun hvs => ?_) fun hstack hvs => ?_
  · rintro (h | h) <;> simp [ClientConnection.shows, h]
  · refine ⟨.operationException "ValueStack is empty".toList, run_bind_error ?_⟩
    rw [stackGetTop, run_self_bind, hvs]
    rfl
  · obtain ⟨v, vs, hvs⟩ := List.exists_cons_of_ne_nil hvs
    cases henc : encode ⟨.data, [E.text v]⟩ with
    | ok line =>
      refine .some ?_ (run_tryCatch_ok ((run_bind_ok (run_stackGetTop hvs)).trans
        (run_send_ok henc))) rfl ⟨rfl, rfl, rfl⟩ rfl
      simp [ClientConnection.shows, ClientConnection.say, ClientConnection.buffered, hstack, hvs,
        henc]
      rfl
    | error e =>
      refine .none ?_ ?_
      · simp [ClientConnection.shows, hstack, hvs, henc]
        rfl
      · rw [run_tryCatch_error ((run_bind_ok (run_stackGetTop hvs)).trans (run_send_error henc))]
        exact refused_sendFailed _

theorem agrees_arithmetic (hty : req.messageType = .add ∨ req.messageType = .sub ∨
      req.messageType = .mul ∨ req.messageType = .div) :
    Agrees V s c σ (act E req (c.shows σ.created V)) (arithmetic E req) () := by
  have hact : act E req (c.shows σ.created V) = (calculate E req.messageType c.stack).map
      fun stack => (okLine, { c.shows σ.created V with stack }) := by
    rw [act]
    rcases hty with hty | hty | hty | hty <;> rw [hty] <;> rfl
  have hrun := run_arithmetic (E := E) (s := s) (c := c) (σ := σ) hty
  cases hcalc : calculate E req.messageType c.stack with
  | none =>
    rw [hcalc] at hact hrun
    exact .none hact hrun
  | some st =>
    rw [hcalc] at hact hrun
    exact .some (hact.trans rfl) hrun rfl ⟨rfl, rfl, rfl⟩ rfl

/-- What the handler of an admitted request does, the server does. -/
theorem agrees_of_handler {h : Handler β Unit} (hadm : Admitted req c)
    (hh : handlerOf E req = Option.some h)
    (hag : Agrees V s c σ (act E req (c.shows σ.created V)) h ()) :
    Agrees V s c σ (act E req (c.shows σ.created V)) (serve E req) (nextOf req) := by
  cases hact : act E req (c.shows σ.created V) with
  | none =>
    rw [hact] at hag
    exact refused_of_handler hadm hh hag
  | some out =>
    rw [hact] at hag
    obtain ⟨c', σ', hrun, hw, hx, hsame, hσ⟩ := hag
    exact ⟨c', σ', (answered_of_handler hadm hh hrun hw).run, hw, hx, hsame, hσ⟩

theorem agrees_login (hadm : Admitted req c) (hty : req.messageType = .login) :
    Agrees V s c σ (act E req (c.shows σ.created V)) (serve E req) (nextOf req) := by
  have hlogin : ¬(!c.hasLoggedIn && req.messageType != .login) = true := by simp [hty]
  have hvalid : ¬(!req.isValid) = true := by simp [hadm.valid]
  have hact : act E req (c.shows σ.created V) =
      if Message.isValidIdentifier req.getUsername then
        Option.some (okLine, { c.shows σ.created V with loggedIn := true })
      else Option.none := by
    rw [act, hty]
  have hchat : (chatRequest E req).run s c σ =
      (if !Message.isValidIdentifier req.getUsername then
        throw (.invalidMessage "invalid username".toList)
      else do
        update fun s => { s with hasLoggedIn := true }
        sendOk
        pure .again : Handler β Next).run s c σ := by
    rw [chatRequest, run_self_bind, if_neg hlogin, if_neg hvalid]
    simp only [hty]
  by_cases hname : Message.isValidIdentifier req.getUsername = true
  · have hrun : (chatRequest E req).run s c σ =
        Option.some ((.ok .again, ({ c with hasLoggedIn := true }).say okLine), σ) := by
      rw [hchat, if_neg (by simp [hname])]
      rfl
    rw [nextOf, if_neg (by rw [hty]; decide)]
    refine .some ?_ (run_tryCatch_ok hrun) rfl ⟨rfl, rfl, rfl⟩ rfl
    exact hact.trans ((if_pos hname).trans rfl)
  · refine .none (hact.trans (if_neg hname)) (refused_serve ?_)
    rw [hchat, if_pos (by simp [hname])]
    exact refused_error rfl (.refl σ)

theorem agrees_bye (hadm : Admitted req c) (hty : req.messageType = .bye) :
    Agrees V s c σ (act E req (c.shows σ.created V)) (serve E req) (nextOf req) := by
  have hlogin : ¬(!c.hasLoggedIn && req.messageType != .login) = true := by
    rcases hadm.loggedIn with h | h <;> simp [h]
  have hrun : (chatRequest E req).run s c σ = Option.some ((.ok .done, c.say okLine), σ) := by
    rw [chatRequest, run_self_bind, if_neg hlogin, if_neg (by simp [hadm.valid])]
    simp only [hty]
    rfl
  rw [nextOf, if_pos hty]
  refine .some ?_ (run_tryCatch_ok hrun) rfl ⟨rfl, rfl, rfl⟩ rfl
  rw [act, hty]
  rfl

/-- **A request that uses no table** – neither a `SET` nor a `GET`, nor one that
begins or ends a transaction – is answered as it should be, or refused. -/
theorem run_plain (V : Str → Str → Option β) (hset : req.messageType ≠ .set)
    (hget : req.messageType ≠ .get) (hbegin : req.messageType ≠ .begin)
    (hcommit : req.messageType ≠ .commit) :
    Agrees V s c σ (perform E req (c.shows σ.created V)) (serve E req) (nextOf req) := by
  rcases admitted_or_refused (E := E) (s := s) (σ := σ) req σ.created V with ⟨hadm, hp⟩ | ⟨hp, hrun⟩
  · rw [hp]
    cases hty : req.messageType with
    | create => exact agrees_of_handler hadm (by rw [handlerOf, hty]) (agrees_create hty hadm.valid)
    | push => exact agrees_of_handler hadm (by rw [handlerOf, hty]) (agrees_push hty)
    | pop => exact agrees_of_handler hadm (by rw [handlerOf, hty]) (agrees_pop hty)
    | top => exact agrees_of_handler hadm (by rw [handlerOf, hty]) (agrees_top hty)
    | add => exact agrees_of_handler hadm (by rw [handlerOf, hty]) (agrees_arithmetic (by tauto))
    | sub => exact agrees_of_handler hadm (by rw [handlerOf, hty]) (agrees_arithmetic (by tauto))
    | mul => exact agrees_of_handler hadm (by rw [handlerOf, hty]) (agrees_arithmetic (by tauto))
    | div => exact agrees_of_handler hadm (by rw [handlerOf, hty]) (agrees_arithmetic (by tauto))
    | set => exact absurd hty hset
    | get => exact absurd hty hget
    | begin => exact absurd hty hbegin
    | commit => exact absurd hty hcommit
    | login => exact agrees_login hadm hty
    | bye => exact agrees_bye hadm hty
    | none | ok | failed | error | data =>
      have hlogin : ¬(!c.hasLoggedIn && req.messageType != .login) = true := by
        rcases hadm.loggedIn with h | h <;> simp [h]
      refine .none (by rw [act, hty]) (refused_serve ?_)
      rw [chatRequest, run_self_bind, if_neg hlogin, if_neg (by simp [hadm.valid])]
      simp only [hty]
      exact refused_error rfl (.refl σ)
  · exact .none hp hrun

end Plain

end Server

end Csf
