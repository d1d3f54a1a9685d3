import Csf.Server.Arithmetic
import Csf.Server.Framing
import Csf.Server.Line

/-!
# What the last word of a session is

An `ERROR` is meant to be the last word: the `catch` block that answers with one returns
from `chat_with_client`, while what a session can recover from is answered with a `FAILED`.
There are two ways around that. `arithmetic` answers with an `ERROR` of its own where it
cannot use its operands, and goes on (`Csf.Server.answersError`). And outside of a
transaction `get` repeats the key in the text of its `FAILED`, when the key has gone between
`has_key` and `Table::get`; if the key is long, `encode` throws, and the session ends with an
`ERROR` (`Csf.Server.losesLongKey`).

The handlers are run here against a protocol that leaves these two out – or does not, if
`strict` does not hold – and are shown to keep what is true of a session that goes on
(`Csf.Server.Steady`): it has not written an `ERROR`, and if it has no stack it has nothing
on it. So **an `ERROR` closes the session in every run that leaves these two out**
(`Csf.Server.error_closes`).
-/

namespace Csf

namespace Server

open Interaction Handler

variable {α γ : Type}

/-! ### Kinds of responses -/

/-- The line is the response of a message of the type. -/
def IsLineOf (type : MessageType) (line : Str) : Prop := ∃ args, encode ⟨type, args⟩ = .ok line

/-- A response after which a session goes on: an `OK`, a `DATA` or a `FAILED`. -/
def Mild (line : Str) : Prop := IsLineOf .ok line ∨ IsLineOf .data line ∨ IsLineOf .failed line

/-- A response begins with the name of its type. -/
theorem IsLineOf.head? {type : MessageType} {line : Str} (h : IsLineOf type line) :
    line.head? = (type.name.getD []).head? := by
  obtain ⟨args, h⟩ := h
  by_cases hty : type = .none
  · subst hty
    obtain rfl := Except.ok.inj h
    rfl
  · rw [encode_eq hty] at h
    split at h
    · exact absurd h (by simp)
    · obtain rfl := Except.ok.inj h
      have hname : type.name.getD [] ≠ [] := by
        cases type <;> first | exact absurd rfl hty | simp [MessageType.name]
      rw [encoding, List.append_assoc, List.head?_append_of_ne_nil _ hname]

theorem Mild.not_error {line : Str} (h : Mild line) : ¬IsLineOf .error line := by
  intro herror
  rcases h with h | h | h <;> exact absurd (h.head?.symm.trans herror.head?) (by decide)

theorem mild_okLine : Mild okLine := Or.inl ⟨[], rfl⟩

/-! ### Arithmetic that answers with an error -/

/-- **The operands `arithmetic` answers with an `ERROR`**: one that begins with a number and
goes on with something else – the second one, the first one being a number – or a zero to be
divided. An operand that is empty is noticed before. -/
def mistakes (type : MessageType) : List Str → Bool
  | s1 :: s2 :: _ =>
      !s2.isEmpty && match reading s1 with
        | .trailing => true
        | .integer _ => reading s2 == .trailing || type == .div && reading s2 == .integer 0
        | _ => false
  | _ => false

/-- A request that is refused by `arithmetic` without being such a mistake has an operand
that is empty. -/
theorem exists_isEmpty_of_fate {type : MessageType} {stack stack' : List Str}
    (h : fate type stack = .refused stack') (hmis : mistakes type stack = false) :
    ∃ s1 s2 vs, stack = s1 :: s2 :: vs ∧ stack' = stack ∧ (s1 = [] ∨ s2 = []) := by
  rcases stack with _ | ⟨s1, _ | ⟨s2, vs⟩⟩
  · exact absurd h (by simp [fate])
  · exact absurd h (by simp [fate])
  by_cases hnil : s1 = [] ∨ s2 = []
  · rw [fate, if_pos hnil] at h
    exact ⟨s1, s2, vs, rfl, (Fate.refused.inj h).symm, hnil⟩
  exfalso
  obtain ⟨h1, h2⟩ := not_or.mp hnil
  rw [fate_eq h1 h2] at h
  rw [mistakes] at hmis
  cases hright : reading s1 with
  | trailing => simp [hright, h2] at hmis
  | invalid => simp [hright] at h
  | tooLarge => simp [hright] at h
  | integer right =>
    cases hleft : reading s2 with
    | trailing => simp [hright, hleft, h2] at hmis
    | invalid => simp [hright, hleft] at h
    | tooLarge => simp [hright, hleft] at h
    | integer left =>
      by_cases hzero : type = .div ∧ left = 0
      · simp [hright, hleft, h2, hzero] at hmis
      · simp only [hright, hleft, if_neg hzero] at h
        split at h <;> exact absurd h (by simp)

/-! ### What is kept -/

/-- **What is true of a session that goes on**: all its responses have been mild, if that
is asked for, and if it has no stack there is nothing on it. -/
structure Steady (strict : Prop) (s : ClientConnection Str) : Prop where
  written : strict → ∀ line ∈ s.written, Mild line
  stack : s.hasStack = false → s.stack = []

/-- Writing a mild response is steady. -/
theorem Steady.write {strict : Prop} {s : ClientConnection Str} {line : Str} (h : Steady strict s)
    (hline : Mild line) : Steady strict { s with written := s.written ++ [line] } := by
  refine ⟨fun hstrict l hl => ?_, h.stack⟩
  rcases List.mem_append.mp hl with hl | hl
  · exact h.written hstrict l hl
  · exact List.mem_singleton.mp hl ▸ hline

@[simp] theorem rolledBack_hasStack (s : ClientConnection Str) :
    s.rolledBack.hasStack = s.hasStack := by
  rw [ClientConnection.rolledBack, apply_ite ClientConnection.hasStack, ite_self]

theorem Steady.rolledBack {strict : Prop} {s : ClientConnection Str} (h : Steady strict s) :
    Steady strict s.rolledBack :=
  ⟨by simpa using h.written, by simpa using h.stack⟩

/-- The protocol of a round that has begun in `s₀`: `Table::get` throws that there is no
such key, in words that fit a `FAILED` if the session is in no transaction. -/
def verdicts (strict : Prop) (s₀ : ClientConnection Str) :
    Protocol (Call Str) Call.Result Unit where
  pre _ _ := Steady strict s₀
  may c _ r := match c, r with
    | .get _ _, (x : Except Exn Str) => ∀ e, x = .error e → ∃ what, e = .operationException what ∧
        (strict → s₀.inTransaction = true ∨ what.length ≤ 1014)
    | _, _ => True
  after _ g _ := g

theorem indifferent_verdicts {strict : Prop} {s₀ : ClientConnection Str} (h : Steady strict s₀) :
    Indifferent (verdicts strict s₀) :=
  ⟨fun _ _ => ⟨h, fun _ => rfl⟩, fun _ _ => ⟨h, fun _ => rfl⟩, fun _ _ => ⟨h, fun _ => rfl⟩⟩

/-- The exceptions that are answered with a `FAILED`. -/
def Recoverable (e : Exn) : Prop :=
  (∃ what, e = .operationException what) ∨ ∃ what, e = .failedTransaction what

/-- **The handler keeps the session steady**, and ends with a result in `V` or an exception
in `T`. -/
def Upholds (strict : Prop) (s₀ : ClientConnection Str) (V : α → ClientConnection Str → Prop)
    (T : Exn → ClientConnection Str → Prop) (h : Handler Str α) (s : ClientConnection Str) : Prop :=
  Steady strict s → (verdicts strict s₀).wp (h s) (fun _ rs => Steady strict rs.2 ∧
    match rs.1 with
    | .ok a => V a rs.2
    | .error e => T e rs.2) ()

/-- What a handler should throw: something that is answered with a `FAILED`. -/
abbrev Fails (strict : Prop) : Exn → ClientConnection Str → Prop :=
  fun e _ => strict → Recoverable e

namespace Upholds

variable {strict : Prop} {s₀ : ClientConnection Str} {V : α → ClientConnection Str → Prop}
  {W : γ → ClientConnection Str → Prop} {T T' : Exn → ClientConnection Str → Prop}
  {h : Handler Str α} {f : α → Handler Str γ} {s : ClientConnection Str}

theorem pure {a : α} (ha : V a s) : Upholds strict s₀ V T (Pure.pure a) s := fun hs => ⟨hs, ha⟩

theorem throw {e : Exn} (he : T e s) : Upholds strict s₀ V T (MonadExcept.throw e) s :=
  fun hs => ⟨hs, he⟩

theorem update {g : ClientConnection Str → ClientConnection Str}
    {V : Unit → ClientConnection Str → Prop} (hg : Steady strict s → Steady strict (g s))
    (hV : V () (g s)) : Upholds strict s₀ V T (Handler.update g) s := fun hs => ⟨hg hs, hV⟩

theorem ask {c : Call Str} {V : c.Result → ClientConnection Str → Prop} (hs₀ : Steady strict s₀)
    (hV : ∀ r, (verdicts strict s₀).may c () r → V r s) :
    Upholds strict s₀ V T (Handler.ask c) s := fun hs => ⟨hs₀, fun r hr => ⟨hs, hV r hr⟩⟩

theorem self_bind {f : ClientConnection Str → Handler Str γ} (hf : Upholds strict s₀ W T (f s) s) :
    Upholds strict s₀ W T (Handler.self >>= f) s := hf

theorem ite {p : Prop} [Decidable p] {h h' : Handler Str α} (hh : p → Upholds strict s₀ V T h s)
    (hh' : ¬p → Upholds strict s₀ V T h' s) : Upholds strict s₀ V T (if p then h else h') s := by
  split
  · exact hh ‹_›
  · exact hh' ‹_›

theorem bind (hh : Upholds strict s₀ V T h s)
    (hf : ∀ a s', V a s' → Upholds strict s₀ W T (f a) s') :
    Upholds strict s₀ W T (h >>= f) s := by
  intro hs
  rw [bind_apply, Protocol.wp_bind]
  refine (verdicts strict s₀).wp_mono (hh hs) ?_
  rintro ⟨⟩ ⟨e | a, s'⟩ ⟨hs', hv⟩
  · exact ⟨hs', hv⟩
  · exact hf a s' hv hs'

theorem tryCatch {f : Exn → Handler Str α} (hh : Upholds strict s₀ V T h s)
    (hf : ∀ e s', T e s' → Upholds strict s₀ V T' (f e) s') :
    Upholds strict s₀ V T' (MonadExcept.tryCatch h f) s := by
  intro hs
  rw [tryCatch_apply, Protocol.wp_bind]
  refine (verdicts strict s₀).wp_mono (hh hs) ?_
  rintro ⟨⟩ ⟨e | a, s'⟩ ⟨hs', hv⟩
  · exact hf e s' hv hs'
  · exact ⟨hs', hv⟩

theorem stackGetTop (hT : T (.operationException "ValueStack is empty".toList) s) :
    Upholds strict s₀ Any T Server.stackGetTop s := by
  refine self_bind ?_
  split
  · exact throw hT
  · exact pure trivial

theorem stackPop (hT : T (.operationException "ValueStack is empty".toList) s) :
    Upholds strict s₀ Any T Server.stackPop s := by
  refine self_bind ?_
  split
  · exact throw hT
  · rename_i v vs hvs
    refine update (fun hs => ⟨hs.written, fun hno => ?_⟩) trivial
    -- there is something on the stack, so there is one
    exact absurd (hvs.symm.trans (hs.stack hno)) (by simp)

theorem noteUse (table key : Str) : Upholds strict s₀ Any T (Server.noteUse table key) s :=
  update (fun hs => ⟨hs.written, nofun⟩) trivial

variable (hs₀ : Steady strict s₀)

include hs₀

/-- A response that is mild if it can be encoded. -/
theorem send {resp : Message} (hline : ∀ line, encode resp = .ok line → Mild line)
    (hT : ∀ e, encode resp = .error e → T e s) :
    Upholds strict s₀ Any T (Server.send resp) s := by
  intro hs
  rw [Server.send, bind_apply, fromExcept_apply, Program.ret_bind]
  cases henc : encode resp with
  | error e => exact ⟨hs, hT e henc⟩
  | ok line => exact ⟨hs₀, fun _ _ => ⟨hs.write (hline line henc), trivial⟩⟩

theorem sendOk : Upholds strict s₀ Any T Server.sendOk s :=
  send hs₀ (fun line h => Or.inl ⟨[], h⟩) fun e h => absurd (encode_ok.symm.trans h) (by simp)

theorem sendFailed {what : Str} (hlen : what.length ≤ 1014) :
    Upholds strict s₀ Any T (Server.sendFailed what) s := by
  refine send hs₀ (fun line h => Or.inr (Or.inr ⟨[what], h⟩)) fun e h => ?_
  have hl : "FAILED".toList.length = 6 := by decide
  rw [encode_quoted rfl rfl, if_neg (by rw [hl, maxEncodedLen]; omega)] at h
  exact absurd h (by simp)

theorem rollbackTransaction :
    Upholds strict s₀ Any T Server.rollbackTransaction s := by
  refine fun hs =>
    (verdicts strict s₀).wp_mono (indifferent_verdicts hs₀).wp_rollbackTransaction ?_
  rintro _ _ ⟨rfl, -⟩
  exact ⟨hs.rolledBack, trivial⟩

theorem lockForTransaction {E : Env Str} {t : Str}
    (hT : ∀ s', T (.failedTransaction "could not lock table".toList) s') :
    Upholds strict s₀ (fun _ s' => s'.inTransaction = s.inTransaction) T
      (Server.lockForTransaction E t) s := by
  refine fun hs =>
    (verdicts strict s₀).wp_mono (indifferent_verdicts hs₀).wp_lockForTransaction ?_
  rintro _ _ ⟨-, ts, rfl | rfl⟩
  · exact ⟨⟨hs.written, hs.stack⟩, rfl⟩
  · exact ⟨Steady.rolledBack ⟨hs.written, hs.stack⟩, hT _⟩

/-! ### The handlers -/

variable {addrLe : Str → Str → Bool} {req : Message}

theorem create : Upholds strict s₀ Any (Fails strict) (Server.create req) s := by
  refine ite (fun _ => throw fun _ => Or.inl ⟨_, rfl⟩) fun _ => ?_
  exact bind (V := Any) (ask hs₀ fun _ _ => trivial) fun _ _ _ => sendOk hs₀

theorem push : Upholds strict s₀ Any T (Server.push (Env.plain addrLe) req) s := by
  intro hs
  rw [push_apply]
  refine ⟨hs₀, fun _ _ => ⟨⟨fun hstrict => ?_, nofun⟩, trivial⟩⟩
  exact (hs.write mild_okLine).written hstrict

theorem pop : Upholds strict s₀ Any T Server.pop s := by
  refine self_bind (ite (fun _ => sendFailed hs₀ (by decide)) fun _ => ?_)
  refine tryCatch (T := Any) (bind (stackPop trivial) fun _ _ _ => sendOk hs₀) ?_
  exact fun _ _ _ => sendFailed hs₀ (by decide)

theorem top : Upholds strict s₀ Any T (Server.top (Env.plain addrLe)) s := by
  refine self_bind (ite (fun _ => sendFailed hs₀ (by decide)) fun _ => ?_)
  refine tryCatch (T := Any) (bind (stackGetTop trivial) fun v _ _ => ?_) ?_
  · exact send hs₀ (fun line h => Or.inr (Or.inl ⟨[v], h⟩)) fun _ _ => trivial
  · exact fun _ _ _ => sendFailed hs₀ (by decide)

theorem storeValue {t table key val : Str}
    (hT : ∀ s', T (.failedTransaction "could not lock table".toList) s') :
    Upholds strict s₀ Any T (Server.storeValue (Env.plain addrLe) t table key val) s := by
  refine self_bind (ite (fun _ => ?_) fun _ => ?_)
  · refine bind (lockForTransaction hs₀ hT) fun _ s' _ => ?_
    exact update (fun hs => ⟨hs.written, hs.stack⟩) trivial
  · refine bind (V := Any) (ask hs₀ fun _ _ => trivial) fun _ _ _ => ?_
    refine bind (V := Any) (ask hs₀ fun _ _ => trivial) fun _ _ _ => ?_
    refine bind (V := Any) (ask hs₀ fun _ _ => trivial) fun _ _ _ => ?_
    exact ask hs₀ fun _ _ => trivial

theorem catchSet {t : Str} {e : Exn} (he : e.what.length ≤ 100) :
    Upholds strict s₀ Any T (Server.catchSet t e) s := by
  have hlen : ("set failed: ".toList ++ e.what).length ≤ 1014 := by
    have : "set failed: ".toList.length = 12 := by decide
    rw [List.length_append]
    omega
  refine self_bind (ite (fun _ => ?_) fun _ => sendFailed hs₀ hlen)
  exact bind (V := Any) (ask hs₀ fun _ _ => trivial) fun _ _ _ => sendFailed hs₀ hlen

theorem set : Upholds strict s₀ Any (Fails strict) (Server.set (Env.plain addrLe) req) s := by
  refine ite (fun _ => throw fun _ => Or.inl ⟨_, rfl⟩) fun _ => ?_
  refine ite (fun _ => throw fun _ => Or.inl ⟨_, rfl⟩) fun _ => ?_
  refine bind (V := Any) (ask hs₀ fun _ _ => trivial) fun t? s' _ => ?_
  refine self_bind (ite (fun _ => sendFailed hs₀ (by decide)) fun _ => ?_)
  cases t? with
  | none => exact sendFailed hs₀ (by decide)
  | some t =>
    refine tryCatch (T := fun e _ => e.what.length ≤ 100) ?_ fun e _ he => catchSet hs₀ he
    refine bind (stackGetTop (by decide)) fun v _ _ => bind (stackPop (by decide)) fun _ _ _ => ?_
    refine bind (storeValue hs₀ fun _ => by decide) fun _ _ _ => ?_
    exact bind (noteUse _ _) fun _ _ _ => sendOk hs₀

/-- Reading a value changes nothing, and may throw that there is none, in words that fit a
`FAILED` if the session is in no transaction. -/
theorem readValue {t table key : Str} :
    Upholds strict s₀ (fun _ s' => s' = s) (fun e s' => s' = s ∧
        ∃ what, e = .operationException what ∧
          (strict → s₀.inTransaction = true ∨ what.length ≤ 1014))
      (Server.readValue t table key) s := by
  refine self_bind ?_
  split
  · exact pure rfl
  · refine bind (V := fun _ s' => s' = s) (ask hs₀ fun _ _ => rfl) ?_
    rintro found _ rfl
    refine ite (fun _ => throw ⟨rfl, _, rfl, fun _ => Or.inr (by decide)⟩) fun _ hs => ?_
    refine ⟨hs₀, fun (x : Except Exn Str) hx => ⟨hs, ?_⟩⟩
    cases x with
    | ok v => exact rfl
    | error e => exact ⟨rfl, hx e rfl⟩

theorem getFrom {t table key : Str} (hin : s.inTransaction = s₀.inTransaction) :
    Upholds strict s₀ Any (Fails strict) (Server.getFrom t table key) s := by
  refine tryCatch (T := fun e s' => s' = s ∧ ∃ what, e = .operationException what ∧
    (strict → s₀.inTransaction = true ∨ what.length ≤ 1014)) ?_ ?_
  · refine bind (readValue hs₀) fun v s' _ => ?_
    -- with the value there is a stack
    have hpush : ∀ {f : Handler Str Unit}, (∀ s'', Upholds strict s₀ Any
        (fun e s' => s' = s ∧ ∃ what, e = .operationException what ∧
          (strict → s₀.inTransaction = true ∨ what.length ≤ 1014)) f s'') →
        Upholds strict s₀ Any (fun e s' => s' = s ∧ ∃ what, e = .operationException what ∧
          (strict → s₀.inTransaction = true ∨ what.length ≤ 1014))
          (do Server.stackPush v; Server.noteUse table key; f) s' :=
      fun hf hs => hf _ ⟨hs.written, nofun⟩
    refine hpush fun s'' => self_bind (ite (fun _ => ?_) fun _ => sendOk hs₀)
    exact bind (V := Any) (ask hs₀ fun _ _ => trivial) fun _ _ _ => sendOk hs₀
  · rintro _ _ ⟨rfl, what, rfl, hwhat⟩
    refine self_bind (ite (fun _ => ?_) fun hout => ?_)
    · refine bind (rollbackTransaction hs₀) fun _ s'' _ => ?_
      exact throw fun _ => Or.inr ⟨_, rfl⟩
    · refine bind (V := Any) (ask hs₀ fun _ _ => trivial) fun _ s'' _ hs'' => ?_
      by_cases hstrict : strict
      · have hfits := (hwhat hstrict).resolve_left (hin ▸ hout)
        exact sendFailed hs₀ hfits hs''
      · exact send hs₀ (fun line h => Or.inr (Or.inr ⟨[what], h⟩)) (fun _ _ h => absurd h hstrict)
          hs''

theorem get (hin : s.inTransaction = s₀.inTransaction) :
    Upholds strict s₀ Any (Fails strict) (Server.get (Env.plain addrLe) req) s := by
  refine bind (V := fun _ s' => s' = s) (ask hs₀ fun _ _ => rfl) ?_
  rintro t? _ rfl
  cases t? with
  | none => exact sendFailed hs₀ (by decide)
  | some t =>
    refine self_bind (ite (fun _ => ?_) fun _ => getFrom hs₀ hin)
    refine bind (lockForTransaction hs₀ fun _ _ => Or.inr ⟨_, rfl⟩) fun _ s' hs' => ?_
    exact getFrom hs₀ (hs'.trans hin)

theorem begin : Upholds strict s₀ Any T Server.begin s := by
  refine self_bind (ite (fun _ => sendFailed hs₀ (by decide)) fun _ => ?_)
  exact bind (V := Any) (update (fun hs => ⟨hs.written, hs.stack⟩) trivial) fun _ _ _ => sendOk hs₀

theorem commit : Upholds strict s₀ Any (Fails strict) Server.commit s := by
  refine self_bind (ite (fun _ => sendFailed hs₀ (by decide)) fun _ => ?_)
  refine tryCatch (T := Never) ?_ fun _ _ h => h.elim
  intro hs
  refine wp_then (wp_forM_const ?_) ?_
  · rintro ⟨name, keyvals⟩ -
    refine ⟨hs₀, fun t? _ => ?_⟩
    cases t? with
    | none => exact ⟨rfl, rfl, rfl⟩
    | some t => exact wp_forM_const fun kv _ => ⟨hs₀, fun _ _ => ⟨rfl, rfl, rfl⟩⟩
  · rintro ⟨⟩ _ s' ⟨rfl, rfl, -⟩
    refine ⟨(), rfl, wp_then (wp_forM_const fun _ _ => ⟨hs₀, fun _ _ => ⟨rfl, rfl, rfl⟩⟩) ?_⟩
    rintro ⟨⟩ _ s'' ⟨rfl, rfl, -⟩
    refine ⟨(), rfl, wp_then (wp_forM_const fun _ _ => ⟨hs₀, fun _ _ => ⟨rfl, rfl, rfl⟩⟩) ?_⟩
    rintro ⟨⟩ _ s₃ ⟨rfl, rfl, -⟩
    exact ⟨(), rfl, sendOk hs₀ ⟨hs.written, hs.stack⟩⟩

theorem arithmetic (htype : req.messageType.isArithmetic = true)
    (hmis : strict → mistakes req.messageType s.stack = false) :
    Upholds strict s₀ Any (Fails strict) (Server.arithmetic (Env.plain addrLe) req) s := by
  intro hs
  have hmeets := arithmetic_fate addrLe htype s
  -- the stack is only changed if there is one
  have hstack : ∀ {stack : List Str}, (s.stack = [] → stack = []) →
      s.hasStack = false → stack = [] := fun h hno => h (hs.stack hno)
  cases hfate : fate req.messageType s.stack with
  | trap =>
    rw [hfate] at hmeets
    obtain ⟨k, hk⟩ := hmeets
    rw [hk]
    exact ⟨hs₀, nofun⟩
  | done n =>
    rw [hfate] at hmeets
    rw [hmeets]
    refine ⟨hs₀, fun _ _ => ⟨⟨(hs.write mild_okLine).written, hstack fun hnil => ?_⟩, trivial⟩⟩
    rw [hnil] at hfate
    exact absurd hfate (by simp [fate])
  | thrown stack =>
    rw [hfate] at hmeets
    obtain ⟨what, -, h⟩ := hmeets
    rw [h]
    refine ⟨⟨hs.written, hstack fun hnil => ?_⟩, fun _ => Or.inl ⟨what, rfl⟩⟩
    rw [hnil] at hfate
    exact (Fate.thrown.inj hfate).symm
  | refused stack =>
    have hkept : s.hasStack = false → stack = [] := hstack fun hnil => by
      rw [hnil] at hfate
      exact absurd hfate (by simp [fate])
    by_cases hstrict : strict
    · obtain ⟨s1, s2, vs, hoperands, rfl, hnil⟩ :=
        exists_isEmpty_of_fate hfate (hmis hstrict)
      obtain ⟨what, hwhat, h⟩ := arithmetic_empty addrLe req hoperands hnil
      have hline : Mild (quotedLine "FAILED".toList what) := by
        refine Or.inr (Or.inr ⟨[what], ?_⟩)
        have hl : "FAILED".toList.length = 6 := by decide
        rw [encode_quoted rfl rfl, if_neg (by rw [hl, maxEncodedLen]; omega)]
      rw [h]
      exact ⟨hs₀, fun _ _ => ⟨hs.write hline, trivial⟩⟩
    · rw [hfate] at hmeets
      obtain ⟨line, -, h⟩ := hmeets
      rw [h]
      exact ⟨hs₀, fun _ _ => ⟨⟨fun h => absurd h hstrict, hkept⟩, trivial⟩⟩

end Upholds

/-! ### A round of the loop -/

/-- How serving a request should end: with the session going on, if the request is not one
that ends it. -/
def GoesOn (strict : Prop) (ends : Bool) : Next → ClientConnection Str → Prop :=
  fun next _ => strict → ends = false → next = .again

/-- What serving a request should throw: an `InvalidMessage`, if the request is one that
ends the session, or else what is answered with a `FAILED`. -/
def Ended (strict : Prop) (ends : Bool) : Exn → ClientConnection Str → Prop :=
  fun e _ => strict → (ends = true ∧ ∃ what, e = .invalidMessage what) ∨ Recoverable e

/-- **Serving a request** keeps the session steady, unless the request is one of the
mistakes `arithmetic` answers with an `ERROR`. -/
theorem upholds_chatRequest {strict : Prop} {addrLe : Str → Str → Bool} {req : Message}
    {s : ClientConnection Str} (hs₀ : Steady strict s)
    (hmis : strict → endsSession req s = false → req.messageType.isArithmetic = true →
      mistakes req.messageType s.stack = false) :
    Upholds strict s (GoesOn strict (endsSession req s)) (Ended strict (endsSession req s))
      (chatRequest (Env.plain addrLe) req) s := by
  have invalid : ∀ {what : Str}, endsSession req s = true →
      Upholds strict s (GoesOn strict (endsSession req s)) (Ended strict (endsSession req s))
        (MonadExcept.throw (.invalidMessage what) : Handler Str Next) s :=
    fun hends => Upholds.throw fun _ => Or.inl ⟨hends, _, rfl⟩
  have handled : ∀ {h : Handler Str Unit}, Upholds strict s Any (Fails strict) h s →
      Upholds strict s (GoesOn strict (endsSession req s)) (Ended strict (endsSession req s))
        (h >>= fun _ => Pure.pure .again) s := by
    intro h hh
    have hh' : Upholds strict s Any (Ended strict (endsSession req s)) h s := by
      refine fun hs => (verdicts strict s).wp_mono (hh hs) ?_
      rintro ⟨⟩ ⟨e | a, s'⟩ ⟨hs', hv⟩
      · exact ⟨hs', fun hstrict => Or.inr (hv hstrict)⟩
      · exact ⟨hs', hv⟩
    exact Upholds.bind hh' fun _ _ _ => Upholds.pure fun _ _ => rfl
  refine Upholds.self_bind (Upholds.ite (fun h => invalid ?_) fun hlogin => ?_)
  · rw [endsSession, h, Bool.true_or, Bool.true_or]
  refine Upholds.ite (fun h => invalid ?_) fun hvalid => ?_
  · rw [endsSession, h, Bool.or_true, Bool.true_or]
  have hcalc : req.messageType.isArithmetic = true → strict →
      mistakes req.messageType s.stack = false := by
    intro htype hstrict
    refine hmis hstrict ?_ htype
    rw [endsSession, Bool.eq_false_iff.mpr hlogin, Bool.eq_false_iff.mpr hvalid]
    cases hty : req.messageType <;> first | rfl | exact absurd (hty ▸ htype) (by decide)
  split
  · rename_i hty
    refine Upholds.ite (fun h => invalid ?_) fun _ => ?_
    · rw [endsSession, hty]
      simp only [h, Bool.or_true]
    · refine Upholds.bind (V := Any) (Upholds.update (fun hs => ⟨hs.written, hs.stack⟩) trivial) ?_
      exact fun _ _ _ => Upholds.bind (.sendOk hs₀) fun _ _ _ => Upholds.pure fun _ _ => rfl
  · exact handled (.create hs₀)
  · exact handled (.push hs₀)
  · exact handled (.pop hs₀)
  · exact handled (.top hs₀)
  · exact handled (.set hs₀)
  · exact handled (.get hs₀ rfl)
  · rename_i hty
    exact handled (.arithmetic hs₀ (by rw [hty]; rfl) (hcalc (by rw [hty]; rfl)))
  · rename_i hty
    exact handled (.arithmetic hs₀ (by rw [hty]; rfl) (hcalc (by rw [hty]; rfl)))
  · rename_i hty
    exact handled (.arithmetic hs₀ (by rw [hty]; rfl) (hcalc (by rw [hty]; rfl)))
  · rename_i hty
    exact handled (.arithmetic hs₀ (by rw [hty]; rfl) (hcalc (by rw [hty]; rfl)))
  · exact handled (.begin hs₀)
  · exact handled (.commit hs₀)
  · rename_i hty
    have hends : endsSession req s = true := by
      rw [endsSession, hty, Bool.or_true]
    refine Upholds.bind (.sendOk hs₀) fun _ _ _ => Upholds.pure fun _ h => ?_
    exact absurd (hends.symm.trans h) (by decide)
  · rename_i hlogin hcreate hpush hpop htop hset hget hadd hsub hmul hdiv hbegin hcommit hbye
    refine invalid ?_
    cases hty : req.messageType <;> simp_all [endsSession]

/-- **How a round should end** whose input ends the session (`ends`) or does not: what has
been written is mild, but for an `ERROR` with which the session is done; and the session
is not done if the input does not end it. -/
def RoundSteady (strict : Prop) (ends : Bool) (rs : Except Exn Next × ClientConnection Str) :
    Prop :=
  (rs.2.hasStack = false → rs.2.stack = []) ∧
    ∀ next, rs.1 = .ok next → strict →
      (∀ line ∈ rs.2.written, Mild line ∨ IsLineOf .error line ∧ next = .done) ∧
        (ends = false → next = .again)

/-- **The `catch` blocks** answer what serving a request has thrown as they should. -/
theorem roundSteady_catchBlocks {strict : Prop} {ends : Bool} {s₀ s : ClientConnection Str}
    (hs₀ : Steady strict s₀) (hs : Steady strict s) {e : Exn} (he : Ended strict ends e s) :
    (verdicts strict s₀).wp (catchBlocks e s) (fun _ rs => RoundSteady strict ends rs) () := by
  -- a steady session that goes on
  have again : ∀ {h : Handler Str Next} {s' : ClientConnection Str}, Steady strict s' →
      Upholds strict s₀ (fun next _ => next = .again) Never h s' →
      (verdicts strict s₀).wp (h s') (fun _ rs => RoundSteady strict ends rs) () := by
    intro h s' hs' hh
    refine (verdicts strict s₀).wp_mono (hh hs') ?_
    rintro ⟨⟩ ⟨_ | next, s''⟩ ⟨hs'', hv⟩
    · exact hv.elim
    · obtain rfl : next = .again := hv
      refine ⟨hs''.stack, fun n hn hstrict => ?_⟩
      obtain rfl := Except.ok.inj hn
      exact ⟨fun line hline => Or.inl (hs''.written hstrict line hline), fun _ => rfl⟩
  -- a response that may be too long: then the exception leaves the session
  have failed : ∀ {what : Str} {f : Unit → Handler Str Next},
      (∀ s', Upholds strict s₀ (fun next _ => next = .again) Never (f ()) s') →
      (verdicts strict s₀).wp ((sendFailed what >>= f) s)
        (fun _ rs => RoundSteady strict ends rs) () := by
    intro what f hf
    rw [bind_apply, sendFailed, send, bind_apply, fromExcept_apply, Program.ret_bind]
    cases henc : encode ⟨.failed, [what]⟩ with
    | error e => exact ⟨hs.stack, by simp⟩
    | ok line =>
      exact ⟨hs₀, fun _ _ => again (hs.write (Or.inr (Or.inr ⟨[what], henc⟩))) (hf _)⟩
  cases e with
  | invalidMessage what =>
    have hends : strict → ends = true := fun hstrict => by
      rcases he hstrict with ⟨hends, -⟩ | ⟨_, h⟩ | ⟨_, h⟩
      · exact hends
      · exact absurd h (by simp)
      · exact absurd h (by simp)
    rw [catchBlocks, bind_apply, sendError, send, bind_apply, fromExcept_apply, Program.ret_bind]
    cases henc : encode ⟨.error, [what]⟩ with
    | error e => exact ⟨hs.stack, by simp⟩
    | ok line =>
      refine ⟨hs₀, fun _ _ => ⟨hs.stack, fun next hnext hstrict => ?_⟩⟩
      obtain rfl := Except.ok.inj hnext
      refine ⟨fun l hl => ?_, fun h => absurd ((hends hstrict).symm.trans h) (by decide)⟩
      rcases List.mem_append.mp hl with hl | hl
      · exact Or.inl (hs.written hstrict l hl)
      · exact Or.inr ⟨List.mem_singleton.mp hl ▸ ⟨[what], henc⟩, rfl⟩
  | commException what =>
    refine ⟨hs.stack, fun next _ hstrict => ?_⟩
    rcases he hstrict with ⟨-, _, h⟩ | ⟨_, h⟩ | ⟨_, h⟩ <;> exact absurd h (by simp)
  | operationException what =>
    refine failed fun s' => Upholds.self_bind (Upholds.ite (fun _ => ?_) fun _ => .pure rfl)
    exact Upholds.bind (.rollbackTransaction hs₀) fun _ _ _ => .pure rfl
  | failedTransaction what =>
    exact failed fun s' => Upholds.bind (.rollbackTransaction hs₀) fun _ _ _ => .pure rfl

/-- **One round of the loop** ends as it should, unless its request is one of the mistakes
`arithmetic` answers with an `ERROR`. -/
theorem roundSteady_chatBody {strict : Prop} {addrLe : Str → Str → Bool} {i : Input}
    {s : ClientConnection Str} (hs : Steady strict s)
    (hmis : strict → ∀ req, i.request? = some req → endsSession req s = false →
      req.messageType.isArithmetic = true → mistakes req.messageType s.stack = false) :
    (verdicts strict s).wp (chatBody (Env.plain addrLe) i s)
      (fun _ rs => RoundSteady strict (i.ends s) rs) () := by
  cases i with
  | error => exact ⟨hs, nofun⟩
  | eof =>
    refine ⟨hs.stack, fun next _ hstrict => ?_⟩
    exact ⟨fun line hline => Or.inl (hs.written hstrict line hline), nofun⟩
  | line buf =>
    rw [chatBody, tryCatch_apply, bind_apply, fromExcept_apply, Program.ret_bind]
    cases hdec : decode (cstr buf) with
    | error e =>
      have hends : Input.ends (.line buf) s = true := by rw [Input.ends, hdec]
      have he : Ended strict (Input.ends (.line buf) s) e s := fun _ => by
        obtain ⟨what, rfl⟩ := invalidMessage_of_decode hdec
        exact Or.inl ⟨hends, what, rfl⟩
      exact roundSteady_catchBlocks hs hs he
    | ok req =>
      have hends : Input.ends (.line buf) s = endsSession req s := by rw [Input.ends, hdec]
      have hreq : Input.request? (.line buf) = some req := by rw [Input.request?, hdec]; rfl
      rw [hends, Protocol.wp_bind]
      have hserve : Upholds strict s (GoesOn strict (endsSession req s))
          (Ended strict (endsSession req s)) (chatRequest (Env.plain addrLe) req) s :=
        upholds_chatRequest hs fun hstrict => hmis hstrict req hreq
      refine (verdicts strict s).wp_mono (hserve hs) ?_
      rintro ⟨⟩ ⟨e | next, s'⟩ ⟨hs', hv⟩
      · exact roundSteady_catchBlocks hs hs' hv
      · refine ⟨hs'.stack, fun n hn hstrict => ?_⟩
        obtain rfl := Except.ok.inj hn
        exact ⟨fun line hline => Or.inl (hs'.written hstrict line hline), hv hstrict⟩

/-! ### Runs -/

/-- The input is a mistake that `arithmetic` answers with an `ERROR`. -/
def answersError (i : Input) : Thread Input (Local Str) (Call Str) Call.Result → Bool
  | .rest l =>
      match i.request? with
      | some req => !endsSession req l.conn && req.messageType.isArithmetic &&
          mistakes req.messageType l.conn.stack
      | none => false
  | .run _ _ _ => false

/-- The thread is about to read a long key outside of a transaction, and it is not there –
or not there any more, for `get` has asked before. -/
def losesLongKey (σ : Tables Str) : Thread Input (Local Str) (Call Str) Call.Result → Bool
  | .run _ l (.call (.get t key) _) =>
      !l.conn.inTransaction && !(σ.table t).hasKey key && decide (999 < key.length)
  | _ => false

/-- A move that leaves the two ways around a last word out. -/
def KeepsLastWord (w : World Str) : Act SessionId Input → Prop
  | .input t i => answersError i (w.thread t) = false
  | .advance t => losesLongKey w.shared (w.thread t) = false
  | .fail _ => True

instance (w : World Str) : (a : Act SessionId Input) → Decidable (KeepsLastWord w a)
  | .input _ _ => inferInstanceAs (Decidable (_ = false))
  | .advance _ => inferInstanceAs (Decidable (_ = false))
  | .fail _ => isTrue trivial

/-- A session at rest: an `ERROR` has closed it, and without a stack it has nothing on one. -/
def RestSteady (strict : Prop) (l : Local Str) : Prop :=
  (strict → ∀ line ∈ l.conn.written, Mild line ∨ IsLineOf .error line ∧ l.closed = true) ∧
    (l.conn.hasStack = false → l.conn.stack = [])

/-- A session at rest that is open is steady. -/
theorem RestSteady.steady {strict : Prop} {l : Local Str} (h : RestSteady strict l)
    (hopen : l.closed = false) : Steady strict l.conn := by
  refine ⟨fun hstrict line hline => ?_, h.2⟩
  rcases h.1 hstrict line hline with hmild | ⟨-, hclosed⟩
  · exact hmild
  · exact absurd (hopen.symm.trans hclosed) (by decide)

/-- `Table::get` throws that there is no such key. -/
theorem Table.get_eq_error {t : Table Str} {key : Str} {e : Exn} (h : t.get key = .error e) :
    e = .operationException ("Key not found: ".toList ++ key) ∧ t.hasKey key = false := by
  rw [Table.get] at h
  cases htemp : t.tempData[key]? with
  | some v =>
    rw [htemp] at h
    exact absurd h (by simp)
  | none =>
    rw [htemp] at h
    cases hdata : t.data[key]? with
    | some v =>
      rw [hdata] at h
      exact absurd h (by simp)
    | none =>
      rw [hdata] at h
      refine ⟨(Except.error.inj h).symm, ?_⟩
      simp [Table.hasKey, Std.ExtTreeMap.contains_eq_isSome_getElem?, htemp, hdata]

/-- **In every run whose moves leave the two ways out**, if that is asked for, what is left
of a round ends as it should. -/
theorem roundsSteady_of_run {strict : Prop} {addrLe : Str → Str → Bool}
    {ok : World Str → Act SessionId Input → Prop}
    (hok : strict → ∀ w a, ok w a → KeepsLastWord w a) {w : World Str}
    (h : (system (serverEnv addrLe)).Run ok start w) :
    System.Ok (fun _ _ l => verdicts strict l.conn)
      (fun _ i l l' _ => Steady strict l.conn ∧ RestSteady strict l' ∧
        (strict → i.ends l.conn = false → l'.closed = false))
      (fun _ l _ => RestSteady strict l) (fun _ _ => True) w := by
  refine System.ok_of_run ?_ ?_ ?_ ⟨fun _ => (), trivial, ?_⟩ h
  · exact fun _ _ _ _ _ hl => hl.2.1
  · intro w γ t i l p hmove hthread _ hp hl
    rw [system] at hp
    simp only at hp
    split at hp
    · exact absurd hp (by simp)
    rename_i hclosed
    obtain rfl := Option.some.inj hp
    have hsteady := hl.steady (by simpa using hclosed)
    have hmis : strict → ∀ req, i.request? = some req → endsSession req l.conn = false →
        req.messageType.isArithmetic = true → mistakes req.messageType l.conn.stack = false := by
      intro hstrict req hreq hends htype
      have hkeeps : answersError i (w.thread t) = false := hok hstrict w _ hmove
      simpa [hthread, answersError, hreq, hends, htype] using hkeeps
    refine wp_round ((verdicts strict l.conn).wp_mono (roundSteady_chatBody hsteady hmis) ?_)
    rintro ⟨⟩ ⟨e | next, s'⟩ ⟨hstack, hround⟩
    · exact hsteady
    · refine ⟨hsteady, ⟨fun hstrict line hline => ?_, hstack⟩, fun hstrict hends => ?_⟩
      · exact ((hround next rfl hstrict).1 line hline).imp_right fun h => ⟨h.1, by simp [h.2]⟩
      · simp [(hround next rfl hstrict).2 hends]
  · intro w γ t i l c k r σ' hmove hthread _ hpre hex
    refine ⟨?_, trivial⟩
    cases c with
    | get u key =>
      obtain ⟨rfl, rfl⟩ := Prod.mk.inj (Option.some.inj hex)
      intro e he
      obtain ⟨rfl, hkey⟩ := Table.get_eq_error he
      refine ⟨_, rfl, fun hstrict => ?_⟩
      have hkeeps : losesLongKey w.shared (w.thread t) = false := hok hstrict w _ hmove
      have hlen : "Key not found: ".toList.length = 15 := by decide
      cases hin : l.conn.inTransaction with
      | true => exact Or.inl rfl
      | false =>
        refine Or.inr ?_
        rw [List.length_append, hlen]
        simp [hthread, losesLongKey, hin, hkey] at hkeeps
        omega
    | _ => exact trivial
  · exact fun _ => ⟨by simp, fun _ => rfl⟩

/-- **An `ERROR` is the last word of a session**: a session that has written one has
returned from `chat_with_client`, and so it reads no more; none has written one when it
serves a request. And what does not end the session is answered with an `OK`, a `DATA` or
a `FAILED`. -/
def LastWord : Thread Input (Local Str) (Call Str) Call.Result → Prop
  | .rest l => (∀ line ∈ l.conn.written, IsLineOf .error line → l.closed = true) ∧
      (l.closed = false → ∀ line ∈ l.conn.written, Mild line)
  | .run i l p => (∀ line ∈ l.conn.written, ¬IsLineOf .error line) ∧
      ∀ l', p = .ret l' → i.ends l.conn = false →
        l'.closed = false ∧ ∀ line ∈ l'.conn.written, Mild line

/-- **An `ERROR` closes the session**, for every session in every state of a run that
leaves the two ways around that out. -/
theorem error_closes {addrLe : Str → Str → Bool} {w : World Str} (t : SessionId)
    (h : (system (serverEnv addrLe)).Run KeepsLastWord start w) : LastWord (w.thread t) := by
  have hok : True → ∀ w a, KeepsLastWord w a → KeepsLastWord w a := fun _ _ _ hmove => hmove
  obtain ⟨γ, -, hall⟩ := roundsSteady_of_run hok h
  have ht := hall t
  cases hthread : w.thread t with
  | rest l =>
    rw [hthread] at ht
    refine ⟨fun line hline herror => ?_, fun hopen => (ht.steady hopen).written trivial⟩
    rcases ht.1 trivial line hline with hmild | ⟨-, hclosed⟩
    · exact absurd herror hmild.not_error
    · exact hclosed
  | run i l p =>
    rw [hthread] at ht
    cases p with
    | call c k =>
      exact ⟨fun line hline => (ht.1.written trivial line hline).not_error, nofun⟩
    | ret l' =>
      obtain ⟨hsteady, hrest, hopen⟩ := ht
      refine ⟨fun line hline => (hsteady.written trivial line hline).not_error, ?_⟩
      rintro _ ⟨⟩ hends
      exact ⟨hopen trivial hends, (hrest.steady (hopen trivial hends)).written trivial⟩

/-- The requests of a client that has logged in and adds two values. -/
def additionOf (v v' : String) : List (Act SessionId Input) :=
  talk 0 "LOGIN bob\n" 0 ++ talk 0 ("PUSH " ++ v ++ "\n") 0 ++ talk 0 ("PUSH " ++ v' ++ "\n") 0 ++
    talk 0 "ADD\n" 0

/-- A value is no number: that is answered with a `FAILED`. -/
def failedWorld : World Str := (system plainEnv).follow KeepsLastWord start (additionOf "abc" "2")

theorem error_closes_failedWorld : LastWord (failedWorld.thread 0) :=
  error_closes 0 (System.run_follow KeepsLastWord start _)

/-- A value is a number with a letter after it: that is answered with an `ERROR`. -/
def mistakenWorld : World Str :=
  (system plainEnv).follow (fun _ _ => True) start (additionOf "1" "1x")

/-- Whether a thread is a session at rest that is open and has written the line. -/
def openAfter (line : Str) : Thread Input (Local Str) (Call Str) Call.Result → Bool
  | .rest l => !l.closed && l.conn.written.contains line
  | .run _ _ _ => false

example : openAfter (quotedLine "FAILED".toList "non-integer operand".toList)
    (failedWorld.thread 0) = true := by decide +kernel

/-- **Not every `ERROR` closes the session.** -/
theorem not_always_error_closes :
    ¬∀ w : World Str, Reachable plainEnv w → ∀ t, LastWord (w.thread t) := by
  intro h
  have hrun : Reachable plainEnv mistakenWorld := System.run_follow (fun _ _ => True) start _
  have hopen : openAfter (quotedLine "ERROR".toList "non-integer operand".toList)
      (mistakenWorld.thread 0) = true := by decide +kernel
  have hlast := h mistakenWorld hrun 0
  cases hthread : mistakenWorld.thread 0 with
  | run i l p =>
    rw [hthread] at hopen
    exact absurd hopen (by simp [openAfter])
  | rest l =>
    rw [hthread] at hopen hlast
    simp only [openAfter, Bool.and_eq_true, Bool.not_eq_true', List.contains_iff_mem] at hopen
    have herror : IsLineOf .error (quotedLine "ERROR".toList "non-integer operand".toList) :=
      ⟨["non-integer operand".toList], by decide +kernel⟩
    exact absurd (hopen.1.symm.trans (hlast.1 _ hopen.2 herror)) (by decide)

end Server

end Csf
