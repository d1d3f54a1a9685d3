import Csf.Server.Run

/-!
# One response to a request

A response is built from what clients have sent, and `encode` refuses to build one
that is too long, by an exception. Where that exception comes from inside a `try`
it is one more way for a request to fail, and the client is told; where it comes
from a `catch` block of `chat_with_client` nobody catches it, and the server is
gone.

The handlers are run here against a protocol that lets only single lines into the
tables (`Csf.Server.responses`), and each is shown to write one response or to
throw with none written (`Csf.Server.Says`), and what it throws is short: the
`catch` blocks can report it.
-/

namespace Csf

namespace Server

open Interaction Handler

variable {α β γ : Type}

/-- A text without a line break. -/
abbrev OneLine (text : Str) : Prop := '\n' ∉ text

/-- **A response** as the client reads it: one line, of no more than
`MAX_ENCODED_LEN` bytes. -/
structure IsResponse (line : Str) : Prop where
  /-- It fits. -/
  length_le : line.length ≤ maxEncodedLen
  /-- It is one line. -/
  eq_line : ∃ text, line = text ++ ['\n'] ∧ OneLine text

/-- The exceptions a `catch` block of `chat_with_client` has no trouble to report. -/
def Reportable : Exn → Prop
  | .commException _ => False
  | e => e.what.length ≤ 100 ∧ OneLine e.what

instance : DecidablePred Reportable
  | .commException _ => isFalse nofun
  | .invalidMessage w => inferInstanceAs (Decidable (w.length ≤ 100 ∧ OneLine w))
  | .operationException w => inferInstanceAs (Decidable (w.length ≤ 100 ∧ OneLine w))
  | .failedTransaction w => inferInstanceAs (Decidable (w.length ≤ 100 ∧ OneLine w))

/-- No text with a line break is kept in the connection. -/
structure Clean (s : ClientConnection Str) : Prop where
  /-- Not on the stack. -/
  stack : ∀ v ∈ s.stack, OneLine v
  /-- Not in the buffer. -/
  buffer : ∀ (t : Str) (m : StrMap Str) (k v : Str),
    s.transactionBuffer[t]? = some m → m[k]? = some v → OneLine v

/-- No text with a line break is kept in a table. -/
structure CleanTables (σ : Tables Str) : Prop where
  /-- Not committed. -/
  data : ∀ (t k v : Str), (σ.table t).data[k]? = some v → OneLine v
  /-- Not for the time being. -/
  tempData : ∀ (t k v : Str), (σ.table t).tempData[k]? = some v → OneLine v

/-- What `Table::get` may answer: that there is no such key, or a single line. -/
def MayRead (key : Str) (x : Except Exn Str) : Prop :=
  x = .error (.operationException ("Key not found: ".toList ++ key)) ∨ ∃ v, x = .ok v ∧ OneLine v

/-- The protocol: only single lines are stored, and only they are read. Whether
the process may be ended is left open. -/
def responses (mayEnd : Prop) : Protocol (Call Str) Call.Result Unit where
  pre c _ := match c with
    | .set _ _ v => OneLine v
    | .terminate => mayEnd
    | _ => True
  may c _ r := match c, r with
    | .get _ key, (x : Except Exn Str) =>
        x = .error (.operationException ("Key not found: ".toList ++ key)) ∨
          ∃ v, x = .ok v ∧ OneLine v
    | _, _ => True
  after _ g _ := g

theorem indifferent_responses (mayEnd : Prop) : Indifferent (responses mayEnd) :=
  ⟨fun _ _ => ⟨trivial, fun _ => rfl⟩, fun _ _ => ⟨trivial, fun _ => rfl⟩,
    fun _ _ => ⟨trivial, fun _ => rfl⟩⟩

/-- Between two states a session has written `n` responses. -/
def Wrote (n : ℕ) (s s' : ClientConnection Str) : Prop :=
  ∃ lines : List Str, lines.length = n ∧ s'.written = s.written ++ lines ∧
    ∀ line ∈ lines, IsResponse line

theorem wrote_zero {s s' : ClientConnection Str} (h : s'.written = s.written) : Wrote 0 s s' :=
  ⟨[], rfl, by rw [h, List.append_nil], by simp⟩

theorem Wrote.trans {n m : ℕ} {s s' s'' : ClientConnection Str} (h : Wrote n s s')
    (h' : Wrote m s' s'') : Wrote (n + m) s s'' := by
  obtain ⟨ls, hn, hs, hls⟩ := h
  obtain ⟨ls', hm, hs', hls'⟩ := h'
  refine ⟨ls ++ ls', by rw [List.length_append, hn, hm], ?_, ?_⟩
  · rw [hs', hs, List.append_assoc]
  · intro line hline
    rcases List.mem_append.mp hline with hl | hl
    · exact hls line hl
    · exact hls' line hl

/-- How a handler should end that was started in `s`: with `n` responses and a
result in `V`, or with none and an exception in `T`. -/
def Outcome (n : ℕ) (V : α → ClientConnection Str → Prop) (T : Exn → ClientConnection Str → Prop)
    (s : ClientConnection Str) (rs : Except Exn α × ClientConnection Str) : Prop :=
  Clean rs.2 ∧ match rs.1 with
    | .ok a => Wrote n s rs.2 ∧ V a rs.2
    | .error e => Wrote 0 s rs.2 ∧ T e rs.2

/-- **A handler writes `n` responses or throws.** -/
def Says (mayEnd : Prop) (n : ℕ) (V : α → ClientConnection Str → Prop)
    (T : Exn → ClientConnection Str → Prop) (h : Handler Str α) (s : ClientConnection Str) : Prop :=
  Clean s → (responses mayEnd).wp (h s) (fun _ rs => Outcome n V T s rs) ()

/-- Any result will do. -/
abbrev Any : α → ClientConnection Str → Prop := fun _ _ => True

/-- Nothing is thrown. -/
abbrev Never : Exn → ClientConnection Str → Prop := fun _ _ => False

namespace Says

variable {mayEnd : Prop} {n m : ℕ} {V : α → ClientConnection Str → Prop}
  {W : γ → ClientConnection Str → Prop} {T T' : Exn → ClientConnection Str → Prop}
  {h : Handler Str α} {f : α → Handler Str γ} {s : ClientConnection Str}

theorem pure {a : α} (ha : V a s) : Says mayEnd 0 V T (Pure.pure a) s :=
  fun hs => ⟨hs, wrote_zero rfl, ha⟩

theorem throw {e : Exn} (he : T e s) : Says mayEnd n V T (MonadExcept.throw e) s :=
  fun hs => ⟨hs, wrote_zero rfl, he⟩

theorem update {g : ClientConnection Str → ClientConnection Str}
    (hg : Clean s → Clean (g s)) (hw : (g s).written = s.written)
    {V : Unit → ClientConnection Str → Prop} (hV : V () (g s)) :
    Says mayEnd 0 V T (Handler.update g) s :=
  fun hs => ⟨hg hs, wrote_zero hw, hV⟩

/-- A call that is allowed, and the answers it may get. -/
theorem ask {c : Call Str} {V : c.Result → ClientConnection Str → Prop}
    (hpre : (responses mayEnd).pre c ())
    (hV : ∀ r, (responses mayEnd).may c () r → V r s) : Says mayEnd 0 V T (Handler.ask c) s :=
  fun hs => ⟨hpre, fun r hr => ⟨hs, wrote_zero rfl, hV r hr⟩⟩

theorem terminate (hend : mayEnd) : Says mayEnd n V T Handler.terminate s :=
  fun _ => ⟨hend, nofun⟩

theorem self_bind {f : ClientConnection Str → Handler Str γ} (hf : Says mayEnd n W T (f s) s) :
    Says mayEnd n W T (Handler.self >>= f) s := hf

theorem ite {p : Prop} [Decidable p] {h h' : Handler Str α} (hh : p → Says mayEnd n V T h s)
    (hh' : ¬p → Says mayEnd n V T h' s) : Says mayEnd n V T (if p then h else h') s := by
  split
  · exact hh ‹_›
  · exact hh' ‹_›

/-- Sequence: first nothing is written, then `n` responses. -/
theorem bind (hh : Says mayEnd 0 V T h s) (hf : ∀ a s', V a s' → Says mayEnd n W T (f a) s') :
    Says mayEnd n W T (h >>= f) s := by
  intro hs
  rw [bind_apply, Protocol.wp_bind]
  refine (responses mayEnd).wp_mono (hh hs) ?_
  rintro ⟨⟩ ⟨e | a, s'⟩ ⟨hs', hw, hv⟩
  · exact ⟨hs', hw, hv⟩
  · refine (responses mayEnd).wp_mono (hf a s' hv hs') ?_
    rintro ⟨⟩ ⟨e | b, s''⟩ ⟨hs'', hw', hv'⟩
    · exact ⟨hs'', hw.trans hw', hv'⟩
    · refine ⟨hs'', ?_, hv'⟩
      simpa using hw.trans hw'

/-- Sequence: after the responses nothing more is written, and nothing thrown. -/
theorem andThen (hh : Says mayEnd n V T h s)
    (hf : ∀ a s', V a s' → Says mayEnd 0 W Never (f a) s') :
    Says mayEnd n W T (h >>= f) s := by
  intro hs
  rw [bind_apply, Protocol.wp_bind]
  refine (responses mayEnd).wp_mono (hh hs) ?_
  rintro ⟨⟩ ⟨e | a, s'⟩ ⟨hs', hw, hv⟩
  · exact ⟨hs', hw, hv⟩
  · refine (responses mayEnd).wp_mono (hf a s' hv hs') ?_
    rintro ⟨⟩ ⟨e | b, s''⟩ ⟨hs'', hw', hv'⟩
    · exact hv'.elim
    · exact ⟨hs'', hw.trans hw', hv'⟩

/-- A handler that throws leaves the response to its `catch` block. -/
theorem tryCatch {f : Exn → Handler Str α} (hh : Says mayEnd n V T h s)
    (hf : ∀ e s', T e s' → Says mayEnd n V T' (f e) s') :
    Says mayEnd n V T' (MonadExcept.tryCatch h f) s := by
  intro hs
  rw [tryCatch_apply, Protocol.wp_bind]
  refine (responses mayEnd).wp_mono (hh hs) ?_
  rintro ⟨⟩ ⟨e | a, s'⟩ ⟨hs', hw, hv⟩
  · refine (responses mayEnd).wp_mono (hf e s' hv hs') ?_
    rintro ⟨⟩ ⟨e' | b, s''⟩ ⟨hs'', hw', hv'⟩
    · exact ⟨hs'', hw.trans hw', hv'⟩
    · refine ⟨hs'', ?_, hv'⟩
      simpa using hw.trans hw'
  · exact ⟨hs', hw, hv⟩

theorem mono {V' : α → ClientConnection Str → Prop} (hh : Says mayEnd n V T h s)
    (hV : ∀ a s', V a s' → V' a s') (hT : ∀ e s', T e s' → T' e s') : Says mayEnd n V' T' h s := by
  refine fun hs => (responses mayEnd).wp_mono (hh hs) ?_
  rintro ⟨⟩ ⟨e | a, s'⟩ ⟨hs', hw, hv⟩
  · exact ⟨hs', hw, hT e s' hv⟩
  · exact ⟨hs', hw, hV a s' hv⟩

end Says

/-! ### Responses -/

theorem oneLine_name {type : MessageType} {name : Str} (h : type.name = some name) :
    OneLine name := by
  cases type <;> simp only [MessageType.name, Option.some.injEq, reduceCtorEq] at h <;> subst h <;>
    decide

theorem oneLine_append {a b : Str} (ha : OneLine a) (hb : OneLine b) : OneLine (a ++ b) :=
  fun h => (List.mem_append.mp h).elim ha hb

theorem oneLine_cons {c : Char} {a : Str} (hc : '\n' ≠ c) (ha : OneLine a) : OneLine (c :: a) :=
  fun h => (List.mem_cons.mp h).elim hc ha

theorem oneLine_encodeArgs {args : List Str} (h : ∀ a ∈ args, OneLine a) (quoted : Bool) :
    OneLine (encodeArgs quoted args) := by
  induction args generalizing quoted with
  | nil => exact List.not_mem_nil
  | cons a as ih =>
    have ha : OneLine a := h a List.mem_cons_self
    have has := ih (fun b hb => h b (List.mem_cons_of_mem a hb)) false
    cases quoted <;> simp [encodeArgs, OneLine, ha, has]

/-- **What `encode` lets pass is a response.** -/
theorem isResponse_of_encode {resp : Message} {line : Str} (hty : resp.messageType ≠ .none)
    (hargs : ∀ a ∈ resp.args, OneLine a) (h : encode resp = .ok line) : IsResponse line := by
  rw [encode] at h
  split at h
  · rename_i hname
    cases hm : resp.messageType <;> rw [hm] at hname hty <;>
      simp [MessageType.name] at hname hty
  · rename_i name hname
    dsimp only at h
    split at h
    · exact absurd h (by simp)
    · rename_i hlen
      obtain rfl := Except.ok.inj h
      refine ⟨by omega, _, rfl, ?_⟩
      exact oneLine_append (oneLine_name hname) (oneLine_encodeArgs hargs _)

theorem encode_ok : encode ⟨.ok, []⟩ = .ok okLine := rfl

theorem isResponse_okLine : IsResponse okLine :=
  isResponse_of_encode (by decide) (by simp) encode_ok

/-- The exception of `encode`. -/
abbrev tooLong : Exn := .invalidMessage "Encoded message exceeds maximum size".toList

theorem encode_cases {resp : Message} (hty : resp.messageType ≠ .none)
    (hargs : ∀ a ∈ resp.args, OneLine a) :
    encode resp = .error tooLong ∨ ∃ line, encode resp = .ok line ∧ IsResponse line := by
  cases h : encode resp with
  | ok line => exact Or.inr ⟨line, rfl, isResponse_of_encode hty hargs h⟩
  | error e =>
    refine Or.inl ?_
    rw [encode] at h
    split at h
    · exact absurd h (by simp)
    · dsimp only at h
      split at h
      · exact h.symm ▸ rfl
      · exact absurd h (by simp)

namespace Says

variable {mayEnd : Prop} {T : Exn → ClientConnection Str → Prop} {s : ClientConnection Str}

/-- Sending a response, if need be by an exception. -/
theorem send {resp : Message} (hty : resp.messageType ≠ .none)
    (hargs : ∀ a ∈ resp.args, OneLine a) (hT : T tooLong s) :
    Says mayEnd 1 Any T (Server.send resp) s := by
  intro hs
  rw [Server.send, bind_apply, fromExcept_apply, Program.ret_bind]
  rcases encode_cases hty hargs with h | ⟨line, h, hline⟩
  · rw [h]
    exact ⟨hs, wrote_zero rfl, hT⟩
  · rw [h]
    refine ⟨trivial, fun _ _ => ?_⟩
    exact ⟨⟨hs.stack, hs.buffer⟩, ⟨[line], rfl, rfl, by simpa using hline⟩, trivial⟩

/-- Sending a response that fits. -/
theorem send_fits {resp : Message} {line : Str} (hty : resp.messageType ≠ .none)
    (hargs : ∀ a ∈ resp.args, OneLine a) (h : encode resp = .ok line) :
    Says mayEnd 1 Any T (Server.send resp) s := by
  intro hs
  rw [Server.send, bind_apply, fromExcept_apply, Program.ret_bind, h]
  refine ⟨trivial, fun _ _ => ⟨⟨hs.stack, hs.buffer⟩, ⟨[line], rfl, rfl, ?_⟩, trivial⟩⟩
  simpa using isResponse_of_encode hty hargs h

theorem sendOk : Says mayEnd 1 Any T Server.sendOk s :=
  send_fits (by decide) (by simp) encode_ok

theorem sendFailed {what : Str} (hlen : what.length ≤ 1014) (hwhat : OneLine what) :
    Says mayEnd 1 Any T (Server.sendFailed what) s := by
  refine send_fits (by simp) (by simpa using hwhat) ((encode_quoted rfl rfl what).trans (if_neg ?_))
  have hl : "FAILED".toList.length = 6 := by decide
  rw [hl, maxEncodedLen]
  omega

theorem sendError {what : Str} (hlen : what.length ≤ 1015) (hwhat : OneLine what) :
    Says mayEnd 1 Any T (Server.sendError what) s := by
  refine send_fits (by simp) (by simpa using hwhat) ((encode_quoted rfl rfl what).trans (if_neg ?_))
  have hl : "ERROR".toList.length = 5 := by decide
  rw [hl, maxEncodedLen]
  omega

end Says

/-! ### The handlers -/

/-- What a handler may throw: something short – and an `InvalidMessage`, which ends
the session, only outside of a transaction. -/
def Thrown (e : Exn) (s : ClientConnection Str) : Prop :=
  Reportable e ∧ ((∃ what, e = .invalidMessage what) → s.inTransaction = false)

theorem thrown_operation {what : Str} (s : ClientConnection Str)
    (h : Reportable (.operationException what)) : Thrown (.operationException what) s :=
  ⟨h, fun ⟨_, he⟩ => absurd he (by simp)⟩

theorem thrown_failed {what : Str} (s : ClientConnection Str)
    (h : Reportable (.failedTransaction what)) : Thrown (.failedTransaction what) s :=
  ⟨h, fun ⟨_, he⟩ => absurd he (by simp)⟩

namespace Says

variable {mayEnd : Prop} {T : Exn → ClientConnection Str → Prop} {s : ClientConnection Str}
  {addrLe : Str → Str → Bool} {req : Message}

/-- The state a handler starts in may be taken to be clean. -/
theorem of_clean {n : ℕ} {V : α → ClientConnection Str → Prop} {h : Handler Str α}
    (hh : Clean s → Says mayEnd n V T h s) : Says mayEnd n V T h s := fun hs => hh hs hs

theorem stackGetTop (hT : T (.operationException "ValueStack is empty".toList) s) :
    Says mayEnd 0 (fun v _ => OneLine v) T Server.stackGetTop s := by
  refine of_clean fun hs => self_bind ?_
  split
  · exact throw hT
  · rename_i v vs hvs
    exact pure (hs.stack v (by simp [hvs]))

theorem stackPop (hT : T (.operationException "ValueStack is empty".toList) s) :
    Says mayEnd 0 Any T Server.stackPop s := by
  refine self_bind ?_
  split
  · exact throw hT
  · rename_i v vs hvs
    refine update (fun hs => ⟨fun u hu => hs.stack u ?_, hs.buffer⟩) rfl trivial
    rw [hvs]
    exact List.mem_cons_of_mem v hu

theorem stackPush {v : Str} (hv : OneLine v) : Says mayEnd 0 Any T (Server.stackPush v) s := by
  refine update (fun hs => ⟨fun u hu => ?_, hs.buffer⟩) rfl trivial
  rcases List.mem_cons.mp hu with rfl | hu
  · exact hv
  · exact hs.stack u hu

theorem noteUse (table key : Str) : Says mayEnd 0 Any T (Server.noteUse table key) s :=
  update (fun hs => ⟨hs.stack, hs.buffer⟩) rfl trivial

/-- A rollback says nothing, and throws nothing. -/
theorem rollbackTransaction :
    Says mayEnd 0 (fun _ s' => s'.inTransaction = false) T Server.rollbackTransaction s := by
  refine fun hs =>
    (responses mayEnd).wp_mono (indifferent_responses mayEnd).wp_rollbackTransaction ?_
  rintro _ _ ⟨rfl, -⟩
  refine ⟨⟨?_, ?_⟩, wrote_zero (rolledBack_written s), rolledBack_inTransaction s⟩
  · rw [rolledBack_stack]
    exact hs.stack
  · rw [rolledBack_transactionBuffer]
    exact hs.buffer

theorem create : Says mayEnd 1 Any Thrown (Server.create req) s :=
  ite (fun _ => throw (thrown_operation s (by decide))) fun _ =>
    bind (V := Any) (ask trivial fun _ _ => trivial) fun _ _ _ => sendOk

theorem push (hargs : ∀ a ∈ req.args, OneLine a) :
    Says mayEnd 1 Any T (Server.push (Env.plain addrLe) req) s := by
  have hval : OneLine req.getValue := by
    unfold Message.getValue
    split
    · rename_i h
      exact hargs _ (by simp [h])
    · rename_i h
      exact hargs _ (by simp [h])
    · exact List.not_mem_nil
  have hpush : ∀ s', Says mayEnd 1 Any T
      (do Server.stackPush ((Env.plain addrLe).lit req.getValue); Server.sendOk) s' :=
    fun s' => bind (stackPush hval) fun _ _ _ => sendOk
  refine self_bind (ite (fun _ => ?_) fun _ => hpush s)
  refine bind (V := Any) (update (fun hs => ⟨by simp, hs.buffer⟩) rfl trivial) ?_
  exact fun _ s' _ => hpush s'

theorem pop : Says mayEnd 1 Any T Server.pop s := by
  refine self_bind (ite (fun _ => sendFailed (by decide) (by decide)) fun _ => ?_)
  refine tryCatch (T := Any) (bind (stackPop trivial) fun _ _ _ => sendOk) ?_
  exact fun _ _ _ => sendFailed (by decide) (by decide)

theorem top : Says mayEnd 1 Any T (Server.top (Env.plain addrLe)) s := by
  refine self_bind (ite (fun _ => sendFailed (by decide) (by decide)) fun _ => ?_)
  refine tryCatch (T := Any) (bind (stackGetTop trivial) fun v _ hv => ?_) ?_
  · refine send (by simp) (fun a ha => ?_) trivial
    obtain rfl := List.mem_singleton.mp ha
    exact hv
  · exact fun _ _ _ => sendFailed (by decide) (by decide)

theorem lockForTransaction {E : Env Str} {t : Str} :
    Says mayEnd 0 Any Thrown (Server.lockForTransaction E t) s := by
  refine fun hs =>
    (responses mayEnd).wp_mono (indifferent_responses mayEnd).wp_lockForTransaction ?_
  rintro _ _ ⟨-, ts, rfl | rfl⟩
  · exact ⟨⟨hs.stack, hs.buffer⟩, wrote_zero rfl, trivial⟩
  · refine ⟨⟨?_, ?_⟩, wrote_zero (rolledBack_written _), thrown_failed _ (by decide)⟩
    · rw [rolledBack_stack]
      exact hs.stack
    · rw [rolledBack_transactionBuffer]
      exact hs.buffer

theorem storeValue {t table key val : Str} (hval : OneLine val) :
    Says mayEnd 0 Any Thrown (Server.storeValue (Env.plain addrLe) t table key val) s := by
  refine self_bind (ite (fun _ => ?_) fun _ => ?_)
  · refine bind lockForTransaction fun _ s' _ => update (fun hs => ⟨hs.stack, ?_⟩) rfl trivial
    intro u m k v hu hv
    rw [Std.ExtTreeMap.getElem?_insert] at hu
    split at hu
    · -- the table written to: what was buffered for it, and the new value
      obtain rfl := Option.some.inj hu
      rw [Std.ExtTreeMap.getElem?_insert] at hv
      split at hv
      · obtain rfl := Option.some.inj hv
        exact hval
      · cases hb : s'.transactionBuffer[table]? with
        | none => simp [hb] at hv
        | some m => exact hs.buffer table m k v hb (by simpa [hb] using hv)
    · exact hs.buffer u m k v hu hv
  · refine bind (V := Any) (ask trivial fun _ _ => trivial) fun _ _ _ => ?_
    refine bind (V := Any) (ask hval fun _ _ => trivial) fun _ _ _ => ?_
    refine bind (V := Any) (ask trivial fun _ _ => trivial) fun _ _ _ => ?_
    exact ask trivial fun _ _ => trivial

theorem catchSet {t : Str} {e : Exn} (he : Reportable e) :
    Says mayEnd 1 Any T (Server.catchSet t e) s := by
  have hwhat : e.what.length ≤ 100 ∧ OneLine e.what := by
    cases e with
    | commException w => exact he.elim
    | _ => exact he
  have hlen : ("set failed: ".toList ++ e.what).length ≤ 1014 := by
    have : "set failed: ".toList.length = 12 := by decide
    rw [List.length_append]
    omega
  have hone := oneLine_append (a := "set failed: ".toList) (by decide) hwhat.2
  refine self_bind (ite (fun _ => ?_) fun _ => sendFailed hlen hone)
  exact bind (V := Any) (ask trivial fun _ _ => trivial) fun _ _ _ => sendFailed hlen hone

theorem set : Says mayEnd 1 Any Thrown (Server.set (Env.plain addrLe) req) s := by
  refine ite (fun _ => throw (thrown_operation s (by decide))) fun _ => ?_
  refine ite (fun _ => throw (thrown_operation s (by decide))) fun _ => ?_
  refine bind (V := Any) (ask trivial fun _ _ => trivial) fun t? s' _ => ?_
  refine self_bind (ite (fun _ => sendFailed (by decide) (by decide)) fun _ => ?_)
  cases t? with
  | none => exact sendFailed (by decide) (by decide)
  | some t =>
    refine tryCatch (T := Thrown) ?_ fun e _ he => catchSet he.1
    refine bind (stackGetTop (thrown_operation s' (by decide))) fun v s₁ hv => ?_
    refine bind (stackPop (thrown_operation s₁ (by decide))) fun _ _ _ => ?_
    exact bind (storeValue hv) fun _ _ _ => bind (noteUse _ _) fun _ _ _ => sendOk

/-- What reading a value may throw: that there is none for the key. -/
def NoValue (e : Exn) (_ : ClientConnection Str) : Prop :=
  ∃ what, e = .operationException what ∧ OneLine what

theorem readValue {t table key : Str} (hkey : OneLine key) :
    Says mayEnd 0 (fun v _ => OneLine v) NoValue (Server.readValue t table key) s := by
  refine of_clean fun hs => self_bind ?_
  split
  · rename_i v hv
    refine pure ?_
    split at hv
    · obtain ⟨m, hm, hv⟩ := Option.bind_eq_some_iff.mp hv
      exact hs.buffer table m key v hm hv
    · exact absurd hv (by simp)
  · refine bind (V := Any) (ask trivial fun _ _ => trivial) fun found s' _ => ?_
    refine ite (fun _ => throw ⟨_, rfl, by decide⟩) fun _ => ?_
    refine bind (V := fun x _ => MayRead key x) (ask trivial fun _ hr => hr) ?_
    rintro x s'' (rfl | ⟨v, rfl, hv⟩) hs''
    · exact ⟨hs'', wrote_zero rfl, _, rfl, oneLine_append (by decide) hkey⟩
    · exact ⟨hs'', wrote_zero rfl, hv⟩

theorem getFrom {t table key : Str} (hkey : OneLine key) :
    Says mayEnd 1 Any Thrown (Server.getFrom t table key) s := by
  refine tryCatch (T := NoValue) ?_ ?_
  · refine bind (readValue hkey) fun v _ hv => bind (stackPush hv) fun _ _ _ => ?_
    refine bind (noteUse _ _) fun _ _ _ => self_bind (ite (fun _ => ?_) fun _ => sendOk)
    exact bind (V := Any) (ask trivial fun _ _ => trivial) fun _ _ _ => sendOk
  · rintro _ s' ⟨what, rfl, hwhat⟩
    refine self_bind (ite (fun _ => ?_) fun hin => ?_)
    · exact bind rollbackTransaction fun _ s'' _ => throw (thrown_failed s'' (by decide))
    · refine bind (V := fun _ s'' => s'' = s') (ask trivial fun _ _ => rfl) ?_
      rintro _ _ rfl
      -- the text repeats the key: outside of a transaction it may be too long
      refine send (by simp) (by simpa using hwhat) ⟨by decide, fun _ => Bool.eq_false_iff.mpr hin⟩

theorem get (hargs : ∀ a ∈ req.args, OneLine a) :
    Says mayEnd 1 Any Thrown (Server.get (Env.plain addrLe) req) s := by
  have hkey : OneLine req.getKey := by
    unfold Message.getKey
    split
    · rename_i h
      exact hargs _ (by simp [h])
    · rename_i h
      exact hargs _ (by simp [h])
    · exact List.not_mem_nil
  refine bind (V := Any) (ask trivial fun _ _ => trivial) fun t? s' _ => ?_
  cases t? with
  | none => exact sendFailed (by decide) (by decide)
  | some t =>
    refine self_bind (ite (fun _ => ?_) fun _ => getFrom hkey)
    exact bind lockForTransaction fun _ _ _ => getFrom hkey

theorem begin : Says mayEnd 1 Any T Server.begin s := by
  refine self_bind (ite (fun _ => sendFailed (by decide) (by decide)) fun _ => ?_)
  exact bind (V := Any) (update (fun hs => ⟨hs.stack, hs.buffer⟩) rfl trivial) fun _ _ _ => sendOk

theorem commit : Says mayEnd 1 Any Thrown Server.commit s := by
  refine self_bind (ite (fun _ => sendFailed (by decide) (by decide)) fun _ => ?_)
  refine tryCatch (T := Never) ?_ fun _ _ h => h.elim
  intro hs
  refine wp_then (wp_forM_const ?_) ?_
  · rintro ⟨name, keyvals⟩ hp
    refine ⟨trivial, fun t? _ => ?_⟩
    cases t? with
    | none => exact ⟨rfl, rfl, rfl⟩
    | some t =>
      refine wp_forM_const fun kv hkv => ⟨?_, fun _ _ => ⟨rfl, rfl, rfl⟩⟩
      exact hs.buffer name keyvals kv.1 kv.2
        (Std.ExtTreeMap.mem_toList_iff_getElem?_eq_some.mp hp)
        (Std.ExtTreeMap.mem_toList_iff_getElem?_eq_some.mp hkv)
  · rintro ⟨⟩ _ s' ⟨rfl, rfl, -⟩
    refine ⟨(), rfl, wp_then (wp_forM_const fun _ _ => ⟨trivial, fun _ _ => ⟨rfl, rfl, rfl⟩⟩) ?_⟩
    rintro ⟨⟩ _ s'' ⟨rfl, rfl, -⟩
    refine ⟨(), rfl, wp_then (wp_forM_const fun _ _ => ⟨trivial, fun _ _ => ⟨rfl, rfl, rfl⟩⟩) ?_⟩
    rintro ⟨⟩ _ s₃ ⟨rfl, rfl, -⟩
    exact ⟨(), rfl, sendOk ⟨hs.stack, by simp⟩⟩

end Says

/-! ### Arithmetic -/

theorem oneLine_toDecimal (n : ℤ) : OneLine (toDecimal n) := by
  have hdigits : OneLine (Nat.toDigits 10 n.natAbs) := fun h =>
    absurd (Nat.isDigit_of_mem_toDigits (by decide) (by decide) h) (by decide)
  rw [toDecimal]
  split
  · intro h
    rcases List.mem_cons.mp h with h | h
    · exact absurd h (by decide)
    · exact hdigits h
  · exact hdigits

/-- The types `arithmetic` is called for. -/
def MessageType.isArithmetic (type : MessageType) : Bool :=
  type == .add || type == .sub || type == .mul || type == .div

namespace Says

variable {mayEnd : Prop} {T : Exn → ClientConnection Str → Prop} {s : ClientConnection Str}
  {addrLe : Str → Str → Bool} {req : Message}

theorem operate {type : MessageType} (htype : type.isArithmetic = true)
    (hdiv : type = .div → mayEnd) (l r : ℤ) :
    Says mayEnd 0 (fun r _ => r.isSome = true) T (Server.operate type l r) s := by
  cases type <;> first | exact absurd htype (by decide) | skip
  · exact pure rfl
  · exact pure rfl
  · exact pure rfl
  · exact ite (fun _ => terminate (hdiv rfl)) fun _ => pure rfl

/-- The operands are pushed back, in whichever order, before the request fails. -/
theorem restore {v v' : Str} (hv : OneLine v) (hv' : OneLine v') {h : Handler Str Unit}
    (hh : ∀ s', Says mayEnd 1 Any T h s') :
    Says mayEnd 1 Any T (do Server.stackPush v; Server.stackPush v'; h) s :=
  bind (stackPush hv) fun _ _ _ => bind (stackPush hv') fun _ s' _ => hh s'

theorem arithmetic (htype : req.messageType.isArithmetic = true)
    (hdiv : req.messageType = .div → mayEnd) :
    Says mayEnd 1 Any Thrown (Server.arithmetic (Env.plain addrLe) req) s := by
  have operation : ∀ {what : Str} (s' : ClientConnection Str),
      Reportable (.operationException what) → Says mayEnd 1 Any Thrown
        (MonadExcept.throw (.operationException what) : Handler Str Unit) s' :=
    fun s' h => throw (thrown_operation s' h)
  refine self_bind (ite (fun _ => operation s (by decide)) fun _ => ?_)
  refine bind (stackGetTop (thrown_operation s (by decide))) fun v s₁ hv => ?_
  refine ite (fun _ => sendFailed (by decide) (by decide)) fun _ => ?_
  refine bind (stackPop (thrown_operation s₁ (by decide))) fun _ s₂ _ => ?_
  refine bind (stackGetTop (thrown_operation s₂ (by decide))) fun v' s₃ hv' => ?_
  refine ite (fun _ => bind (stackPush hv) fun _ _ _ => sendFailed (by decide) (by decide))
    fun _ => ?_
  refine bind (stackPop (thrown_operation s₃ (by decide))) fun _ s₄ _ => ?_
  split
  · exact restore hv' hv fun s' => operation s' (by decide)
  · exact restore hv' hv fun s' => operation s' (by decide)
  refine ite (fun _ => restore hv' hv fun _ => sendError (by decide) (by decide)) fun _ => ?_
  split
  · exact restore hv hv' fun s' => operation s' (by decide)
  · exact restore hv' hv fun s' => operation s' (by decide)
  refine ite (fun _ => restore hv hv' fun _ => sendError (by decide) (by decide)) fun _ => ?_
  refine ite (fun _ => restore hv hv' fun _ => sendError (by decide) (by decide)) fun _ => ?_
  refine bind (operate htype hdiv _ _) fun r _ hr => ?_
  cases r with
  | none => exact absurd hr (by decide)
  | some result => exact bind (stackPush (oneLine_toDecimal result)) fun _ _ _ => sendOk

end Says

/-! ### Requests -/

/-- The requests on which `chat_with_client` returns in the state `s`. -/
def endsSession (req : Message) (s : ClientConnection β) : Bool :=
  (!s.hasLoggedIn && req.messageType != .login) || !req.isValid ||
    match req.messageType with
    | .login => !Message.isValidIdentifier req.getUsername
    | .bye | .none | .ok | .failed | .error | .data => true
    | _ => false

/-- How a session may part: outside of a transaction, or on an input that ends it
(`ends`) with the transaction as it was. -/
def Parted (ends : Bool) (s s' : ClientConnection Str) : Prop :=
  s'.inTransaction = false ∨ ends = true ∧ SameTxn s s'

/-- What serving a request may return. -/
def Served (ends : Bool) (s : ClientConnection Str) (next : Next) (s' : ClientConnection Str) :
    Prop :=
  next = .done → Parted ends s s'

/-- What serving a request may throw into the `catch` blocks. -/
def Rejected (ends : Bool) (s : ClientConnection Str) (e : Exn) (s' : ClientConnection Str) :
    Prop :=
  Reportable e ∧ ((∃ what, e = .invalidMessage what) → Parted ends s s')

/-- **Serving a request** writes one response, or throws. -/
theorem says_chatRequest {mayEnd : Prop} {addrLe : Str → Str → Bool} {req : Message}
    {s : ClientConnection Str} (hargs : ∀ a ∈ req.args, OneLine a)
    (hdiv : req.messageType = .div → mayEnd) :
    Says mayEnd 1 (Served (endsSession req s) s) (Rejected (endsSession req s) s)
      (chatRequest (Env.plain addrLe) req) s := by
  have invalid : ∀ {what : Str}, endsSession req s = true → Reportable (.invalidMessage what) →
      Says mayEnd 1 (Served (endsSession req s) s) (Rejected (endsSession req s) s)
        (MonadExcept.throw (.invalidMessage what) : Handler Str Next) s :=
    fun hends he => Says.throw ⟨he, fun _ => Or.inr ⟨hends, .refl s⟩⟩
  have handled : ∀ {h : Handler Str Unit}, Says mayEnd 1 Any Thrown h s →
      Says mayEnd 1 (Served (endsSession req s) s) (Rejected (endsSession req s) s)
        (h >>= fun _ => Pure.pure .again) s :=
    fun hh => Says.andThen
      (hh.mono (fun _ _ h => h) fun _ _ ht => ⟨ht.1, fun hw => Or.inl (ht.2 hw)⟩)
      fun _ _ _ => Says.pure nofun
  refine Says.self_bind (Says.ite (fun h => invalid ?_ (by decide)) fun _ => ?_)
  · rw [endsSession, h, Bool.true_or, Bool.true_or]
  refine Says.ite (fun h => invalid ?_ (by decide)) fun _ => ?_
  · rw [endsSession, h, Bool.or_true, Bool.true_or]
  split
  · rename_i hty
    refine Says.ite (fun h => invalid ?_ (by decide)) fun _ => ?_
    · rw [endsSession, hty]
      simp only [h, Bool.or_true]
    · refine Says.bind (V := Any) (Says.update (fun hs => ⟨hs.stack, hs.buffer⟩) rfl trivial) ?_
      exact fun _ _ _ => Says.andThen .sendOk fun _ _ _ => Says.pure nofun
  · exact handled .create
  · exact handled (.push hargs)
  · exact handled .pop
  · exact handled .top
  · exact handled .set
  · exact handled (.get hargs)
  · rename_i hty
    exact handled (.arithmetic (by rw [hty]; rfl) hdiv)
  · rename_i hty
    exact handled (.arithmetic (by rw [hty]; rfl) hdiv)
  · rename_i hty
    exact handled (.arithmetic (by rw [hty]; rfl) hdiv)
  · rename_i hty
    exact handled (.arithmetic (by rw [hty]; rfl) hdiv)
  · exact handled .begin
  · exact handled .commit
  · rename_i hty
    have hends : endsSession req s = true := by
      rw [endsSession, hty, Bool.or_true]
    -- `BYE` is answered, and leaves everything else as it was
    refine fun hs => ⟨trivial, fun _ _ => ⟨⟨hs.stack, hs.buffer⟩, ⟨[okLine], rfl, rfl, ?_⟩,
      fun _ => Or.inr ⟨hends, rfl, rfl, rfl⟩⟩⟩
    rintro line hline
    obtain rfl := List.mem_singleton.mp hline
    exact isResponse_okLine
  · rename_i hlogin hcreate hpush hpop htop hset hget hadd hsub hmul hdiv' hbegin hcommit hbye
    refine invalid ?_ (by decide)
    cases hty : req.messageType <;> simp_all [endsSession]

/-- **The `catch` blocks** write one response to whatever serving a request has
thrown, and throw nothing themselves. -/
theorem says_catchBlocks {mayEnd ends} {s₀ s : ClientConnection Str} {e : Exn}
    (he : Rejected ends s₀ e s) :
    Says mayEnd 1 (Served ends s₀) Never (catchBlocks e) s := by
  obtain ⟨hrep, hpart⟩ := he
  cases e with
  | commException what => exact hrep.elim
  | invalidMessage what =>
    obtain ⟨hlen, hone⟩ : what.length ≤ 100 ∧ OneLine what := hrep
    have hsend : Says mayEnd 1 Any Never (sendError what) s := .sendError (by omega) hone
    intro hs
    have h := hsend hs
    rw [sendError_apply (by omega)] at h
    rw [catchBlocks, bind_apply, sendError_apply (by omega), Program.call_bind]
    obtain ⟨hclean, hwrote, -⟩ := h.2 () trivial
    refine ⟨trivial, fun _ _ => ⟨hclean, hwrote, fun _ => ?_⟩⟩
    rcases hpart ⟨what, rfl⟩ with hin | ⟨hends, hsame⟩
    · exact Or.inl hin
    · exact Or.inr ⟨hends, hsame.trans ⟨rfl, rfl, rfl⟩⟩
  | operationException what =>
    obtain ⟨hlen, hone⟩ : what.length ≤ 100 ∧ OneLine what := hrep
    refine Says.andThen (.sendFailed (by omega) hone) fun _ _ _ => Says.self_bind (Says.ite ?_ ?_)
    · exact fun _ => Says.bind .rollbackTransaction fun _ _ _ => Says.pure nofun
    · exact fun _ => Says.pure nofun
  | failedTransaction what =>
    obtain ⟨hlen, hone⟩ : what.length ≤ 100 ∧ OneLine what := hrep
    refine Says.andThen (.sendFailed (by omega) hone) fun _ _ _ => ?_
    exact Says.bind .rollbackTransaction fun _ _ _ => Says.pure nofun

end Server

end Csf
