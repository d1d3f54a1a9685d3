import Csf.Lib.Feed
import Csf.Server.Rio
import Csf.Server.Run

/-!
# The server on the wire

`Csf.Server.system` is given the inputs of its sessions. Here they are read, by `Rio_readlineb`
from the connections: a session reads the next line from its own one whenever `chat_with_client`
comes to the beginning of its loop (`Csf.Server.wireSystem`). Its clients may as well send the
bytes one by one.

What is reached so is what is reached when each session takes the next line of a stream, the one
its client sends (`Csf.Server.wire_refines`): nothing depends on how the stream arrives. And from
messages that are written one after the other the session takes exactly these messages, in this
order, up to the one that cannot be written as a whole, which is not taken for a request
(`Csf.Server.inputs_of_sendMessages`).
-/

namespace Csf

namespace Server

open Interaction

variable {β : Type}

/-! ### Inputs from a connection -/

/-- What `chat_with_client` makes of what `Rio_readlineb` has read. -/
def inputOf : Option Str → Input
  | none => .error
  | some [] => .eof
  | some (c :: buf) => .line (c :: buf)

/-- A connection as a session reads it, no `read` from which fails. -/
structure Wire where
  /-- `m_fdbuf` -/
  rp : RioT
  /-- `m_client_fd` -/
  fd : Source Char
  /-- No call fails. -/
  sound : NoneFails fd.events

namespace Wire

/-- The stream that is left. -/
def left (wire : Wire) : Str := wire.rp.left wire.fd

/-- `Rio_readlineb` into the buffer of `chat_with_client`. -/
def next (wire : Wire) : Input × Wire :=
  let r := wire.rp.readlineb maxEncodedLen wire.fd
  have hsound := (RioT.readlineb_eq wire.rp maxEncodedLen wire.sound).choose_spec.2.2
  (inputOf r.1, ⟨r.2.1, r.2.2, hsound⟩)

/-- A connection that has been accepted: `Rio_readinitb` has been called, and nothing read. -/
def accepted (rp : RioT) (fd : Source Char) (h : NoneFails fd.events) : Wire :=
  ⟨rp.readinitb, fd, h⟩

@[simp] theorem left_accepted (rp : RioT) (fd : Source Char) (h : NoneFails fd.events) :
    (accepted rp fd h).left = fd.pending := by
  rw [left, RioT.left]
  exact congrArg (· ++ fd.pending) rp.unread_readinitb

end Wire

/-- The next line of a stream, and what is left of it. -/
def nextLine (s : Str) : Input × Str :=
  let r := rioReadlineb maxEncodedLen s
  (inputOf (some r.1), r.2)

/-- **A connection delivers the lines of the stream.** -/
theorem nextLine_left (wire : Wire) :
    nextLine wire.left = (wire.next.1, wire.next.2.left) := by
  obtain ⟨s, hs, hread, -⟩ := RioT.readlineb_eq wire.rp maxEncodedLen wire.sound
  rw [nextLine, Wire.left, hread, Wire.next, hs]
  rfl

/-! ### The server -/

/-- **The server reading from its connections.** -/
def wireSystem (env : SessionId → ℕ → Env β) :
    System SessionId Unit (Local β × Wire) (Tables β) (Call β) Call.Result :=
  (system env).fed Wire.next

/-- **The server taking lines from streams.** -/
def streamSystem (env : SessionId → ℕ → Env β) :
    System SessionId Unit (Local β × Str) (Tables β) (Call β) Call.Result :=
  (system env).fed nextLine

/-- The server as it comes up, every session having a source of inputs. The mutexes of the
tables that there are going to be are free. -/
def startWith {T : Type} (sources : SessionId → T) :
    Pool SessionId Unit (Local β × T) (Tables β) (Call β) Call.Result where
  shared := { created := fun _ => false, table := fun _ => {} }
  thread t := .rest ({}, sources t)
  down := false

/-- A state of the server, the connections being seen as the streams that are left. -/
def streams (w : Pool SessionId Unit (Local β × Wire) (Tables β) (Call β) Call.Result) :
    Pool SessionId Unit (Local β × Str) (Tables β) (Call β) Call.Result :=
  w.map fun l => (l.1, l.2.left)

/-- **How the streams arrive does not matter**: the states that can be reached are those that
can be reached when each session takes the next line from its stream; and they are, the streams
apart, among those that can be reached at all. -/
theorem wire_refines (env : SessionId → ℕ → Env β) (wires : SessionId → Wire) :
    (∀ v, (streamSystem env).Run (fun _ _ => True) (startWith fun t => (wires t).left) v ↔
      ∃ w, (wireSystem env).Run (fun _ _ => True) (startWith wires) w ∧ streams w = v) ∧
    ∀ w, (wireSystem env).Run (fun _ _ => True) (startWith wires) w →
      Reachable env (System.forget Wire.next w) := by
  have hhom : (wireSystem env).Hom (streamSystem env) fun l => (l.1, l.2.left) :=
    System.hom_fed Wire.left nextLine_left
  have hstart : streams (startWith (β := β) wires) = startWith fun t => (wires t).left := rfl
  refine ⟨fun v => ⟨fun h => ?_, ?_⟩, fun w h => System.run_forget h⟩
  · rw [← hstart] at h
    exact hhom.exists_run_of_map h
  · rintro ⟨w, hw, rfl⟩
    rw [← hstart]
    exact hhom.run_map hw

/-! ### The messages of a stream -/

/-- Messages are encoded and written one after the other, up to the first that cannot be. -/
def sendMessages : List Message → Sink Char → Sink Char
  | [], fd => fd
  | m :: ms, fd =>
      match encode m with
      | .error _ => fd
      | .ok line =>
          match rioWriten line fd with
          | (true, fd') => sendMessages ms fd'
          | (false, fd') => fd'

/-- The next inputs that are taken from a stream. -/
def inputs : ℕ → Str → List Input
  | 0, _ => []
  | n + 1, s => (nextLine s).1 :: inputs n (nextLine s).2

/-- A request that comes over the wire as it is. -/
structure Transmissible (m : Message) : Prop extends Sendable m where
  /-- The arguments are words, -/
  words : ∀ a ∈ m.args, IsWord a ∧ ¬Opens a
  /-- and none of them is a text. -/
  plain : m.messageType ≠ .failed ∧ m.messageType ≠ .error

section Messages

variable {m : Message} {ms : List Message}

/-- The encoding of a message is a line. -/
theorem Sendable.encoding_eq (h : Sendable m) :
    ∃ line, encoding m = line ++ ['\n'] ∧ '\n' ∉ line ∧ '\x00' ∉ line ∧
      line.length + 1 < maxEncodedLen := by
  obtain ⟨line, hline⟩ : ∃ line, encoding m = line ++ ['\n'] := ⟨_, rfl⟩
  have hlen := length_encoding m
  have hfits := h.fits
  rw [hline, List.length_append, List.length_singleton] at hlen
  exact ⟨line, hline, notMem_of_encoding hline (by decide) (by rintro ⟨⟩ <;> decide) h.newline,
    notMem_of_encoding hline (by decide) (by rintro ⟨⟩ <;> decide) h.nul, by omega⟩

theorem Sendable.encode_eq (h : Sendable m) : encode m = .ok (encoding m) := by
  have hlen := length_encoding m
  have hfits := h.fits
  rw [Server.encode_eq h.typed, if_neg (by omega)]

theorem Sendable.cstr_encoding (h : Sendable m) : cstr (encoding m) = encoding m := by
  obtain ⟨line, hline, -, hnul, -⟩ := h.encoding_eq
  rw [hline]
  refine cstr_eq_self fun hmem => ?_
  rcases List.mem_append.mp hmem with hmem | hmem
  · exact hnul hmem
  · exact absurd (List.mem_singleton.mp hmem) (by decide)

/-- **A request is decoded** as what it was. -/
theorem Transmissible.decode_eq (h : Transmissible m) : decode (cstr (encoding m)) = .ok m := by
  obtain ⟨name, hname⟩ : ∃ name, m.messageType.name = some name := by
    cases hty : m.messageType with
    | none => exact absurd hty h.typed
    | _ => exact ⟨_, rfl⟩
  obtain ⟨hword, hopen, -⟩ := name_spec hname
  have hplain : (m.messageType == .failed || m.messageType == .error) = false := by
    simpa using h.plain
  rw [h.cstr_encoding, encoding, hname, hplain]
  exact decode_of_tokenize hname (tokenize_encodeArgs ⟨hword, hopen⟩ h.words)

/-- The line of a message is the next input, -/
theorem Sendable.nextLine_append (h : Sendable m) (rest : Str) :
    nextLine (encoding m ++ rest) = (.line (encoding m), rest) := by
  obtain ⟨line, hline, hnewline, -, hfits⟩ := h.encoding_eq
  rw [nextLine, rioReadlineb, hline, List.append_assoc, List.singleton_append,
    readlineLoop_line hnewline (by omega)]
  cases line <;> rfl

/-- and so is what there is of a line at the end of the stream. -/
theorem readlineLoop_of_notMem {s : Str} {n : ℕ} (h : '\n' ∉ s) (hn : s.length ≤ n) :
    readlineLoop n s = (s, []) := by
  induction s generalizing n with
  | nil => cases n <;> rfl
  | cons c s ih =>
    obtain ⟨n, rfl⟩ : ∃ k, n = k + 1 := ⟨n - 1, by rw [List.length_cons] at hn; omega⟩
    rw [readlineLoop, if_neg fun e : c = '\n' => h (e ▸ List.mem_cons_self),
      ih (fun hm => h (List.mem_cons_of_mem c hm)) (Nat.le_of_succ_le_succ hn)]

theorem inputs_nil (n : ℕ) : inputs n [] = List.replicate n .eof := by
  induction n with
  | zero => rfl
  | succ n ih => exact congrArg (Input.eof :: ·) ih

theorem take_append_replicate {α : Type} (l l' : List α) (a : α) (n : ℕ) :
    l.take n ++ (l' ++ List.replicate (n - l.length) a).take (n - l.length) =
      (l ++ l' ++ List.replicate n a).take n := by
  have hrest : ∀ m, n - l.length ≤ m → (l' ++ List.replicate m a).take (n - l.length) =
      l'.take (n - l.length) ++ List.replicate (n - l.length - l'.length) a := fun m hm => by
    rw [List.take_append, List.take_replicate, Nat.min_eq_left (by omega)]
  rw [List.append_assoc, List.take_append (i := n), hrest _ (le_refl _), hrest n (Nat.sub_le ..)]

/-- The inputs from the rest of a stream that has no newline. -/
theorem inputs_piece {piece : Str} (h : '\n' ∉ piece) (hfits : piece.length < maxEncodedLen)
    (n : ℕ) : inputs n piece =
      ((if piece = [] then [] else [Input.line piece]) ++ List.replicate n Input.eof).take n := by
  cases piece with
  | nil => rw [inputs_nil, if_pos rfl, List.nil_append, List.take_replicate, Nat.min_self]
  | cons c piece =>
    rw [if_neg (by simp), List.singleton_append]
    cases n with
    | zero => rfl
    | succ n =>
      have hread : nextLine (c :: piece) = (.line (c :: piece), []) := by
        rw [nextLine, rioReadlineb, readlineLoop_of_notMem h (Nat.le_sub_one_of_lt hfits)]
        rfl
      rw [inputs, hread, inputs_nil, List.take_succ_cons, List.take_replicate,
        Nat.min_eq_left (Nat.le_succ n)]

/-- What is written of messages: all lines up to one of which a part is written. -/
theorem sendMessages_spec (h : ∀ m ∈ ms, Sendable m) (fd : Sink Char) : ∃ k ≤ ms.length, ∃ piece,
    (sendMessages ms fd).written = fd.written ++ (ms.take k).flatMap encoding ++ piece ∧
      (piece = [] ∨ ∃ m ∈ ms, piece <+: encoding m ∧ piece ≠ encoding m) ∧
      (NoneFails fd.events → k = ms.length ∧ piece = []) := by
  induction ms generalizing fd with
  | nil => exact ⟨0, le_refl 0, [], by simp [sendMessages], Or.inl rfl, fun _ => ⟨rfl, rfl⟩⟩
  | cons m ms ih =>
    obtain ⟨hm, hms⟩ := List.forall_mem_cons.mp h
    rcases hwrite : rioWriten (encoding m) fd with ⟨_ | _, fd₁⟩
    all_goals
      obtain ⟨hok, hfail, hsound⟩ := rioWriten_spec hwrite
      rw [sendMessages, hm.encode_eq]
      simp only [hwrite]
    · obtain ⟨piece, hwritten, hprefix, hne⟩ := hfail rfl
      refine ⟨0, Nat.zero_le _, piece, by simpa using hwritten,
        Or.inr ⟨m, List.mem_cons_self, hprefix, hne⟩, fun h => ?_⟩
      exact absurd (hsound h).1 (by simp)
    · obtain ⟨k, hk, piece, hwritten, hpiece, hsound'⟩ := ih hms fd₁
      refine ⟨k + 1, Nat.succ_le_succ hk, piece, ?_, hpiece.imp_right ?_, fun h => ?_⟩
      · rw [hwritten, hok rfl]
        simp
      · rintro ⟨m', hm', hprefix⟩
        exact ⟨m', List.mem_cons_of_mem m hm', hprefix⟩
      · obtain ⟨rfl, rfl⟩ := hsound' (hsound h).2
        exact ⟨rfl, rfl⟩

/-- The inputs from the lines of messages and from what follows them. -/
theorem inputs_flatMap (h : ∀ m ∈ ms, Sendable m) (rest : Str) (n : ℕ) :
    inputs n (ms.flatMap encoding ++ rest) =
      (ms.map fun m => Input.line (encoding m)).take n ++ inputs (n - ms.length) rest := by
  induction ms generalizing n with
  | nil => simp
  | cons m ms ih =>
    obtain ⟨hm, hms⟩ := List.forall_mem_cons.mp h
    cases n with
    | zero => simp [inputs]
    | succ n =>
      rw [inputs, List.flatMap_cons, List.append_assoc, hm.nextLine_append, ih hms,
        List.length_cons, Nat.succ_sub_succ]
      rfl

/-- A part of a line that is not all of it is no line. -/
theorem piece_spec (hm : Sendable m) {piece : Str} (h : piece <+: encoding m)
    (hne : piece ≠ encoding m) :
    '\n' ∉ piece ∧ '\x00' ∉ piece ∧ piece.length + 1 < maxEncodedLen := by
  obtain ⟨line, hline, hnewline, hnul, hfits⟩ := hm.encoding_eq
  rw [hline] at h hne
  have hpre : piece <+: line := by
    rcases List.prefix_concat_iff.mp h with heq | hpre
    · exact absurd heq hne
    · exact hpre
  have hlen := hpre.length_le
  exact ⟨fun hmem => hnewline (hpre.subset hmem), fun hmem => hnul (hpre.subset hmem), by omega⟩

/-- **Messages arrive**: of messages that are written one after the other, in whatever pieces, a
session takes the first ones, in their order and as they were. If all can be written it takes all
of them, and then comes to the end. If not, there may be a part of the next message left at the
end of the stream, and that is not a message. -/
theorem inputs_of_sendMessages (h : ∀ m ∈ ms, Transmissible m) (fd : Sink Char)
    (hfd : fd.written = []) :
    ∃ k ≤ ms.length, ∃ piece,
      (∀ n, inputs n (sendMessages ms fd).written =
        (((ms.take k).map fun m => Input.line (encoding m)) ++
          (if piece = [] then [] else [Input.line piece]) ++ List.replicate n Input.eof).take n) ∧
      (∀ m ∈ ms, decode (cstr (encoding m)) = .ok m) ∧
      (∃ e, decode (cstr piece) = .error e) ∧
      (NoneFails fd.events → k = ms.length ∧ piece = []) := by
  obtain ⟨k, hk, piece, hwritten, hpiece, hsound⟩ :=
    sendMessages_spec (fun m hm => (h m hm).toSendable) fd
  refine ⟨k, hk, piece, fun n => ?_, fun m hm => (h m hm).decode_eq, ?_, hsound⟩
  · have hline : '\n' ∉ piece ∧ piece.length < maxEncodedLen := by
      obtain rfl | ⟨m, hm, hprefix, hne⟩ := hpiece
      · exact ⟨by simp, by decide⟩
      · obtain ⟨hnewline, -, hfits⟩ := piece_spec (h m hm).toSendable hprefix hne
        exact ⟨hnewline, Nat.lt_of_succ_lt hfits⟩
    rw [hwritten, hfd, List.nil_append,
      inputs_flatMap fun m hm => (h m (List.mem_of_mem_take hm)).toSendable,
      inputs_piece hline.1 hline.2, ← take_append_replicate, List.length_map]
  · obtain rfl | ⟨m, hm, hprefix, hne⟩ := hpiece
    · exact ⟨_, rfl⟩
    · obtain ⟨hnewline, hnul, -⟩ := piece_spec (h m hm).toSendable hprefix hne
      rw [cstr_eq_self hnul, decode]
      split
      · exact ⟨_, rfl⟩
      · rw [if_pos]
        · exact ⟨_, rfl⟩
        · simp only [bne_iff_ne, ne_eq]
          exact fun hlast => hnewline (List.mem_of_getLast? hlast)

/-- Two requests, and calls of `write` that are interrupted or write a little. -/
theorem inputs_of_sendMessages_login :
    inputs 3 (sendMessages [⟨.login, ["alice".toList]⟩, ⟨.create, ["t".toList]⟩]
        ⟨[], [.ready 2, .interrupted, .ready 0]⟩).written =
      [Input.line "LOGIN alice\n".toList, Input.line "CREATE t\n".toList, Input.eof] := by
  have hms : ∀ m ∈ ([⟨.login, ["alice".toList]⟩, ⟨.create, ["t".toList]⟩] : List Message),
      Transmissible m := by
    intro m hm
    rcases List.mem_pair.mp hm with rfl | rfl
    all_goals
      exact ⟨⟨by decide, by decide, by decide, by decide +kernel⟩, by decide +kernel, by decide⟩
  obtain ⟨k, hk, piece, hinputs, -, -, hsound⟩ := inputs_of_sendMessages hms
    ⟨[], [.ready 2, .interrupted, .ready 0]⟩ rfl
  obtain ⟨rfl, rfl⟩ := hsound (by decide)
  exact hinputs 3

end Messages

end Server

end Csf
