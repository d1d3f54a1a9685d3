import Csf.Server.Consistency
import Csf.Server.Wire

/-!
# The clients

`get_value.cpp`, `set_value.cpp` and `incr_value.cpp`. Each is a sequence of requests, sent one
after the other and each waiting for its response; `handle_message` ends the client at the first
response that is not an `OK`.

A client writes lines and reads lines (`Csf.Server.ClientCall`), and what it writes is encoded
and what it reads is decoded. Here it is run against a server that serves nobody else in the
meantime (`Csf.Server.Peer`), with everything on the way: the encoded request, the line that is
read by `chat_with_client` and decoded, the response, and the line that is read by the client. So
a value that `set_value` stores is the one that `get_value` prints
(`Csf.Server.getValue_after_setValue`), and after `incr_value`, with a transaction or without, it
prints the next number (`Csf.Server.getValue_after_incrValue`).
-/

namespace Csf

namespace Server

open Interaction Handler

/-- `Message::get_quoted_text` -/
def Message.getQuotedText (m : Message) : Str :=
  match m.messageType, m.args with
  | .failed, [a] => a
  | .error, [a] => a
  | _, _ => []

/-! ### Programs of clients -/

/-- What a client does: `Rio_writen` a line and `Rio_readlineb` one, and print. -/
inductive ClientCall where
  | write (line : Str)
  | read
  | out (text : Str)
  | err (text : Str)

/-- What it gets: whether all of the line has been written, and what has been read. -/
def ClientCall.Result : ClientCall → Type
  | .write _ => Bool
  | .read => Input
  | .out _ => Unit
  | .err _ => Unit

/-- How a client ends. -/
inductive Exit where
  /-- With this exit code. -/
  | status (code : ℕ)
  /-- By an exception that nobody catches. -/
  | aborted
  /-- It decodes a buffer that nothing has been read into. -/
  | undefined
  deriving DecidableEq

/-- A piece of a client. -/
def Client (α : Type) : Type := Program ClientCall ClientCall.Result (Except Exit α)

namespace Client

variable {α γ : Type}

instance : Monad Client where
  pure a := .ret (.ok a)
  bind p f := Program.bind p fun
    | .ok a => f a
    | .error e => .ret (.error e)

/-- A call. -/
def call (c : ClientCall) : Client c.Result := Program.call c fun r => .ret (.ok r)

/-- The client ends. -/
def stop (e : Exit) : Client α := .ret (.error e)

/-- `MessageSerialization::encode`, and `Rio_writen`, which ends the client if not all can be
written. -/
def send (m : Message) : Client Unit :=
  match encode m with
  | .error _ => stop .aborted
  | .ok encodedMsg => do
      let written : Bool ← call (.write encodedMsg)
      if written then pure () else stop (.status 0)

/-- `Rio_readlineb`, which ends the client if it fails, and `MessageSerialization::decode`. The
number of bytes that have been read is not looked at. -/
def receive : Client Message := do
  match ← call .read with
  | .line buf =>
      match decode (cstr buf) with
      | .error _ => stop .aborted
      | .ok msg => pure msg
  | .eof => stop .undefined
  | .error => stop (.status 0)

/-- `handle_message` -/
def handleMessage (m : Message) : Client Unit := do
  send m
  let msg ← receive
  if msg.messageType ≠ .ok then
    let _ ← call (.err ("Error: ".toList ++ msg.getQuotedText ++ ['\n']))
    stop (.status 1)

/-- The last two lines of `main`, after the `BYE`. -/
def finish : Client Unit := do
  send byeRequest
  stop (.status 0)

/-- The usage message, and `return 1`. -/
def usage (text : String) : Client Unit := do
  let _ ← call (.err text.toList)
  stop (.status 1)

/-- `main` of `get_value.cpp`, on the arguments after the name of the program. -/
def getValue : List Str → Client Unit
  | [_, _, username, table, key] => do
      handleMessage ⟨.login, [username]⟩
      handleMessage ⟨.get, [table, key]⟩
      send ⟨.top, []⟩
      let msg ← receive
      if msg.messageType = .data then
        let _ ← call (.out (msg.getValue ++ ['\n']))
        finish
      else
        let _ ← call (.err ("Error: expected DATA, got ".toList ++
          toDecimal msg.messageType.ctorIdx ++ ['\n']))
        stop (.status 1)
  | _ => usage "Usage: ./get_value <hostname> <port> <username> <table> <key>\n"

/-- `main` of `set_value.cpp` -/
def setValue : List Str → Client Unit
  | [_, _, username, table, key, value] => do
      handleMessage ⟨.login, [username]⟩
      handleMessage ⟨.push, [value]⟩
      handleMessage ⟨.set, [table, key]⟩
      finish
  | _ => usage "Usage: ./set_value <hostname> <port> <username> <table> <key> <value>\n"

/-- `incr_value.cpp` from the login on. -/
def incrFrom (useTransaction : Bool) : List Str → Client Unit
  | [_, _, username, table, key] => do
      handleMessage ⟨.login, [username]⟩
      if useTransaction then handleMessage beginRequest
      handleMessage ⟨.get, [table, key]⟩
      handleMessage ⟨.push, [['1']]⟩
      handleMessage ⟨.add, []⟩
      handleMessage ⟨.set, [table, key]⟩
      if useTransaction then handleMessage commitRequest
      finish
  | _ => do
      let _ ← call (.err
        "Usage: ./incr_value [-t] <hostname> <port> <username> <table> <key>\n".toList)
      let _ ← call (.err "Options:\n".toList)
      usage "  -t      execute the increment as a transaction\n"

/-- `main` of `incr_value.cpp` -/
def incrValue (argv : List Str) : Client Unit :=
  if argv.length = 6 ∧ argv.head? = some "-t".toList then incrFrom true argv.tail
  else incrFrom false argv

end Client

/-! ### A server for one client -/

/-- A server that serves one client. -/
structure Peer where
  /-- The tables. -/
  tables : Tables Str
  /-- The connection of the session. -/
  conn : ClientConnection Str := {}
  /-- Whether `chat_with_client` has returned. -/
  closed : Bool := false
  /-- What has been sent to the client and not been read. -/
  inbox : Str := []
  /-- What the client has printed to `std::cout`, -/
  out : Str := []
  /-- and to `std::cerr`. -/
  err : Str := []

/-- **The other end of the connection.** What is written is served; there is no result if it is
more than a line. A line is read from what has been sent; there is no result if there is none and
none will come, and if there is more than one, because of which some may be lost: `handle_message`
reads into a copy of the buffer. -/
def Peer.exec (addrLe : Str → Str → Bool) (s : SessionId) :
    (c : ClientCall) → Peer → Option (c.Result × Peer)
  | .write line, peer =>
      match peer.closed, nextLine line with
      | false, (input, []) =>
          match (chatBody (.plain addrLe) input).run s peer.conn peer.tables with
          | some ((.ok next, conn), tables) => some (true, { peer with
              tables := tables
              conn := conn
              closed := next == .done
              inbox := peer.inbox ++ (peer.conn.answer conn).flatten })
          | _ => none
      | _, _ => none
  | .read, peer =>
      match nextLine peer.inbox with
      | (.line buf, []) => some (.line buf, { peer with inbox := [] })
      | (.eof, []) => if peer.closed then some (.eof, peer) else none
      | _ => none
  | .out text, peer => some ((), { peer with out := peer.out ++ text })
  | .err text, peer => some ((), { peer with err := peer.err ++ text })

/-- A client running. -/
def Client.run {α : Type} (p : Client α) (addrLe : Str → Str → Bool) (s : SessionId)
    (peer : Peer) : Option (Except Exit α × Peer) :=
  Program.exec (Peer.exec addrLe s) p peer

/-! ### Running a client -/

section Run

variable {α γ : Type} {addrLe : Str → Str → Bool} {s : SessionId} {peer peer' : Peer}

theorem Client.run_bind_ok {p : Client α} {f : α → Client γ} {a : α}
    (h : p.run addrLe s peer = some (.ok a, peer')) :
    (p >>= f).run addrLe s peer = (f a).run addrLe s peer' := by
  refine (Program.exec_bind ..).trans ?_
  exact congrArg (Option.bind · _) h

theorem Client.run_call {c : ClientCall} {r : c.Result}
    (h : Peer.exec addrLe s c peer = some (r, peer')) :
    (call c).run addrLe s peer = some (.ok r, peer') := by
  refine (Program.exec_call ..).trans ?_
  rw [h]
  rfl

end Run

/-! ### One request and its response -/

/-- **A session that is alone on the server and shows the store `x`**, between two requests of
its client, in a transaction or not. -/
structure Serving (peer : Peer) (inTransaction : Bool) (x : Store Str) : Prop where
  /-- The session is alone. -/
  alone : Alone peer.conn peer.tables
  /-- It shows the store. -/
  view : peer.conn.view peer.tables = x
  /-- It is in a transaction or not. -/
  inTransaction : peer.conn.inTransaction = inTransaction
  /-- It goes on. -/
  closed : peer.closed = false
  /-- Every response has been read. -/
  inbox : peer.inbox = []

section Requests

variable {addrLe : Str → Str → Bool} {s : SessionId} {peer : Peer} {m : Message} {line : Str}
  {conn : ClientConnection Str} {tables : Tables Str} {x y : Store Str} {b : Bool}

/-- The answer to a request that has been sent. -/
theorem run_send (hm : Transmissible m) (hclosed : peer.closed = false) (hinbox : peer.inbox = [])
    (hans : Answered (.plain addrLe) s m peer.conn peer.tables line conn tables) :
    (Client.send m).run addrLe s peer = some (.ok (), { peer with
      tables := tables
      conn := conn
      closed := m.messageType == .bye
      inbox := line }) := by
  have hchat : chatBody (.plain addrLe) (.line (encoding m)) = serve (.plain addrLe) m := by
    rw [chatBody, hm.decode_eq]
    rfl
  have hnext : (nextOf m == .done) = (m.messageType == .bye) := by
    rw [nextOf]
    split
    · next hbye => rw [hbye]; rfl
    · next hbye => simpa using hbye
  have hread : nextLine (encoding m) = (.line (encoding m), []) := by
    simpa using hm.nextLine_append []
  have hwrite : Peer.exec addrLe s (.write (encoding m)) peer = some (true, { peer with
      tables := tables
      conn := conn
      closed := m.messageType == .bye
      inbox := line }) := by
    simp only [Peer.exec, hclosed, hread, hchat, hans.run, hinbox, answer_of_written hans.written,
      hnext, List.nil_append, List.flatten_cons, List.flatten_nil, List.append_nil]
    rfl
  rw [Client.send, hm.encode_eq]
  exact (Client.run_bind_ok (Client.run_call hwrite)).trans rfl

/-- A response is read and decoded. -/
theorem run_receive (hm : Transmissible m) (hinbox : peer.inbox = encoding m) :
    Client.receive.run addrLe s peer = some (.ok m, { peer with inbox := [] }) := by
  have hread : Peer.exec addrLe s .read peer =
      some (.line (encoding m), { peer with inbox := [] }) := by
    have hnext : nextLine (encoding m) = (.line (encoding m), []) := by
      simpa using hm.nextLine_append []
    simp only [Peer.exec, hinbox, hnext]
  rw [Client.receive, Client.run_bind_ok (Client.run_call hread)]
  simp only [hm.decode_eq]
  rfl

/-- An `OK` as it is sent. -/
def okResponse : Message := ⟨.ok, []⟩

theorem transmissible_okResponse : Transmissible okResponse :=
  ⟨⟨by decide, by decide, by decide, by decide +kernel⟩, by decide, by decide⟩

/-- **`handle_message`** goes on after an `OK`. -/
theorem run_handleMessage (hm : Transmissible m) (hclosed : peer.closed = false)
    (hinbox : peer.inbox = [])
    (hans : Answered (.plain addrLe) s m peer.conn peer.tables okLine conn tables) :
    (Client.handleMessage m).run addrLe s peer = some (.ok (), { peer with
      tables := tables
      conn := conn
      closed := m.messageType == .bye
      inbox := [] }) := by
  rw [Client.handleMessage, Client.run_bind_ok (run_send hm hclosed hinbox hans),
    Client.run_bind_ok (run_receive transmissible_okResponse rfl)]
  rfl

/-- **A request that is performed on the store** and answered by an `OK`. -/
theorem handleMessage_work (h : Serving peer b x) (hm : Transmissible m) (hwork : m.isWork = true)
    (hbye : m.messageType ≠ .bye) (hp : perform (.plain addrLe) m x = some (okLine, y)) :
    ∃ peer', (Client.handleMessage m).run addrLe s peer = some (.ok (), peer') ∧
      Serving peer' b y ∧ peer'.out = peer.out ∧ peer'.err = peer.err := by
  have hstep := run_work (E := .plain addrLe) (s := s) h.alone hwork
  rw [h.view, hp] at hstep
  obtain ⟨c, σ, hans, hview, halone, hin⟩ := hstep
  refine ⟨_, run_handleMessage hm h.closed h.inbox hans, ⟨halone, hview,
    hin.trans h.inTransaction, ?_, rfl⟩, rfl, rfl⟩
  simpa using hbye

/-- **A `BEGIN` or a `COMMIT`** that is answered by an `OK`. -/
theorem handleMessage_ends (h : Serving peer b x) (hm : Transmissible m)
    (hends : m.isWork = false)
    (hans : Answered (.plain addrLe) s m peer.conn peer.tables okLine conn tables) :
    ∃ peer', (Client.handleMessage m).run addrLe s peer = some (.ok (), peer') ∧
      Serving peer' (m.messageType == .begin) x ∧ peer'.out = peer.out ∧ peer'.err = peer.err := by
  obtain ⟨hview, halone, -, hin⟩ := run_ends h.alone hends hans.run
    (answer_of_written hans.written) isGood_okLine
  refine ⟨_, run_handleMessage hm h.closed h.inbox hans,
    ⟨halone, hview.trans h.view, Bool.eq_iff_iff.mpr (by simpa using hin), ?_, rfl⟩, rfl, rfl⟩
  have hbye : m.messageType ≠ .bye := by
    rintro hbye
    simp [Message.isWork, hbye] at hends
  simpa using hbye

theorem handleMessage_begin (addrLe : Str → Str → Bool) (s : SessionId)
    (h : Serving peer false x) (hlog : x.loggedIn = true) :
    ∃ peer', (Client.handleMessage beginRequest).run addrLe s peer = some (.ok (), peer') ∧
      Serving peer' true x ∧ peer'.out = peer.out ∧ peer'.err = peer.err := by
  have hlog' : peer.conn.hasLoggedIn = true := (congrArg Store.loggedIn h.view).trans hlog
  exact handleMessage_ends h ⟨⟨by decide, by decide, by decide, by decide +kernel⟩, by decide,
    by decide⟩ rfl (answered_of_handler ⟨Or.inl hlog', rfl⟩ rfl (run_begin h.inTransaction) rfl)

theorem handleMessage_commit (addrLe : Str → Str → Bool) (s : SessionId)
    (h : Serving peer true x) (hlog : x.loggedIn = true) :
    ∃ peer', (Client.handleMessage commitRequest).run addrLe s peer = some (.ok (), peer') ∧
      Serving peer' false x ∧ peer'.out = peer.out ∧ peer'.err = peer.err := by
  have hlog' : peer.conn.hasLoggedIn = true := (congrArg Store.loggedIn h.view).trans hlog
  exact handleMessage_ends h ⟨⟨by decide, by decide, by decide, by decide +kernel⟩, by decide,
    by decide⟩ rfl (answered_of_handler ⟨Or.inl hlog', rfl⟩ rfl (run_commit h.inTransaction) rfl)

/-- **A client leaves** with exit code zero, and nothing in the store has changed. -/
theorem run_finish (addrLe : Str → Str → Bool) (s : SessionId) (h : Serving peer false x)
    (hlog : x.loggedIn = true) :
    ∃ peer', Client.finish.run addrLe s peer = some (.error (.status 0), peer') ∧
      peer'.out = peer.out ∧ peer'.err = peer.err ∧ peer'.tables.Clean ∧ peer'.tables.Free ∧
      peer'.tables.created = x.created ∧ peer'.tables.values = x.value := by
  have hm : Transmissible byeRequest :=
    ⟨⟨by decide, by decide, by decide, by decide +kernel⟩, by decide, by decide⟩
  have hp : perform (.plain addrLe) byeRequest x = some (okLine, x) := by
    rw [perform, hlog]
    rfl
  have hstep := run_work (E := .plain addrLe) (s := s) h.alone
    (show byeRequest.isWork = true from rfl)
  rw [h.view, hp] at hstep
  obtain ⟨c, σ, hans, hview, halone, hin⟩ := hstep
  have hout : c.inTransaction = false := hin.trans h.inTransaction
  refine ⟨_, (Client.run_bind_ok (run_send hm h.closed h.inbox hans)).trans rfl, rfl, rfl,
    halone.clean, halone.free hout, congrArg Store.created hview, ?_⟩
  rw [← hview]
  exact funext fun t => funext fun k => (shows_value_of_empty (halone.buffer hout) t k).symm

end Requests

/-! ### What can be sent -/

theorem isWord_of_isValidIdentifier {name : Str} (h : Message.isValidIdentifier name = true) :
    (IsWord name ∧ ¬Opens name) ∧ '\x00' ∉ name := by
  have hmem : ∀ c ∈ name, c.isAlphanum = true ∨ c = '_' := by
    cases name with
    | nil => simp
    | cons c cs =>
      simp only [Message.isValidIdentifier, Bool.and_eq_true, Bool.or_eq_true, beq_iff_eq,
        List.all_eq_true] at h
      refine List.forall_mem_cons.mpr ⟨h.1.imp_left fun halpha => ?_, h.2⟩
      rw [Char.isAlphanum, halpha, Bool.true_or]
  have hne : name ≠ [] := by
    rintro rfl
    exact absurd h (by decide)
  refine ⟨⟨⟨hne, fun c hc => ?_⟩, fun hopen => ?_⟩, fun hnul => ?_⟩
  · by_contra hspace
    rw [Bool.not_eq_false, isspace] at hspace
    simp only [Bool.or_eq_true, beq_iff_eq] at hspace
    rcases hmem c hc with halnum | rfl
    · obtain ((((rfl | rfl) | rfl) | rfl) | rfl) | rfl := hspace <;> exact absurd halnum (by decide)
    · exact absurd hspace (by decide)
  · exact absurd (hmem _ (List.mem_of_mem_head? hopen)) (by decide)
  · exact absurd (hmem _ hnul) (by decide)

/-- A newline is no part of a word. -/
theorem IsWord.newline_notMem {w : Str} (h : IsWord w) : '\n' ∉ w :=
  fun hmem => absurd (h.2 _ hmem) (by decide)

/-- A request whose arguments are words without a NUL. -/
theorem transmissible {m : Message} (hty : m.messageType ≠ .none)
    (hplain : m.messageType ≠ .failed ∧ m.messageType ≠ .error)
    (hargs : ∀ a ∈ m.args, (IsWord a ∧ ¬Opens a) ∧ '\x00' ∉ a)
    (hfits : encodedLength m < maxEncodedLen) : Transmissible m where
  typed := hty
  newline a ha := (hargs a ha).1.1.newline_notMem
  nul a ha := (hargs a ha).2
  fits := hfits
  words a ha := (hargs a ha).1
  plain := hplain

/-- The arguments of a client fit into its requests. -/
structure Fits (username table key : Str) : Prop where
  validUsername : Message.isValidIdentifier username = true
  validTable : Message.isValidIdentifier table = true
  validKey : Message.isValidIdentifier key = true
  length_username : username.length ≤ 1016
  length_names : table.length + key.length ≤ 1017

section Fits

variable {username table key value : Str}

theorem Fits.login (h : Fits username table key) : Transmissible ⟨.login, [username]⟩ := by
  refine transmissible (by simp) (by simp) ?_ ?_
  · simpa using isWord_of_isValidIdentifier h.validUsername
  · have hlen := h.length_username
    simp [encodedLength, MessageType.name, maxEncodedLen]
    omega

theorem Fits.names (h : Fits username table key) {type : MessageType}
    (hty : type = .get ∨ type = .set) : Transmissible ⟨type, [table, key]⟩ := by
  refine transmissible ?_ ?_ ?_ ?_
  · rcases hty with rfl | rfl <;> simp
  · rcases hty with rfl | rfl <;> simp
  · simpa using ⟨isWord_of_isValidIdentifier h.validTable,
      isWord_of_isValidIdentifier h.validKey⟩
  · have hlen := h.length_names
    rcases hty with rfl | rfl <;> simp [encodedLength, MessageType.name, maxEncodedLen] <;> omega

/-- A value that can be sent. -/
structure Value (value : Str) : Prop where
  word : IsWord value ∧ ¬Opens value
  nul : '\x00' ∉ value
  length_le : value.length ≤ 1017

theorem Value.transmissible (h : Value value) {type : MessageType}
    (hty : type = .push ∨ type = .data) : Transmissible ⟨type, [value]⟩ := by
  refine Server.transmissible ?_ ?_ ?_ ?_
  · rcases hty with rfl | rfl <;> simp
  · rcases hty with rfl | rfl <;> simp
  · simpa using ⟨h.word, h.nul⟩
  · have hlen := h.length_le
    rcases hty with rfl | rfl <;> simp [encodedLength, MessageType.name, maxEncodedLen] <;> omega

end Fits

/-! ### The three clients -/

section Clients

variable {addrLe : Str → Str → Bool} {s : SessionId} {host port username table key value : Str}
  {σ : Tables Str}

theorem serving_start (hclean : σ.Clean) (hfree : σ.Free) :
    Serving { tables := σ } false (freshStore σ.created σ.values) :=
  ⟨alone_start hclean hfree, rfl, rfl, rfl, rfl⟩

/-- **The value on the stack** is sent and read. -/
theorem run_top (addrLe : Str → Str → Bool) (s : SessionId) {peer : Peer} {x : Store Str}
    {vs : List Str} (h : Serving peer false x) (hlog : x.loggedIn = true)
    (hhas : x.hasStack = true) (hstack : x.stack = value :: vs) (hv : Value value) : ∃ peer₁ peer₂,
      (Client.send ⟨.top, []⟩).run addrLe s peer = some (.ok (), peer₁) ∧
      Client.receive.run addrLe s peer₁ = some (.ok ⟨.data, [value]⟩, peer₂) ∧
      Serving peer₂ false x ∧ peer₂.out = peer.out ∧ peer₂.err = peer.err := by
  have htop : Transmissible ⟨.top, []⟩ :=
    ⟨⟨by decide, by decide, by decide, by decide +kernel⟩, by decide, by decide⟩
  have hdata : Transmissible ⟨.data, [value]⟩ := hv.transmissible (.inr rfl)
  have hp : perform (.plain addrLe) ⟨.top, []⟩ x = some (encoding ⟨.data, [value]⟩, x) := by
    have hencode : encode ⟨.data, [(Env.plain addrLe).text value]⟩ =
        .ok (encoding ⟨.data, [value]⟩) := hdata.encode_eq
    simp [perform, hlog, act, Message.isValid, hhas, hstack, hencode, Except.toOption]
  have hstep := run_work (E := .plain addrLe) (s := s) h.alone
    (show (⟨.top, []⟩ : Message).isWork = true from rfl)
  rw [h.view, hp] at hstep
  obtain ⟨c, σ, hans, hview, halone, hin⟩ := hstep
  exact ⟨_, _, run_send htop h.closed h.inbox hans, run_receive hdata rfl,
    ⟨halone, hview, hin.trans h.inTransaction, rfl, rfl⟩, rfl, rfl⟩

/-- **`get_value`** prints the value of the key. -/
theorem run_getValue (addrLe : Str → Str → Bool) (s : SessionId) (host port : Str)
    (h : Fits username table key) (hclean : σ.Clean) (hfree : σ.Free)
    (hcreated : σ.created table = true) (hvalue : σ.values table key = some value)
    (hv : Value value) : ∃ peer,
      (Client.getValue [host, port, username, table, key]).run addrLe s { tables := σ } =
        some (.error (.status 0), peer) ∧
      peer.out = value ++ ['\n'] ∧ peer.err = [] ∧ peer.tables.values = σ.values := by
  obtain ⟨peer₁, hrun₁, hserve₁, hout₁, herr₁⟩ := handleMessage_work (s := s)
    (serving_start hclean hfree) h.login rfl (by simp)
    (perform_login_iff (E := .plain addrLe).mpr ⟨h.validUsername, rfl, rfl⟩)
  obtain ⟨peer₂, hrun₂, hserve₂, hout₂, herr₂⟩ := handleMessage_work (s := s) hserve₁
    (h.names (.inl rfl)) rfl (by simp) ((perform_get_iff rfl (E := .plain addrLe)).mpr
      ⟨h.validTable, h.validKey, hcreated, rfl, value, by rw [value_freshStore]; exact hvalue, rfl⟩)
  obtain ⟨peer₃, peer₄, hsend, hreceive, hserve₄, hout₄, herr₄⟩ :=
    run_top addrLe s hserve₂ rfl rfl rfl hv
  -- what it prints changes nothing for the server
  have hprint : (Client.call (.out (value ++ ['\n']))).run addrLe s peer₄ =
      some (.ok (), { peer₄ with out := peer₄.out ++ (value ++ ['\n']) }) :=
    Client.run_call (c := .out (value ++ ['\n'])) rfl
  have hserve₅ : Serving { peer₄ with out := peer₄.out ++ (value ++ ['\n']) } false _ :=
    ⟨hserve₄.alone, hserve₄.view, hserve₄.inTransaction, hserve₄.closed, hserve₄.inbox⟩
  obtain ⟨peer₆, hfinish, hout₆, herr₆, -, -, -, hvalues⟩ :=
    run_finish addrLe s hserve₅ rfl
  refine ⟨peer₆, ?_, ?_, ?_, ?_⟩
  · rw [Client.getValue, Client.run_bind_ok hrun₁, Client.run_bind_ok hrun₂,
      Client.run_bind_ok hsend, Client.run_bind_ok hreceive]
    exact (Client.run_bind_ok hprint).trans hfinish
  · rw [hout₆, hout₄, hout₂, hout₁, List.nil_append]
  · rw [herr₆, herr₄, herr₂, herr₁]
  · exact hvalues.trans (value_freshStore σ.created σ.values)

/-- **`set_value`** stores a value. -/
theorem run_setValue (addrLe : Str → Str → Bool) (s : SessionId) (host port : Str)
    (h : Fits username table key) (hclean : σ.Clean) (hfree : σ.Free)
    (hcreated : σ.created table = true) (hv : Value value) : ∃ peer,
      (Client.setValue [host, port, username, table, key, value]).run addrLe s { tables := σ } =
        some (.error (.status 0), peer) ∧
      peer.out = [] ∧ peer.err = [] ∧ peer.tables.Clean ∧ peer.tables.Free ∧
      peer.tables.created = σ.created ∧ peer.tables.values =
        Function.update σ.values table (Function.update (σ.values table) key (some value)) := by
  obtain ⟨peer₁, hrun₁, hserve₁, hout₁, herr₁⟩ := handleMessage_work (s := s)
    (serving_start hclean hfree) h.login rfl (by simp)
    (perform_login_iff (E := .plain addrLe).mpr ⟨h.validUsername, rfl, rfl⟩)
  obtain ⟨peer₂, hrun₂, hserve₂, hout₂, herr₂⟩ := handleMessage_work (s := s) hserve₁
    (hv.transmissible (.inl rfl)) rfl (by simp)
    ((perform_push_iff rfl (E := .plain addrLe)).mpr ⟨rfl, rfl⟩)
  obtain ⟨peer₃, hrun₃, hserve₃, hout₃, herr₃⟩ := handleMessage_work (s := s) hserve₂
    (h.names (.inr rfl)) rfl (by simp) ((perform_set_iff rfl rfl (E := .plain addrLe)).mpr
      ⟨h.validTable, h.validKey, hcreated, rfl, value, [], rfl, rfl⟩)
  obtain ⟨peer₄, hfinish, hout₄, herr₄, hclean₄, hfree₄, hcreated₄, hvalues₄⟩ :=
    run_finish addrLe s hserve₃ rfl
  refine ⟨peer₄, ?_, ?_, ?_, hclean₄, hfree₄, hcreated₄, ?_⟩
  · rw [Client.setValue, Client.run_bind_ok hrun₁, Client.run_bind_ok hrun₂,
      Client.run_bind_ok hrun₃, hfinish]
  · rw [hout₄, hout₃, hout₂, hout₁]
  · rw [herr₄, herr₃, herr₂, herr₁]
  · refine hvalues₄.trans ?_
    simp only [value_freshStore]
    rfl

/-- **The requests of an increment**, whatever comes after them. -/
theorem run_increment (addrLe : Str → Str → Bool) (s : SessionId) {peer : Peer} {x : Store Str}
    {b : Bool} {n : ℤ}
    (h : Fits username table key) (hserve : Serving peer b x) (hlog : x.loggedIn = true)
    (hcreated : x.created table = true) (hvalue : x.value table key = some value)
    (hn : intOperand value = some n) : ∃ peer',
      (∀ {α : Type} (p : Client α), Client.run (do
          Client.handleMessage ⟨.get, [table, key]⟩
          Client.handleMessage ⟨.push, [['1']]⟩
          Client.handleMessage ⟨.add, []⟩
          Client.handleMessage ⟨.set, [table, key]⟩
          p) addrLe s peer = p.run addrLe s peer') ∧
      Serving peer' b { x with
        hasStack := true
        value := Function.update x.value table
          (Function.update (x.value table) key (some (toDecimal (wrapInt32 (n + 1))))) } ∧
      peer'.out = peer.out ∧ peer'.err = peer.err := by
  have hone : Value ['1'] := ⟨by decide +kernel, by decide, by simp⟩
  have hadd : Transmissible ⟨.add, []⟩ :=
    ⟨⟨by decide, by decide, by decide, by decide +kernel⟩, by decide, by decide⟩
  have hoperand : intOperand ['1'] = some 1 := by decide +kernel
  have hsum : calculate (.plain addrLe) .add (['1'] :: value :: x.stack) =
      some (toDecimal (wrapInt32 (n + 1)) :: x.stack) := calculate_of_operands hoperand hn
  obtain ⟨peer₁, hrun₁, hserve₁, hout₁, herr₁⟩ := handleMessage_work (s := s) hserve
    (h.names (.inl rfl)) rfl (by simp) ((perform_get_iff hlog (E := .plain addrLe)).mpr
      ⟨h.validTable, h.validKey, hcreated, rfl, value, hvalue, rfl⟩)
  obtain ⟨peer₂, hrun₂, hserve₂, hout₂, herr₂⟩ := handleMessage_work (s := s) hserve₁
    (hone.transmissible (.inl rfl)) rfl (by simp)
    ((perform_push_iff (by exact hlog) (E := .plain addrLe)).mpr ⟨rfl, rfl⟩)
  obtain ⟨peer₃, hrun₃, hserve₃, hout₃, herr₃⟩ := handleMessage_work (s := s) hserve₂
    hadd rfl (by simp)
    ((perform_add_iff (by exact hlog) (E := .plain addrLe)).mpr ⟨rfl, _, hsum, rfl⟩)
  obtain ⟨peer₄, hrun₄, hserve₄, hout₄, herr₄⟩ := handleMessage_work (s := s) hserve₃
    (h.names (.inr rfl)) rfl (by simp)
    ((perform_set_iff (by exact hlog) rfl (E := .plain addrLe)).mpr
      ⟨h.validTable, h.validKey, hcreated, rfl, _, _, rfl, rfl⟩)
  refine ⟨peer₄, fun p => ?_, hserve₄, ?_, ?_⟩
  · rw [Client.run_bind_ok hrun₁, Client.run_bind_ok hrun₂, Client.run_bind_ok hrun₃,
      Client.run_bind_ok hrun₄]
  · rw [hout₄, hout₃, hout₂, hout₁]
  · rw [herr₄, herr₃, herr₂, herr₁]

/-- The arguments of `incr_value`. -/
def incrArgs (useTransaction : Bool) (host port username table key : Str) : List Str :=
  (if useTransaction then ["-t".toList] else []) ++ [host, port, username, table, key]

/-- **`incr_value`** stores the next number, in a transaction or not. -/
theorem run_incrValue (addrLe : Str → Str → Bool) (s : SessionId) (host port : Str) {n : ℤ}
    (t : Bool) (h : Fits username table key) (hclean : σ.Clean)
    (hfree : σ.Free) (hcreated : σ.created table = true)
    (hvalue : σ.values table key = some value) (hn : intOperand value = some n) : ∃ peer,
      (Client.incrValue (incrArgs t host port username table key)).run addrLe s { tables := σ } =
        some (.error (.status 0), peer) ∧
      peer.out = [] ∧ peer.err = [] ∧ peer.tables.Clean ∧ peer.tables.Free ∧
      peer.tables.created = σ.created ∧ peer.tables.values = Function.update σ.values table
        (Function.update (σ.values table) key (some (toDecimal (wrapInt32 (n + 1))))) := by
  obtain ⟨peer₁, hrun₁, hserve₁, hout₁, herr₁⟩ := handleMessage_work (s := s)
    (serving_start hclean hfree) h.login rfl (by simp)
    (perform_login_iff (E := .plain addrLe).mpr ⟨h.validUsername, rfl, rfl⟩)
  have hvalue' : (freshStore σ.created σ.values).value table key = some value := by
    rw [value_freshStore]
    exact hvalue
  cases t with
  | false =>
    obtain ⟨peer₂, hrun₂, hserve₂, hout₂, herr₂⟩ :=
      run_increment addrLe s h hserve₁ rfl hcreated hvalue' hn
    obtain ⟨peer₃, hfinish, hout₃, herr₃, hclean₃, hfree₃, hcreated₃, hvalues₃⟩ :=
      run_finish addrLe s hserve₂ rfl
    refine ⟨peer₃, ?_, ?_, ?_, hclean₃, hfree₃, hcreated₃, ?_⟩
    · refine (Client.run_bind_ok hrun₁).trans ?_
      exact (hrun₂ _).trans hfinish
    · rw [hout₃, hout₂, hout₁]
    · rw [herr₃, herr₂, herr₁]
    · refine hvalues₃.trans ?_
      simp only [value_freshStore]
  | true =>
    obtain ⟨peer₂, hrun₂, hserve₂, hout₂, herr₂⟩ :=
      handleMessage_begin addrLe s hserve₁ rfl
    obtain ⟨peer₃, hrun₃, hserve₃, hout₃, herr₃⟩ :=
      run_increment addrLe s h hserve₂ rfl hcreated hvalue' hn
    obtain ⟨peer₄, hrun₄, hserve₄, hout₄, herr₄⟩ :=
      handleMessage_commit addrLe s hserve₃ rfl
    obtain ⟨peer₅, hfinish, hout₅, herr₅, hclean₅, hfree₅, hcreated₅, hvalues₅⟩ :=
      run_finish addrLe s hserve₄ rfl
    refine ⟨peer₅, ?_, ?_, ?_, hclean₅, hfree₅, hcreated₅, ?_⟩
    · refine (Client.run_bind_ok hrun₁).trans ((Client.run_bind_ok hrun₂).trans ?_)
      exact (hrun₃ _).trans ((Client.run_bind_ok hrun₄).trans hfinish)
    · rw [hout₅, hout₄, hout₃, hout₂, hout₁]
    · rw [herr₅, herr₄, herr₃, herr₂, herr₁]
    · refine hvalues₅.trans ?_
      simp only [value_freshStore]

/-- **`get_value` after `set_value`** prints the value, and no other value has changed. -/
theorem getValue_after_setValue (addrLe : Str → Str → Bool) (s s' : SessionId)
    (host port host' port' : Str) {username' : Str} (h : Fits username table key)
    (h' : Fits username' table key) (hclean : σ.Clean) (hfree : σ.Free)
    (hcreated : σ.created table = true) (hv : Value value) :
    ∃ peer peer',
      (Client.setValue [host, port, username, table, key, value]).run addrLe s { tables := σ } =
        some (.error (.status 0), peer) ∧ peer.out = [] ∧ peer.err = [] ∧
      (Client.getValue [host', port', username', table, key]).run addrLe s'
          { tables := peer.tables } = some (.error (.status 0), peer') ∧
        peer'.out = value ++ ['\n'] ∧ peer'.err = [] ∧
      peer'.tables.values =
        Function.update σ.values table (Function.update (σ.values table) key (some value)) := by
  obtain ⟨peer, hrun, hout, herr, hclean₁, hfree₁, hcreated₁, hvalues⟩ :=
    run_setValue addrLe s host port h hclean hfree hcreated hv
  have hvalue : peer.tables.values table key = some value := by
    rw [hvalues, Function.update_self, Function.update_self]
  obtain ⟨peer', hrun', hout', herr', hvalues'⟩ :=
    run_getValue addrLe s' host' port' h' hclean₁ hfree₁ (hcreated₁ ▸ hcreated) hvalue hv
  exact ⟨peer, peer', hrun, hout, herr, hrun', hout', herr', hvalues'.trans hvalues⟩

/-- The arguments of a client of the tests fit. -/
theorem fits_alice : Fits "alice".toList ['t'] ['k'] :=
  ⟨by decide +kernel, by decide, by decide, by simp, by simp⟩

/-- A value is stored in an empty table. -/
theorem getValue_after_setValue_oneTable : ∃ peer peer' : Peer,
    (Client.getValue ["localhost".toList, "5000".toList, "alice".toList, ['t'], ['k']]).run
        (fun _ _ => true) 1 { tables := peer.tables } = some (.error (.status 0), peer') ∧
      peer'.out = ['7', '\n'] := by
  have hclean : oneTable.Clean := fun _ => rfl
  have hv : Value ['7'] := ⟨by decide +kernel, by decide, by simp⟩
  obtain ⟨peer, peer', -, -, -, hrun, hout, -⟩ := getValue_after_setValue (fun _ _ => true) 0 1
    "localhost".toList "5000".toList "localhost".toList "5000".toList fits_alice fits_alice hclean
    (fun _ => rfl) rfl hv
  exact ⟨peer, peer', hrun, hout⟩

/-- **`get_value` after `incr_value`** prints the number that follows, the increment being a
transaction or not, and no other value has changed. -/
theorem getValue_after_incrValue (addrLe : Str → Str → Bool) (s s' : SessionId)
    (host port host' port' : Str) {username' : Str} {n : ℤ} (t : Bool)
    (h : Fits username table key) (h' : Fits username' table key) (hclean : σ.Clean)
    (hfree : σ.Free) (hcreated : σ.created table = true)
    (hvalue : σ.values table key = some value) (hn : intOperand value = some n) :
    ∃ peer peer',
      (Client.incrValue (incrArgs t host port username table key)).run addrLe s { tables := σ } =
        some (.error (.status 0), peer) ∧ peer.out = [] ∧ peer.err = [] ∧
      (Client.getValue [host', port', username', table, key]).run addrLe s'
          { tables := peer.tables } = some (.error (.status 0), peer') ∧
        peer'.out = toDecimal (wrapInt32 (n + 1)) ++ ['\n'] ∧ peer'.err = [] ∧
      peer'.tables.values = Function.update σ.values table
        (Function.update (σ.values table) key (some (toDecimal (wrapInt32 (n + 1))))) := by
  have hint := isInt32_wrapInt32 (n + 1)
  have hlen := length_toDecimal hint
  obtain ⟨hword, hnul⟩ := (isNumeral_toDecimal hint).isWord
  obtain ⟨peer, hrun, hout, herr, hclean₁, hfree₁, hcreated₁, hvalues⟩ :=
    run_incrValue addrLe s host port t h hclean hfree hcreated hvalue hn
  have hvalue₁ : peer.tables.values table key = some (toDecimal (wrapInt32 (n + 1))) := by
    rw [hvalues, Function.update_self, Function.update_self]
  obtain ⟨peer', hrun', hout', herr', hvalues'⟩ :=
    run_getValue addrLe s' host' port' h' hclean₁ hfree₁ (hcreated₁ ▸ hcreated) hvalue₁
      ⟨hword, hnul, by omega⟩
  exact ⟨peer, peer', hrun, hout, herr, hrun', hout', herr', hvalues'.trans hvalues⟩

/-- A counter is incremented in a transaction. -/
theorem getValue_after_incrValue_counter : ∃ peer peer' : Peer,
    (Client.getValue ["localhost".toList, "5000".toList, "alice".toList, ['t'], ['k']]).run
        (fun _ _ => true) 1 { tables := peer.tables } = some (.error (.status 0), peer') ∧
      peer'.out = ['1', '\n'] := by
  have hclean : counter.Clean := fun _ => rfl
  have hvalue : counter.values ['t'] ['k'] = some ['0'] := by decide +kernel
  have hzero : intOperand ['0'] = some 0 := by decide +kernel
  obtain ⟨peer, peer', -, -, -, hrun, hout, -⟩ := getValue_after_incrValue (fun _ _ => true) 0 1
    "localhost".toList "5000".toList "localhost".toList "5000".toList true fits_alice fits_alice
    hclean (fun _ => rfl) rfl hvalue hzero
  exact ⟨peer, peer', hrun, hout.trans (by decide +kernel)⟩

end Clients

end Server

end Csf
