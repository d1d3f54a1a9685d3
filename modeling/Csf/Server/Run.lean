import Csf.Server.Session

/-!
# The server running

Every client has its own thread, `Server::client_worker`, which runs
`chat_with_client` on its connection. Any number of them run at once, and their
calls on the tables interleave in any way: the server is a pool of threads
(`Csf.Lib.Pool`) in which session `t` rests where `chat_with_client` waits for a
line, and runs the body of its loop in between. It comes up without tables
(`Csf.Server.start`).

An exception that leaves `chat_with_client` is caught nowhere, so it is the end of
the process, like a trap or an `exit` on the way, or a response that cannot be
written.
-/

namespace Csf

namespace Server

open Interaction

variable {β : Type}

/-- A session between two lines: its connection, whether `chat_with_client` has
returned, and how many inputs it has taken. -/
structure Local (β : Type) where
  /-- The connection. -/
  conn : ClientConnection β := {}
  /-- Whether `chat_with_client` has returned. -/
  closed : Bool := false
  /-- The number of inputs taken. -/
  served : ℕ := 0

/-- What is left of a round of the loop once its body has ended. -/
def endRound (l : Local β) :
    Except Exn Next × ClientConnection β → Program (Call β) Call.Result (Local β)
  | (.ok next, conn) => .ret { conn, closed := next == .done, served := l.served + 1 }
  | (.error _, _) => .call .terminate nofun

/-- **The server**, `env t n` being what session `t` stores with in its input
number `n`. -/
def system (env : SessionId → ℕ → Env β) :
    System SessionId Input (Local β) (Tables β) (Call β) Call.Result where
  start t l i :=
    if l.closed then none
    else some ((chatBody (env t l.served) i l.conn).bind (endRound l))
  exec := Call.exec
  fatal := Call.fatal
  fallible := Call.fallible

/-- The states of the server. -/
abbrev World (β : Type) :=
  Pool SessionId Input (Local β) (Tables β) (Call β) Call.Result

/-- The server as it comes up: no tables, and nothing read from any client. The mutexes
of the tables that there are going to be are free. -/
def start : World β where
  shared := { created := fun _ => false, table := fun _ => {} }
  thread _ := .rest {}
  down := false

/-- A round of the loop obeys a protocol when its body does, and only throws where
the process may end. -/
theorem wp_round {G : Type} {P : Protocol (Call β) Call.Result G} {E : Env β} {i : Input}
    {l : Local β} {Q : G → Local β → Prop} {g : G}
    (h : P.wp (chatBody E i l.conn) (fun g' rs => match rs.1 with
      | .ok next => Q g' { conn := rs.2, closed := next == .done, served := l.served + 1 }
      | .error _ => P.pre .terminate g') g) :
    P.wp ((chatBody E i l.conn).bind (endRound l)) Q g := by
  rw [Protocol.wp_bind]
  refine P.wp_mono h ?_
  rintro g' ⟨e | next, conn⟩ h'
  · exact ⟨h', nofun⟩
  · exact h'

/-- A line sent by session `t`, and the moves that serve it: one for each of the
calls it makes on the tables, one to write the response, and one to come to rest. -/
def talk (t : SessionId) (line : String) (calls : ℕ) : List (Act SessionId Input) :=
  .input t (.line line.toList) :: List.replicate (calls + 2) (.advance t)

/-- The request lines of a session up to the point where it can use a table it
has created and has a value to store. -/
def prelude (t : SessionId) : List (Act SessionId Input) :=
  talk t "LOGIN alice\n" 0 ++ talk t "CREATE t\n" 1 ++ talk t "PUSH 1\n" 0

/-- **A reachable state** of the server. -/
def Reachable (env : SessionId → ℕ → Env β) : World β → Prop :=
  (system env).Run (fun _ _ => True) start

/-- The server as it is: with strings as values, the tables being at the addresses
they are at. -/
def serverEnv (addrLe : Str → Str → Bool) : SessionId → ℕ → Env Str := fun _ _ => Env.plain addrLe

/-- The server as it is, with no order of addresses to speak of. -/
def plainEnv : SessionId → ℕ → Env Str := serverEnv fun _ _ => true

/-- Whether a thread is a session whose `chat_with_client` has returned. -/
def isClosed : Thread Input (Local β) (Call β) Call.Result → Bool
  | .rest l => l.closed
  | .run _ _ _ => false

/-- Session `t` holds the lock of a table. -/
def Holds (w : World β) (t : SessionId) (tbl : Str) : Prop :=
  (w.shared.table tbl).holder = some t

instance (w : World β) (t : SessionId) (tbl : Str) : Decidable (Holds w t tbl) :=
  inferInstanceAs (Decidable (_ = _))

end Server

end Csf
