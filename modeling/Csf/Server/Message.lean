import Csf.Lib.Strings

/-!
# Messages of the table server

The requests and responses of the protocol, as `message.h` has them: a message
type and a vector of string arguments.

The exceptions of `exceptions.h` are here as well. All four carry a text, and
which of the four it is decides what the session does with it.
-/

namespace Csf

namespace Server

/-- The exceptions of `exceptions.h`, with their `what()`. -/
inductive Exn where
  /-- A message was invalid. -/
  | invalidMessage (what : Str) : Exn
  /-- A communication error. -/
  | commException (what : Str) : Exn
  /-- A requested operation could not be performed. -/
  | operationException (what : Str) : Exn
  /-- A transaction has failed because a lock could not be acquired. -/
  | failedTransaction (what : Str) : Exn
  deriving DecidableEq

/-- `std::exception::what`. -/
def Exn.what : Exn → Str
  | .invalidMessage w | .commException w | .operationException w | .failedTransaction w => w

/-- `enum class MessageType`. -/
inductive MessageType where
  | none | login | create | push | pop | top | set | get | add | sub | mul | div
  | begin | commit | bye | ok | failed | error | data
  deriving DecidableEq

/-- A message: its type and its arguments. -/
structure Message where
  /-- `m_message_type` -/
  messageType : MessageType
  /-- `m_args` -/
  args : List Str
  deriving DecidableEq

/-- `static const unsigned MAX_ENCODED_LEN`, the terminating newline included. -/
def maxEncodedLen : ℕ := 1024

namespace Message

/-- `is_valid_identifier`: letters, digits and underscores, not starting with a
digit. `message.cpp` and `client_connection.cpp` have the same function. -/
def isValidIdentifier : Str → Bool
  | [] => false
  | c :: cs => (c.isAlpha || c == '_') && cs.all fun d => d.isAlphanum || d == '_'

/-- `Message::get_username` -/
def getUsername (m : Message) : Str :=
  match m.messageType, m.args with
  | .login, [a] => a
  | _, _ => []

/-- `Message::get_table` -/
def getTable (m : Message) : Str :=
  match m.messageType, m.args with
  | .create, [a] => a
  | .set, [a, _] => a
  | .get, [a, _] => a
  | _, _ => []

/-- `Message::get_key` -/
def getKey (m : Message) : Str :=
  match m.messageType, m.args with
  | .set, _ :: k :: _ => k
  | .get, _ :: k :: _ => k
  | _, _ => []

/-- `Message::get_value` -/
def getValue (m : Message) : Str :=
  match m.messageType, m.args with
  | .push, [a] => a
  | .data, [a] => a
  | _, _ => []

/-- `Message::is_valid` -/
def isValid (m : Message) : Bool :=
  match m.messageType with
  | .login | .push | .failed | .error | .data => m.args.length == 1
  | .create =>
      match m.args with
      | [t] => isValidIdentifier t
      | _ => false
  | .set | .get =>
      match m.args with
      | [t, k] => isValidIdentifier t && isValidIdentifier k
      | _ => false
  | .pop | .top | .add | .mul | .sub | .div | .begin | .commit | .bye | .ok => m.args.isEmpty
  | .none => false

end Message

end Server

end Csf
