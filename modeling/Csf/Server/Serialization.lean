import Csf.Server.Message

/-!
# Encoding and decoding messages

`message_serialization.cpp`. Encoding writes the type's name and the arguments
separated by blanks, the first argument of a `FAILED` or an `ERROR` in quotes, and
refuses what comes out longer than `Csf.Server.maxEncodedLen`.

Decoding splits the line into words at white space and then glues the words of a
quoted text together again. The source reads the words off a stream, in a loop
with another loop inside it for the quoted text; the function here that goes over
the words, `Csf.Server.tokenize`, has the text being glued as an argument instead
of the inner loop, which makes it one structural recursion.
-/

namespace Csf

namespace Server

/-- The name `encode` writes for a message type; `NONE` has no name. -/
def MessageType.name : MessageType → Option Str
  | .none => Option.none
  | .login => some "LOGIN".toList
  | .create => some "CREATE".toList
  | .push => some "PUSH".toList
  | .pop => some "POP".toList
  | .top => some "TOP".toList
  | .set => some "SET".toList
  | .get => some "GET".toList
  | .add => some "ADD".toList
  | .sub => some "SUB".toList
  | .mul => some "MUL".toList
  | .div => some "DIV".toList
  | .begin => some "BEGIN".toList
  | .commit => some "COMMIT".toList
  | .bye => some "BYE".toList
  | .ok => some "OK".toList
  | .failed => some "FAILED".toList
  | .error => some "ERROR".toList
  | .data => some "DATA".toList

/-- The arguments as `encode` writes them, a blank before each; `quoted` says
whether the next one goes in quotes. -/
def encodeArgs (quoted : Bool) : List Str → Str
  | [] => []
  | a :: as => ' ' :: (if quoted then '"' :: a ++ ['"'] else a) ++ encodeArgs false as

/-- `MessageSerialization::encode`, with the encoded message as its value. -/
def encode (msg : Message) : Except Exn Str :=
  match msg.messageType.name with
  | none => .ok []
  | some name =>
      let quoted := msg.messageType == .failed || msg.messageType == .error
      let encoded := name ++ encodeArgs quoted msg.args ++ ['\n']
      if encoded.length > maxEncodedLen then
        .error (.invalidMessage "Encoded message exceeds maximum size".toList)
      else
        .ok encoded

/-- The words of a text, as repeated `iss >> token` reads them; `word` is the
word being read, backwards. -/
def wordsFrom (word : Str) : Str → List Str
  | [] => if word.isEmpty then [] else [word.reverse]
  | c :: cs =>
      if isspace c then
        if word.isEmpty then wordsFrom [] cs else word.reverse :: wordsFrom [] cs
      else
        wordsFrom (c :: word) cs

/-- The words of a text. -/
def words (s : Str) : List Str := wordsFrom [] s

/-- Take the surrounding quotes off a quoted text that is closed. -/
def unquote (q : Str) : Str :=
  if q.length ≥ 2 && q.getLast? == some '"' then (q.drop 1).dropLast else q

/-- The tokens of a message, from its words; `open?` is a quoted text that has
not been closed yet. -/
def tokenize : (open? : Option Str) → List Str → List Str
  | none, [] => []
  | some q, [] => [unquote q]
  | none, w :: ws =>
      if w.head? == some '"' then
        if w.getLast? == some '"' then unquote w :: tokenize none ws else tokenize (some w) ws
      else
        w :: tokenize none ws
  | some q, w :: ws =>
      let q' := q ++ ' ' :: w
      if q'.getLast? == some '"' then unquote q' :: tokenize none ws else tokenize (some q') ws

/-- `type_map` -/
def typeMap : List (Str × MessageType) :=
  [("LOGIN".toList, .login), ("CREATE".toList, .create), ("PUSH".toList, .push),
    ("POP".toList, .pop), ("TOP".toList, .top), ("SET".toList, .set), ("GET".toList, .get),
    ("ADD".toList, .add), ("SUB".toList, .sub), ("MUL".toList, .mul), ("DIV".toList, .div),
    ("BEGIN".toList, .begin), ("COMMIT".toList, .commit), ("BYE".toList, .bye),
    ("OK".toList, .ok), ("FAILED".toList, .failed), ("ERROR".toList, .error),
    ("DATA".toList, .data)]

/-- `MessageSerialization::decode`. The message it is given to fill is only
touched when it returns, so its value is the decoded message. -/
def decode (encodedMsg : Str) : Except Exn Message :=
  if encodedMsg.isEmpty then
    .error (.invalidMessage "Empty message received".toList)
  else if encodedMsg.getLast? != some '\n' then
    .error (.invalidMessage "Message didn't end with a newline".toList)
  else
    match tokenize none (words encodedMsg.dropLast) with
    | [] => .error (.invalidMessage "Empty message received".toList)
    | t :: args =>
        match typeMap.lookup t with
        | none => .error (.invalidMessage ("Unknown message type: ".toList ++ t))
        | some type => .ok ⟨type, args⟩

/-- The buffer `Rio_readlineb` has filled, read as a C string: up to the first
NUL. -/
def cstr (buf : Str) : Str := buf.takeWhile (· != '\x00')

end Server

end Csf
