import Csf.Server.Handler

/-!
# Client connections

`client_connection.cpp`: the handlers of the requests and the body of the loop
that reads requests and answers them, each written as the source has it – which
tables it locks and unlocks on which path, what it does before it throws, and
what its `catch` blocks do.

`Csf.Server.chatRequest` is the body of `chat_with_client` from the decoded
request on, and `Csf.Server.chatBody` all of it, what is read included.
-/

namespace Csf

namespace Server

open Handler

variable {β : Type}

/-! ### Responses -/

/-- `Rio_writen`: it writes all of the line, or it fails, on which the wrapper calls
`exit`. -/
def writen (line : Str) : Handler β Unit := do
  ask (.write line)
  update fun s => { s with written := s.written ++ [line] }

/-- Encode a response and write it; `encode` may throw. -/
def send (resp : Message) : Handler β Unit := do
  let encodedMsg ← fromExcept (encode resp)
  writen encodedMsg

/-- `ClientConnection::send_ok` -/
def sendOk : Handler β Unit := send ⟨.ok, []⟩

/-- `ClientConnection::send_failed` -/
def sendFailed (what : Str) : Handler β Unit := send ⟨.failed, [what]⟩

/-- `ClientConnection::send_error` -/
def sendError (what : Str) : Handler β Unit := send ⟨.error, [what]⟩

/-- `ClientConnection::send_data` -/
def sendData (data : Str) : Handler β Unit := send ⟨.data, [data]⟩

/-! ### The operand stack -/

/-- `ValueStack::get_top` of `m_stack` -/
def stackGetTop : Handler β β := do
  match (← self).stack with
  | [] => throw (.operationException "ValueStack is empty".toList)
  | v :: _ => pure v

/-- `ValueStack::pop` of `m_stack` -/
def stackPop : Handler β Unit := do
  match (← self).stack with
  | [] => throw (.operationException "ValueStack is empty".toList)
  | _ :: vs => update fun s => { s with stack := vs }

/-- `ValueStack::push` of `m_stack` -/
def stackPush (v : β) : Handler β Unit :=
  update fun s => { s with stack := v :: s.stack }

/-! ### Transactions -/

/-- `m_locked_tables.insert(t).second`: insert a table, and say whether it was
not there before. -/
def insertLocked (E : Env β) (t : Str) : Handler β Bool := fun s =>
  if h : t ∈ s.lockedTables then .ret (.ok false, s)
  else .ret (.ok true, { s with lockedTables := s.lockedTables.insert E.addrLe t h })

/-- `ClientConnection::rollback_transaction` -/
def rollbackTransaction : Handler β Unit := do
  let s ← self
  if s.inTransaction then
    s.lockedTables.toList.forM fun t => ask (.rollbackChanges t)
    s.lockedTables.toList.forM fun t => ask (.unlock t)
    update fun s => { s with lockedTables := TableSet.empty, inTransaction := false }

/-- `ClientConnection::begin`. Of the three fields a transaction keeps its state
in it resets one. -/
def begin : Handler β Unit := do
  if (← self).inTransaction then
    sendFailed "already in transaction".toList
  else
    update fun s => { s with inTransaction := true, lockedTables := TableSet.empty }
    sendOk

/-- `ClientConnection::commit` -/
def commit : Handler β Unit := do
  let s ← self
  if !s.inTransaction then
    sendFailed "not in transaction".toList
  else
    try
      s.transactionBuffer.toList.forM fun (tableName, keyvalMap) => do
        match ← ask (.findTable tableName) with
        | none => pure ()
        | some t => keyvalMap.toList.forM fun (key, val) => ask (.set t key val)
      s.lockedTables.toList.forM fun t => ask (.commitChanges t)
      s.lockedTables.toList.forM fun t => ask (.unlock t)
      update fun s => { s with
        transactionBuffer := ∅, lockedTables := TableSet.empty, inTransaction := false }
      sendOk
    catch _ =>
      rollbackTransaction
      throw (.failedTransaction "commit failed".toList)

/-- Lock a table for the transaction the first time it is used; a table that is
locked by somebody ends the transaction. `set` and `get` do this alike. The table
is in `m_locked_tables` before it is locked. -/
def lockForTransaction (E : Env β) (t : Str) : Handler β Unit := do
  if ← insertLocked E t then
    if !(← ask (.trylock t)) then
      rollbackTransaction
      throw (.failedTransaction "could not lock table".toList)

/-! ### Requests -/

/-- `ClientConnection::create` -/
def create (req : Message) : Handler β Unit := do
  let name := req.getTable
  if !Message.isValidIdentifier name then
    throw (.operationException "invalid table name".toList)
  else
    ask (.createTable name)
    sendOk

/-- `ClientConnection::push` -/
def push (E : Env β) (req : Message) : Handler β Unit := do
  if !(← self).hasStack then
    update fun s => { s with stack := [], hasStack := true }
  stackPush (E.lit req.getValue)
  sendOk

/-- `ClientConnection::pop` -/
def pop : Handler β Unit := do
  if !(← self).hasStack then
    sendFailed "no active key".toList
  else
    try
      stackPop
      sendOk
    catch _ =>
      sendFailed "stack empty".toList

/-- `ClientConnection::top` -/
def top (E : Env β) : Handler β Unit := do
  if !(← self).hasStack then
    sendFailed "no active key".toList
  else
    try
      let val ← stackGetTop
      sendData (E.text val)
    catch _ =>
      sendFailed "stack empty".toList

/-- What `set` does with the value it has popped: into the buffer of the
transaction, or straight into the table. -/
def storeValue (E : Env β) (t table key : Str) (val : β) : Handler β Unit := do
  if (← self).inTransaction then
    lockForTransaction E t
    update fun s => { s with
      transactionBuffer := s.transactionBuffer.insert table
        ((s.transactionBuffer[table]?.getD ∅).insert key (E.stamp val)) }
  else
    ask (.lock t)
    ask (.set t key (E.stamp val))
    ask (.commitChanges t)
    ask (.unlock t)

/-- The `catch` block of `set`, for any exception. It unlocks the table outside of
a transaction – also when a failed `trylock` has just ended the transaction, and
when nothing had been locked yet. -/
def catchSet (t : Str) (e : Exn) : Handler β Unit := do
  if !(← self).inTransaction then
    ask (.unlock t)
  sendFailed ("set failed: ".toList ++ e.what)

/-- Remember the table and the key last used. -/
def noteUse (table key : Str) : Handler β Unit :=
  update fun s => { s with table := table, key := key, hasStack := true }

/-- `ClientConnection::set` -/
def set (E : Env β) (req : Message) : Handler β Unit := do
  let table := req.getTable
  let key := req.getKey
  if !Message.isValidIdentifier key then
    throw (.operationException "invalid key name".toList)
  else if !Message.isValidIdentifier table then
    throw (.operationException "invalid table name".toList)
  else
    let t? ← ask (.findTable table)
    if !(← self).hasStack then
      sendFailed "no active key".toList
    else
      match t? with
      | none => sendFailed "no such table".toList
      | some t =>
          try
            let val ← stackGetTop
            stackPop
            storeValue E t table key val
            noteUse table key
            sendOk
          catch e => catchSet t e

/-- What `get` reads: the transaction's own write, or what is in the table. -/
def readValue (t table key : Str) : Handler β β := do
  let s ← self
  match if s.inTransaction then (s.transactionBuffer[table]?).bind (·[key]?) else none with
  | some v => pure v
  | none => do
      if !(← ask (.hasKey t key)) then
        throw (.operationException "no such key".toList)
      else
        fromExcept (← ask (.get t key))

/-- The `catch` block of `get`, for an `OperationException`. -/
def catchGet (t : Str) : Exn → Handler β Unit
  | .operationException what => do
      if (← self).inTransaction then
        rollbackTransaction
        throw (.failedTransaction "no such key".toList)
      else
        ask (.unlock t)
        sendFailed what
  | e => throw e

/-- The `try` of `get`, with its `catch`. -/
def getFrom (t table key : Str) : Handler β Unit := do
  try
    let val ← readValue t table key
    stackPush val
    noteUse table key
    if !(← self).inTransaction then
      ask (.unlock t)
    sendOk
  catch e => catchGet t e

/-- `ClientConnection::get`. Outside of a transaction the table is unlocked but
never locked. -/
def get (E : Env β) (req : Message) : Handler β Unit := do
  let table := req.getTable
  let key := req.getKey
  match ← ask (.findTable table) with
  | none => sendFailed "no such table".toList
  | some t =>
      if (← self).inTransaction then
        lockForTransaction E t
      getFrom t table key

/-- The four operations on `left` and `right`; a division the machine cannot do
ends the process. -/
def operate (type : MessageType) (left right : ℤ) : Handler β (Option ℤ) :=
  match type with
  | .add => pure (some (wrapInt32 (left + right)))
  | .sub => pure (some (wrapInt32 (left - right)))
  | .mul => pure (some (wrapInt32 (left * right)))
  | .div =>
      if right = 0 ∨ ¬isInt32 (left.tdiv right) then terminate
      else pure (some (left.tdiv right))
  | _ => pure none

/-- `ClientConnection::arithmetic`. The second operand is popped first: `a` is the
right one and `b` the left one. -/
def arithmetic (E : Env β) (req : Message) : Handler β Unit := do
  if (← self).stack.length < 2 then
    throw (.operationException "not enough operands".toList)
  else
  let s1 ← stackGetTop
  if E.text s1 = [] then
    sendFailed "stack empty".toList
  else
  stackPop
  let s2 ← stackGetTop
  if E.text s2 = [] then
    stackPush s1
    sendFailed "Insufficient values for operation".toList
  else
  stackPop
  match stoi (E.text s1) with
  | .error .invalidArgument =>
      stackPush s2
      stackPush s1
      throw (.operationException "non-integer operand".toList)
  | .error .outOfRange =>
      stackPush s2
      stackPush s1
      throw (.operationException "integer overflow".toList)
  | .ok (a, pos1) =>
  if pos1 ≠ (E.text s1).length ∨ '.' ∈ E.text s1 then
    stackPush s2
    stackPush s1
    sendError "non-integer operand".toList
  else
  match stoi (E.text s2) with
  | .error .invalidArgument =>
      stackPush s1
      stackPush s2
      throw (.operationException "non-integer operand".toList)
  | .error .outOfRange =>
      stackPush s2
      stackPush s1
      throw (.operationException "integer overflow".toList)
  | .ok (b, pos2) =>
  if pos2 ≠ (E.text s2).length ∨ '.' ∈ E.text s2 then
    stackPush s1
    stackPush s2
    sendError "non-integer operand".toList
  else if req.messageType = .div ∧ b = 0 then
    stackPush s1
    stackPush s2
    sendError "Division by zero is not allowed".toList
  else
  match ← operate req.messageType b a with
  | none =>
      stackPush s2
      stackPush s1
      throw (.invalidMessage "unexpected operation".toList)
  | some result =>
      stackPush (E.lit (toDecimal result))
      sendOk

/-! ### The conversation -/

/-- Whether `chat_with_client` reads on after a request or returns. -/
inductive Next where
  | again
  | done
  deriving DecidableEq

/-- The body of the `try` block of `chat_with_client` once the request has been
decoded. `print_message` only writes to the server's own output. -/
def chatRequest (E : Env β) (req : Message) : Handler β Next := do
  if !(← self).hasLoggedIn && req.messageType != .login then
    throw (.invalidMessage "first operation must be LOGIN".toList)
  else if !req.isValid then
    throw (.invalidMessage "invalid request".toList)
  else
    match req.messageType with
    | .login =>
        if !Message.isValidIdentifier req.getUsername then
          throw (.invalidMessage "invalid username".toList)
        else
          update fun s => { s with hasLoggedIn := true }
          sendOk
          pure .again
    | .create => do create req; pure .again
    | .push => do push E req; pure .again
    | .pop => do pop; pure .again
    | .top => do top E; pure .again
    | .set => do set E req; pure .again
    | .get => do get E req; pure .again
    | .add | .sub | .mul | .div => do arithmetic E req; pure .again
    | .begin => do begin; pure .again
    | .commit => do commit; pure .again
    | .bye => do sendOk; pure .done
    | _ => throw (.invalidMessage "invalid request".toList)

/-- The `catch` blocks of `chat_with_client`. What is thrown inside them leaves
`chat_with_client`, and `client_worker` does not catch it either. -/
def catchBlocks : Exn → Handler β Next
  | .invalidMessage what => do
      sendError what
      pure .done
  | .commException _ => pure .done
  | .operationException what => do
      sendFailed what
      if (← self).inTransaction then
        rollbackTransaction
      pure .again
  | .failedTransaction what => do
      sendFailed what
      rollbackTransaction
      pure .again

/-- A request that has been decoded, served. -/
def serve (E : Env β) (req : Message) : Handler β Next :=
  MonadExcept.tryCatch (chatRequest E req) catchBlocks

/-- What `Rio_readlineb` may deliver: a line, or what there is of one; the end of
the input; or an error, on which the wrapper calls `exit`. -/
inductive Input where
  | line (buf : Str)
  | eof
  | error
  deriving DecidableEq

/-- One round of the loop of `chat_with_client`. -/
def chatBody (E : Env β) : Input → Handler β Next
  | .line buf =>
      MonadExcept.tryCatch (do chatRequest E (← fromExcept (decode (cstr buf)))) catchBlocks
  | .eof => MonadExcept.tryCatch (throw (.commException "I/O error".toList)) catchBlocks
  | .error => terminate

end Server

end Csf
