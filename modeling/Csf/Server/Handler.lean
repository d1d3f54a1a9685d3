import Csf.Lib.Program
import Csf.Server.Numeral
import Csf.Server.Serialization
import Csf.Server.Table

/-!
# Member functions of a connection

The state of a session, `class ClientConnection`, and what its member functions
are made of. A member function works on the fields of its connection, makes calls
on what sessions share (`Csf.Server.Call`), and may throw: a `Csf.Server.Handler`
takes the connection to a program over these calls which ends with a value or an
exception, and with the connection as it then is. What a function has done to the
connection before it throws stays done.

The bytes written to the client are kept in the connection, a line at a time. To
write a line is a call as well, though on nothing that is shared: it may fail, and
then `Rio_writen` ends the process.
-/

namespace Csf

namespace Server

open Interaction

/-- What the handlers are generic in: the stored values – how to make one from a
string, read it back, and mark it as written by the request being served – and
the order of the tables' addresses, which is that of `std::set<Table *>`. -/
structure Env (β : Type) where
  /-- A value made from a string of this session. -/
  lit : Str → β
  /-- The string of a value. -/
  text : β → Str
  /-- The value as this request writes it. -/
  stamp : β → β
  /-- Whether a table's address is not above another's. -/
  addrLe : Str → Str → Bool

/-- The server as it is: values are strings. -/
def Env.plain (addrLe : Str → Str → Bool) : Env Str where
  lit := id
  text := id
  stamp := id
  addrLe := addrLe

/-- `std::set<Table *>`: its elements in the order of their addresses. -/
structure TableSet where
  /-- The elements. -/
  toList : List Str
  /-- None is there twice. -/
  nodup : toList.Nodup

namespace TableSet

/-- The empty set. -/
def empty : TableSet := ⟨[], List.nodup_nil⟩

instance : Membership Str TableSet := ⟨fun ts t => t ∈ ts.toList⟩

theorem mem_def {ts : TableSet} {t : Str} : t ∈ ts ↔ t ∈ ts.toList := Iff.rfl

instance (ts : TableSet) (t : Str) : Decidable (t ∈ ts) :=
  inferInstanceAs (Decidable (t ∈ ts.toList))

@[simp] theorem notMem_empty (t : Str) : t ∉ empty := by simp [mem_def, empty]

/-- Insert a table that is not there. -/
def insert (addrLe : Str → Str → Bool) (ts : TableSet) (t : Str) (h : t ∉ ts) : TableSet where
  toList := ts.toList.orderedInsert (fun a b => addrLe a b = true) t
  nodup := ((List.perm_orderedInsert _ t ts.toList).nodup_iff).mpr
    (List.nodup_cons.mpr ⟨h, ts.nodup⟩)

@[simp] theorem mem_insert (addrLe : Str → Str → Bool) {ts : TableSet} {t u : Str} (h : t ∉ ts) :
    u ∈ ts.insert addrLe t h ↔ u = t ∨ u ∈ ts :=
  List.mem_orderedInsert _

end TableSet

/-- `class ClientConnection`. The operand stack has its top first. -/
structure ClientConnection (β : Type) where
  /-- `m_has_logged_in` -/
  hasLoggedIn : Bool := false
  /-- `m_in_transaction` -/
  inTransaction : Bool := false
  /-- `m_transaction_buffer` -/
  transactionBuffer : StrMap (StrMap β) := ∅
  /-- `m_locked_tables` -/
  lockedTables : TableSet := TableSet.empty
  /-- `m_stack` -/
  stack : List β := []
  /-- `m_table` -/
  table : Str := []
  /-- `m_key` -/
  key : Str := []
  /-- `m_has_stack` -/
  hasStack : Bool := false
  /-- The lines written to `m_client_fd`, first to last. -/
  written : List Str := []

/-! ### Handlers -/

/-- A member function of a connection: a program that may throw. -/
def Handler (β α : Type) : Type :=
  ClientConnection β → Program (Call β) Call.Result (Except Exn α × ClientConnection β)

namespace Handler

variable {β α γ : Type}

/-- Go on after a handler that has returned; an exception goes on by itself. -/
def bind (h : Handler β α) (f : α → Handler β γ) : Handler β γ := fun s =>
  (h s).bind fun
    | (.ok a, s') => f a s'
    | (.error e, s') => .ret (.error e, s')

/-- `try { h } catch (e) { f }` -/
def tryCatch (h : Handler β α) (f : Exn → Handler β α) : Handler β α := fun s =>
  (h s).bind fun
    | (.ok a, s') => .ret (.ok a, s')
    | (.error e, s') => f e s'

instance : Monad (Handler β) where
  pure a := fun s => .ret (.ok a, s)
  bind := bind

instance : MonadExcept Exn (Handler β) where
  throw e := fun s => .ret (.error e, s)
  tryCatch := tryCatch

/-- The connection, `*this`. -/
def self : Handler β (ClientConnection β) := fun s => .ret (.ok s, s)

/-- Change the connection. -/
def update (f : ClientConnection β → ClientConnection β) : Handler β Unit := fun s =>
  .ret (.ok (), f s)

/-- Make a call on what is shared. -/
def ask (c : Call β) : Handler β c.Result := fun s => .call c fun r => .ret (.ok r, s)

/-- The value of a function that may throw. -/
def fromExcept (x : Except Exn α) : Handler β α := fun s => .ret (x, s)

/-- Nobody comes back from the end of the process. -/
def terminate : Handler β α := fun _ => .call .terminate nofun

/-! ### Reading a handler -/

section Reading

variable (s : ClientConnection β)

@[simp] theorem pure_apply (a : α) : (pure a : Handler β α) s = .ret (.ok a, s) := rfl

@[simp] theorem bind_apply (h : Handler β α) (f : α → Handler β γ) :
    (h >>= f) s = (h s).bind fun
      | (.ok a, s') => f a s'
      | (.error e, s') => .ret (.error e, s') := rfl

@[simp] theorem throw_apply (e : Exn) : (throw e : Handler β α) s = .ret (.error e, s) := rfl

@[simp] theorem tryCatch_apply (h : Handler β α) (f : Exn → Handler β α) :
    (MonadExcept.tryCatch h f) s = (h s).bind fun
      | (.ok a, s') => .ret (.ok a, s')
      | (.error e, s') => f e s' := rfl

@[simp] theorem self_apply : (self : Handler β _) s = .ret (.ok s, s) := rfl

@[simp] theorem update_apply (f : ClientConnection β → ClientConnection β) :
    update f s = .ret (.ok (), f s) := rfl

@[simp] theorem ask_apply (c : Call β) : ask c s = .call c fun r => .ret (.ok r, s) := rfl

@[simp] theorem fromExcept_apply (x : Except Exn α) :
    (fromExcept x : Handler β α) s = .ret (x, s) := rfl

@[simp] theorem terminate_apply : (terminate : Handler β α) s = .call .terminate nofun := rfl

end Reading

end Handler

end Server

end Csf
