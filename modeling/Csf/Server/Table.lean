import Csf.Lib.Overlay
import Csf.Lib.Pool
import Csf.Server.Message

/-!
# Tables, and the calls sessions make on the server

A table of `table.cpp` has two maps, the committed pairs and the temporary
changes over them, and a mutex. The mutex is a default one of pthread: it can be
unlocked by anybody, whether locked or not, and locking it waits while it is
locked, also for the thread that locked it. Beside its state the model keeps who
holds it – the session whose `lock` or `trylock` last succeeded, if nobody has
unlocked it since. The constructor the server uses, `Table()`, does not initialise
the mutex of a new table: it is what is in the memory the table is put in, which is
what there is under the name before the table is created.

The stored values are left generic. The server proper stores strings; what it
does never depends on them, and following *which write* a stored value comes from
is then a matter of storing strings that know where they come from
(`Csf.Server.Env`).

A `Table *` is the name of the table: `Server::create_table` makes at most one
table for a name and none is ever deleted.

Everything sessions share is reached through the calls of `Csf.Server.Call`: the
methods of `Table`, and `find_table` and `create_table`, which hold
`tables_mutex` from beginning to end and so are single steps as well. One more
call writes to the client; it changes nothing that is shared, but may fail.
-/

namespace Csf

namespace Server

/-- A session, by its number. -/
abbrev SessionId := ℕ

/-- `std::map<std::string, T>` -/
abbrev StrMap (β : Type) := Std.ExtTreeMap Str β compare

/-- `class Table`, its name apart. -/
structure Table (β : Type) where
  /-- Who holds `m_lock`, if it is locked. -/
  holder : Option SessionId := none
  /-- `m_data` -/
  data : StrMap β := ∅
  /-- `m_temp_data` -/
  tempData : StrMap β := ∅

namespace Table

variable {β : Type}

/-- `Table::set` -/
def set (t : Table β) (key : Str) (value : β) : Table β :=
  { t with tempData := t.tempData.insert key value }

/-- `Table::get` -/
def get (t : Table β) (key : Str) : Except Exn β :=
  match t.tempData[key]? with
  | some v => .ok v
  | none =>
      match t.data[key]? with
      | some v => .ok v
      | none => .error (.operationException ("Key not found: ".toList ++ key))

/-- `Table::has_key` -/
def hasKey (t : Table β) (key : Str) : Bool :=
  t.tempData.contains key || t.data.contains key

/-- `Table::commit_changes` -/
def commitChanges (t : Table β) : Table β :=
  { t with data := Interaction.overlay t.data t.tempData, tempData := ∅ }

/-- `Table::rollback_changes` -/
def rollbackChanges (t : Table β) : Table β :=
  { t with tempData := ∅ }

/-- The table stores the value under the key, committed or for the time being. -/
def Stores (t : Table β) (key : Str) (value : β) : Prop :=
  t.data[key]? = some value ∨ t.tempData[key]? = some value

variable {t : Table β} {key : Str} {value : β}

/-- What is stored after `set` was stored before, or is what has been set. -/
theorem Stores.of_set {key' : Str} {value' : β} (h : (t.set key' value').Stores key value) :
    t.Stores key value ∨ value' = value := by
  rcases h with h | h
  · exact Or.inl (Or.inl h)
  · rw [set, Std.ExtTreeMap.getElem?_insert] at h
    split at h
    · exact Or.inr (Option.some.inj h)
    · exact Or.inl (Or.inr h)

/-- To commit stores nothing new. -/
theorem Stores.of_commitChanges (h : t.commitChanges.Stores key value) : t.Stores key value := by
  rcases h with h | h
  · rw [commitChanges, Interaction.getElem?_overlay] at h
    rcases Option.or_eq_some_iff.mp h with h | ⟨-, h⟩
    · exact Or.inr h
    · exact Or.inl h
  · exact absurd h (by simp [commitChanges])

/-- Nor does to roll back. -/
theorem Stores.of_rollbackChanges (h : t.rollbackChanges.Stores key value) :
    t.Stores key value :=
  h.imp_right fun h => absurd h (by simp [rollbackChanges])

/-- What is read is stored. -/
theorem Stores.of_get (h : t.get key = .ok value) : t.Stores key value := by
  rw [get] at h
  split at h
  · cases h
    exact Or.inr ‹_›
  · split at h
    · cases h
      exact Or.inl ‹_›
    · cases h

end Table

/-- What sessions share: which names `tables` has, and the table of each – the
table of a name that has none is the one it would get. -/
structure Tables (β : Type) where
  /-- Whether `tables` has the name. -/
  created : Str → Bool
  /-- The table of a name. -/
  table : Str → Table β

namespace Tables

variable {β : Type}

/-- Change the table `t`. -/
def modify (σ : Tables β) (t : Str) (f : Table β → Table β) : Tables β :=
  { σ with table := Function.update σ.table t (f (σ.table t)) }

@[simp] theorem modify_created (σ : Tables β) (t : Str) (f : Table β → Table β) :
    (σ.modify t f).created = σ.created := rfl

@[simp] theorem modify_table_self (σ : Tables β) (t : Str) (f : Table β → Table β) :
    (σ.modify t f).table t = f (σ.table t) := by simp [modify]

theorem modify_table_of_ne (σ : Tables β) {t u : Str} (h : u ≠ t) (f : Table β → Table β) :
    (σ.modify t f).table u = σ.table u := by simp [modify, h]

theorem modify_table (σ : Tables β) (t u : Str) (f : Table β → Table β) :
    (σ.modify t f).table u = if u = t then f (σ.table u) else σ.table u := by
  rcases eq_or_ne u t with rfl | h
  · rw [modify_table_self, if_pos rfl]
  · rw [modify_table_of_ne σ h, if_neg h]

end Tables

/-- The calls a session makes on what is shared; `terminate` is the end of the
process, by a signal, by `exit` or by an exception nobody catches. -/
inductive Call (β : Type) where
  | findTable (name : Str)
  | createTable (name : Str)
  | lock (t : Str)
  | unlock (t : Str)
  | trylock (t : Str)
  | set (t key : Str) (value : β)
  | get (t key : Str)
  | hasKey (t key : Str)
  | commitChanges (t : Str)
  | rollbackChanges (t : Str)
  | write (line : Str)
  | terminate

/-- The results of the calls: `find_table` returns a null pointer or a table. -/
abbrev Call.Result {β : Type} : Call β → Type
  | .findTable _ => Option Str
  | .trylock _ => Bool
  | .get _ _ => Except Exn β
  | .hasKey _ _ => Bool
  | .terminate => Empty
  | _ => Unit

/-- **What a call of session `s` does.** Only `lock` may have to wait, and nothing
comes after `terminate`. A table that is created keeps what there is in the memory of
its mutex. -/
def Call.exec {β : Type} (s : SessionId) (c : Call β) (σ : Tables β) :
    Option (c.Result × Tables β) :=
  match c with
  | .findTable name => some (if σ.created name then some name else none, σ)
  | .createTable name => some ((), { σ with created := Function.update σ.created name true })
  | .lock t =>
      if (σ.table t).holder.isSome then none
      else some ((), σ.modify t fun x => { x with holder := some s })
  | .unlock t => some ((), σ.modify t fun x => { x with holder := none })
  | .trylock t =>
      if (σ.table t).holder.isSome then some (false, σ)
      else some (true, σ.modify t fun x => { x with holder := some s })
  | .set t key value => some ((), σ.modify t fun x => x.set key value)
  | .get t key => some ((σ.table t).get key, σ)
  | .hasKey t key => some ((σ.table t).hasKey key, σ)
  | .commitChanges t => some ((), σ.modify t Table.commitChanges)
  | .rollbackChanges t => some ((), σ.modify t Table.rollbackChanges)
  | .write _ => some ((), σ)
  | .terminate => none

/-- Who holds the lock of the table `u` once session `s` has been answered `r` to a
call, `h` being who held it before. -/
def Call.holderAfter {β : Type} (s : SessionId) (c : Call β) (r : c.Result) (u : Str)
    (h : Option SessionId) : Option SessionId :=
  match c, r with
  | .lock t, _ => if u = t then some s else h
  | .unlock t, _ => if u = t then none else h
  | .trylock t, (b : Bool) => if u = t ∧ b = true then some s else h
  | _, _ => h

/-- **Locks change hands by `lock`, `trylock` and `unlock` alone.** -/
theorem Call.holder_exec {β : Type} {s : SessionId} {c : Call β} {σ σ' : Tables β} {r : c.Result}
    (h : c.exec s σ = some (r, σ')) (u : Str) :
    (σ'.table u).holder = c.holderAfter s r u (σ.table u).holder := by
  have modify_holder : ∀ (t : Str) (f : Table β → Table β), (∀ x, (f x).holder = x.holder) →
      ((σ.modify t f).table u).holder = (σ.table u).holder := by
    intro t f hf
    rw [Tables.modify_table]
    split
    · exact hf _
    · rfl
  cases c with
  | lock t =>
    rw [exec] at h
    split at h
    · exact absurd h (by simp)
    · obtain ⟨-, rfl⟩ := Prod.mk.inj (Option.some.inj h)
      rw [Tables.modify_table, holderAfter, apply_ite Table.holder]
  | unlock t =>
    obtain ⟨-, rfl⟩ := Prod.mk.inj (Option.some.inj h)
    rw [Tables.modify_table, holderAfter, apply_ite Table.holder]
  | trylock t =>
    rw [exec] at h
    split at h
    · obtain ⟨rfl, rfl⟩ := Prod.mk.inj (Option.some.inj h)
      simp [holderAfter]
    · obtain ⟨rfl, rfl⟩ := Prod.mk.inj (Option.some.inj h)
      rw [Tables.modify_table, holderAfter, apply_ite Table.holder]
      simp
  | set t key value =>
    obtain ⟨-, rfl⟩ := Prod.mk.inj (Option.some.inj h)
    exact modify_holder t _ fun _ => rfl
  | commitChanges t =>
    obtain ⟨-, rfl⟩ := Prod.mk.inj (Option.some.inj h)
    exact modify_holder t _ fun _ => rfl
  | rollbackChanges t =>
    obtain ⟨-, rfl⟩ := Prod.mk.inj (Option.some.inj h)
    exact modify_holder t _ fun _ => rfl
  | terminate => exact r.elim
  | _ =>
    obtain ⟨-, rfl⟩ := Prod.mk.inj (Option.some.inj h)
    rfl

/-- **A call stores nothing but what it is told to.** -/
theorem Call.stores_exec {β : Type} {s : SessionId} {c : Call β} {σ σ' : Tables β} {r : c.Result}
    (h : c.exec s σ = some (r, σ')) {u k : Str} {v : β} (hv : (σ'.table u).Stores k v) :
    (σ.table u).Stores k v ∨ ∃ t key, c = .set t key v := by
  -- a method that stores nothing new
  have modify : ∀ {t : Str} {f : Table β → Table β}, ((σ.modify t f).table u).Stores k v →
      (∀ x, (f x).Stores k v → x.Stores k v) →
        (σ.table u).Stores k v ∨ ∃ t key, c = .set t key v := by
    intro t f hv hf
    rw [Tables.modify_table] at hv
    split at hv
    · exact Or.inl (hf _ hv)
    · exact Or.inl hv
  cases c with
  | lock t =>
    rw [exec] at h
    split at h
    · exact absurd h (by simp)
    · obtain ⟨-, rfl⟩ := Prod.mk.inj (Option.some.inj h)
      exact modify hv fun _ hx => hx
  | unlock t =>
    obtain ⟨-, rfl⟩ := Prod.mk.inj (Option.some.inj h)
    exact modify hv fun _ hx => hx
  | trylock t =>
    rw [exec] at h
    split at h
    · obtain ⟨-, rfl⟩ := Prod.mk.inj (Option.some.inj h)
      exact Or.inl hv
    · obtain ⟨-, rfl⟩ := Prod.mk.inj (Option.some.inj h)
      exact modify hv fun _ hx => hx
  | set t key value =>
    obtain ⟨-, rfl⟩ := Prod.mk.inj (Option.some.inj h)
    rw [Tables.modify_table] at hv
    split at hv
    · exact hv.of_set.imp_right fun heq => ⟨t, key, by rw [heq]⟩
    · exact Or.inl hv
  | commitChanges t =>
    obtain ⟨-, rfl⟩ := Prod.mk.inj (Option.some.inj h)
    exact modify hv fun _ hx => hx.of_commitChanges
  | rollbackChanges t =>
    obtain ⟨-, rfl⟩ := Prod.mk.inj (Option.some.inj h)
    exact modify hv fun _ hx => hx.of_rollbackChanges
  | terminate => exact r.elim
  | _ =>
    obtain ⟨-, rfl⟩ := Prod.mk.inj (Option.some.inj h)
    exact Or.inl hv

/-- The one call no session survives. -/
def Call.fatal {β : Type} : Call β → Bool
  | .terminate => true
  | _ => false

/-- The one call that may fail. Then either the wrapper calls `exit`, or the signal
for a connection that the client has closed ends the process; nothing handles it. -/
def Call.fallible {β : Type} : Call β → Bool
  | .write _ => true
  | _ => false

end Server

end Csf
