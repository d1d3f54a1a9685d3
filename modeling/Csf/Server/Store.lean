import Csf.Server.Session

/-!
# A store and an operand stack

What the server is for, with nothing of how it does it: a stack machine over a
store of named tables. There are no transactions here, no buffer and no locks; a
request reads and writes the store at once (`Csf.Server.perform`).

A session of the server shows its client such a store. Outside of a transaction it
is what the tables hold; in one it is what they hold with the buffer laid over it
(`Csf.Server.ClientConnection.shows`). Which store a session shows depends on the
tables only at the keys the buffer does not have.
-/

namespace Csf

namespace Server

variable {β : Type}

/-- What a client of the server works on. -/
structure Store (β : Type) where
  /-- Whether the client has logged in. -/
  loggedIn : Bool
  /-- Which tables there are. -/
  created : Str → Bool
  /-- The operand stack, top first. -/
  stack : List β
  /-- Whether the stack has been used. -/
  hasStack : Bool
  /-- The value of each key of each table. -/
  value : Str → Str → Option β

/-- The integer a text denotes that is nothing but its numeral. -/
def intOperand (text : Str) : Option ℤ :=
  match stoi text with
  | .ok (n, pos) => if pos = text.length ∧ '.' ∉ text then some n else none
  | .error _ => none

/-- The result of an operation on two `int`s. A division is refused on a left
operand of zero, and gets no answer on a right one. -/
def operation (type : MessageType) (left right : ℤ) : Option ℤ :=
  match type with
  | .add => some (wrapInt32 (left + right))
  | .sub => some (wrapInt32 (left - right))
  | .mul => some (wrapInt32 (left * right))
  | .div =>
      if left = 0 ∨ right = 0 ∨ ¬isInt32 (left.tdiv right) then none else some (left.tdiv right)
  | _ => none

/-- Arithmetic on the two topmost values. -/
def calculate (E : Env β) (type : MessageType) : List β → Option (List β)
  | v :: u :: rest => do
      let right ← intOperand (E.text v)
      let left ← intOperand (E.text u)
      let result ← operation type left right
      pure (E.lit (toDecimal result) :: rest)
  | _ => none

/-- What a request that has been admitted does to a store: the line it is answered
with, an `OK` or a `DATA`, and the store afterwards; `none`, if it is not answered
so. -/
def act (E : Env β) (req : Message) (a : Store β) : Option (Str × Store β) :=
  match req.messageType with
  | .login =>
      if Message.isValidIdentifier req.getUsername then some (okLine, { a with loggedIn := true })
      else none
  | .create =>
      some (okLine, { a with created := Function.update a.created req.getTable true })
  | .push =>
      some (okLine, { a with
        stack := E.lit req.getValue :: (if a.hasStack then a.stack else []), hasStack := true })
  | .pop =>
      match a.hasStack, a.stack with
      | true, _ :: vs => some (okLine, { a with stack := vs })
      | _, _ => none
  | .top =>
      match a.hasStack, a.stack with
      | true, v :: _ => (encode ⟨.data, [E.text v]⟩).toOption.map fun line => (line, a)
      | _, _ => none
  | .set =>
      match a.hasStack && a.created req.getTable, a.stack with
      | true, v :: vs => some (okLine, { a with
          stack := vs
          value := Function.update a.value req.getTable
            (Function.update (a.value req.getTable) req.getKey (some (E.stamp v))) })
      | _, _ => none
  | .get =>
      match a.created req.getTable, a.value req.getTable req.getKey with
      | true, some v => some (okLine, { a with stack := v :: a.stack, hasStack := true })
      | _, _ => none
  | .add | .sub | .mul | .div =>
      (calculate E req.messageType a.stack).map fun stack => (okLine, { a with stack })
  | .bye => some (okLine, a)
  | _ => none

/-- A `GET` pushes the value it finds. -/
theorem act_get {req : Message} (E : Env β) (hty : req.messageType = .get) (a : Store β) :
    act E req a =
      if a.created req.getTable then
        (a.value req.getTable req.getKey).map fun v =>
          (okLine, { a with stack := v :: a.stack, hasStack := true })
      else none := by
  rw [act, hty]
  cases a.created req.getTable <;> cases a.value req.getTable req.getKey <;> rfl

/-- **A request performed on a store.** -/
def perform (E : Env β) (req : Message) (a : Store β) : Option (Str × Store β) :=
  if !a.loggedIn && req.messageType != .login then none
  else if !req.isValid then none
  else act E req a

/-- What the buffer has for a key. -/
def ClientConnection.buffered (c : ClientConnection β) (t key : Str) : Option β :=
  c.transactionBuffer[t]?.bind (·[key]?)

/-- **The store a session shows** over the values `base`. -/
def ClientConnection.shows (c : ClientConnection β) (created : Str → Bool)
    (base : Str → Str → Option β) : Store β where
  loggedIn := c.hasLoggedIn
  created := created
  stack := c.stack
  hasStack := c.hasStack
  value t key := (c.buffered t key).or (base t key)

@[simp] theorem ClientConnection.shows_created (c : ClientConnection β) (created : Str → Bool)
    (base : Str → Str → Option β) : (c.shows created base).created = created := rfl

/-- The committed values. -/
def Tables.values (σ : Tables β) (t key : Str) : Option β := (σ.table t).data[key]?

/-- The line is that of an `OK` or of a `DATA`. -/
def isGood (line : Str) : Bool := line == okLine || "DATA ".toList.isPrefixOf line

theorem isGood_okLine : isGood okLine = true := by
  rw [isGood, beq_self_eq_true, Bool.true_or]

theorem not_isGood_quotedLine {name : Str} (h : name = "FAILED".toList ∨ name = "ERROR".toList)
    (what : Str) : isGood (quotedLine name what) = false := by
  rcases h with rfl | rfl <;> rfl

theorem isGood_data {d line : Str} (h : encode ⟨.data, [d]⟩ = .ok line) : isGood line = true := by
  have hline : line = "DATA ".toList ++ (d ++ ['\n']) := by
    rw [encode] at h
    simp only [MessageType.name] at h
    split_ifs at h
    rw [← Except.ok.inj h]
    simp [encodeArgs]
  rw [isGood, hline, Bool.or_eq_true]
  exact Or.inr (List.isPrefixOf_iff_prefix.mpr (List.prefix_append _ _))

/-- **What a request performed on a store leaves behind**: it has been answered by an
`OK` or a `DATA`, only `CREATE` makes a table, and nobody is logged out. -/
theorem perform_spec {E : Env β} {req : Message} {a a' : Store β} {line : Str}
    (h : perform E req a = some (line, a')) :
    isGood line = true ∧
      a'.created = (if req.messageType = .create then Function.update a.created req.getTable true
        else a.created) ∧
      (a.loggedIn = true → a'.loggedIn = true) := by
  have ok : ∀ {x : Store β}, some (okLine, x) = some (line, a') →
      (x.created = if req.messageType = .create then Function.update a.created req.getTable true
        else a.created) ∧ (a.loggedIn = true → x.loggedIn = true) →
      isGood line = true ∧
        a'.created = (if req.messageType = .create then
          Function.update a.created req.getTable true else a.created) ∧
        (a.loggedIn = true → a'.loggedIn = true) := by
    rintro x ⟨⟩ hx
    exact ⟨isGood_okLine, hx⟩
  unfold perform at h
  split at h
  · exact nomatch h
  split at h
  · exact nomatch h
  unfold act at h
  split at h
  all_goals rename_i hty
  · split at h
    · exact ok h ⟨by rw [hty]; rfl, fun _ => rfl⟩
    · exact nomatch h
  · exact ok h ⟨by rw [hty, if_pos rfl], id⟩
  · exact ok h ⟨by rw [hty]; rfl, id⟩
  · split at h
    · exact ok h ⟨by rw [hty]; rfl, id⟩
    · exact nomatch h
  · split at h
    · obtain ⟨l, hl, he⟩ := Option.map_eq_some_iff.mp h
      obtain ⟨rfl, rfl⟩ := Prod.mk.inj he
      cases henc : encode ⟨.data, [E.text _]⟩ with
      | error e => rw [henc] at hl; exact nomatch hl
      | ok l' =>
        rw [henc] at hl
        obtain rfl := Option.some.inj hl
        exact ⟨isGood_data henc, by rw [hty]; rfl, id⟩
    · exact nomatch h
  · split at h
    · exact ok h ⟨by rw [hty]; rfl, id⟩
    · exact nomatch h
  · split at h
    · exact ok h ⟨by rw [hty]; rfl, id⟩
    · exact nomatch h
  iterate 4
    · obtain ⟨st, -, he⟩ := Option.map_eq_some_iff.mp h
      exact ok (congrArg some he) ⟨by rw [hty]; rfl, id⟩
  · exact ok h ⟨by rw [hty]; rfl, id⟩
  · exact nomatch h

/-- No table is gone after a request. -/
theorem created_mono {E : Env β} {req : Message} {a a' : Store β} {line : Str}
    (h : perform E req a = some (line, a')) {t : Str} (ht : a.created t = true) :
    a'.created t = true := by
  rw [(perform_spec h).2.1]
  split
  · rw [Function.update_apply]
    split
    · rfl
    · exact ht
  · exact ht

/-- A `SET` that is performed has a value to store. -/
theorem stack_of_perform_set {E : Env β} {req : Message} {a a' : Store β} {line : Str}
    (h : perform E req a = some (line, a')) (hty : req.messageType = .set) : a.stack ≠ [] := by
  intro hnil
  unfold perform at h
  split at h
  · exact nomatch h
  split at h
  · exact nomatch h
  · rw [act, hty, hnil] at h
    dsimp only at h
    split at h
    · rename_i hcons
      exact nomatch hcons
    · exact nomatch h

end Server

end Csf
