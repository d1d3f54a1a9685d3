import Csf.Server.PushTop
import Csf.Server.Response

/-!
# What arithmetic does to the operands

`ClientConnection::arithmetic` pops its two operands before it knows that they are numbers,
and pushes them back by hand on each of the paths on which it fails. Most of these push the
second operand first, as it was; the paths on which it is the second operand that is found
wanting push the first one first.

`Csf.Server.fate` is what the function does to the stack, as a function of the stack alone,
and `Csf.Server.arithmetic_fate` says that this is so. Two results follow. The operands are
left as they were by a request that fails unless the second one is at fault and differs from
the first (`Csf.Server.leavesOperands_iff`). And a division is as it should be if its left
operand is not zero – that is the operand the code compares with zero – and the division is
one the machine can do (`Csf.Server.divides_iff`).
-/

namespace Csf

namespace Server

open Interaction Handler

/-! ### Operands -/

/-- `stoi` reads all of the string, and that is a number. -/
def IsInteger (s : Str) (n : ℤ) : Prop := stoi s = .ok (n, s.length) ∧ '.' ∉ s

/-- The string is not a number, or not all of it is; a number that is too large is not
meant. -/
def NotInteger (s : Str) : Prop :=
  stoi s = .error .invalidArgument ∨
    ∃ n pos, stoi s = .ok (n, pos) ∧ (pos ≠ s.length ∨ '.' ∈ s)

/-- **The operands that are pushed back in the wrong order**: the first one is a number, the
second one is at fault, and they differ. -/
def Misplaced (type : MessageType) : List Str → Prop
  | s1 :: s2 :: _ => s1 ≠ s2 ∧ s2 ≠ [] ∧ (∃ n, IsInteger s1 n) ∧
      (NotInteger s2 ∨ type = .div ∧ IsInteger s2 0)
  | _ => False

/-! ### What becomes of the stack -/

/-- How `arithmetic` may end. -/
inductive Fate where
  /-- In a division that ends the process. -/
  | trap
  /-- With a result on the stack, instead of the operands. -/
  | done (result : ℤ)
  /-- With an answer that the request has failed, and this stack. -/
  | refused (stack : List Str)
  /-- With an exception, and this stack. -/
  | thrown (stack : List Str)
  deriving DecidableEq

/-- The stack that a failed request leaves. -/
def Fate.stack? : Fate → Option (List Str)
  | .refused stack | .thrown stack => some stack
  | _ => none

/-- The operation, when the machine can do it. -/
def outcome (type : MessageType) (left right : ℤ) : ℤ :=
  match type with
  | .sub => wrapInt32 (left - right)
  | .mul => wrapInt32 (left * right)
  | .div => left.tdiv right
  | _ => wrapInt32 (left + right)

/-- **What `arithmetic` does to the stack.** -/
def fate (type : MessageType) : List Str → Fate
  | s1 :: s2 :: vs =>
      if s1 = [] ∨ s2 = [] then .refused (s1 :: s2 :: vs) else
      match stoi s1 with
      | .error _ => .thrown (s1 :: s2 :: vs)
      | .ok (right, pos1) =>
      if pos1 ≠ s1.length ∨ '.' ∈ s1 then .refused (s1 :: s2 :: vs) else
      match stoi s2 with
      | .error .invalidArgument => .thrown (s2 :: s1 :: vs)
      | .error .outOfRange => .thrown (s1 :: s2 :: vs)
      | .ok (left, pos2) =>
      if pos2 ≠ s2.length ∨ '.' ∈ s2 then .refused (s2 :: s1 :: vs)
      else if type = .div ∧ left = 0 then .refused (s2 :: s1 :: vs)
      else if type = .div ∧ (right = 0 ∨ ¬isInt32 (left.tdiv right)) then .trap
      else .done (outcome type left right)
  | stack => .thrown stack

/-! ### How operands are read -/

/-- What `arithmetic` finds an operand to be. -/
inductive Reading where
  /-- All of it is a number. -/
  | integer (n : ℤ)
  /-- It begins with a number, and goes on with something else. -/
  | trailing
  /-- It does not begin with a number. -/
  | invalid
  /-- It begins with a number that is too large. -/
  | tooLarge
  deriving DecidableEq

/-- **What `arithmetic` finds an operand to be**, `stoi` having read what it can. -/
def reading (s : Str) : Reading :=
  match stoi s with
  | .error .invalidArgument => .invalid
  | .error .outOfRange => .tooLarge
  | .ok (n, pos) => if pos ≠ s.length ∨ '.' ∈ s then .trailing else .integer n

theorem isInteger_iff {s : Str} {n : ℤ} : IsInteger s n ↔ reading s = .integer n := by
  rw [IsInteger, reading]
  rcases stoi s with (_ | _) | ⟨m, pos⟩
  · simp
  · simp
  · dsimp only
    by_cases hpos : pos ≠ s.length ∨ '.' ∈ s
    · rw [if_pos hpos]
      refine iff_of_false ?_ (by simp)
      rintro ⟨h, hdot⟩
      obtain ⟨-, rfl⟩ := Prod.mk.inj (Except.ok.inj h)
      exact hpos.elim (fun hne => hne rfl) hdot
    · rw [if_neg hpos]
      rw [not_or, not_not] at hpos
      simp [hpos]

theorem notInteger_iff {s : Str} :
    NotInteger s ↔ reading s = .invalid ∨ reading s = .trailing := by
  rw [NotInteger, reading]
  rcases stoi s with (_ | _) | ⟨m, pos⟩
  · simp
  · simp
  · dsimp only
    by_cases hpos : pos ≠ s.length ∨ '.' ∈ s
    · rw [if_pos hpos]
      exact iff_of_true (.inr ⟨m, pos, rfl, hpos⟩) (.inr rfl)
    · rw [if_neg hpos]
      refine iff_of_false ?_ (by simp)
      rintro (h | ⟨n, pos', h, hpos'⟩)
      · exact absurd h (by simp)
      · obtain ⟨-, rfl⟩ := Prod.mk.inj (Except.ok.inj h)
        exact hpos hpos'

/-- **What becomes of the stack, by what the operands are**, when none of them is empty. -/
theorem fate_eq {type : MessageType} {s1 s2 : Str} {vs : List Str} (h1 : s1 ≠ []) (h2 : s2 ≠ []) :
    fate type (s1 :: s2 :: vs) =
      match reading s1, reading s2 with
      | .integer right, .integer left =>
          if type = .div ∧ left = 0 then .refused (s2 :: s1 :: vs)
          else if type = .div ∧ (right = 0 ∨ ¬isInt32 (left.tdiv right)) then .trap
          else .done (outcome type left right)
      | .integer _, .trailing => .refused (s2 :: s1 :: vs)
      | .integer _, .invalid => .thrown (s2 :: s1 :: vs)
      | .integer _, .tooLarge => .thrown (s1 :: s2 :: vs)
      | .trailing, _ => .refused (s1 :: s2 :: vs)
      | _, _ => .thrown (s1 :: s2 :: vs) := by
  rw [fate, if_neg (not_or.mpr ⟨h1, h2⟩), reading, reading]
  rcases stoi s1 with (_ | _) | ⟨right, pos1⟩
  · rfl
  · rfl
  by_cases hpos1 : pos1 ≠ s1.length ∨ '.' ∈ s1
  · simp only [if_pos hpos1]
  simp only [if_neg hpos1]
  rcases stoi s2 with (_ | _) | ⟨left, pos2⟩
  · rfl
  · rfl
  by_cases hpos2 : pos2 ≠ s2.length ∨ '.' ∈ s2
  · simp only [if_pos hpos2]
  · simp only [if_neg hpos2]

/-- A line with which a request is refused. -/
def IsFailure (line : Str) : Prop :=
  ∃ what, line = quotedLine "FAILED".toList what ∨ line = quotedLine "ERROR".toList what

theorem not_isFailure_okLine : ¬IsFailure okLine := by
  rintro ⟨what, h | h⟩
  · exact absurd (List.cons.inj h).1 (by decide)
  · exact absurd (List.cons.inj h).1 (by decide)

/-- One line has been written, and it refuses the request. -/
def Refuses (s s' : ClientConnection Str) : Prop :=
  ∃ line, IsFailure line ∧ s'.written = s.written ++ [line]

section Arithmetic

variable {addrLe : Str → Str → Bool} {s s' : ClientConnection Str} {req : Message}
  {s1 s2 : Str} {vs : List Str}

theorem sendFailed_apply {what : Str} (h : what.length ≤ 1014) (s : ClientConnection Str) :
    sendFailed what s = .call (.write (quotedLine "FAILED".toList what)) fun _ =>
      .ret (.ok (), { s with written := s.written ++ [quotedLine "FAILED".toList what] }) := by
  have hl : "FAILED".toList.length = 6 := by decide
  rw [sendFailed, send, bind_apply, encode_quoted rfl rfl,
    if_neg (by rw [hl, maxEncodedLen]; omega)]
  rfl

/-- How a handler ends that has this fate. -/
def Meets (s : ClientConnection Str) :
    Fate → Program (Call Str) Call.Result (Except Exn Unit × ClientConnection Str) → Prop
  | .trap, p => ∃ k, p = .call .terminate k
  | .done n, p => p = .call (.write okLine) fun _ => .ret (.ok (), { s with
      stack := toDecimal n :: s.stack.drop 2, written := s.written ++ [okLine] })
  | .refused stack, p => ∃ line, IsFailure line ∧ p = .call (.write line) fun _ =>
      .ret (.ok (), { s with stack := stack, written := s.written ++ [line] })
  | .thrown stack, p => ∃ what : Str, what.length ≤ 100 ∧
      p = .ret (.error (.operationException what), { s with stack := stack })

/-- A handler goes on after a part of it that has returned. -/
theorem bind_of_ret {α γ : Type} {h : Handler Str α} {a : α} (hh : h s = .ret (.ok a, s'))
    (f : α → Handler Str γ) : (h >>= f) s = f a s' := by rw [bind_apply, hh, Program.ret_bind]

/-- So does it after one that has written a line. -/
theorem bind_of_write {α γ : Type} {h : Handler Str α} {a : α} {line : Str}
    (hh : h s = .call (.write line) fun _ => .ret (.ok a, s')) (f : α → Handler Str γ) :
    (h >>= f) s = .call (.write line) fun _ => f a s' := by
  rw [bind_apply, hh, Program.call_bind]
  rfl

/-- How a program ends that has written a line. -/
theorem ends_write {α : Type} {line : Str} {a b : α} :
    (.call (.write line) fun _ => .ret a : Program (Call Str) Call.Result α).Ends b ↔ a = b :=
  ⟨fun ⟨_, h⟩ => h, fun h => ⟨(), h⟩⟩

theorem stackGetTop_cons {v : Str} (h : s.stack = v :: vs) : stackGetTop s = .ret (.ok v, s) := by
  rw [stackGetTop, self_bind_apply, h]
  rfl

theorem stackPop_cons {v : Str} (h : s.stack = v :: vs) :
    stackPop s = .ret (.ok (), { s with stack := vs }) := by
  rw [stackPop, self_bind_apply, h]
  rfl

/-- Being refused with an `ERROR`, once the operands have been pushed back. -/
theorem meets_refused {what : Str} (hwhat : what.length ≤ 100) (v v' : Str) :
    Meets s (.refused (v' :: v :: vs))
      ((do stackPush v; stackPush v'; sendError what : Handler Str Unit) { s with stack := vs }) :=
  ⟨_, ⟨what, .inr rfl⟩, sendError_apply (by omega) _⟩

/-- Throwing, once the operands have been pushed back. -/
theorem meets_thrown {what : Str} (hwhat : what.length ≤ 100) (v v' : Str) :
    Meets s (.thrown (v' :: v :: vs))
      ((do stackPush v; stackPush v'; throw (.operationException what) : Handler Str Unit)
        { s with stack := vs }) :=
  ⟨what, hwhat, rfl⟩

/-- A division that the machine cannot do ends the process. -/
theorem operate_trap {type : MessageType} {left right : ℤ} (htype : type = .div)
    (h : right = 0 ∨ ¬isInt32 (left.tdiv right)) :
    ∃ k, (operate type left right : Handler Str _) s = .call .terminate k := by
  subst htype
  rw [operate, if_pos h]
  exact ⟨_, rfl⟩

/-- The other operations have a result. -/
theorem operate_ret {type : MessageType} {left right : ℤ} (htype : type.isArithmetic = true)
    (h : ¬(type = .div ∧ (right = 0 ∨ ¬isInt32 (left.tdiv right)))) :
    (operate type left right : Handler Str _) s =
      .ret (.ok (some (outcome type left right)), s) := by
  cases type <;> first | exact absurd htype (by decide) | skip
  · rfl
  · rfl
  · rfl
  · rw [operate, if_neg fun hd => h ⟨rfl, hd⟩]
    rfl

/-- An operand that is empty is answered with a `FAILED`, and the stack is as it was. -/
theorem arithmetic_empty (addrLe : Str → Str → Bool) (req : Message) {s1 s2 : Str} {vs : List Str}
    (hstack : s.stack = s1 :: s2 :: vs) (h : s1 = [] ∨ s2 = []) :
    ∃ what : Str, what.length ≤ 100 ∧ arithmetic (Env.plain addrLe) req s =
      .call (.write (quotedLine "FAILED".toList what)) fun _ =>
        .ret (.ok (), { s with written := s.written ++ [quotedLine "FAILED".toList what] }) := by
  have htext : ∀ v, (Env.plain addrLe).text v = v := fun _ => rfl
  simp only [arithmetic, htext]
  rw [self_bind_apply, if_neg (by simp [hstack]), bind_of_ret (stackGetTop_cons hstack)]
  by_cases h1 : s1 = []
  · rw [if_pos h1]
    exact ⟨_, by decide, sendFailed_apply (by decide) s⟩
  · have hpush : stackPush s1 { s with stack := s2 :: vs } = .ret (.ok (), s) := by
      obtain ⟨⟩ := s
      obtain rfl := hstack
      rfl
    rw [if_neg h1, bind_of_ret (stackPop_cons hstack), bind_of_ret (stackGetTop_cons rfl),
      if_pos (h.resolve_left h1), bind_of_ret hpush]
    exact ⟨_, by decide, sendFailed_apply (by decide) s⟩

/-- **What `arithmetic` does is its fate.** -/
theorem arithmetic_fate (addrLe : Str → Str → Bool) (htype : req.messageType.isArithmetic = true)
    (s : ClientConnection Str) :
    Meets s (fate req.messageType s.stack) (arithmetic (Env.plain addrLe) req s) := by
  have htext : ∀ v, (Env.plain addrLe).text v = v := fun _ => rfl
  have hlit : ∀ v, (Env.plain addrLe).lit v = v := fun _ => rfl
  rcases hstack : s.stack with _ | ⟨s1, _ | ⟨s2, vs⟩⟩
  · rw [arithmetic, self_bind_apply, if_pos (by simp [hstack])]
    exact ⟨"not enough operands".toList, by decide, by rw [← hstack]; rfl⟩
  · rw [arithmetic, self_bind_apply, if_pos (by simp [hstack])]
    exact ⟨"not enough operands".toList, by decide, by rw [← hstack]; rfl⟩
  rw [fate]
  by_cases hnil : s1 = [] ∨ s2 = []
  · obtain ⟨what, -, hfailed⟩ := arithmetic_empty addrLe req hstack hnil
    rw [if_pos hnil, ← hstack]
    exact ⟨_, ⟨what, .inl rfl⟩, hfailed⟩
  rw [if_neg hnil]
  obtain ⟨h1, h2⟩ := not_or.mp hnil
  simp only [arithmetic, htext, hlit]
  rw [self_bind_apply, if_neg (by simp [hstack]), bind_of_ret (stackGetTop_cons hstack), if_neg h1,
    bind_of_ret (stackPop_cons hstack), bind_of_ret (stackGetTop_cons rfl), if_neg h2,
    bind_of_ret (stackPop_cons rfl)]
  -- the operands have been popped; from here on the connection is `{ s with stack := vs }`
  cases stoi s1 with
  | error e => cases e <;> exact meets_thrown (by decide) s2 s1
  | ok r1 =>
    obtain ⟨right, pos1⟩ := r1
    dsimp only
    by_cases hpos1 : pos1 ≠ s1.length ∨ '.' ∈ s1
    · rw [if_pos hpos1, if_pos hpos1]
      exact meets_refused (by decide) s2 s1
    rw [if_neg hpos1, if_neg hpos1]
    cases stoi s2 with
    | error e =>
      cases e
      · exact meets_thrown (by decide) s1 s2
      · exact meets_thrown (by decide) s2 s1
    | ok r2 =>
      obtain ⟨left, pos2⟩ := r2
      dsimp only
      by_cases hpos2 : pos2 ≠ s2.length ∨ '.' ∈ s2
      · rw [if_pos hpos2, if_pos hpos2]
        exact meets_refused (by decide) s1 s2
      rw [if_neg hpos2, if_neg hpos2]
      by_cases hzero : req.messageType = .div ∧ left = 0
      · rw [if_pos hzero, if_pos hzero]
        exact meets_refused (by decide) s1 s2
      rw [if_neg hzero, if_neg hzero]
      by_cases htrap : req.messageType = .div ∧ (right = 0 ∨ ¬isInt32 (left.tdiv right))
      · obtain ⟨k, hk⟩ := operate_trap (s := { s with stack := vs }) htrap.1 htrap.2
        rw [if_pos htrap, bind_apply, hk]
        exact ⟨_, rfl⟩
      · rw [if_neg htrap, bind_of_ret (operate_ret htype htrap)]
        rw [Meets, hstack]
        rfl

/-! ### The request -/

/-- A handler goes on after a part of it that ends in one way only. -/
theorem ends_then {α γ : Type} {h : Handler Str α} {a : α}
    (hh : ∀ rs, (h s).Ends rs ↔ (.ok a, s') = rs) (f : α → Handler Str γ)
    (rs : Except Exn γ × ClientConnection Str) : ((h >>= f) s).Ends rs ↔ (f a s').Ends rs := by
  rw [bind_apply, Program.ends_bind]
  simp only [hh]
  exact exists_eq_left'

/-- A loop whose body ends, and changes nothing, ends and changes nothing. -/
theorem ends_forM {α : Type} {f : α → Handler Str Unit} {xs : List α}
    (hf : ∀ x rs, (f x s).Ends rs ↔ (.ok (), s) = rs)
    (rs : Except Exn Unit × ClientConnection Str) : (xs.forM f s).Ends rs ↔ (.ok (), s) = rs := by
  induction xs with
  | nil => rfl
  | cons x xs ih =>
    rw [List.forM_eq_forM] at ih ⊢
    rw [List.forM_cons, ends_then (hf x)]
    exact ih

/-- **Rolling back ends**, whatever the calls are answered by. -/
theorem ends_rollbackTransaction (rs : Except Exn Unit × ClientConnection Str) :
    (rollbackTransaction s).Ends rs ↔ (.ok (), s.rolledBack) = rs := by
  have hrollback : ∀ t rs, ((ask (.rollbackChanges t) : Handler Str Unit) s).Ends rs ↔
      (.ok (), s) = rs := fun t rs => ⟨fun ⟨(), h⟩ => h, fun h => ⟨(), h⟩⟩
  have hunlock : ∀ t rs, ((ask (.unlock t) : Handler Str Unit) s).Ends rs ↔
      (.ok (), s) = rs := fun t rs => ⟨fun ⟨(), h⟩ => h, fun h => ⟨(), h⟩⟩
  rw [rollbackTransaction, self_bind_apply, ClientConnection.rolledBack]
  split
  · rw [ends_then (ends_forM hrollback), ends_then (ends_forM hunlock)]
    exact Iff.rfl
  · exact Iff.rfl

/-- **What serving an arithmetic request comes to.** -/
theorem serve_fate (addrLe : Str → Str → Bool) (s : ClientConnection Str) (req : Message)
    (htype : req.messageType.isArithmetic = true) (hlogin : s.hasLoggedIn = true)
    (hvalid : req.isValid = true) :
    match fate req.messageType s.stack with
    | .trap => ∃ k, serve (Env.plain addrLe) req s = .call .terminate k
    | .done n => serve (Env.plain addrLe) req s =
        .call (.write okLine) fun _ => .ret (.ok .again, { s with
          stack := toDecimal n :: s.stack.drop 2, written := s.written ++ [okLine] })
    | .refused stack => ∃ line, IsFailure line ∧ serve (Env.plain addrLe) req s =
        .call (.write line) fun _ =>
          .ret (.ok .again, { s with stack := stack, written := s.written ++ [line] })
    | .thrown stack => ∃ s', Refuses s s' ∧ s'.stack = stack ∧
        ∀ rs, (serve (Env.plain addrLe) req s).Ends rs ↔ (.ok .again, s') = rs := by
  have hserve : serve (Env.plain addrLe) req s =
      (arithmetic (Env.plain addrLe) req s).bind fun
        | (.ok (), s') => .ret (.ok .again, s')
        | (.error e, s') => catchBlocks e s' := by
    have hreq : chatRequest (Env.plain addrLe) req s =
        (arithmetic (Env.plain addrLe) req >>= fun _ => pure .again) s := by
      rw [chatRequest, self_bind_apply, if_neg (by simp [hlogin]), if_neg (by simp [hvalid])]
      cases hty : req.messageType <;> rw [hty] at htype <;>
        first | rfl | exact absurd htype (by decide)
    rw [serve, tryCatch_apply, hreq, bind_apply, Program.bind_assoc]
    congr 1
    funext rs
    rcases rs with ⟨_ | _, _⟩ <;> rfl
  have hmeets := arithmetic_fate addrLe htype s
  rw [hserve]
  cases hfate : fate req.messageType s.stack with
  | trap =>
    rw [hfate] at hmeets
    obtain ⟨k, hk⟩ := hmeets
    rw [hk]
    exact ⟨_, rfl⟩
  | done n =>
    rw [hfate] at hmeets
    rw [hmeets]
    rfl
  | refused stack =>
    rw [hfate] at hmeets
    obtain ⟨line, hline, h⟩ := hmeets
    rw [h]
    exact ⟨line, hline, rfl⟩
  | thrown stack =>
    rw [hfate] at hmeets
    obtain ⟨what, hwhat, h⟩ := hmeets
    -- the failure is reported, and then a transaction is rolled back, which leaves the stack
    have hcatch : ∀ s'' rs, (catchBlocks (.operationException what) s'').Ends rs ↔
        ((do if (← self).inTransaction then rollbackTransaction
             pure .again : Handler Str Next)
          { s'' with written := s''.written ++ [quotedLine "FAILED".toList what] }).Ends rs :=
      fun s'' rs => ends_then (fun rs' => by rw [sendFailed_apply (by omega), ends_write]) _ rs
    rw [h, Program.ret_bind]
    dsimp only
    simp only [hcatch, self_bind_apply]
    have hline : IsFailure (quotedLine "FAILED".toList what) := ⟨what, .inl rfl⟩
    split
    · refine ⟨_, ⟨_, hline, ?_⟩, ?_, fun rs => ends_then ends_rollbackTransaction _ rs⟩
      · rw [rolledBack_written]
      · rw [rolledBack_stack]
    · exact ⟨_, ⟨_, hline, rfl⟩, rfl, fun rs => Iff.rfl⟩

/-! ### Failed requests -/

/-- **The operands are left as they were** by a request that is answered with `FAILED` or
`ERROR`, whatever the calls on the way are answered by. -/
def LeavesOperands (addrLe : Str → Str → Bool) (s : ClientConnection Str) (req : Message) : Prop :=
  ∀ next s', (serve (Env.plain addrLe) req s).Ends (.ok next, s') → Refuses s s' →
    s'.stack = s.stack

/-- Two operands are the same in either order if they are the same. -/
theorem swapped_eq_iff : s2 :: s1 :: vs = s1 :: s2 :: vs ↔ s1 = s2 := by
  rw [List.cons.injEq, List.cons.injEq]
  exact ⟨fun h => h.2.1, fun h => ⟨h.symm, h, rfl⟩⟩

/-- **The operands that are pushed back in the wrong order** are those that a failed request
leaves otherwise than they were. -/
theorem misplaced_iff (type : MessageType) (stack : List Str) :
    Misplaced type stack ↔
      ∃ stack', (fate type stack).stack? = some stack' ∧ stack' ≠ stack := by
  rcases stack with _ | ⟨s1, _ | ⟨s2, vs⟩⟩
  · simp [Misplaced, fate, Fate.stack?]
  · simp [Misplaced, fate, Fate.stack?]
  by_cases hnil : s1 = [] ∨ s2 = []
  · rw [fate, if_pos hnil]
    refine iff_of_false ?_ (by simp [Fate.stack?])
    rintro ⟨-, h2, ⟨n, hint, -⟩, -⟩
    rcases hnil with rfl | rfl
    · exact absurd hint (by simp [stoi])
    · exact h2 rfl
  obtain ⟨h1, h2⟩ := not_or.mp hnil
  have hswap : (∃ stack', some (s2 :: s1 :: vs) = some stack' ∧ stack' ≠ s1 :: s2 :: vs) ↔
      s1 ≠ s2 := by
    simpa only [Option.some.injEq, exists_eq_left'] using not_congr swapped_eq_iff
  simp only [Misplaced, isInteger_iff, notInteger_iff]
  rw [fate_eq h1 h2]
  cases reading s1 with
  | invalid => simp [Fate.stack?]
  | tooLarge => simp [Fate.stack?]
  | trailing => simp [Fate.stack?]
  | integer right =>
    -- the operands change places when it is the second one that is found wanting
    cases reading s2 with
    | invalid =>
      simp only [Fate.stack?, hswap]
      simp [h2]
    | tooLarge => simp [Fate.stack?]
    | trailing =>
      simp only [Fate.stack?, hswap]
      simp [h2]
    | integer left =>
      dsimp only
      split
      · rename_i hzero
        simp only [Fate.stack?, hswap, hzero]
        simp [h2]
      · rename_i hzero
        refine iff_of_false ?_ (by split <;> simp [Fate.stack?])
        simpa [h2] using fun _ => hzero

/-- A request that is not taken leaves the stack as it was. -/
theorem serve_notTaken (addrLe : Str → Str → Bool) (htype : req.messageType.isArithmetic = true)
    (h : ¬(s.hasLoggedIn = true ∧ req.isValid = true)) :
    ∃ line s', serve (Env.plain addrLe) req s =
        .call (.write line) (fun _ => .ret (.ok .done, s')) ∧
      s'.stack = s.stack := by
  obtain ⟨what, hwhat, hreq⟩ : ∃ what : Str, what.length ≤ 1015 ∧
      chatRequest (Env.plain addrLe) req s = .ret (.error (.invalidMessage what), s) := by
    have hlogin : req.messageType ≠ .login := by
      intro hty
      rw [hty] at htype
      exact absurd htype (by decide)
    rw [chatRequest, self_bind_apply]
    by_cases hin : s.hasLoggedIn = true
    · rw [if_neg (by simp [hin]), if_pos (by simpa [hin] using h)]
      exact ⟨_, by decide, rfl⟩
    · rw [if_pos (by simp [hin, hlogin])]
      exact ⟨_, by decide, rfl⟩
  have hcatch : catchBlocks (.invalidMessage what) s =
      .call (.write (quotedLine "ERROR".toList what)) fun _ => .ret (.ok .done,
        { s with written := s.written ++ [quotedLine "ERROR".toList what] }) :=
    bind_of_write (sendError_apply hwhat s) _
  rw [serve, tryCatch_apply, hreq, Program.ret_bind]
  exact ⟨_, _, hcatch, rfl⟩

/-- **Failed arithmetic leaves the operands alone if and only if** they are not a number below
something else that the request takes exception to. -/
theorem leavesOperands_iff (addrLe : Str → Str → Bool) (s : ClientConnection Str) (req : Message)
    (htype : req.messageType.isArithmetic = true) :
    LeavesOperands addrLe s req ↔
      (s.hasLoggedIn = true → req.isValid = true → ¬Misplaced req.messageType s.stack) := by
  by_cases htaken : s.hasLoggedIn = true ∧ req.isValid = true
  swap
  · -- the request is not even looked at
    refine iff_of_true ?_ fun hlogin hvalid => absurd ⟨hlogin, hvalid⟩ htaken
    obtain ⟨line, s'', hserve, hstack⟩ := serve_notTaken addrLe htype htaken
    intro next s' hends _
    rw [hserve] at hends
    obtain ⟨-, rfl⟩ := Prod.mk.inj (ends_write.mp hends)
    exact hstack
  obtain ⟨hlogin, hvalid⟩ := htaken
  have hserve := serve_fate addrLe s req htype hlogin hvalid
  have hleft : ∀ stack : List Str,
      (¬∃ stack', some stack = some stack' ∧ stack' ≠ s.stack) ↔ stack = s.stack := by simp
  simp only [hlogin, hvalid, true_imp_iff]
  rw [misplaced_iff]
  cases hfate : fate req.messageType s.stack with
  | trap =>
    rw [hfate] at hserve
    obtain ⟨k, hk⟩ := hserve
    refine iff_of_true ?_ (by simp [Fate.stack?])
    intro next s' hends
    rw [hk] at hends
    exact hends.elim fun r => r.elim
  | done n =>
    rw [hfate] at hserve
    refine iff_of_true ?_ (by simp [Fate.stack?])
    rintro next s' hends ⟨line, hline, hwritten⟩
    rw [hserve] at hends
    obtain ⟨-, rfl⟩ := Prod.mk.inj (ends_write.mp hends)
    obtain rfl : okLine = line := by simpa using hwritten
    exact absurd hline not_isFailure_okLine
  | refused stack =>
    rw [hfate] at hserve
    obtain ⟨line, hline, h⟩ := hserve
    refine Iff.trans ?_ (hleft _).symm
    constructor
    · intro hleaves
      exact hleaves .again _ (by rw [h, ends_write]) ⟨line, hline, rfl⟩
    · rintro rfl next s' hends -
      rw [h] at hends
      obtain ⟨-, rfl⟩ := Prod.mk.inj (ends_write.mp hends)
      rfl
  | thrown stack =>
    rw [hfate] at hserve
    obtain ⟨s'', hrefuses, rfl, hends⟩ := hserve
    refine Iff.trans ?_ (hleft _).symm
    constructor
    · intro hleaves
      exact hleaves .again s'' ((hends _).mpr rfl) hrefuses
    · intro hstack next s' hends' _
      obtain ⟨-, rfl⟩ := Prod.mk.inj ((hends _).mp hends')
      exact hstack

/-! ### Division -/

/-- **A decimal numeral**: a sign or none, at least one digit, and a value that is an
`int`. -/
def IsNumeral (s : Str) (n : ℤ) : Prop :=
  isInt32 n = true ∧ ∃ digits, digits ≠ [] ∧ (∀ c ∈ digits, c.isDigit = true) ∧
    (s = digits ∧ n = digitsVal digits ∨ s = '+' :: digits ∧ n = digitsVal digits ∨
      s = '-' :: digits ∧ n = -digitsVal digits)

/-- `stoi` reads a string of digits, with a sign or without. -/
theorem stoi_digits (sign : Str) {digits : Str} (hsign : sign = [] ∨ sign = ['+'] ∨ sign = ['-'])
    (hne : digits ≠ []) (hdigits : ∀ c ∈ digits, c.isDigit = true) {n : ℤ}
    (hn : n = if sign = ['-'] then -(digitsVal digits : ℤ) else digitsVal digits)
    (hint : isInt32 n = true) : stoi (sign ++ digits) = .ok (n, (sign ++ digits).length) := by
  obtain ⟨d, ds, rfl⟩ := List.exists_cons_of_ne_nil hne
  have hd := hdigits d List.mem_cons_self
  have hspace := not_isspace_of_isDigit hd
  have hplus : d ≠ '+' := by
    rintro rfl
    exact absurd hd (by decide)
  have hminus : d ≠ '-' := by
    rintro rfl
    exact absurd hd (by decide)
  have htake : ds.takeWhile Char.isDigit = ds :=
    List.takeWhile_eq_self_iff.mpr fun c hc => hdigits c (List.mem_cons_of_mem d hc)
  have hsigns : isspace '+' = false ∧ isspace '-' = false := by decide
  subst hn
  obtain rfl | rfl | rfl := hsign
  · simp at hint
    simp [stoi, hspace, hplus, hminus, hd, htake, hint]
  · simp at hint
    simp [stoi, hsigns, hd, htake, hint, Nat.add_comm]
  · simp at hint
    simp [stoi, hsigns, hd, htake, hint, Nat.add_comm]

/-- `stoi` reads a numeral, and all of it. -/
theorem IsNumeral.isInteger {v : Str} {n : ℤ} (h : IsNumeral v n) : IsInteger v n := by
  obtain ⟨hint, digits, hne, hdigits, h⟩ := h
  have hdot : '.' ∉ digits := fun hmem => absurd (hdigits _ hmem) (by decide)
  rcases h with ⟨rfl, hn⟩ | ⟨rfl, hn⟩ | ⟨rfl, hn⟩
  · exact ⟨stoi_digits [] (.inl rfl) hne hdigits hn hint, hdot⟩
  · exact ⟨stoi_digits ['+'] (.inr (.inl rfl)) hne hdigits hn hint, by simp [hdot]⟩
  · exact ⟨stoi_digits ['-'] (.inr (.inr rfl)) hne hdigits hn hint, by simp [hdot]⟩

theorem IsNumeral.ne_nil {v : Str} {n : ℤ} (h : IsNumeral v n) : v ≠ [] := by
  rintro rfl
  obtain ⟨-, digits, hne, -, ⟨h, -⟩ | ⟨h, -⟩ | ⟨h, -⟩⟩ := h
  · exact hne h.symm
  · exact absurd h (by simp)
  · exact absurd h (by simp)

/-- What becomes of two numerals. -/
theorem fate_numerals {type : MessageType} {right left : ℤ} (hright : IsNumeral s1 right)
    (hleft : IsNumeral s2 left) (vs : List Str) :
    fate type (s1 :: s2 :: vs) =
      if type = .div ∧ left = 0 then .refused (s2 :: s1 :: vs)
      else if type = .div ∧ (right = 0 ∨ ¬isInt32 (left.tdiv right)) then .trap
      else .done (outcome type left right) := by
  rw [fate_eq hright.ne_nil hleft.ne_nil, isInteger_iff.mp hright.isInteger,
    isInteger_iff.mp hleft.isInteger]

/-- **A division is as it should be**: with the quotient on the stack and an `OK`, if there is
one and it is an `int`; and else with a `FAILED` or an `ERROR`, and the stack as it was. All it
does with what is shared is to write that response. -/
def Divides (addrLe : Str → Str → Bool) (s : ClientConnection Str) (req : Message)
    (left right : ℤ) : Prop :=
  if right ≠ 0 ∧ isInt32 (left.tdiv right) = true then
    serve (Env.plain addrLe) req s = .call (.write okLine) fun _ => .ret (.ok .again, { s with
      stack := toDecimal (left.tdiv right) :: s.stack.drop 2, written := s.written ++ [okLine] })
  else
    ∃ line next s', IsFailure line ∧ serve (Env.plain addrLe) req s =
      .call (.write line) (fun _ => .ret (.ok next, s')) ∧
      s'.written = s.written ++ [line] ∧ s'.stack = s.stack

/-- The one quotient of two `int`s that is not an `int`. -/
theorem isInt32_tdiv_iff {left right : ℤ} (hleft : isInt32 left = true) :
    isInt32 (left.tdiv right) = true ↔ ¬(left = -2 ^ 31 ∧ right = -1) := by
  simp only [isInt32, Bool.and_eq_true, decide_eq_true_eq] at hleft ⊢
  by_cases hneg : right = -1
  · subst hneg
    rw [Int.tdiv_neg, Int.tdiv_one]
    omega
  · refine iff_of_true ?_ fun h => hneg h.2
    have habs : (left.tdiv right).natAbs = left.natAbs / right.natAbs := Int.natAbs_tdiv left right
    rcases Nat.lt_or_ge right.natAbs 2 with hsmall | hlarge
    · obtain rfl | rfl : right = 0 ∨ right = 1 := by omega
      · rw [Int.tdiv_zero]
        omega
      · rw [Int.tdiv_one]
        omega
    · have hhalf : left.natAbs / right.natAbs ≤ left.natAbs / 2 :=
        Nat.div_le_div_left hlarge (by decide)
      omega

/-- **A division is as it should be if and only if** its left operand is not zero and the
machine can do it, or both operands are zero and the same string. -/
theorem divides_iff {left right : ℤ} (hlogin : s.hasLoggedIn = true) (hvalid : req.isValid = true)
    (hdiv : req.messageType = .div) (hstack : s.stack = s1 :: s2 :: vs)
    (hright : IsNumeral s1 right) (hleft : IsNumeral s2 left) :
    Divides addrLe s req left right ↔
      (left ≠ 0 ∧ right ≠ 0 ∧ ¬(left = -2 ^ 31 ∧ right = -1)) ∨
        (left = 0 ∧ right = 0 ∧ s1 = s2) := by
  have htype : req.messageType.isArithmetic = true := by
    rw [hdiv]
    rfl
  have hserve := serve_fate addrLe s req htype hlogin hvalid
  have hfate : fate req.messageType s.stack =
      if left = 0 then .refused (s2 :: s1 :: vs)
      else if right = 0 ∨ ¬isInt32 (left.tdiv right) then .trap
      else .done (left.tdiv right) := by
    rw [hstack, hdiv, fate_numerals hright hleft]
    simp [outcome]
  rw [Divides, ← isInt32_tdiv_iff hleft.1]
  by_cases hzero : left = 0
  · rw [hfate, if_pos hzero] at hserve
    obtain ⟨line, hline, h⟩ := hserve
    subst hzero
    rw [Int.zero_tdiv]
    by_cases hright0 : right = 0
    · -- the operands are pushed back in the other order
      rw [if_neg fun hd => hd.1 hright0]
      constructor
      · rintro ⟨line', next, s', -, hs', -, hsame⟩
        obtain ⟨-, rfl⟩ := Prod.mk.inj (ret_of_write (h.symm.trans hs')).2
        exact .inr ⟨rfl, hright0, swapped_eq_iff.mp (hsame.trans hstack)⟩
      · rintro (⟨h0, -⟩ | ⟨-, -, hsame⟩)
        · exact absurd rfl h0
        · refine ⟨_, _, _, hline, h, rfl, ?_⟩
          rw [hstack]
          exact swapped_eq_iff.mpr hsame
    · -- a quotient that is zero is refused
      rw [if_pos ⟨hright0, by decide⟩]
      refine iff_of_false (fun hok => ?_) (by simp [hright0])
      obtain ⟨rfl, -⟩ := ret_of_write (h.symm.trans hok)
      exact not_isFailure_okLine hline
  by_cases htrap : right = 0 ∨ ¬isInt32 (left.tdiv right) = true
  · -- the machine divides all the same
    rw [hfate, if_neg hzero, if_pos htrap] at hserve
    obtain ⟨k, hk⟩ := hserve
    rw [if_neg fun hd => htrap.elim hd.1 fun hn => hn hd.2]
    refine iff_of_false ?_ ?_
    · rintro ⟨line, next, s', -, hs', -⟩
      exact absurd (hk.symm.trans hs') (by simp)
    · rintro (⟨-, hr, hq⟩ | ⟨hl, -⟩)
      · exact htrap.elim hr fun hn => hn hq
      · exact hzero hl
  · rw [hfate, if_neg hzero, if_neg htrap] at hserve
    rw [not_or, not_not] at htrap
    rw [if_pos htrap]
    exact iff_of_true hserve (.inl ⟨hzero, htrap.1, htrap.2⟩)

end Arithmetic

/-! ### Requests of a client -/

/-- A client that has logged in and pushed two values, the first one of these on top. -/
def withOperands (s1 s2 : Str) : ClientConnection Str :=
  { loggedIn with stack := [s1, s2], hasStack := true }

/-- The operand of a failed request that is not a number stays on top. -/
theorem leavesOperands_notInteger :
    LeavesOperands (fun _ _ => true) (withOperands "x".toList "1".toList) ⟨.add, []⟩ := by
  refine (leavesOperands_iff _ _ _ (by decide)).mpr fun _ _ => ?_
  rintro ⟨-, -, ⟨n, hint, -⟩, -⟩
  have hstoi : stoi "x".toList = .error .invalidArgument := by decide +kernel
  exact absurd (hstoi.symm.trans hint) (by simp)

/-- **The operand of a failed request that is not a number gets on top**, when it was below a
number. -/
theorem not_always_leavesOperands : ¬∀ (s : ClientConnection Str) (req : Message),
    req.messageType.isArithmetic = true → LeavesOperands (fun _ _ => true) s req := by
  intro h
  have hserve := serve_fate (fun _ _ => true) (withOperands "1".toList "x".toList) ⟨.add, []⟩
    (by decide) rfl rfl
  have hfate : fate .add (withOperands "1".toList "x".toList).stack =
      .thrown ["x".toList, "1".toList] := by decide +kernel
  rw [hfate] at hserve
  obtain ⟨s', hrefuses, hstack, hends⟩ := hserve
  have hsame := h _ ⟨.add, []⟩ (by decide) .again s' ((hends _).mpr rfl) hrefuses
  exact absurd (hstack.symm.trans hsame) (by decide)

/-- Seven by two. -/
theorem divides_sevenByTwo :
    Divides (fun _ _ => true) (withOperands "2".toList "7".toList) ⟨.div, []⟩ 7 2 :=
  (divides_iff rfl rfl rfl rfl
    ⟨by decide, "2".toList, by decide, by simp, .inl ⟨rfl, by decide⟩⟩
    ⟨by decide, "7".toList, by decide, by simp, .inl ⟨rfl, by decide⟩⟩).mpr
    (.inl (by decide))

/-- **A division by zero ends the process**: seven by zero. -/
theorem not_always_divides : ¬∀ (s : ClientConnection Str) (req : Message) (s1 s2 : Str)
    (vs : List Str) (left right : ℤ), s.hasLoggedIn = true → req.isValid = true →
    req.messageType = .div → s.stack = s1 :: s2 :: vs → IsNumeral s1 right →
    IsNumeral s2 left → Divides (fun _ _ => true) s req left right := by
  intro h
  have hdivides := h (withOperands "0".toList "7".toList) ⟨.div, []⟩ _ _ _ 7 0 rfl rfl rfl rfl
    ⟨by decide, "0".toList, by decide, by simp, .inl ⟨rfl, by decide⟩⟩
    ⟨by decide, "7".toList, by decide, by simp, .inl ⟨rfl, by decide⟩⟩
  have hserve := serve_fate (fun _ _ => true) (withOperands "0".toList "7".toList) ⟨.div, []⟩
    (by decide) rfl rfl
  have hfate : fate .div (withOperands "0".toList "7".toList).stack = .trap := by decide +kernel
  rw [hfate] at hserve
  obtain ⟨k, hk⟩ := hserve
  obtain ⟨line, next, s', -, hs', -⟩ := hdivides
  exact absurd (hk.symm.trans hs') (by simp)

end Server

end Csf
