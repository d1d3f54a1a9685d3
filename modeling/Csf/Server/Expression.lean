import Csf.Lib.Expressions
import Csf.Server.Verdicts

/-!
# The operand stack evaluates expressions

A client that wants the value of an expression pushes the literals, as decimal numerals,
and asks for every operation after the two expressions it is applied to. The values go to
the stack as strings: `std::to_string` prints them, `std::stoi` reads them again, and on
the way from the client they are encoded and decoded.

A session is a machine with a stack of integers as long as these are `int`s: the relation
`Csf.Server.Computing` between the strings on the stack and the integers they stand for is
kept by a `PUSH` and by an `ADD`, a `SUB` or a `MUL`. So every expression is evaluated whose
intermediate values are `int`s (`Csf.Server.evaluates`).
-/

namespace Csf

namespace Server

open Interaction Handler

/-! ### Numerals -/

/-- **What `std::to_string` prints is a numeral.** -/
theorem isNumeral_toDecimal {n : ℤ} (h : isInt32 n = true) : IsNumeral (toDecimal n) n := by
  have hval : digitsVal (Nat.toDigits 10 n.natAbs) = n.natAbs := Nat.ofDigitChars_ten_toDigits
  refine ⟨h, Nat.toDigits 10 n.natAbs, Nat.toDigits_ne_nil,
    fun c hc => Nat.isDigit_of_mem_toDigits (by decide) (by decide) hc, ?_⟩
  rw [toDecimal, hval]
  split
  · exact .inr (.inr ⟨rfl, by omega⟩)
  · exact .inl ⟨rfl, by omega⟩

/-- The characters of a numeral. -/
theorem IsNumeral.forall_mem {v : Str} {n : ℤ} (h : IsNumeral v n) :
    ∀ c ∈ v, c.isDigit = true ∨ c = '+' ∨ c = '-' := by
  obtain ⟨-, digits, -, hdigits, ⟨rfl, -⟩ | ⟨rfl, -⟩ | ⟨rfl, -⟩⟩ := h
  · exact fun c hc => .inl (hdigits c hc)
  · exact List.forall_mem_cons.mpr ⟨.inr (.inl rfl), fun c hc => .inl (hdigits c hc)⟩
  · exact List.forall_mem_cons.mpr ⟨.inr (.inr rfl), fun c hc => .inl (hdigits c hc)⟩

/-- A numeral can be sent as it is: it is a word, it opens no text, and there is no NUL
in it. -/
theorem IsNumeral.isWord {v : Str} {n : ℤ} (h : IsNumeral v n) :
    (IsWord v ∧ ¬Opens v) ∧ '\x00' ∉ v := by
  refine ⟨⟨⟨h.ne_nil, fun c hc => ?_⟩, fun hopen => ?_⟩, fun hnul => ?_⟩
  · rcases h.forall_mem c hc with hdigit | rfl | rfl
    · exact not_isspace_of_isDigit hdigit
    · decide
    · decide
  · exact absurd (h.forall_mem _ (List.mem_of_mem_head? hopen)) (by decide)
  · exact absurd (h.forall_mem _ hnul) (by decide)

theorem length_toDecimal {n : ℤ} (h : isInt32 n = true) : (toDecimal n).length ≤ 11 := by
  have hdigits : (Nat.toDigits 10 n.natAbs).length ≤ 10 := by
    rw [Nat.length_toDigits_le_iff (by decide) (by decide)]
    simp only [isInt32, Bool.and_eq_true, decide_eq_true_eq] at h
    omega
  rw [toDecimal]
  split
  · rw [List.length_cons]
    omega
  · omega

/-- An `int` is not changed by being brought into the range of one. -/
theorem wrapInt32_eq {n : ℤ} (h : isInt32 n = true) : wrapInt32 n = n := by
  simp only [isInt32, Bool.and_eq_true, decide_eq_true_eq] at h
  exact Int.bmod_eq_of_le (by omega) (by omega)

/-! ### What a client sends -/

/-- The operations that are meant. -/
inductive Operation where
  | add
  | sub
  | mul
  deriving DecidableEq

namespace Operation

/-- What the operation is on integers. -/
def apply : Operation → ℤ → ℤ → ℤ
  | add => (· + ·)
  | sub => (· - ·)
  | mul => (· * ·)

/-- The request for the operation. -/
def type : Operation → MessageType
  | add => .add
  | sub => .sub
  | mul => .mul

theorem isArithmetic_type (op : Operation) : op.type.isArithmetic = true := by cases op <;> rfl

theorem outcome_type {op : Operation} {left right : ℤ}
    (h : isInt32 (op.apply left right) = true) :
    outcome op.type left right = op.apply left right := by
  cases op <;> exact wrapInt32_eq h

end Operation

/-- **The requests**: a literal is pushed, and an operation is asked for. -/
def request : Instr ℤ Operation → Message
  | .push n => ⟨.push, [toDecimal n]⟩
  | .apply op => ⟨op.type, []⟩

/-- **The request is answered with `OK`**, when the client has sent it as `encode` writes
it. All the round does with what is shared is to write its response, so that it is the same
whatever the other sessions do. -/
def AnswersOk (addrLe : Str → Str → Bool) (s : ClientConnection Str) (i : Instr ℤ Operation)
    (s' : ClientConnection Str) : Prop :=
  ∃ line, encode (request i) = .ok line ∧ Answers addrLe s line okLine s'

/-- **The session evaluates the expression**: all the requests for it are answered with
`OK`, and then the numeral of its value is on top of what was on the stack before. -/
def Evaluates (addrLe : Str → Str → Bool) (s : ClientConnection Str) (e : Expr ℤ Operation) :
    Prop :=
  ∃ s', Steps (AnswersOk addrLe) s e.code s' ∧
    s'.stack = toDecimal (e.eval Operation.apply) :: s.stack

/-- What is sent for a request arrives as the request. -/
theorem decode_request (type : MessageType) {name : Str} {args : List Str}
    (hname : type.name = some name) (htype : type ≠ .failed ∧ type ≠ .error)
    (hargs : ∀ a ∈ args, (IsWord a ∧ ¬Opens a) ∧ '\x00' ∉ a)
    (hlen : encodedLength ⟨type, args⟩ ≤ maxEncodedLen) :
    ∃ line, encode ⟨type, args⟩ = .ok line ∧ decode (cstr line) = .ok ⟨type, args⟩ := by
  have hne : type ≠ .none := by
    rintro rfl
    exact absurd hname (by simp [MessageType.name])
  have hquoted : (type == .failed || type == .error) = false := by simpa using htype
  have hline : encoding ⟨type, args⟩ = (name ++ encodeArgs false args) ++ ['\n'] := by
    rw [encoding, hname, hquoted]
    rfl
  have hnul : ∀ type : MessageType, '\x00' ∉ type.name.getD [] := by
    intro type
    cases type <;> decide
  have hcstr : cstr (encoding ⟨type, args⟩) = encoding ⟨type, args⟩ := by
    refine cstr_eq_self fun hm => ?_
    rw [hline] at hm
    rcases List.mem_append.mp hm with hm | hm
    · exact notMem_of_encoding hline (by decide) hnul (fun a ha => (hargs a ha).2) hm
    · exact absurd (List.mem_singleton.mp hm) (by decide)
  obtain ⟨hword, hopen, -⟩ := name_spec hname
  refine ⟨encoding ⟨type, args⟩, ?_, ?_⟩
  · rw [encode_eq hne, if_neg (by rw [length_encoding]; omega)]
  · rw [hcstr, hline]
    exact decode_of_tokenize hname
      (tokenize_encodeArgs ⟨hword, hopen⟩ fun a ha => (hargs a ha).1)

/-! ### The stack -/

/-- **The state of a session in the middle of an expression**: the integers are on the stack,
as numerals, on top of what was there before. -/
structure Computing (below : List Str) (s : ClientConnection Str) (stack : List ℤ) : Prop where
  loggedIn : s.hasLoggedIn = true
  /-- Without a stack there is nothing on it. -/
  empty : s.hasStack = false → s.stack = []
  stack_eq : s.stack = stack.map toDecimal ++ below

section Steps

variable {addrLe : Str → Str → Bool} {below : List Str} {s : ClientConnection Str}
  {stack : List ℤ}

/-- **A literal is pushed.** -/
theorem answersOk_push {n : ℤ} (hn : isInt32 n = true) (h : Computing below s stack) :
    ∃ s', AnswersOk addrLe s (.push n) s' ∧ Computing below s' (n :: stack) := by
  have hlen : encodedLength ⟨.push, [toDecimal n]⟩ ≤ maxEncodedLen := by
    have := length_toDecimal hn
    simp [encodedLength, MessageType.name, maxEncodedLen]
    omega
  obtain ⟨line, henc, hdec⟩ := decode_request .push rfl (by decide)
    (List.forall_mem_singleton.mpr (isNumeral_toDecimal hn).isWord) hlen
  have hstack : (if s.hasStack then s.stack else []) = s.stack := by
    split
    · rfl
    · rename_i hno
      exact (h.empty (by simpa using hno)).symm
  refine ⟨{ s with
    stack := toDecimal n :: s.stack
    hasStack := true
    written := s.written ++ [okLine] }, ⟨line, henc, ?_, rfl⟩, h.loggedIn, by simp, ?_⟩
  · rw [chatBody_line hdec, serve, tryCatch_apply,
      chatRequest_taken h.loggedIn rfl (.inl ⟨rfl, rfl⟩), bind_apply, push_apply, hstack]
    rfl
  · rw [h.stack_eq]
    rfl

/-- **An operation replaces the two integers on top by its result.** -/
theorem answersOk_apply {op : Operation} {left right : ℤ} (hleft : isInt32 left = true)
    (hright : isInt32 right = true) (hresult : isInt32 (op.apply left right) = true)
    (h : Computing below s (right :: left :: stack)) :
    ∃ s', AnswersOk addrLe s (.apply op) s' ∧
      Computing below s' (op.apply left right :: stack) := by
  obtain ⟨line, henc, hdec⟩ : ∃ line, encode ⟨op.type, []⟩ = .ok line ∧
      decode (cstr line) = .ok ⟨op.type, []⟩ := by
    cases op <;> exact decode_request _ rfl (by decide) (by simp) (by decide)
  have hvalid : (⟨op.type, []⟩ : Message).isValid = true := by cases op <;> rfl
  have hdiv : op.type ≠ .div := by cases op <;> decide
  have hserve := serve_fate addrLe s ⟨op.type, []⟩ op.isArithmetic_type h.loggedIn hvalid
  rw [h.stack_eq, List.map_cons, List.map_cons, List.cons_append, List.cons_append,
    fate_numerals (isNumeral_toDecimal hright) (isNumeral_toDecimal hleft),
    if_neg fun h => hdiv h.1, if_neg fun h => hdiv h.1, op.outcome_type hresult] at hserve
  refine ⟨_, ⟨line, henc, (chatBody_line hdec s).trans hserve, rfl⟩, h.loggedIn, fun hno => ?_, rfl⟩
  -- there was something on the stack, so there is one
  exact absurd (h.stack_eq.symm.trans (h.empty hno)) (by simp)

/-- **An expression is evaluated by a session that has no stack, or something on it.** -/
theorem evaluates_of_loggedIn (hlogin : s.hasLoggedIn = true)
    (hempty : s.hasStack = false → s.stack = []) {e : Expr ℤ Operation}
    (he : e.Every Operation.apply (isInt32 · = true)) : Evaluates addrLe s e := by
  have hpush : ∀ s' stack n, isInt32 n = true → Computing s.stack s' stack →
      ∃ s'', AnswersOk addrLe s' (.push n) s'' ∧ Computing s.stack s'' (n :: stack) :=
    fun _ _ _ hn h => answersOk_push hn h
  have happly : ∀ s' stack (op : Operation) left right, isInt32 left = true →
      isInt32 right = true → isInt32 (op.apply left right) = true →
      Computing s.stack s' (right :: left :: stack) →
      ∃ s'', AnswersOk addrLe s' (.apply op) s'' ∧
        Computing s.stack s'' (op.apply left right :: stack) :=
    fun _ _ _ _ _ hleft hright hresult h => answersOk_apply hleft hright hresult h
  have hstart : Computing s.stack s [] := ⟨hlogin, hempty, rfl⟩
  obtain ⟨s', hsteps, hs'⟩ := Expr.exists_steps_code hpush happly he hstart
  exact ⟨s', hsteps, hs'.stack_eq⟩

end Steps

/-! ### Every session -/

/-- In every reachable state, a session at rest that has no stack has nothing on it. -/
theorem stack_eq_nil_of_reachable {addrLe : Str → Str → Bool} {w : World Str}
    (hw : Reachable (serverEnv addrLe) w) {t : SessionId} {l : Local Str}
    (ht : w.thread t = .rest l) : l.conn.hasStack = false → l.conn.stack = [] := by
  have hany : False → ∀ (w : World Str) a, True → KeepsLastWord w a := False.elim
  obtain ⟨γ, -, hall⟩ := roundsSteady_of_run hany hw
  have hrest := hall t
  rw [ht] at hrest
  exact hrest.2

/-- **Every session evaluates expressions**: in whatever state of the server it waits for a
request, once its client has logged in. -/
theorem evaluates {addrLe : Str → Str → Bool} {w : World Str}
    (hw : Reachable (serverEnv addrLe) w) {t : SessionId} {l : Local Str}
    (ht : w.thread t = .rest l) (hlogin : l.conn.hasLoggedIn = true) {e : Expr ℤ Operation}
    (he : e.Every Operation.apply (isInt32 · = true)) : Evaluates addrLe l.conn e :=
  evaluates_of_loggedIn hlogin (stack_eq_nil_of_reachable hw ht) he

/-- `(5 + 3 - 10) * -4` -/
def expression : Expr ℤ Operation :=
  .node .mul (.node .sub (.node .add (.lit 5) (.lit 3)) (.lit 10)) (.lit (-4))

example : (expression.code.map fun i => (encode (request i)).toOption) =
    ["PUSH 5\n", "PUSH 3\n", "ADD\n", "PUSH 10\n", "SUB\n", "PUSH -4\n", "MUL\n"].map
      fun line => some line.toList := by decide +kernel

/-- A client has logged in. -/
def loggedInWorld : World Str :=
  (system plainEnv).follow (fun _ _ => True) start (talk 0 "LOGIN alice\n" 0)

/-- The expression of the script, for a client who has just logged in. -/
theorem evaluates_expression : Evaluates (fun _ _ => true) loggedIn expression := by
  have hrun : Reachable plainEnv loggedInWorld := System.run_follow (fun _ _ => True) start _
  have hrest : loggedInWorld.thread 0 = .rest { conn := loggedIn, served := 1 } := rfl
  have hfits : expression.Every Operation.apply (isInt32 · = true) := by
    simp [expression, Expr.Every, Expr.eval, Operation.apply, isInt32]
  exact evaluates hrun hrest rfl hfits

/-! ### The conversation -/

/-- **The requests can be sent one after the other** to a server that is up and a session
that is open, and nothing but the session changes. -/
theorem run_of_steps {addrLe : Str → Str → Bool} {t : SessionId} {s' : ClientConnection Str}
    {code : List (Instr ℤ Operation)} {w : World Str} {l : Local Str} (hdown : w.down = false)
    (ht : w.thread t = .rest l) (hopen : l.closed = false)
    (h : Steps (AnswersOk addrLe) l.conn code s') :
    (system (serverEnv addrLe)).Run (fun _ _ => True) w
      (System.put w t (.rest { l with conn := s', served := l.served + code.length })
        w.shared false) := by
  induction code generalizing w l with
  | nil =>
    obtain rfl := h
    have hsame : System.put w t (.rest l) w.shared false = w := by
      rw [System.put, Function.update_eq_self_iff.mpr ht.symm, ← hdown]
    rw [List.length_nil, Nat.add_zero, hsame]
    exact .refl
  | cons i code ih =>
    obtain ⟨s₁, ⟨line, -, hround, -⟩, hrest⟩ := h
    let l₁ : Local Str := { l with conn := s₁, served := l.served + 1 }
    let w₀ : World Str := System.put w t
      (.run (.line line) l (.call (.write okLine) fun _ => .ret l₁)) w.shared false
    let w₁ : World Str := System.put w₀ t (.run (.line line) l (.ret l₁)) w₀.shared false
    let w₂ : World Str := System.put w₁ t (.rest l₁) w₁.shared false
    -- the session takes the line, writes the response, and comes to rest
    have htake : (system (serverEnv addrLe)).step w (.input t (.line line)) = some w₀ := by
      simp only [System.step, hdown, ht, system, hopen, serverEnv, hround, w₀, l₁]
      rfl
    have hwrite : (system (serverEnv addrLe)).step w₀ (.advance t) = some w₁ := by
      simp only [System.step, System.put, Function.update_self, w₁, w₀]
      rfl
    have hreturn : (system (serverEnv addrLe)).step w₁ (.advance t) = some w₂ := by
      simp [System.step, System.put, w₁, w₂]
    have hdown₂ : w₂.down = false := rfl
    have hthread₂ : w₂.thread t = .rest l₁ := Function.update_self ..
    have hlast := ih hdown₂ hthread₂ hopen hrest
    have hend : System.put w₂ t (.rest { l₁ with
        conn := s', served := l₁.served + code.length }) w₂.shared false =
        System.put w t (.rest { l with
          conn := s', served := l.served + (i :: code).length }) w.shared false := by
      simp [System.put, w₀, w₁, w₂, l₁, Nat.add_comm, Nat.add_left_comm]
    exact .head ⟨_, trivial, htake⟩
      (.head ⟨_, trivial, hwrite⟩ (.head ⟨_, trivial, hreturn⟩ (hend ▸ hlast)))

end Server

end Csf
