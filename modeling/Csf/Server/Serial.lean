import Csf.Server.Autocommit

/-!
# Sessions with a transaction each

Any number of sessions, each of which logs in, makes one transaction and leaves,
and stops at the first answer that is not what it hoped for
(`Csf.Server.Script`). Their requests are served one at a time, in any order
(`Csf.Server.Service`).

A transaction takes the lock of a table before it first reads or writes it, and
keeps it until its end. That should make the run as good as one in which the
sessions that could commit come one after the other, in the order of their commits
(`Csf.Server.serial`) – and it does, as long as no session is given the lock of a
table that another transaction still counts among its own
(`Csf.Server.serializable_of_run`). But the lock may be there for the taking: a
`trylock` that has failed ends in a rollback that unlocks the very table somebody
else has locked (`Csf.Server.not_always_serializable`).
-/

namespace Csf

namespace Server

variable {β : Type}

/-! ### Sessions and their requests -/

/-- Whether a request is one of those transactions are made of here. -/
def Message.isOp (req : Message) : Bool :=
  match req.messageType with
  | .get | .push | .pop | .set | .add | .sub | .mul => true
  | _ => false

/-- The requests of a session: who logs in, and what the transaction does. -/
structure Script where
  /-- The username. -/
  user : Str
  /-- The requests of the transaction. -/
  ops : List Message
  /-- They work on tables and on the stack. -/
  isOp : ∀ req ∈ ops, req.isOp = true

/-- `BEGIN` -/
def beginRequest : Message := ⟨.begin, []⟩

/-- `COMMIT` -/
def commitRequest : Message := ⟨.commit, []⟩

/-- `BYE` -/
def byeRequest : Message := ⟨.bye, []⟩

namespace Script

/-- The `LOGIN` of a session. -/
def loginRequest (script : Script) : Message := ⟨.login, [script.user]⟩

/-- **All requests of a session**, in their order. -/
def requests (script : Script) : List Message :=
  script.loginRequest :: beginRequest :: (script.ops ++ [commitRequest, byeRequest])

end Script

/-- Whether a request has been answered by an `OK` or a `DATA` and nothing else. -/
def answeredWell (c c' : ClientConnection β) : Bool :=
  match c.answer c' with
  | [line] => isGood line
  | _ => false

/-- **One request of a session served**, and whether the session goes on after it. -/
def turn (E : Env β) (s : SessionId) (req : Message) (c : ClientConnection β) (σ : Tables β) :
    Option (Bool × ClientConnection β × Tables β) :=
  match (serve E req).run s c σ with
  | some ((.ok next, c'), σ') => some (answeredWell c c' && next == .again, c', σ')
  | _ => none

/-- The tables after a session that nobody disturbs, from the connection `c` on. -/
def playOut (E : Env β) (s : SessionId) :
    List Message → ClientConnection β → Tables β → Tables β
  | [], _, σ => σ
  | req :: reqs, c, σ =>
      match turn E s req c σ with
      | some (true, c', σ') => playOut E s reqs c' σ'
      | some (false, _, σ') => σ'
      | none => σ

/-- **Sessions one after the other.** -/
def serial (E : Env β) (scripts : SessionId → Script) (ts : List SessionId) (σ : Tables β) :
    Tables β :=
  ts.foldl (fun σ t => playOut E t (scripts t).requests {} σ) σ

/-- A session in the middle of its requests. -/
structure Party (β : Type) where
  /-- The connection. -/
  conn : ClientConnection β := {}
  /-- What it is still going to send. -/
  todo : List Message

/-- The server with its sessions, between two requests. -/
structure Service (β : Type) where
  /-- The tables. -/
  tables : Tables β
  /-- The sessions. -/
  party : SessionId → Party β
  /-- Whose `COMMIT` has been answered by an `OK`, in their order. -/
  commits : List SessionId

/-- Before anybody has sent anything. -/
def Service.start (scripts : SessionId → Script) (σ : Tables β) : Service β where
  tables := σ
  party t := { todo := (scripts t).requests }
  commits := []

/-- **Session `t` sends its next request** and has it served; after an answer it has
not hoped for it stops. -/
def Service.step (E : Env β) (w : Service β) (t : SessionId) : Option (Service β) :=
  match (w.party t).todo with
  | [] => none
  | req :: todo =>
      (turn E t req (w.party t).conn w.tables).map fun (well, c', σ') =>
        { tables := σ'
          party := Function.update w.party t ⟨c', if well then todo else []⟩
          commits := if well && req.messageType == .commit then w.commits ++ [t] else w.commits }

/-- The session is in its transaction and goes on. -/
def Party.Open (p : Party β) : Prop := p.todo ≠ [] ∧ p.conn.inTransaction = true

/-- **The sessions `0, …, n - 1` sending requests**, one at a time and in any order,
each step satisfying `ok`. -/
def Service.Run (E : Env β) (n : ℕ) (ok : Service β → SessionId → Prop) :
    Service β → Service β → Prop :=
  Relation.ReflTransGen fun w w' => ∃ t < n, ok w t ∧ w.step E t = some w'

/-- **The next request of session `t` takes no table from anybody**: if it is about to
lock a table, no other session that is in its transaction and goes on has the table
among its locked ones. -/
def TakesFromNobody (n : ℕ) (w : Service β) (t : SessionId) : Prop :=
  ∀ req ∈ (w.party t).todo.head?,
    (req.messageType = .set ∧ (w.party t).conn.stack ≠ [] ∨ req.messageType = .get) →
    req.getTable ∉ (w.party t).conn.lockedTables →
    (w.tables.table req.getTable).holder = none →
    ∀ u < n, u ≠ t → (w.party u).Open → req.getTable ∉ (w.party u).conn.lockedTables

instance (p : Party β) : Decidable p.Open := inferInstanceAs (Decidable (_ ∧ _))

instance (n : ℕ) (w : Service β) (t : SessionId) : Decidable (TakesFromNobody n w t) :=
  inferInstanceAs (Decidable (∀ req ∈ _, _ → _ → _ → _))

/-- The service after sessions have sent requests in the given order, up to the first
request that cannot be served or does not satisfy `ok`. -/
def Service.follow (E : Env β) (n : ℕ) (ok : Service β → SessionId → Prop)
    [∀ w t, Decidable (ok w t)] (w : Service β) : List SessionId → Service β
  | [] => w
  | t :: ts =>
      match (if t < n ∧ ok w t then w.step E t else none) with
      | some w' => follow E n ok w' ts
      | none => w

theorem Service.run_follow (E : Env β) (n : ℕ) (ok : Service β → SessionId → Prop)
    [∀ w t, Decidable (ok w t)] (w : Service β) (ts : List SessionId) :
    Service.Run E n ok w (w.follow E n ok ts) := by
  induction ts generalizing w with
  | nil => exact Relation.ReflTransGen.refl
  | cons t ts ih =>
    rw [follow]
    by_cases ht : t < n ∧ ok w t
    · rw [if_pos ht]
      cases hs : w.step E t with
      | none => exact Relation.ReflTransGen.refl
      | some w' => exact Relation.ReflTransGen.head ⟨t, ht.1, ht.2, hs⟩ (ih w')
    · rw [if_neg ht]
      exact Relation.ReflTransGen.refl

/-- Requests performed on a store one after the other. -/
def performAll (E : Env β) : List Message → Store β → Option (Store β)
  | [], x => some x
  | req :: reqs, x => (perform E req x).bind fun out => performAll E reqs out.2

theorem performAll_append (E : Env β) (reqs reqs' : List Message) (x : Store β) :
    performAll E (reqs ++ reqs') x = (performAll E reqs x).bind (performAll E reqs') := by
  induction reqs generalizing x with
  | nil => rfl
  | cons req reqs ih =>
    rw [List.cons_append, performAll, performAll]
    cases perform E req x with
    | none => rfl
    | some out => exact ih out.2

/-- The store of a fresh session over the values `V`. -/
def freshStore (created : Str → Bool) (V : Str → Str → Option β) : Store β :=
  ({} : ClientConnection β).shows created V

/-! ### What one request does -/

section Turn

variable {E : Env β} {s : SessionId} {req : Message} {c c' : ClientConnection β}
  {σ σ' : Tables β} {line : Str} {well : Bool}

theorem turn_answered (h : Answered E s req c σ line c' σ') (hgood : isGood line = true)
    (hnext : req.messageType ≠ .bye) : turn E s req c σ = some (true, c', σ') := by
  have hwell : answeredWell c c' = true := by
    rw [answeredWell, answer_of_written h.written]
    exact hgood
  rw [turn, h.run, nextOf, if_neg hnext]
  simp only [hwell, beq_self_eq_true, Bool.and_self]

theorem turn_refused (h : Refused c σ ((serve E req).run s c σ))
    (hturn : turn E s req c σ = some (well, c', σ')) : well = false ∧ Frame σ σ' := by
  rw [turn] at hturn
  split at hturn
  · rename_i next c₁ σ₁ hrun
    obtain ⟨rfl, hlast⟩ := Prod.mk.inj (Option.some.inj hturn)
    obtain ⟨rfl, rfl⟩ := Prod.mk.inj hlast
    refine ⟨?_, (h _ _ _ hrun).1⟩
    cases hwell : answeredWell c c₁ with
    | false => rfl
    | true =>
      rw [answeredWell] at hwell
      split at hwell
      · rename_i line hline
        exact absurd (h.not_good hrun hline) (by simp [hwell])
      · exact absurd hwell (by simp)
  · exact nomatch hturn

/-- What a request of a transaction is. -/
theorem isWork_of_isOp (h : req.isOp = true) : req.isWork = true ∧ req.messageType ≠ .bye ∧
    req.messageType ≠ .begin ∧ req.messageType ≠ .commit ∧ req.messageType ≠ .create := by
  rw [Message.isOp] at h
  rw [Message.isWork]
  split at h
  all_goals first
    | rename_i hty
      rw [hty]
      decide
    | exact absurd h Bool.false_ne_true

/-- A turn is over with the one outcome there is. -/
theorem turn_eq_of_answered (h : Answered E s req c σ line c' σ') (hgood : isGood line = true)
    (hnext : req.messageType ≠ .bye) {c₁ : ClientConnection β} {σ₁ : Tables β}
    (hturn : turn E s req c σ = some (well, c₁, σ₁)) : well = true ∧ c₁ = c' ∧ σ₁ = σ' := by
  obtain ⟨rfl, hlast⟩ := Prod.mk.inj (Option.some.inj (hturn.symm.trans
    (turn_answered h hgood hnext)))
  obtain ⟨rfl, rfl⟩ := Prod.mk.inj hlast
  exact ⟨rfl, rfl, rfl⟩

/-- **A request that uses no table**: the turn goes well, with the request performed
on whatever store is shown, or nothing has changed in the tables. -/
theorem turn_plain (hset : req.messageType ≠ .set) (hget : req.messageType ≠ .get)
    (hbegin : req.messageType ≠ .begin) (hcommit : req.messageType ≠ .commit)
    (hcreate : req.messageType ≠ .create)
    (hturn : turn E s req c σ = some (well, c', σ')) :
    Frame σ σ' ∧ (well = true → SameTxn c c' ∧ ∀ V : Str → Str → Option β, ∃ line,
      perform E req (c.shows σ.created V) = some (line, c'.shows σ.created V)) := by
  -- for one store, the request is refused or performed
  have hcases : ∀ V : Str → Str → Option β, Frame σ σ' ∧ (well = true → SameTxn c c' ∧ ∃ line,
      perform E req (c.shows σ.created V) = some (line, c'.shows σ.created V)) := by
    intro V
    have hagree := run_plain (E := E) (s := s) (c := c) (σ := σ) V hset hget hbegin hcommit
    cases hp : perform E req (c.shows σ.created V) with
    | none =>
      rw [hp] at hagree
      obtain ⟨hwell, hframe⟩ := turn_refused hagree hturn
      exact ⟨hframe, fun h => absurd (h.symm.trans hwell) (by simp)⟩
    | some out =>
      rw [hp] at hagree
      obtain ⟨c₁, σ₁, hrun, -, hx, hsame, hσ⟩ := hagree
      obtain ⟨rfl, rfl⟩ : c₁ = c' ∧ σ₁ = σ' := by
        rw [turn, hrun] at hturn
        obtain ⟨-, hlast⟩ := Prod.mk.inj (Option.some.inj hturn)
        exact Prod.mk.inj hlast
      have hcreated : σ₁.created = σ.created := by
        have hspec := (perform_spec hp).2.1
        rw [if_neg hcreate, ← hx] at hspec
        exact hspec
      refine ⟨⟨hcreated, fun t => by rw [hσ], fun t ht => by rwa [hσ]⟩, fun _ => ⟨hsame, out.1, ?_⟩⟩
      rw [← hcreated, hx]
  exact ⟨(hcases σ.values).1, fun h => ⟨((hcases σ.values).2 h).1, fun V => ((hcases V).2 h).2⟩⟩

/-- **A `SET` or a `GET` in a transaction**: the turn goes well, the table being
available and the request performed on whatever store is shown that has in the table
what is committed there; or nothing has changed in the tables. -/
theorem turn_table (hty : req.messageType = .set ∨ req.messageType = .get)
    (hin : c.inTransaction = true) (hclean : σ.Clean)
    (hturn : turn E s req c σ = some (well, c', σ')) :
    Frame σ σ' ∧ (well = true → Advances req.getTable c c' ∧ Available c σ req.getTable ∧
      σ.created req.getTable = true ∧ (req.messageType = .set → c.stack ≠ []) ∧
      ∀ V : Str → Str → Option β, (∀ k, V req.getTable k = σ.values req.getTable k) → ∃ line,
        perform E req (c.shows σ.created V) = some (line, c'.shows σ.created V)) := by
  have hbye : req.messageType ≠ .bye := by
    rcases hty with hty | hty <;> rw [hty] <;> decide
  have hcases : ∀ V : Str → Str → Option β, (∀ k, V req.getTable k = σ.values req.getTable k) →
      Frame σ σ' ∧ (well = true → Advances req.getTable c c' ∧ Available c σ req.getTable ∧
        σ.created req.getTable = true ∧ (req.messageType = .set → c.stack ≠ []) ∧ ∃ line,
          perform E req (c.shows σ.created V) = some (line, c'.shows σ.created V)) := by
    intro V hV
    obtain ⟨hans, href⟩ := run_inTransaction (E := E) (s := s) hty hin (hclean _) hV
    by_cases hno : perform E req (c.shows σ.created V) = none ∨ ¬Available c σ req.getTable
    · obtain ⟨hwell, hframe⟩ := turn_refused (href hno) hturn
      exact ⟨hframe, fun h => absurd (h.symm.trans hwell) (by simp)⟩
    · obtain ⟨hperform, hav⟩ := not_or.mp hno
      obtain ⟨⟨line, x⟩, hp⟩ := Option.ne_none_iff_exists'.mp hperform
      obtain ⟨hcreated, c₁, hanswered, hx, hadv⟩ := hans line x hp (not_not.mp hav)
      obtain ⟨-, rfl, rfl⟩ := turn_eq_of_answered hanswered (perform_spec hp).1 hbye hturn
      refine ⟨frame_secured _, fun _ => ⟨hadv, not_not.mp hav, hcreated,
        fun hset => stack_of_perform_set hp hset, line, ?_⟩⟩
      rw [hp, hx]
  refine ⟨(hcases σ.values fun _ => rfl).1, fun h => ?_⟩
  obtain ⟨hadv, hav, hcreated, hstack, -⟩ := (hcases σ.values fun _ => rfl).2 h
  exact ⟨hadv, hav, hcreated, hstack, fun V hV => ((hcases V hV).2 h).2.2.2.2⟩

/-- **A `BEGIN`** outside of a transaction. -/
theorem turn_begin (hin : c.inTransaction = false)
    (hturn : turn E s beginRequest c σ = some (well, c', σ')) :
    Frame σ σ' ∧ (well = true → c' = c.begun.say okLine) := by
  rcases admitted_or_refused (E := E) (s := s) (σ := σ) beginRequest σ.created σ.values
    with ⟨hadm, -⟩ | ⟨-, href⟩
  · obtain ⟨-, rfl, rfl⟩ := turn_eq_of_answered
      (answered_of_handler hadm rfl (run_begin hin) rfl) isGood_okLine (by nofun) hturn
    exact ⟨.refl σ', fun _ => rfl⟩
  · obtain ⟨hwell, hframe⟩ := turn_refused href hturn
    exact ⟨hframe, fun h => absurd (h.symm.trans hwell) (by simp)⟩

/-- **A `COMMIT`** in a transaction. -/
theorem turn_commit (hin : c.inTransaction = true)
    (hturn : turn E s commitRequest c σ = some (well, c', σ')) :
    well = true ∧ c' = c.committed.say okLine ∧ σ' = σ.commit c ∨ well = false ∧ Frame σ σ' := by
  rcases admitted_or_refused (E := E) (s := s) (σ := σ) commitRequest σ.created σ.values
    with ⟨hadm, -⟩ | ⟨-, href⟩
  · exact Or.inl (turn_eq_of_answered
      (answered_of_handler hadm rfl (run_commit hin) rfl) isGood_okLine (by nofun) hturn)
  · exact Or.inr (turn_refused href hturn)

end Turn

/-! ### A session that nobody disturbs -/

section PlayOut

variable {E : Env β} {s : SessionId}

/-- The requests of a transaction, one after the other. -/
theorem playOut_ops {ops rest : List Message} (hops : ∀ req ∈ ops, req.isOp = true)
    {d : ClientConnection β} {τ : Tables β} {x : Store β} (hd : Alone d τ)
    (hp : performAll E ops (d.view τ) = some x) :
    ∃ d' τ', playOut E s (ops ++ rest) d τ = playOut E s rest d' τ' ∧ Alone d' τ' ∧
      d'.view τ' = x ∧ d'.inTransaction = d.inTransaction := by
  induction ops generalizing d τ with
  | nil => exact ⟨d, τ, rfl, hd, Option.some.inj hp, rfl⟩
  | cons req ops ih =>
    obtain ⟨hop, hops⟩ := List.forall_mem_cons.mp hops
    obtain ⟨hwork, hbye, -⟩ := isWork_of_isOp hop
    obtain ⟨out, hperform, hp⟩ := Option.bind_eq_some_iff.mp hp
    have hstep := run_work (E := E) (s := s) hd hwork
    rw [hperform] at hstep
    obtain ⟨d₁, τ₁, hans, hview, hd₁, hin⟩ := hstep
    have hturn := turn_answered hans (perform_spec hperform).1 hbye
    rw [← hview] at hp
    obtain ⟨d', τ', hplay, hd', hx, hin'⟩ := ih hops hd₁ hp
    refine ⟨d', τ', ?_, hd', hx, hin'.trans hin⟩
    rw [List.cons_append, playOut, hturn]
    exact hplay

/-- Whoever has logged in stays logged in. -/
theorem loggedIn_of_performAll {ops : List Message} {x x' : Store β}
    (h : performAll E ops x = some x') (hx : x.loggedIn = true) : x'.loggedIn = true := by
  induction ops generalizing x with
  | nil => exact (Option.some.inj h) ▸ hx
  | cons req ops ih =>
    obtain ⟨out, hperform, h⟩ := Option.bind_eq_some_iff.mp h
    exact ih h ((perform_spec hperform).2.2 hx)

theorem loggedIn_of_login {script : Script} {x x' : Store β} {line : Str}
    (h : perform E script.loginRequest x = some (line, x')) : x'.loggedIn = true := by
  have h' : (if Message.isValidIdentifier script.user then
      some (okLine, { x with loggedIn := true }) else none) = some (line, x') := by
    rw [← h, perform]
    simp [Script.loginRequest, Message.isValid, act, Message.getUsername]
    rfl
  split_ifs at h'
  obtain ⟨-, rfl⟩ := Prod.mk.inj (Option.some.inj h')
  rfl

/-- **A whole session that nobody disturbs.** -/
theorem playOut_requests {script : Script} {τ : Tables β} {x : Store β} (hclean : τ.Clean)
    (hfree : τ.Free)
    (hp : performAll E (script.loginRequest :: script.ops) (freshStore τ.created τ.values) =
      some x) :
    (playOut E s script.requests {} τ).Clean ∧ (playOut E s script.requests {} τ).Free ∧
      (playOut E s script.requests {} τ).created = x.created ∧
      (playOut E s script.requests {} τ).values = x.value := by
  obtain ⟨out, hperform, hops⟩ := Option.bind_eq_some_iff.mp hp
  -- the login
  have hstep := run_work (E := E) (s := s) (alone_start hclean hfree)
    (show script.loginRequest.isWork = true from rfl)
  have hview₀ : ({} : ClientConnection β).view τ = freshStore τ.created τ.values := rfl
  rw [hview₀, hperform] at hstep
  obtain ⟨d₁, τ₁, hans₁, hview₁, hd₁, hin₁⟩ := hstep
  have hturn₁ := turn_answered hans₁ (perform_spec hperform).1 (by nofun)
  have hlog₁ : d₁.hasLoggedIn = true :=
    (congrArg Store.loggedIn hview₁).trans (loggedIn_of_login hperform)
  -- the beginning of the transaction
  have hans₂ : Answered E s beginRequest d₁ τ₁ okLine (d₁.begun.say okLine) τ₁ :=
    answered_of_handler ⟨Or.inl hlog₁, rfl⟩ rfl (run_begin hin₁) rfl
  have hturn₂ := turn_answered hans₂ isGood_okLine (by nofun)
  obtain ⟨hview₂, hd₂, -, hin₂⟩ := run_ends hd₁ rfl hans₂.run (answer_of_written hans₂.written)
    isGood_okLine
  -- what it is made of
  have hops₂ : performAll E script.ops ((d₁.begun.say okLine).view τ₁) = some x := by
    rw [hview₂, hview₁]
    exact hops
  obtain ⟨d₃, τ₃, hplay, hd₃, hview₃, hin₃⟩ :=
    playOut_ops (s := s) script.isOp hd₂ hops₂
  have hlog₃ : d₃.hasLoggedIn = true := (congrArg Store.loggedIn hview₃).trans
    (loggedIn_of_performAll hops (loggedIn_of_login hperform))
  -- the commit
  have hans₄ : Answered E s commitRequest d₃ τ₃ okLine (d₃.committed.say okLine) (τ₃.commit d₃) :=
    answered_of_handler ⟨Or.inl hlog₃, rfl⟩ rfl (run_commit (hin₃.trans (hin₂.mpr rfl))) rfl
  have hturn₄ := turn_answered hans₄ isGood_okLine (by nofun)
  obtain ⟨hview₄, hd₄, -, hin₄⟩ := run_ends hd₃ rfl hans₄.run (answer_of_written hans₄.written)
    isGood_okLine
  -- the goodbye
  have hbye : perform E byeRequest ((d₃.committed.say okLine).view (τ₃.commit d₃)) =
      some (okLine, (d₃.committed.say okLine).view (τ₃.commit d₃)) := by
    have hlog : ((d₃.committed.say okLine).view (τ₃.commit d₃)).loggedIn = true := hlog₃
    rw [perform, hlog]
    rfl
  have hstep₅ := run_work (E := E) (s := s) hd₄ (show byeRequest.isWork = true from rfl)
  rw [hbye] at hstep₅
  obtain ⟨d₅, τ₅, hans₅, hview₅, hd₅, hin₅⟩ := hstep₅
  have hturn₅ : turn E s byeRequest (d₃.committed.say okLine) (τ₃.commit d₃) =
      some (false, d₅, τ₅) := by
    rw [turn, hans₅.run]
    simp [nextOf, byeRequest]
  have hend : playOut E s script.requests {} τ = τ₅ := by
    rw [Script.requests, playOut, hturn₁]
    simp only [playOut, hturn₂]
    rw [hplay]
    simp only [playOut, hturn₄, hturn₅]
  have hin : d₅.inTransaction = false := hin₅.trans rfl
  have hview : d₅.view τ₅ = x := hview₅.trans (hview₄.trans hview₃)
  rw [hend]
  refine ⟨hd₅.clean, hd₅.free hin, congrArg Store.created hview, ?_⟩
  rw [← hview]
  exact funext fun t => funext fun k => (shows_value_of_empty (hd₅.buffer hin) t k).symm

end PlayOut

/-! ### Where a session is -/

/-- **Where a session is in its requests**, and what it shows over the committed
values: in its transaction, over any values that are the committed ones in the tables
it has locked, what its requests so far make of a fresh store. -/
inductive Stage (E : Env β) (script : Script) (σ : Tables β) : Party β → Prop
  | fresh : Stage E script σ { todo := script.requests }
  | loggedIn {c : ClientConnection β} (hin : c.inTransaction = false)
      (hbuf : c.transactionBuffer = ∅)
      (hshow : ∀ V, ∃ line, perform E script.loginRequest (freshStore σ.created V) =
        some (line, c.shows σ.created V)) :
      Stage E script σ ⟨c, beginRequest :: (script.ops ++ [commitRequest, byeRequest])⟩
  | inside {c : ClientConnection β} {past rest : List Message} (hops : script.ops = past ++ rest)
      (hin : c.inTransaction = true) (hcov : c.Covered σ.created)
      (hshow : ∀ V, (∀ t ∈ c.lockedTables, ∀ k, V t k = σ.values t k) →
        performAll E (script.loginRequest :: past) (freshStore σ.created V) =
          some (c.shows σ.created V)) :
      Stage E script σ ⟨c, rest ++ [commitRequest, byeRequest]⟩
  | closed {c : ClientConnection β} (hin : c.inTransaction = false) :
      Stage E script σ ⟨c, [byeRequest]⟩
  | stopped {c : ClientConnection β} : Stage E script σ ⟨c, []⟩

section Stages

variable {E : Env β} {script : Script} {σ σ' : Tables β} {p : Party β}

/-- **A session is where it was**, whatever happens to tables it has not locked. -/
theorem Stage.transfer (h : Stage E script σ p) (hcreated : σ'.created = σ.created)
    (hvalues : p.Open → ∀ t ∈ p.conn.lockedTables, ∀ k, σ'.values t k = σ.values t k) :
    Stage E script σ' p := by
  cases h with
  | fresh => exact .fresh
  | loggedIn hin hbuf hshow => exact .loggedIn hin hbuf (by rwa [hcreated])
  | @inside c past rest hops hin hcov hshow =>
    have hopen : Party.Open (⟨c, rest ++ [commitRequest, byeRequest]⟩ : Party β) :=
      ⟨by simp, hin⟩
    refine .inside hops hin (by rwa [hcreated]) fun V hV => ?_
    rw [hcreated]
    exact hshow V fun t ht k => (hV t ht k).trans (hvalues hopen t ht k)
  | closed hin => exact .closed hin
  | stopped => exact .stopped

/-- **A request more**, performed on what the session shows. -/
theorem Stage.extend {c c' : ClientConnection β} {past ops : List Message} {op : Message}
    (hops : script.ops = past ++ op :: ops)
    (hshow : ∀ V, (∀ t ∈ c.lockedTables, ∀ k, V t k = σ.values t k) →
      performAll E (script.loginRequest :: past) (freshStore σ.created V) =
        some (c.shows σ.created V))
    (hin : c'.inTransaction = true) (hcov : c'.Covered σ.created)
    (hlocked : ∀ t ∈ c.lockedTables, t ∈ c'.lockedTables)
    (hperform : ∀ V, (∀ t ∈ c'.lockedTables, ∀ k, V t k = σ.values t k) → ∃ line,
      perform E op (c.shows σ.created V) = some (line, c'.shows σ.created V))
    (hframe : Frame σ σ') :
    Stage E script σ' ⟨c', ops ++ [commitRequest, byeRequest]⟩ := by
  have hops' : script.ops = (past ++ [op]) ++ ops := by rw [hops, List.append_assoc]; rfl
  refine .inside hops' hin (by rwa [hframe.created]) fun V hV => ?_
  rw [hframe.values] at hV
  obtain ⟨line, hop⟩ := hperform V hV
  rw [hframe.created, ← List.cons_append, performAll_append,
    hshow V fun t ht => hV t (hlocked t ht), Option.bind_some, performAll, hop]
  rfl

end Stages

/-- **The invariant of the sessions**: what is committed is what it would be had the
sessions that have committed come one after the other. -/
structure InOrder (E : Env β) (n : ℕ) (scripts : SessionId → Script) (σ₀ : Tables β)
    (w : Service β) : Prop where
  /-- No table has temporary changes. -/
  clean : w.tables.Clean
  /-- Every session is somewhere in its requests. -/
  stage : ∀ t < n, Stage E (scripts t) w.tables (w.party t)
  /-- Two open transactions have no table in common. -/
  disjoint : ∀ t < n, ∀ u < n, t ≠ u → (w.party t).Open → (w.party u).Open →
    ∀ tbl ∈ (w.party t).conn.lockedTables, tbl ∉ (w.party u).conn.lockedTables
  /-- The sessions one after the other leave the tables as they should be left, -/
  serialClean : (serial E scripts w.commits σ₀).Clean
  serialFree : (serial E scripts w.commits σ₀).Free
  serialCreated : (serial E scripts w.commits σ₀).created = w.tables.created
  /-- and holding what they hold. -/
  serialValues : (serial E scripts w.commits σ₀).values = w.tables.values

section InOrder

variable {E : Env β} {n : ℕ} {scripts : SessionId → Script} {σ₀ : Tables β} {w w' : Service β}

theorem inOrder_start (hclean : σ₀.Clean) (hfree : σ₀.Free) :
    InOrder E n scripts σ₀ (.start scripts σ₀) where
  clean := hclean
  stage _ _ := .fresh
  disjoint _ _ _ _ _ hopen := absurd hopen.2 (by simp [Service.start])
  serialClean := hclean
  serialFree := hfree
  serialCreated := rfl
  serialValues := rfl

variable {t : SessionId} {σ' : Tables β} {p : Party β}

/-- What is disjoint stays so when one session has changed. -/
theorem disjoint_update
    (h : ∀ t < n, ∀ u < n, t ≠ u → (w.party t).Open → (w.party u).Open →
      ∀ tbl ∈ (w.party t).conn.lockedTables, tbl ∉ (w.party u).conn.lockedTables)
    (hp : ∀ u < n, u ≠ t → p.Open → (w.party u).Open →
      ∀ tbl ∈ p.conn.lockedTables, tbl ∉ (w.party u).conn.lockedTables) :
    ∀ u < n, ∀ v < n, u ≠ v → (Function.update w.party t p u).Open →
      (Function.update w.party t p v).Open →
      ∀ tbl ∈ (Function.update w.party t p u).conn.lockedTables,
        tbl ∉ (Function.update w.party t p v).conn.lockedTables := by
  intro u hu v hv huv
  rcases eq_or_ne u t with rfl | hut
  · rw [Function.update_self, Function.update_of_ne huv.symm]
    exact hp v hv huv.symm
  rcases eq_or_ne v t with rfl | hvt
  · rw [Function.update_of_ne hut, Function.update_self]
    exact fun hopen hpopen tbl htbl hmem => hp u hu hut hpopen hopen tbl hmem htbl
  · rw [Function.update_of_ne hut, Function.update_of_ne hvt]
    exact h u hu v hv huv

/-- **A move that commits nothing.** -/
theorem InOrder.move (h : InOrder E n scripts σ₀ w) (hframe : Frame w.tables σ')
    (hstage : Stage E (scripts t) σ' p)
    (hp : ∀ u < n, u ≠ t → p.Open → (w.party u).Open →
      ∀ tbl ∈ p.conn.lockedTables, tbl ∉ (w.party u).conn.lockedTables) :
    InOrder E n scripts σ₀ ⟨σ', Function.update w.party t p, w.commits⟩ where
  clean u := hframe.tempData u (h.clean u)
  stage u hu := by
    rcases eq_or_ne u t with rfl | hne
    · simpa using hstage
    · simpa [hne] using (h.stage u hu).transfer hframe.created fun _ _ _ _ => by rw [hframe.values]
  disjoint := disjoint_update h.disjoint hp
  serialClean := h.serialClean
  serialFree := h.serialFree
  serialCreated := h.serialCreated.trans hframe.created.symm
  serialValues := h.serialValues.trans hframe.values.symm

/-- **A commit**: run after the sessions that have committed, the session finds in the
tables it uses what it has found in them, and so it leaves in them what it leaves. -/
theorem InOrder.commit {c : ClientConnection β} {todo : List Message}
    (h : InOrder E n scripts σ₀ w) (ht : t < n)
    (hparty : w.party t = ⟨c, todo⟩) (hopen : (w.party t).Open)
    (hcov : c.Covered w.tables.created)
    (hshow : ∀ V, (∀ t ∈ c.lockedTables, ∀ k, V t k = w.tables.values t k) →
      performAll E ((scripts t).loginRequest :: (scripts t).ops)
        (freshStore w.tables.created V) = some (c.shows w.tables.created V)) :
    InOrder E n scripts σ₀ ⟨w.tables.commit c,
      Function.update w.party t ⟨c.committed.say okLine, [byeRequest]⟩, w.commits ++ [t]⟩ := by
  have hcom := committed_commit hcov
  have hplay : serial E scripts (w.commits ++ [t]) σ₀ =
      playOut E t (scripts t).requests {} (serial E scripts w.commits σ₀) := by
    rw [serial, List.foldl_append]
    rfl
  obtain ⟨hclean, hfree, hcreated, hvalues⟩ := playOut_requests (s := t) h.serialClean h.serialFree
    (by rw [h.serialCreated, h.serialValues]; exact hshow w.tables.values fun _ _ _ => rfl)
  rw [← hplay] at hclean hfree hcreated hvalues
  refine ⟨hcom.clean h.clean, fun u hu => ?_, disjoint_update h.disjoint fun u _ _ hpopen => ?_,
    hclean, hfree, hcreated.trans hcom.created.symm, hvalues.trans ?_⟩
  · rcases eq_or_ne u t with rfl | hne
    · simpa using Stage.closed rfl
    · -- the tables of other open transactions are not touched
      simp only [Function.update_of_ne hne]
      refine (h.stage u hu).transfer hcom.created fun huopen tbl htbl k => ?_
      have hmem : tbl ∉ c.lockedTables := fun hc =>
        h.disjoint u hu t ht hne huopen hopen tbl htbl (by rw [hparty]; exact hc)
      rw [Tables.values, hcom.frame tbl hmem]
      rfl
  · exact absurd hpopen.2 (by simp [ClientConnection.say, ClientConnection.committed])
  · exact funext fun tbl => funext fun k => (hcom.values h.clean tbl k).symm

/-- **What a step is**: the next request of the session has its turn. -/
theorem step_cases {c : ClientConnection β} {todo : List Message} (hparty : w.party t = ⟨c, todo⟩)
    (h : w.step E t = some w') : ∃ req rest well c' σ', todo = req :: rest ∧
      turn E t req c w.tables = some (well, c', σ') ∧
      w' = ⟨σ', Function.update w.party t ⟨c', if well then rest else []⟩,
        if well && req.messageType == .commit then w.commits ++ [t] else w.commits⟩ := by
  rw [Service.step, hparty] at h
  cases todo with
  | nil => exact nomatch h
  | cons req rest =>
    obtain ⟨⟨well, c', σ'⟩, hturn, rfl⟩ := Option.map_eq_some_iff.mp h
    exact ⟨req, rest, well, c', σ', rfl, hturn, rfl⟩

/-- A session that is disappointed stops. -/
theorem InOrder.stop {c : ClientConnection β} (h : InOrder E n scripts σ₀ w)
    (hframe : Frame w.tables σ') :
    InOrder E n scripts σ₀ ⟨σ', Function.update w.party t ⟨c, []⟩, w.commits⟩ :=
  h.move hframe .stopped fun _ _ _ hopen => absurd rfl hopen.1

variable {c c' : ClientConnection β} {well : Bool} {past ops todo : List Message} {op : Message}

/-- **A login** that is answered well is followed by the transaction. -/
theorem InOrder.login (h : InOrder E n scripts σ₀ w)
    (hturn : turn E t (scripts t).loginRequest {} w.tables = some (well, c', σ')) :
    InOrder E n scripts σ₀ ⟨σ', Function.update w.party t
      ⟨c', if well then beginRequest :: ((scripts t).ops ++ [commitRequest, byeRequest]) else []⟩,
      w.commits⟩ := by
  obtain ⟨hframe, hwell⟩ := turn_plain (by nofun) (by nofun) (by nofun) (by nofun) (by nofun)
    hturn
  cases well with
  | false => exact h.stop hframe
  | true =>
    obtain ⟨hsame, hshow⟩ := hwell rfl
    refine h.move hframe (.loggedIn hsame.inTransaction hsame.transactionBuffer fun V => ?_)
      fun _ _ _ hopen => absurd (hopen.2.symm.trans hsame.inTransaction) (by simp)
    rw [hframe.created]
    exact hshow V

/-- **A transaction begins**, with nothing locked and nothing buffered. -/
theorem InOrder.begin (h : InOrder E n scripts σ₀ w) (hin : c.inTransaction = false)
    (hbuf : c.transactionBuffer = ∅)
    (hshow : ∀ V, ∃ line, perform E (scripts t).loginRequest (freshStore w.tables.created V) =
      some (line, c.shows w.tables.created V))
    (hturn : turn E t beginRequest c w.tables = some (well, c', σ')) :
    InOrder E n scripts σ₀ ⟨σ', Function.update w.party t
      ⟨c', if well then (scripts t).ops ++ [commitRequest, byeRequest] else []⟩,
      w.commits⟩ := by
  obtain ⟨hframe, hwell⟩ := turn_begin hin hturn
  cases well with
  | false => exact h.stop hframe
  | true =>
    obtain rfl := hwell rfl
    refine h.move hframe (.inside (List.nil_append _).symm rfl (fun tbl m hm => ?_)
      fun V _ => ?_) fun _ _ _ _ _ tbl htbl => absurd htbl (TableSet.notMem_empty tbl)
    · have hm' : c.transactionBuffer[tbl]? = some m := hm
      rw [hbuf] at hm'
      exact absurd hm' (by simp)
    · obtain ⟨line, hperform⟩ := hshow V
      rw [hframe.created, performAll, hperform]
      rfl

/-- What is locked for an open transaction is locked for no other one. -/
theorem InOrder.notMem (h : InOrder E n scripts σ₀ w) (ht : t < n)
    (hparty : w.party t = ⟨c, todo⟩) (hopen : (w.party t).Open) :
    ∀ u < n, u ≠ t → (w.party u).Open → ∀ tbl ∈ c.lockedTables,
      tbl ∉ (w.party u).conn.lockedTables :=
  fun u hu hne huopen tbl htbl =>
    h.disjoint t ht u hu hne.symm hopen huopen tbl (by rw [hparty]; exact htbl)

/-- **A request that uses a table**, which is taken from nobody. -/
theorem InOrder.table (h : InOrder E n scripts σ₀ w) (ht : t < n)
    (hok : TakesFromNobody n w t) (hparty : w.party t = ⟨c, op :: todo⟩)
    (hty : op.messageType = .set ∨ op.messageType = .get)
    (hops : (scripts t).ops = past ++ op :: ops) (hin : c.inTransaction = true)
    (hcov : c.Covered w.tables.created)
    (hshow : ∀ V, (∀ t ∈ c.lockedTables, ∀ k, V t k = w.tables.values t k) →
      performAll E ((scripts t).loginRequest :: past) (freshStore w.tables.created V) =
        some (c.shows w.tables.created V))
    (hturn : turn E t op c w.tables = some (well, c', σ')) :
    InOrder E n scripts σ₀ ⟨σ', Function.update w.party t
      ⟨c', if well then ops ++ [commitRequest, byeRequest] else []⟩, w.commits⟩ := by
  have hold := h.notMem ht hparty ⟨by rw [hparty]; simp, by rw [hparty]; exact hin⟩
  obtain ⟨hframe, hwell⟩ := turn_table hty hin h.clean hturn
  cases well with
  | false => exact h.stop hframe
  | true =>
    obtain ⟨hadv, hav, hcreated, hstack, hperform⟩ := hwell rfl
    refine h.move hframe (.extend hops hshow hadv.inTransaction
      (hadv.covered hcov hcreated) (fun tbl htbl => (hadv.locked tbl).mpr (Or.inr htbl))
      (fun V hV => hperform V (hV _ ((hadv.locked _).mpr (Or.inl rfl)))) hframe)
      fun u hu hne _ huopen tbl htbl => ?_
    rcases (hadv.locked tbl).mp htbl with rfl | htbl
    · by_cases hmem : op.getTable ∈ c.lockedTables
      · exact hold u hu hne huopen _ hmem
      · -- the table is taken now, and from nobody
        refine hok op (by rw [hparty]; rfl) ?_ (by rw [hparty]; exact hmem)
          (hav.resolve_left hmem) u hu hne huopen
        rw [hparty]
        exact hty.imp_left fun hset => ⟨hset, hstack hset⟩
    · exact hold u hu hne huopen tbl htbl

/-- **A request that uses no table.** -/
theorem InOrder.plain (h : InOrder E n scripts σ₀ w) (ht : t < n)
    (hparty : w.party t = ⟨c, op :: todo⟩)
    (hty : ¬(op.messageType = .set ∨ op.messageType = .get)) (hop : op.isOp = true)
    (hops : (scripts t).ops = past ++ op :: ops) (hin : c.inTransaction = true)
    (hcov : c.Covered w.tables.created)
    (hshow : ∀ V, (∀ t ∈ c.lockedTables, ∀ k, V t k = w.tables.values t k) →
      performAll E ((scripts t).loginRequest :: past) (freshStore w.tables.created V) =
        some (c.shows w.tables.created V))
    (hturn : turn E t op c w.tables = some (well, c', σ')) :
    InOrder E n scripts σ₀ ⟨σ', Function.update w.party t
      ⟨c', if well then ops ++ [commitRequest, byeRequest] else []⟩, w.commits⟩ := by
  have hold := h.notMem ht hparty ⟨by rw [hparty]; simp, by rw [hparty]; exact hin⟩
  obtain ⟨hset, hget⟩ := not_or.mp hty
  obtain ⟨-, -, hbegin, hcommit, hcreate⟩ := isWork_of_isOp hop
  obtain ⟨hframe, hwell⟩ := turn_plain hset hget hbegin hcommit hcreate hturn
  cases well with
  | false => exact h.stop hframe
  | true =>
    obtain ⟨hsame, hperform⟩ := hwell rfl
    have hlocked : ∀ tbl, tbl ∈ c'.lockedTables ↔ tbl ∈ c.lockedTables := fun tbl => by
      rw [hsame.lockedTables]
    refine h.move hframe (.extend hops hshow (hsame.inTransaction.trans hin)
      (fun tbl m hm => ?_) (fun tbl htbl => (hlocked tbl).mpr htbl)
      (fun V _ => hperform V) hframe) fun u hu hne _ huopen tbl htbl =>
        hold u hu hne huopen tbl ((hlocked tbl).mp htbl)
    rw [hsame.transactionBuffer] at hm
    exact ⟨(hcov tbl m hm).1, (hlocked tbl).mpr (hcov tbl m hm).2⟩

/-- **One request keeps the invariant**, if it takes no table from anybody. -/
theorem inOrder_step (h : InOrder E n scripts σ₀ w) (ht : t < n) (hok : TakesFromNobody n w t)
    (hstep : w.step E t = some w') : InOrder E n scripts σ₀ w' := by
  rcases hparty : w.party t with ⟨c, todo⟩
  obtain ⟨req, rest, well, c', σ', rfl, hturn, rfl⟩ := step_cases hparty hstep
  -- only a `COMMIT` counts as one
  have hcommits : req.messageType ≠ .commit →
      (if well && req.messageType == .commit then w.commits ++ [t] else w.commits) =
        w.commits := fun hne => if_neg (by simp [hne])
  have hst := h.stage t ht
  rw [hparty] at hst
  generalize hp : (⟨c, req :: rest⟩ : Party β) = p at hst
  cases hst with
  | fresh =>
    obtain ⟨rfl, hreqs⟩ := Party.mk.inj hp
    obtain ⟨rfl, rfl⟩ := List.cons.inj hreqs
    rw [hcommits nofun]
    exact h.login hturn
  | loggedIn hin hbuf hshow =>
    obtain ⟨rfl, hreqs⟩ := Party.mk.inj hp
    obtain ⟨rfl, rfl⟩ := List.cons.inj hreqs
    rw [hcommits nofun]
    exact h.begin hin hbuf hshow hturn
  | @inside c past ops hops hin hcov hshow =>
    obtain ⟨rfl, hreqs⟩ := Party.mk.inj hp
    rcases ops with _ | ⟨op, ops⟩
    · -- the transaction ends
      obtain ⟨rfl, rfl⟩ := List.cons.inj hreqs
      rcases turn_commit hin hturn with ⟨rfl, rfl, rfl⟩ | ⟨rfl, hframe⟩
      · rw [List.append_nil] at hops
        exact h.commit ht hparty ⟨by rw [hparty]; simp, by rw [hparty]; exact hin⟩ hcov
          (hops ▸ hshow)
      · exact h.stop hframe
    · obtain ⟨rfl, rfl⟩ := List.cons.inj hreqs
      have hop := (scripts t).isOp req (by rw [hops]; simp)
      rw [hcommits (isWork_of_isOp hop).2.2.2.1]
      by_cases hty : req.messageType = .set ∨ req.messageType = .get
      · exact h.table ht hok hparty hty hops hin hcov hshow hturn
      · exact h.plain ht hparty hty hop hops hin hcov hshow hturn
  | closed hin =>
    obtain ⟨rfl, hreqs⟩ := Party.mk.inj hp
    obtain ⟨rfl, rfl⟩ := List.cons.inj hreqs
    obtain ⟨hframe, -⟩ := turn_plain (by nofun) (by nofun) (by nofun) (by nofun) (by nofun) hturn
    rw [hcommits nofun, ite_self]
    exact h.stop hframe
  | stopped => exact nomatch hp

/-- Every state of a run in which nobody takes a table from anybody is in order. -/
theorem inOrder_of_run (hclean : σ₀.Clean) (hfree : σ₀.Free)
    (h : Service.Run E n (TakesFromNobody n) (.start scripts σ₀) w) :
    InOrder E n scripts σ₀ w := by
  induction h with
  | refl => exact inOrder_start hclean hfree
  | tail _ hstep ih =>
    obtain ⟨t, ht, hok, hs⟩ := hstep
    exact inOrder_step ih ht hok hs

/-- **Transactions are serializable**, as long as no session takes a table that an open
transaction counts among its own: in every state, all tables hold what they would
hold had the sessions whose `COMMIT` has been answered by an `OK` come one after the
other, in the order of their commits. -/
theorem serializable_of_run (hclean : σ₀.Clean) (hfree : σ₀.Free)
    (h : Service.Run E n (TakesFromNobody n) (.start scripts σ₀) w) (tbl : Str) :
    (w.tables.table tbl).data = ((serial E scripts w.commits σ₀).table tbl).data :=
  Std.ExtTreeMap.ext_getElem? fun k =>
    (congrFun (congrFun (inOrder_of_run hclean hfree h).serialValues tbl) k).symm

end InOrder

/-! ### Three sessions and one counter -/

/-- A session that adds one to the counter. -/
def increment : Script where
  user := "alice".toList
  ops := [⟨.get, [['t'], ['k']]⟩, ⟨.push, [['1']]⟩, ⟨.add, []⟩, ⟨.set, [['t'], ['k']]⟩]
  isOp := by decide

/-- Tables with a counter that is zero. -/
def counter : Tables Str where
  created name := name == ['t']
  table _ := { data := (∅ : StrMap Str).insert ['k'] ['0'] }

/-- Session `1` finds the counter locked by session `0`; once that has committed,
session `2` adds one as well. -/
def countedTwice : Service Str :=
  (Service.start (fun _ => increment) counter).follow (.plain fun _ _ => true) 3
    (TakesFromNobody 3) ([0, 0, 0, 1, 1, 1, 0, 0, 0, 0, 0] ++ [2, 2, 2, 2, 2, 2, 2, 2])

theorem serializable_of_run_countedTwice :
    (countedTwice.tables.table ['t']).data =
        ((serial (.plain fun _ _ => true) (fun _ => increment) [0, 2] counter).table ['t']).data ∧
      countedTwice.tables.values ['t'] ['k'] = some ['2'] := by
  have hrun : Service.Run (.plain fun _ _ => true) 3 (TakesFromNobody 3)
      (.start (fun _ => increment) counter) countedTwice := Service.run_follow _ 3 _ _ _
  have hcommits : countedTwice.commits = [0, 2] := by decide +kernel
  refine ⟨?_, by decide +kernel⟩
  rw [← hcommits]
  exact serializable_of_run (fun _ => rfl) (fun _ => rfl) hrun ['t']

/-- Session `1` finds the counter locked by session `0`, and unlocks it by rolling
back; session `2` gets the lock, reads the counter, and commits after session `0`. -/
def countedOnce : Service Str :=
  (Service.start (fun _ => increment) counter).follow (.plain fun _ _ => true) 3
    (fun _ _ => True) ([0, 0, 0, 1, 1, 1] ++ [2, 2, 2, 2, 2, 2] ++ [0, 0, 0, 0, 0, 2, 2])

/-- **Transactions are not always serializable**: of two sessions that have added one
to the counter, one has done so in vain. -/
theorem not_always_serializable :
    ¬∀ w : Service Str, Service.Run (.plain fun _ _ => true) 3 (fun _ _ => True)
        (.start (fun _ => increment) counter) w → (∀ t < 3, (w.party t).todo = []) →
      ∀ tbl, (w.tables.table tbl).data = ((serial (.plain fun _ _ => true) (fun _ => increment)
        w.commits counter).table tbl).data := by
  intro h
  have hrun : Service.Run (.plain fun _ _ => true) 3 (fun _ _ => True)
      (.start (fun _ => increment) counter) countedOnce := Service.run_follow _ 3 _ _ _
  have hdone : ∀ t < 3, (countedOnce.party t).todo = [] := by decide +kernel
  have hcommits : countedOnce.commits = [0, 2] := by decide +kernel
  have hdata := congrArg (·[(['k'] : Str)]?) (h countedOnce hrun hdone ['t'])
  rw [hcommits] at hdata
  have hlost : (countedOnce.tables.table ['t']).data[(['k'] : Str)]? = some ['1'] := by
    decide +kernel
  have hserial : ((serial (.plain fun _ _ => true) (fun _ => increment) [0, 2] counter).table
      ['t']).data[(['k'] : Str)]? = some ['2'] := by decide +kernel
  exact absurd (hlost.symm.trans (hdata.trans hserial)) (by decide)

end Server

end Csf
