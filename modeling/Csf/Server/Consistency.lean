import Csf.Server.Expression
import Csf.Server.Serial

/-!
# What every transaction keeps

A session that is served beside others makes its changes all at once, when its `COMMIT` is
answered by an `OK`, and they are the changes its transaction would make were it run there and
then, from its beginning and by itself (`Csf.Server.atomic_step`). So what every transaction
keeps when it runs by itself is kept by any number of sessions that are served together
(`Csf.Server.consistent_of_run`), as long as none of them takes a table from another one.

`incr_value -t` is such a session. However many of them run, on the same counter or on others,
each counter holds in the end what it has held in the beginning and as many more as there are
sessions that could commit (`Csf.Server.counted_of_run`): this is what
`incr_value_concurrent.sh` tests.
-/

namespace Csf

namespace Server

variable {β : Type}

/-! ### Transactions as they would run by themselves -/

/-- **What a session does to the committed values** if nothing happens in between. -/
def Script.apply (E : Env β) (script : Script) (created : Str → Bool) (V : Str → Str → Option β) :
    Option (Store β) :=
  performAll E (script.loginRequest :: script.ops) (freshStore created V)

section Atomic

variable {E : Env β} {n : ℕ} {scripts : SessionId → Script} {σ₀ : Tables β} {w w' : Service β}
  {t : SessionId}

/-- **A session sends its `COMMIT`**, which finds all of its requests done, or it sends something
that leaves what is committed. -/
theorem Stage.commit_or_frame {script : Script} {σ σ' : Tables β} {c c' : ClientConnection β}
    {req : Message} {rest : List Message} {well : Bool}
    (h : Stage E script σ ⟨c, req :: rest⟩) (hclean : σ.Clean)
    (hturn : turn E t req c σ = some (well, c', σ')) :
    (req = commitRequest ∧ c.inTransaction = true ∧ c.Covered σ.created ∧
        script.apply E σ.created σ.values = some (c.shows σ.created σ.values)) ∨
      req.messageType ≠ .commit ∧ Frame σ σ' := by
  generalize hp : (⟨c, req :: rest⟩ : Party β) = p at h
  cases h with
  | fresh =>
    obtain ⟨rfl, hreqs⟩ := Party.mk.inj hp
    obtain ⟨rfl, rfl⟩ := List.cons.inj hreqs
    refine .inr ⟨by nofun, ?_⟩
    exact (turn_plain (by nofun) (by nofun) (by nofun) (by nofun) (by nofun) hturn).1
  | loggedIn hin hbuf hshow =>
    obtain ⟨rfl, hreqs⟩ := Party.mk.inj hp
    obtain ⟨rfl, rfl⟩ := List.cons.inj hreqs
    exact .inr ⟨by nofun, (turn_begin hin hturn).1⟩
  | @inside c past ops hops hin hcov hshow =>
    obtain ⟨rfl, hreqs⟩ := Party.mk.inj hp
    rcases ops with _ | ⟨op, ops⟩
    · -- the transaction ends
      obtain ⟨rfl, rfl⟩ := List.cons.inj hreqs
      rw [List.append_nil] at hops
      refine .inl ⟨rfl, hin, hcov, ?_⟩
      rw [Script.apply, hops]
      exact hshow σ.values fun _ _ _ => rfl
    · obtain ⟨rfl, rfl⟩ := List.cons.inj hreqs
      have hop := isWork_of_isOp (script.isOp req (by rw [hops]; simp))
      refine .inr ⟨hop.2.2.2.1, ?_⟩
      by_cases hty : req.messageType = .set ∨ req.messageType = .get
      · exact (turn_table hty hin hclean hturn).1
      · obtain ⟨hset, hget⟩ := not_or.mp hty
        exact (turn_plain hset hget hop.2.2.1 hop.2.2.2.1 hop.2.2.2.2 hturn).1
  | closed hin =>
    obtain ⟨rfl, hreqs⟩ := Party.mk.inj hp
    obtain ⟨rfl, rfl⟩ := List.cons.inj hreqs
    refine .inr ⟨by nofun, ?_⟩
    exact (turn_plain (by nofun) (by nofun) (by nofun) (by nofun) (by nofun) hturn).1
  | stopped => exact nomatch hp

/-- **A step commits nothing, or a whole transaction at once.** -/
theorem atomic_step (h : InOrder E n scripts σ₀ w) (ht : t < n) (hstep : w.step E t = some w') :
    w'.commits = w.commits ∧ w'.tables.created = w.tables.created ∧
        w'.tables.values = w.tables.values ∨
      w'.commits = w.commits ++ [t] ∧ ∃ x,
        (scripts t).apply E w.tables.created w.tables.values = some x ∧
          w'.tables.created = x.created ∧ w'.tables.values = x.value := by
  rcases hparty : w.party t with ⟨c, todo⟩
  obtain ⟨req, rest, well, c', σ', rfl, hturn, rfl⟩ := step_cases hparty hstep
  have hst := h.stage t ht
  rw [hparty] at hst
  rcases hst.commit_or_frame h.clean hturn with ⟨rfl, hin, hcov, hshow⟩ | ⟨hne, hframe⟩
  · rcases turn_commit hin hturn with ⟨rfl, rfl, rfl⟩ | ⟨rfl, hframe⟩
    · have hcom := committed_commit hcov
      refine Or.inr ⟨rfl, _, hshow, hcom.created, ?_⟩
      exact funext fun tbl => funext fun k => hcom.values h.clean tbl k
    · exact Or.inl ⟨rfl, hframe.created, hframe.values⟩
  · exact Or.inl ⟨if_neg (by simp [hne]), hframe.created, hframe.values⟩

/-- **Consistency**: what every transaction keeps when it runs by itself holds in every state
that is reached by sessions served together. It may speak of those that have committed. -/
theorem consistent_of_run {I : List SessionId → (Str → Bool) → (Str → Str → Option β) → Prop}
    (hkeeps : ∀ ts created V, I ts created V → ∀ t < n, ∀ x,
      (scripts t).apply E created V = some x → I (ts ++ [t]) x.created x.value)
    (hclean : σ₀.Clean) (hfree : σ₀.Free) (hstart : I [] σ₀.created σ₀.values)
    (h : Service.Run E n (TakesFromNobody n) (.start scripts σ₀) w) :
    I w.commits w.tables.created w.tables.values := by
  induction h with
  | refl => exact hstart
  | tail hrun hstep ih =>
    obtain ⟨t, ht, -, hs⟩ := hstep
    rcases atomic_step (inOrder_of_run hclean hfree hrun) ht hs with
      ⟨hcommits, hcreated, hvalues⟩ | ⟨hcommits, x, hx, hcreated, hvalues⟩
    · rwa [hcommits, hcreated, hvalues]
    · rw [hcommits, hcreated, hvalues]
      exact hkeeps _ _ _ ih t ht x hx

end Atomic

/-! ### Counters -/

/-- What `incr_value` does between its `LOGIN` and its `BYE`. -/
def incrRequests (table key : Str) : List Message :=
  [⟨.get, [table, key]⟩, ⟨.push, [['1']]⟩, ⟨.add, []⟩, ⟨.set, [table, key]⟩]

/-- `incr_value -t` -/
def incrScript (username table key : Str) : Script where
  user := username
  ops := incrRequests table key
  isOp := by
    intro req hreq
    simp only [incrRequests, List.mem_cons, List.not_mem_nil, or_false] at hreq
    rcases hreq with rfl | rfl | rfl | rfl <;> rfl

theorem isInt32_wrapInt32 (n : ℤ) : isInt32 (wrapInt32 n) = true := by
  have hle := Int.le_bmod (x := n) (m := 2 ^ 32) (by norm_num)
  have hlt := Int.bmod_lt (x := n) (m := 2 ^ 32) (by norm_num)
  rw [isInt32, wrapInt32, Bool.and_eq_true, decide_eq_true_eq, decide_eq_true_eq]
  constructor <;> omega

theorem wrapInt32_add_wrapInt32 (m n : ℤ) : wrapInt32 (wrapInt32 m + n) = wrapInt32 (m + n) := by
  rw [wrapInt32, wrapInt32, wrapInt32, Int.bmod_add_bmod]

/-- The text of an `int` is an operand. -/
theorem intOperand_toDecimal {n : ℤ} (h : isInt32 n = true) :
    intOperand (toDecimal n) = some n := by
  obtain ⟨hstoi, hdot⟩ := (isNumeral_toDecimal h).isInteger
  rw [intOperand_of_ok hstoi, if_neg (by simp [hdot])]

/-! ### What the requests of an increment do to a store -/

section Requests

variable {E : Env β} {a b : Store β} {line username table key value : Str}

theorem perform_login_iff : perform E ⟨.login, [username]⟩ a = some (line, b) ↔
    Message.isValidIdentifier username = true ∧ line = okLine ∧
      b = { a with loggedIn := true } := by
  have h : perform E ⟨.login, [username]⟩ a = if Message.isValidIdentifier username then
      some (okLine, { a with loggedIn := true }) else none := by
    cases hlog : a.loggedIn <;> simp [perform, hlog, act, Message.isValid, Message.getUsername] <;>
      rfl
  rw [h]
  split
  · next hvalid => simp [hvalid, eq_comm]
  · next hvalid => simp [hvalid]

theorem perform_push_iff (hlog : a.loggedIn = true) :
    perform E ⟨.push, [value]⟩ a = some (line, b) ↔ line = okLine ∧
      b = { a with stack := E.lit value :: (if a.hasStack then a.stack else []), hasStack := true }
    := by
  have h : perform E ⟨.push, [value]⟩ a = some (okLine,
      { a with stack := E.lit value :: (if a.hasStack then a.stack else []), hasStack := true })
      := by
    simp [perform, hlog, act, Message.isValid, Message.getValue]
  rw [h, Option.some.injEq, Prod.mk.injEq, eq_comm, @eq_comm _ _ b]

theorem perform_get_iff (hlog : a.loggedIn = true) :
    perform E ⟨.get, [table, key]⟩ a = some (line, b) ↔
      Message.isValidIdentifier table = true ∧ Message.isValidIdentifier key = true ∧
        a.created table = true ∧ line = okLine ∧ ∃ v, a.value table key = some v ∧
          b = { a with stack := v :: a.stack, hasStack := true } := by
  have h : perform E ⟨.get, [table, key]⟩ a = if Message.isValidIdentifier table = true ∧
      Message.isValidIdentifier key = true ∧ a.created table = true then
        (a.value table key).map fun v =>
          (okLine, { a with stack := v :: a.stack, hasStack := true })
      else none := by
    rw [perform, act_get E rfl]
    cases ht : Message.isValidIdentifier table <;> cases hk : Message.isValidIdentifier key <;>
      simp [hlog, Message.isValid, Message.getTable, Message.getKey, ht, hk]
  rw [h]
  split
  · next hok =>
    cases a.value table key with
    | none => simp
    | some v => simp [hok, eq_comm]
  · next hok =>
    refine ⟨fun h => by simp at h, ?_⟩
    rintro ⟨ht, hk, hc, -⟩
    exact absurd ⟨ht, hk, hc⟩ hok

theorem perform_add_iff (hlog : a.loggedIn = true) :
    perform E ⟨.add, []⟩ a = some (line, b) ↔ line = okLine ∧ ∃ stack,
      calculate E .add a.stack = some stack ∧ b = { a with stack } := by
  have h : perform E ⟨.add, []⟩ a =
      (calculate E .add a.stack).map fun stack => (okLine, { a with stack }) := by
    simp [perform, hlog, act, Message.isValid]
  rw [h]
  cases calculate E .add a.stack with
  | none => simp
  | some stack => simp [eq_comm]

theorem perform_set_iff (hlog : a.loggedIn = true) (hstack : a.hasStack = true) :
    perform E ⟨.set, [table, key]⟩ a = some (line, b) ↔
      Message.isValidIdentifier table = true ∧ Message.isValidIdentifier key = true ∧
        a.created table = true ∧ line = okLine ∧ ∃ v vs, a.stack = v :: vs ∧
          b = { a with
            stack := vs
            value := Function.update a.value table
              (Function.update (a.value table) key (some (E.stamp v))) } := by
  have h : perform E ⟨.set, [table, key]⟩ a = if Message.isValidIdentifier table = true ∧
      Message.isValidIdentifier key = true ∧ a.created table = true then
        a.stack.head?.map fun v => (okLine, { a with
          stack := a.stack.tail
          value := Function.update a.value table
            (Function.update (a.value table) key (some (E.stamp v))) })
      else none := by
    rw [perform, act]
    cases ht : Message.isValidIdentifier table <;> cases hk : Message.isValidIdentifier key <;>
      cases hc : a.created table <;> cases a.stack <;>
      simp [hlog, hstack, Message.isValid, Message.getTable, Message.getKey, ht, hk, hc]
  rw [h]
  split
  · next hok =>
    cases a.stack with
    | nil => simp
    | cons v vs => simp [hok, eq_comm]
  · next hok =>
    refine ⟨fun h => by simp at h, ?_⟩
    rintro ⟨ht, hk, hc, -⟩
    exact absurd ⟨ht, hk, hc⟩ hok

end Requests

/-- Over a buffer that is empty the values are shown as they are. -/
theorem value_freshStore (created : Str → Bool) (V : Str → Str → Option β) :
    (freshStore created V).value = V := by
  refine funext fun t => funext fun k => ?_
  simp [freshStore, ClientConnection.shows, ClientConnection.buffered]

/-- **An increment by itself** finds an `int` and leaves its successor, and nothing else is
changed. -/
theorem apply_incrScript {addrLe : Str → Str → Bool} {username table key : Str}
    {created : Str → Bool} {V : Str → Str → Option Str} {x : Store Str}
    (h : (incrScript username table key).apply (.plain addrLe) created V = some x) :
    x.created = created ∧ ∃ v n, V table key = some v ∧ intOperand v = some n ∧
      x.value = Function.update V table
        (Function.update (V table) key (some (toDecimal (wrapInt32 (n + 1))))) := by
  obtain ⟨⟨_, a₁⟩, hlogin, h⟩ := Option.bind_eq_some_iff.mp h
  obtain ⟨-, -, rfl⟩ := perform_login_iff.mp hlogin
  obtain ⟨⟨_, a₂⟩, hget, h⟩ := Option.bind_eq_some_iff.mp h
  obtain ⟨-, -, -, -, v, hv, rfl⟩ := (perform_get_iff rfl).mp hget
  obtain ⟨⟨_, a₃⟩, hpush, h⟩ := Option.bind_eq_some_iff.mp h
  obtain ⟨-, rfl⟩ := (perform_push_iff rfl).mp hpush
  obtain ⟨⟨_, a₄⟩, hadd, h⟩ := Option.bind_eq_some_iff.mp h
  obtain ⟨-, stack, hstack, rfl⟩ := (perform_add_iff rfl).mp hadd
  obtain ⟨⟨_, a₅⟩, hset, h⟩ := Option.bind_eq_some_iff.mp h
  obtain ⟨-, -, -, -, u, us, rfl, rfl⟩ := (perform_set_iff rfl rfl).mp hset
  obtain rfl := Option.some.inj h
  rw [value_freshStore] at hv
  have hone : intOperand ['1'] = some 1 := by decide +kernel
  cases hn : intOperand v with
  | none =>
    have hnone : calculate (.plain addrLe) .add [['1'], v] = none := calculate_of_left hn
    exact absurd (hnone.symm.trans hstack) (by simp)
  | some n =>
    have hsum : calculate (.plain addrLe) .add [['1'], v] =
        some [toDecimal (wrapInt32 (n + 1))] := calculate_of_operands hone hn
    obtain ⟨rfl, rfl⟩ := List.cons.inj (Option.some.inj (hsum.symm.trans hstack))
    refine ⟨rfl, v, n, hv, hn, ?_⟩
    simp only [value_freshStore]
    rfl

/-! ### Counters that are incremented together -/

/-- The number of sessions of a list that have incremented the counter. -/
def increments (counter : SessionId → Str × Str) (ts : List SessionId) (table key : Str) : ℕ :=
  ts.countP fun t => counter t = (table, key)

/-- **What counters hold** after these sessions have incremented them: what they held, and for
each of the sessions one more. -/
def Counted (counter : SessionId → Str × Str) (V₀ : Str → Str → Option Str)
    (ts : List SessionId) (V : Str → Str → Option Str) : Prop :=
  ∀ table key, (increments counter ts table key = 0 → V table key = V₀ table key) ∧
    (increments counter ts table key ≠ 0 → ∃ v n, V₀ table key = some v ∧ intOperand v = some n ∧
      V table key = some (toDecimal (wrapInt32 (n + increments counter ts table key))))

/-- One more increment. -/
theorem Counted.incr {counter : SessionId → Str × Str} {V₀ V V' : Str → Str → Option Str}
    {ts : List SessionId} (h : Counted counter V₀ ts V) {t : SessionId} {table key v : Str} {n : ℤ}
    (ht : counter t = (table, key)) (hv : V table key = some v) (hn : intOperand v = some n)
    (hV' : V' = Function.update V table
      (Function.update (V table) key (some (toDecimal (wrapInt32 (n + 1)))))) :
    Counted counter V₀ (ts ++ [t]) V' := by
  intro tbl k
  have hcount : increments counter (ts ++ [t]) tbl k =
      increments counter ts tbl k + if (table, key) = (tbl, k) then 1 else 0 := by
    simp [increments, List.countP_append, List.countP_singleton, ht]
  rw [hcount]
  by_cases hk : (table, key) = (tbl, k)
  · obtain ⟨rfl, rfl⟩ := Prod.mk.inj hk
    rw [if_pos rfl]
    refine ⟨fun h => absurd h (Nat.succ_ne_zero _), fun _ => ?_⟩
    have hV : V' table key = some (toDecimal (wrapInt32 (n + 1))) := by simp [hV']
    by_cases hzero : increments counter ts table key = 0
    · refine ⟨v, n, ((h table key).1 hzero) ▸ hv, hn, ?_⟩
      rw [hV, hzero]
      rfl
    · obtain ⟨v₀, n₀, hv₀, hn₀, hlast⟩ := (h table key).2 hzero
      obtain rfl := Option.some.inj (hv.symm.trans hlast)
      obtain rfl := Option.some.inj
        (hn.symm.trans (intOperand_toDecimal (isInt32_wrapInt32 _)))
      refine ⟨v₀, n₀, hv₀, hn₀, ?_⟩
      rw [hV, wrapInt32_add_wrapInt32, Nat.cast_add, Nat.cast_one, add_assoc]
  · rw [if_neg hk, Nat.add_zero]
    have hV : V' tbl k = V tbl k := by
      rw [hV', Function.update_apply]
      split
      · next htbl =>
        subst htbl
        rw [Function.update_of_ne fun hkey => hk (by rw [hkey])]
      · rfl
    rw [hV]
    exact h tbl k

/-- **No increment is lost**: any number of sessions of `incr_value -t`, served together, have
incremented each counter as often as sessions for it could commit. -/
theorem counted_of_run {addrLe : Str → Str → Bool} {n : ℕ} (username : SessionId → Str)
    (counter : SessionId → Str × Str) {σ₀ : Tables Str} {w : Service Str} (hclean : σ₀.Clean)
    (hfree : σ₀.Free)
    (h : Service.Run (.plain addrLe) n (TakesFromNobody n)
      (.start (fun t => incrScript (username t) (counter t).1 (counter t).2) σ₀) w) :
    Counted counter σ₀.values w.commits w.tables.values := by
  refine consistent_of_run (I := fun ts _ V => Counted counter σ₀.values ts V)
    (fun ts created V hcounted t _ x hx => ?_) hclean hfree (fun table key => ?_) h
  · obtain ⟨-, v, m, hv, hm, hvalue⟩ := apply_incrScript hx
    exact hcounted.incr rfl hv hm hvalue
  · exact ⟨fun _ => rfl, fun hne => absurd rfl hne⟩

/-- Two of three sessions commit. -/
theorem counted_of_run_countedTwice :
    countedTwice.tables.values ['t'] ['k'] = some ['2'] := by
  have hrun : Service.Run (.plain fun _ _ => true) 3 (TakesFromNobody 3)
      (.start (fun _ => increment) counter) countedTwice := Service.run_follow _ 3 _ _ _
  have hcommits : countedTwice.commits = [0, 2] := by decide +kernel
  have hcounted := counted_of_run (fun _ => "alice".toList) (fun _ => (['t'], ['k']))
    (fun _ => rfl) (fun _ => rfl) hrun
  rw [hcommits] at hcounted
  obtain ⟨v, n, hv, hn, hlast⟩ := (hcounted ['t'] ['k']).2 (by decide)
  have hv₀ : counter.values ['t'] ['k'] = some ['0'] := by decide +kernel
  obtain rfl := Option.some.inj (hv.symm.trans hv₀)
  obtain rfl : n = 0 := Option.some.inj (hn.symm.trans (by decide +kernel))
  exact hlast.trans (by decide +kernel)

end Server

end Csf
