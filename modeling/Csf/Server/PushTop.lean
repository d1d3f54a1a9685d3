import Csf.Server.Reading
import Csf.Server.Session

/-!
# A value pushed and read back

`PUSH` takes its value from a line and `TOP` puts it in another: between the two the
value goes through the decoder, the operand stack, the encoder and the decoder once
more. The decoder takes the double quotes off a text, whatever message it stands in,
and the encoder puts them on in a `FAILED` and in an `ERROR` only.

So a value comes back when it can do without quotes (`Csf.Server.Restored`): a
single word is such a value, and so is a text that is opened by a double quote and
never closed. `Csf.Server.top_returns_iff` puts that as a condition on the line the
value was pushed with.
-/

namespace Csf

namespace Server

open Interaction Handler

/-! ### What a single token can come from -/

/-- There is a token where there is a word. -/
theorem tokenize_ne_nil (w : Str) (ws : List Str) : tokenize none (w :: ws) ≠ [] := by
  have hsome : ∀ (ws : List Str) (q : Str), tokenize (some q) ws ≠ [] := by
    intro ws
    induction ws with
    | nil => intro q; simp [tokenize]
    | cons u us ih =>
      intro q
      rw [tokenize]
      split
      · simp
      · exact ih _
  rw [tokenize]
  split
  · split
    · simp
    · exact hsome _ _
  · simp

/-- When an open text ends up as the only token, it has swallowed all the words, none
of which but the last closes it. -/
theorem tokenize_some_eq_singleton {ws : List Str} (hws : ∀ w ∈ ws, IsWord w) {q v : Str}
    (h : tokenize (some q) ws = [v]) :
    v = unquote (q ++ encodeArgs false ws) ∧ ∀ w ∈ ws.dropLast, ¬Closes w := by
  induction ws generalizing q with
  | nil =>
    rw [tokenize] at h
    simpa [encodeArgs, eq_comm] using h
  | cons w ws ih =>
    have hjoin : q ++ ' ' :: w ++ encodeArgs false ws = q ++ encodeArgs false (w :: ws) := by
      rw [encodeArgs_cons, List.append_assoc, List.cons_append]
    rw [tokenize, getLast?_glue q (hws w List.mem_cons_self).1] at h
    split at h
    · obtain ⟨hv, hrest⟩ := List.cons.inj h
      obtain rfl : ws = [] := by
        cases ws with
        | nil => rfl
        | cons u us => exact absurd hrest (tokenize_ne_nil _ _)
      simpa [encodeArgs, eq_comm] using hv
    · next hopen =>
      obtain ⟨hv, hlast⟩ := ih (fun u hu => hws u (List.mem_cons_of_mem w hu)) h
      rw [hjoin] at hv
      refine ⟨hv, fun u hu => ?_⟩
      cases ws with
      | nil => exact absurd hu (by simp)
      | cons u' us =>
        rw [List.dropLast_cons_cons] at hu
        rcases List.mem_cons.mp hu with rfl | hu
        · simpa using hopen
        · exact hlast u hu

/-- **What a single token comes from**: a word that opens nothing, or all the words
together. -/
theorem tokenize_eq_singleton {ws : List Str} (hws : ∀ w ∈ ws, IsWord w) {v : Str}
    (h : tokenize none ws = [v]) :
    (ws = [v] ∧ ¬Opens v) ∨ ∃ w us, ws = w :: us ∧ Opens w ∧
      v = unquote (w ++ encodeArgs false us) ∧ ∀ u ∈ ws.dropLast, ¬Closes u := by
  cases ws with
  | nil => exact absurd h (by simp [tokenize])
  | cons w us =>
    -- Nothing is left for a second token.
    have hnil : ∀ t, t :: tokenize none us = [v] → t = v ∧ us = [] := by
      intro t ht
      obtain ⟨hv, hrest⟩ := List.cons.inj ht
      cases us with
      | nil => exact ⟨hv, rfl⟩
      | cons u us => exact absurd hrest (tokenize_ne_nil u us)
    rw [tokenize] at h
    split at h
    · next hopen =>
      have hopen : Opens w := by simpa using hopen
      refine Or.inr ⟨w, us, rfl, hopen, ?_⟩
      split at h
      · obtain ⟨hv, rfl⟩ := hnil _ h
        exact ⟨by rw [encodeArgs, List.append_nil, hv], by simp⟩
      · next hclose =>
        obtain ⟨hv, hlast⟩ :=
          tokenize_some_eq_singleton (fun u hu => hws u (List.mem_cons_of_mem w hu)) h
        refine ⟨hv, fun u hu => ?_⟩
        cases us with
        | nil => exact absurd hu (by simp)
        | cons u' us =>
          rw [List.dropLast_cons_cons] at hu
          rcases List.mem_cons.mp hu with rfl | hu
          · simpa using hclose
          · exact hlast u hu
    · next hopen =>
      obtain ⟨rfl, rfl⟩ := hnil _ h
      exact Or.inl ⟨rfl, by simpa using hopen⟩

/-- Joined by single blanks, the words of a text are no longer than the text. -/
theorem length_joined_le {s word w : Str} {ws : List Str} (h : wordsFrom word s = w :: ws) :
    (w ++ encodeArgs false ws).length ≤ word.length + s.length := by
  induction s generalizing word w ws with
  | nil =>
    rw [wordsFrom] at h
    split at h
    · exact absurd h (by simp)
    · obtain ⟨rfl, rfl⟩ := List.cons.inj h
      simp [encodeArgs]
  | cons c s ih =>
    rw [wordsFrom] at h
    rw [List.length_cons]
    split at h
    · split at h
      · have hle := ih h
        rw [List.length_nil] at hle
        omega
      · obtain ⟨rfl, rfl⟩ := List.cons.inj h
        rw [List.length_append, List.length_reverse]
        cases hrest : wordsFrom [] s with
        | nil => simp [encodeArgs]
        | cons u us =>
          have hle := ih hrest
          rw [List.length_nil] at hle
          rw [encodeArgs_cons, List.cons_append, List.length_cons]
          omega
    · have hle := ih h
      rw [List.length_cons] at hle
      omega

/-! ### Values that come back -/

/-- **The values that come back**: a word that does not begin with a double quote, a
double quote by itself, and words joined by single blanks, of which the first begins
with a double quote and none ends with one. -/
def Restored (v : Str) : Prop :=
  (IsWord v ∧ ¬Opens v) ∨ v = ['"'] ∨
    ∃ w ws, v = w ++ encodeArgs false ws ∧ Opens w ∧ ∀ u ∈ w :: ws, IsWord u ∧ ¬Closes u

theorem opens_joined {w : Str} (h : Opens w) (ws : List Str) :
    Opens (w ++ encodeArgs false ws) := by
  rw [Opens, List.head?_append, h]
  rfl

/-- The last word of a text decides whether the text ends with a double quote. -/
theorem closes_joined {w : Str} {ws : List Str} (hws : ∀ u ∈ w :: ws, IsWord u) :
    ∃ l u, w :: ws = l ++ [u] ∧ (Closes (w ++ encodeArgs false ws) ↔ Closes u) := by
  rcases List.eq_nil_or_concat' ws with rfl | ⟨us, u, rfl⟩
  · exact ⟨[], w, rfl, by rw [encodeArgs, List.append_nil]⟩
  · have hu : u ≠ [] := (hws u (by simp)).1
    have hglue : w ++ encodeArgs false (us ++ [u]) = (w ++ encodeArgs false us) ++ ' ' :: u := by
      simp [encodeArgs_append, encodeArgs]
    exact ⟨w :: us, u, rfl, by rw [hglue, Closes, getLast?_glue _ hu]⟩

/-- A value that is its own only token is one that comes back. -/
theorem restored_of_tokenize {v : Str} (h : tokenize none (words v) = [v]) : Restored v := by
  have hwords : ∀ w ∈ words v, IsWord w := fun w => isWord_of_mem_words
  rcases tokenize_eq_singleton hwords h with ⟨hv, hopen⟩ | ⟨w, us, hw, hopen, hv, hlast⟩
  · exact Or.inl ⟨hwords v (by simp [hv]), hopen⟩
  rw [hw] at hwords hlast
  rcases unquote_cases (opens_joined hopen us) with ⟨hq, hclose⟩ | hq
  · rw [hq] at hv
    rw [← hv] at hclose
    by_cases hc : Closes v
    · exact Or.inr (Or.inl (hclose hc))
    · obtain ⟨l, u, hl, hiff⟩ := closes_joined hwords
      refine Or.inr (Or.inr ⟨w, us, hv, hopen, fun u' hu' => ⟨hwords u' hu', ?_⟩⟩)
      rw [hl, List.dropLast_concat] at hlast
      rcases List.mem_append.mp (hl ▸ hu') with hu' | hu'
      · exact hlast u' hu'
      · rw [List.mem_singleton.mp hu', ← hiff, ← hv]
        exact hc
  · -- Taking the quotes off makes the text shorter than its words are.
    have hle := length_joined_le hw
    rw [hq, ← hv] at hle
    simp at hle

/-- **A value that comes back is its own only token.** -/
theorem tokenize_words_restored {v : Str} (h : Restored v) : tokenize none (words v) = [v] := by
  rcases h with ⟨hv, hopen⟩ | rfl | ⟨w, ws, rfl, hopen, hws⟩
  · rw [words_of_isWord hv]
    exact tokenize_plain fun w hw => List.mem_singleton.mp hw ▸ hopen
  · rfl
  · obtain ⟨l, u, hl, hiff⟩ := closes_joined fun u hu => (hws u hu).1
    have hclose : ¬Closes (w ++ encodeArgs false ws) :=
      fun hc => (hws u (hl ▸ by simp)).2 (hiff.mp hc)
    have hq : unquote (w ++ encodeArgs false ws) = w ++ encodeArgs false ws := by
      rcases unquote_cases (opens_joined hopen ws) with ⟨hq, -⟩ | hq
      · exact hq
      · refine absurd ?_ hclose
        rw [hq, Closes, List.getLast?_concat]
    obtain ⟨hw, hwc⟩ := hws w List.mem_cons_self
    have htail : ∀ u ∈ ws, IsWord u ∧ ¬Closes u := fun u hu => hws u (List.mem_cons_of_mem w hu)
    have hfirst : (w.head? == some '"') = true := by simpa using hopen
    have hlast : (w.getLast? == some '"') = false := by simpa using hwc
    have hglue := tokenize_glue htail w []
    rw [List.append_nil, tokenize, hq] at hglue
    rw [words_joined hw fun u hu => (htail u hu).1, tokenize, hfirst, if_pos rfl, hlast,
      if_neg Bool.false_ne_true, hglue]

/-- **In quotes it is a token as well**, and comes out without them. -/
theorem tokenize_quoted_restored {v : Str} (h : Restored v) :
    tokenize none (words ('"' :: v ++ ['"'])) = [v] := by
  rcases h with ⟨hv, -⟩ | rfl | ⟨w, ws, rfl, -, hws⟩
  · simpa [intercalate_cons, encodeArgs] using @tokenize_quoted [] v (by simp) hv
  · rfl
  · obtain ⟨l, u, hl, -⟩ := closes_joined fun u hu => (hws u hu).1
    rw [← intercalate_cons, hl]
    exact tokenize_quoted (fun u' hu' => hws u' (hl ▸ List.mem_append_left _ hu'))
      (hws u (hl ▸ by simp)).1

/-- A token is no longer than the words it comes from. -/
theorem length_lt_of_tokenize {ws : List Str} (hws : ∀ w ∈ ws, IsWord w) {v : Str}
    (h : tokenize none ws = [v]) : v.length < (encodeArgs false ws).length := by
  rcases tokenize_eq_singleton hws h with ⟨rfl, -⟩ | ⟨w, us, rfl, hopen, rfl, -⟩
  · simp [encodeArgs]
  · have hle : (unquote (w ++ encodeArgs false us)).length ≤ (w ++ encodeArgs false us).length := by
      rcases unquote_cases (opens_joined hopen us) with ⟨hq, -⟩ | hq
      · rw [hq]
      · conv_rhs => rw [hq]
        simp
        omega
    rw [encodeArgs_cons, List.cons_append, List.length_cons]
    omega

/-! ### Lines that push such a value -/

/-- The words of a line after the first one. -/
def argWords (buf : Str) : List Str := (words (cstr buf).dropLast).tail

/-- **The lines whose value comes back**: after the type of the request they have
the words of a value that comes back, as it is or in double quotes. -/
def PushesRestored (buf : Str) : Prop :=
  ∃ v, Restored v ∧ (argWords buf = words v ∨ argWords buf = words ('"' :: v ++ ['"']))

/-- The words of a line make up the one value `v`: the line pushes a value that comes
back if and only if `v` is one. -/
theorem pushesRestored_iff {buf v : Str} (h : tokenize none (argWords buf) = [v]) :
    PushesRestored buf ↔ Restored v := by
  have hwords : ∀ w ∈ argWords buf, IsWord w :=
    fun w hw => isWord_of_mem_words (List.mem_of_mem_tail hw)
  constructor
  · rintro ⟨v', hv', hw | hw⟩
    · rw [hw, tokenize_words_restored hv'] at h
      exact (List.cons.inj h).1 ▸ hv'
    · rw [hw, tokenize_quoted_restored hv'] at h
      exact (List.cons.inj h).1 ▸ hv'
  · intro hv
    refine ⟨v, hv, ?_⟩
    rcases tokenize_eq_singleton hwords h with ⟨hw, -⟩ | ⟨w, us, hw, hopen, hq, -⟩
    · have hword : IsWord v := hwords v (by simp [hw])
      exact Or.inl (by rw [hw, words_of_isWord hword])
    · rw [hw] at hwords
      have hjoin : words (w ++ encodeArgs false us) = w :: us :=
        words_joined (hwords w List.mem_cons_self) fun u hu =>
          hwords u (List.mem_cons_of_mem w hu)
      rcases unquote_cases (opens_joined hopen us) with ⟨hun, -⟩ | hun
      · exact Or.inl (by rw [hw, hq, hun, hjoin])
      · exact Or.inr (by rw [hw, hq, ← hun, hjoin])

/-! ### The request on a line -/

theorem name_of_lookup {t : Str} {type : MessageType} (h : typeMap.lookup t = some type) :
    type.name = some t := by
  have hnames : ∀ p ∈ typeMap, p.2.name = some p.1 := by decide +kernel
  obtain ⟨l, l', hl, -⟩ := List.lookup_eq_some_iff.mp h
  exact hnames (t, type) (hl ▸ by simp)

/-- The first token of an open text has the text at its beginning. -/
theorem tokenize_some_eq_cons {ws : List Str} {q t : Str} {ts : List Str}
    (h : tokenize (some q) ws = t :: ts) : ∃ us, t = unquote (q ++ encodeArgs false us) := by
  induction ws generalizing q with
  | nil => exact ⟨[], by simpa [tokenize, encodeArgs, eq_comm] using (List.cons.inj h).1⟩
  | cons w ws ih =>
    rw [tokenize] at h
    split at h
    · exact ⟨[w], by simpa [encodeArgs] using (List.cons.inj h).1.symm⟩
    · obtain ⟨us, hus⟩ := ih h
      exact ⟨w :: us, by rw [hus, encodeArgs_cons]; simp⟩

/-- **The type of a request is on the first word of its line**, and the arguments are
the tokens of the others. -/
theorem tokenize_eq_type_cons {w t : Str} {ws args : List Str} {type : MessageType}
    (h : tokenize none (w :: ws) = t :: args) (htype : typeMap.lookup t = some type) :
    args = tokenize none ws ∧ t.length ≤ w.length := by
  obtain ⟨hword, hopen, -⟩ := name_spec (name_of_lookup htype)
  rw [tokenize] at h
  split at h
  · next hw =>
    have hw : Opens w := by simpa using hw
    split at h
    · obtain ⟨rfl, rfl⟩ := List.cons.inj h
      refine ⟨rfl, ?_⟩
      rcases unquote_cases hw with ⟨hq, -⟩ | hq
      · rw [hq]
      · conv_rhs => rw [hq]
        simp
        omega
    · next hclose =>
      exfalso
      obtain ⟨us, hus⟩ := tokenize_some_eq_cons h
      rcases unquote_cases (opens_joined hw us) with ⟨hq, -⟩ | hq
      · -- The token would begin with the quote.
        rw [hq] at hus
        exact hopen (hus ▸ opens_joined hw us)
      · rw [← hus] at hq
        cases us with
        | nil =>
          rw [encodeArgs, List.append_nil] at hq
          refine hclose ?_
          rw [hq, List.getLast?_concat, beq_self_eq_true]
        | cons u us =>
          -- The token would have a blank in it.
          have hblank : ' ' ∈ '"' :: t ++ ['"'] := by
            rw [← hq, encodeArgs_cons]
            simp
          have ht : ' ' ∈ t := by simpa using hblank
          exact absurd (hword.2 ' ' ht) (by decide)
  · obtain ⟨rfl, rfl⟩ := List.cons.inj h
    exact ⟨rfl, Nat.le_refl _⟩

/-- What `decode` has made of a line: the tokens of the words after the first are
the arguments, and the line is long enough for the type and the arguments. -/
theorem decode_spec {buf : Str} {req : Message} (h : decode (cstr buf) = .ok req) :
    req.args = tokenize none (argWords buf) ∧ ∃ name, req.messageType.name = some name ∧
      name.length + (encodeArgs false (argWords buf)).length < buf.length := by
  rw [decode] at h
  split at h
  · exact absurd h (by simp)
  next hne =>
  split at h
  · exact absurd h (by simp)
  have hlen : (cstr buf).dropLast.length < buf.length := by
    have hpos : 0 < (cstr buf).length := List.length_pos_iff.mpr (by simpa using hne)
    have hle : (cstr buf).length ≤ buf.length := (List.takeWhile_prefix _).length_le
    rw [List.length_dropLast]
    omega
  split at h
  · exact absurd h (by simp)
  next t args htokens =>
  split at h
  · exact absurd h (by simp)
  next type htype =>
  obtain rfl := Except.ok.inj h
  cases hwords : words (cstr buf).dropLast with
  | nil => exact absurd htokens (by simp [hwords, tokenize])
  | cons w ws =>
    rw [hwords] at htokens
    obtain ⟨hargs, ht⟩ := tokenize_eq_type_cons htokens htype
    have hle := length_joined_le hwords
    rw [List.length_append, List.length_nil] at hle
    rw [argWords, hwords, List.tail_cons]
    exact ⟨hargs, t, name_of_lookup htype, by omega⟩

/-! ### Pushing and reading back -/

section Rounds

variable {addrLe : Str → Str → Bool} {s s' : ClientConnection Str} {buf line : Str}
  {req : Message}

/-- **A line is answered**: the round that reads it writes one line, which is all it
does with what is shared, and the session goes on. -/
def Answers (addrLe : Str → Str → Bool) (s : ClientConnection Str) (buf line : Str)
    (s' : ClientConnection Str) : Prop :=
  chatBody (Env.plain addrLe) (.line buf) s =
      .call (.write line) (fun _ => .ret (.ok .again, s')) ∧
    s'.written = s.written ++ [line]

/-- Two programs that write a line and end are the same if the line is and the ends are. -/
theorem ret_of_write {α : Type} {line line' : Str} {a a' : α}
    (h : (.call (.write line) fun _ => .ret a : Program (Call Str) Call.Result α) =
      .call (.write line') fun _ => .ret a') : line = line' ∧ a = a' := by
  injection h with hcall hrest
  obtain rfl := Call.write.inj hcall
  exact ⟨rfl, Program.ret.inj (congrFun hrest ())⟩

theorem self_bind_apply {β α : Type} (f : ClientConnection β → Handler β α)
    (s : ClientConnection β) : (self >>= f) s = f s s := rfl

theorem chatBody_line {β : Type} {E : Env β} (h : decode (cstr buf) = .ok req)
    (s : ClientConnection β) : chatBody E (.line buf) s = serve E req s := by
  rw [chatBody, h]
  rfl

/-- A request that is not taken ends the session. -/
theorem serve_refused {what : Str} (hlen : what.length ≤ 1015)
    (h : chatRequest (Env.plain addrLe) req s = .ret (.error (.invalidMessage what), s)) :
    ∃ line s', serve (Env.plain addrLe) req s =
      .call (.write line) fun _ => .ret (.ok .done, s') := by
  rw [serve, tryCatch_apply, h, Program.ret_bind]
  change ∃ line s', (sendError what >>= fun _ => pure Next.done : Handler Str Next) s = _
  rw [bind_apply, sendError_apply hlen]
  exact ⟨_, _, rfl⟩

/-- A request that is answered and does not end the session is a valid one of a
client who has logged in, when it is not the login itself. -/
theorem taken_of_serve (hty : req.messageType ≠ .login)
    (h : serve (Env.plain addrLe) req s = .call (.write line) fun _ => .ret (.ok .again, s')) :
    s.hasLoggedIn = true ∧ req.isValid = true := by
  by_contra hnot
  obtain ⟨what, hlen, hwhat⟩ : ∃ what : Str, what.length ≤ 1015 ∧
      chatRequest (Env.plain addrLe) req s = .ret (.error (.invalidMessage what), s) := by
    rw [chatRequest, self_bind_apply]
    by_cases hlogin : s.hasLoggedIn = true
    · rw [if_neg (by simp [hlogin]), if_pos (by simpa [hlogin] using hnot)]
      exact ⟨_, by decide, rfl⟩
    · rw [if_pos (by simp [hlogin, hty])]
      exact ⟨_, by decide, rfl⟩
  obtain ⟨line', s'', hdone⟩ := serve_refused hlen hwhat
  obtain ⟨-, hnext⟩ := ret_of_write (hdone.symm.trans h)
  simp at hnext

/-- A request that is taken is given to its handler. -/
theorem chatRequest_taken (hlogin : s.hasLoggedIn = true) (hvalid : req.isValid = true)
    {h : Handler Str Unit} (hh : (req.messageType = .push ∧ h = push (Env.plain addrLe) req) ∨
      (req.messageType = .top ∧ h = top (Env.plain addrLe))) :
    chatRequest (Env.plain addrLe) req s = (h >>= fun _ => pure .again) s := by
  rw [chatRequest, self_bind_apply, if_neg (by simp [hlogin]), if_neg (by simp [hvalid])]
  rcases hh with ⟨hty, rfl⟩ | ⟨hty, rfl⟩ <;> rw [hty]

/-- `PUSH` puts the value on the stack, a new one if there is none. -/
theorem push_apply (s : ClientConnection Str) :
    push (Env.plain addrLe) req s = .call (.write okLine) fun _ => .ret (.ok (), { s with
      stack := req.getValue :: if s.hasStack then s.stack else []
      hasStack := true
      written := s.written ++ [okLine] }) := by
  cases hstack : s.hasStack
  · rw [push, self_bind_apply, if_pos (by simp [hstack])]
    rfl
  · rw [push, self_bind_apply, if_neg (by simp [hstack])]
    obtain ⟨⟩ := s
    obtain rfl := hstack
    rfl

/-- After a `PUSH` that has been answered with `OK`, the value is on top of the
stack. -/
theorem pushed_of_answers (hdec : decode (cstr buf) = .ok req)
    (hpush : req.messageType = .push) (h : Answers addrLe s buf okLine s') :
    req.isValid = true ∧ s'.hasLoggedIn = true ∧ s'.hasStack = true ∧
      ∃ vs, s'.stack = req.getValue :: vs := by
  obtain ⟨hrun, -⟩ := h
  rw [chatBody_line hdec] at hrun
  obtain ⟨hlogin, hvalid⟩ := taken_of_serve (by rw [hpush]; decide) hrun
  rw [serve, tryCatch_apply, chatRequest_taken hlogin hvalid (Or.inl ⟨hpush, rfl⟩), bind_apply,
    push_apply] at hrun
  obtain ⟨-, rfl⟩ := Prod.mk.inj (ret_of_write hrun).2
  exact ⟨hvalid, hlogin, rfl, _, rfl⟩

/-- `TOP` of a stack with a value on it sends that value. -/
theorem top_apply {v line : Str} {vs : List Str} (hstack : s.hasStack = true)
    (hv : s.stack = v :: vs) (henc : encode ⟨.data, [v]⟩ = .ok line) :
    top (Env.plain addrLe) s =
      .call (.write line) fun _ => .ret (.ok (), { s with written := s.written ++ [line] }) := by
  have htop : (stackGetTop : Handler Str Str) s = .ret (.ok v, s) := by
    rw [stackGetTop, self_bind_apply, hv]
    rfl
  have hsend : (sendData v : Handler Str Unit) s =
      .call (.write line) fun _ => .ret (.ok (), { s with written := s.written ++ [line] }) := by
    rw [sendData, send, bind_apply, henc]
    rfl
  rw [top, self_bind_apply, if_neg (by simp [hstack]), tryCatch_apply, bind_apply, htop,
    Program.ret_bind]
  change Program.bind ((sendData v : Handler Str Unit) s) _ = _
  rw [hsend]
  rfl

/-- What the client makes of the line that carries a value: the tokens of the value's
words. -/
theorem decode_data (v : Str) :
    decode (encoding ⟨.data, [v]⟩) = .ok ⟨.data, tokenize none (words v)⟩ := by
  have hname : MessageType.data.name = some "DATA".toList := rfl
  obtain ⟨hword, -, -⟩ := name_spec hname
  have hline : encoding ⟨.data, [v]⟩ = ("DATA".toList ++ ' ' :: v) ++ ['\n'] := by
    simp [encoding, encodeArgs, MessageType.name]
  rw [hline]
  refine decode_of_tokenize hname ?_
  rw [words_append_blank hword]
  rfl

/-- **A value is read back**: the round that reads the line answers it with one that
`decode` turns into a valid `DATA` message with that value. -/
def ReadsBack (addrLe : Str → Str → Bool) (s : ClientConnection Str) (buf v : Str) : Prop :=
  ∃ line s', Answers addrLe s buf line s' ∧ ∃ resp, decode line = .ok resp ∧
    resp.isValid = true ∧ resp.messageType = .data ∧ resp.getValue = v

/-- With a value on top of the stack, `TOP` reads it back if and only if it is the
one token of its own words. -/
theorem readsBack_iff {v : Str} {vs : List Str} (htop : decode (cstr buf) = .ok ⟨.top, []⟩)
    (hlogin : s.hasLoggedIn = true) (hstack : s.hasStack = true) (hv : s.stack = v :: vs)
    (hlen : encodedLength ⟨.data, [v]⟩ ≤ maxEncodedLen) :
    ReadsBack addrLe s buf v ↔ tokenize none (words v) = [v] := by
  have henc : encode ⟨.data, [v]⟩ = .ok (encoding ⟨.data, [v]⟩) := by
    rw [encode_eq (by simp), if_neg (by rw [length_encoding]; omega)]
  have hrun : chatBody (Env.plain addrLe) (.line buf) s =
      .call (.write (encoding ⟨.data, [v]⟩)) fun _ => .ret (.ok .again,
        { s with written := s.written ++ [encoding ⟨.data, [v]⟩] }) := by
    rw [chatBody_line htop, serve, tryCatch_apply,
      chatRequest_taken hlogin rfl (Or.inr ⟨rfl, rfl⟩), bind_apply, top_apply hstack hv henc]
    rfl
  constructor
  · rintro ⟨line, s', ⟨hans, -⟩, resp, hdec, hvalid, hty, hval⟩
    obtain ⟨rfl, hend⟩ := ret_of_write (hrun.symm.trans hans)
    obtain ⟨-, rfl⟩ := Prod.mk.inj hend
    obtain rfl := Except.ok.inj ((decode_data v).symm.trans hdec)
    obtain ⟨a, ha⟩ : ∃ a, tokenize none (words v) = [a] :=
      List.length_eq_one_iff.mp (by simpa [Message.isValid] using hvalid)
    rw [ha] at hval ⊢
    exact congrArg (fun a => [a]) hval
  · intro htok
    exact ⟨_, _, ⟨hrun, rfl⟩, _, decode_data v, by simp [Message.isValid, htok], rfl,
      by simp [Message.getValue, htok]⟩

/-- **A value that has been pushed is read back by the `TOP` that follows if and only
if the line it was pushed with has the words of a value that comes back.** -/
theorem top_returns_iff {topBuf : Str} (hlen : buf.length < maxEncodedLen)
    (hdec : decode (cstr buf) = .ok req) (hpush : req.messageType = .push)
    (hok : Answers addrLe s buf okLine s') (htop : decode (cstr topBuf) = .ok ⟨.top, []⟩) :
    ReadsBack addrLe s' topBuf req.getValue ↔ PushesRestored buf := by
  obtain ⟨hvalid, hlogin, hstack, vs, hv⟩ := pushed_of_answers hdec hpush hok
  obtain ⟨hargs, name, hname, hlong⟩ := decode_spec hdec
  obtain ⟨type, args⟩ := req
  obtain rfl : type = .push := hpush
  obtain ⟨v, rfl⟩ : ∃ v, args = [v] :=
    List.length_eq_one_iff.mp (by simpa [Message.isValid] using hvalid)
  have hwords : ∀ w ∈ argWords buf, IsWord w :=
    fun w hw => isWord_of_mem_words (List.mem_of_mem_tail hw)
  have htok : tokenize none (argWords buf) = [v] := hargs.symm
  have hfits : encodedLength ⟨.data, [v]⟩ ≤ maxEncodedLen := by
    have hlt := length_lt_of_tokenize hwords htok
    obtain rfl := Option.some.inj hname
    have hdata : encodedLength ⟨.data, [v]⟩ = v.length + 6 := by
      simp [encodedLength, MessageType.name]
      omega
    have hname : "PUSH".toList.length = 4 := by decide
    omega
  calc ReadsBack addrLe s' topBuf v
      ↔ tokenize none (words v) = [v] := readsBack_iff htop hlogin hstack hv hfits
    _ ↔ Restored v := ⟨restored_of_tokenize, tokenize_words_restored⟩
    _ ↔ PushesRestored buf := (pushesRestored_iff htok).symm

end Rounds

/-- A connection whose client has logged in, and done nothing else. -/
def loggedIn : ClientConnection Str := { hasLoggedIn := true, written := [okLine] }

example : Answers (fun _ _ => true) {} "LOGIN alice\n".toList okLine loggedIn := ⟨rfl, rfl⟩

/-- `PUSH 1`, and then `TOP`. -/
theorem top_returns_iff_number :
    ReadsBack (fun _ _ => true)
      { loggedIn with stack := ["1".toList], hasStack := true, written := [okLine, okLine] }
      "TOP\n".toList "1".toList ↔ PushesRestored "PUSH 1\n".toList := by
  have hlen : "PUSH 1\n".toList.length < maxEncodedLen := by decide
  have hdec : decode (cstr "PUSH 1\n".toList) = .ok ⟨.push, ["1".toList]⟩ := rfl
  have hok : Answers (fun _ _ => true) loggedIn "PUSH 1\n".toList okLine
      { loggedIn with stack := ["1".toList], hasStack := true, written := [okLine, okLine] } :=
    ⟨rfl, rfl⟩
  exact top_returns_iff hlen hdec rfl hok rfl

/-- **A value with a blank is not read back.** -/
theorem not_always_reads_back :
    ¬∀ (s s' : ClientConnection Str) (buf topBuf : Str) (req : Message),
      buf.length < maxEncodedLen → decode (cstr buf) = .ok req → req.messageType = .push →
      Answers (fun _ _ => true) s buf okLine s' → decode (cstr topBuf) = .ok ⟨.top, []⟩ →
      ReadsBack (fun _ _ => true) s' topBuf req.getValue := by
  intro h
  have hlen : "PUSH \"a b\"\n".toList.length < maxEncodedLen := by decide
  have hdec : decode (cstr "PUSH \"a b\"\n".toList) = .ok ⟨.push, ["a b".toList]⟩ := rfl
  have hok : Answers (fun _ _ => true) loggedIn "PUSH \"a b\"\n".toList okLine
      { loggedIn with stack := ["a b".toList], hasStack := true, written := [okLine, okLine] } :=
    ⟨rfl, rfl⟩
  have htop : decode (cstr "TOP\n".toList) = .ok ⟨.top, []⟩ := rfl
  have hback := h _ _ _ _ _ hlen hdec rfl hok htop
  have htok := (readsBack_iff rfl rfl rfl rfl (by decide)).mp hback
  exact absurd htok (by decide +kernel)

end Server

end Csf
