import Csf.Server.Response

/-!
# Lines that are answered

What `decode` makes of a line, and from it what a round of the loop of
`chat_with_client` does with an input.

Nothing a handler throws is too long to be reported (`Csf.Server.says_chatRequest`),
so a `catch` block has only one long text to report, the one thrown before any
handler comes in: the first word of a line, when it is the name of no message type.
As long as the client takes its responses, this is the exact condition
(`Csf.Server.one_response_iff`) – **a line is answered by exactly one response
unless its first word is unknown and longer than 993 bytes**, and then it takes
the server down. So does the response to any line, when the client has hung up
(`Csf.Server.not_oneResponse_of_fail`).
-/

namespace Csf

namespace Server

open Interaction Handler

variable {β : Type}

/-! ### Decoding -/

theorem oneLine_wordsFrom {word : Str} (hword : OneLine word) (text : Str) :
    ∀ w ∈ wordsFrom word text, OneLine w := by
  induction text generalizing word with
  | nil =>
    intro w hw
    rw [wordsFrom] at hw
    split at hw
    · exact absurd hw (by simp)
    · obtain rfl := List.mem_singleton.mp hw
      simpa [OneLine] using hword
  | cons c cs ih =>
    intro w hw
    have hnil : OneLine [] := List.not_mem_nil
    rw [wordsFrom] at hw
    split at hw
    · split at hw
      · exact ih hnil w hw
      · rcases List.mem_cons.mp hw with rfl | hw
        · simpa [OneLine] using hword
        · exact ih hnil w hw
    · rename_i hc
      refine ih (fun h => ?_) w hw
      rcases List.mem_cons.mp h with rfl | h
      · exact hc (by decide)
      · exact hword h

theorem oneLine_unquote {q : Str} (hq : OneLine q) : OneLine (unquote q) := by
  rw [unquote]
  split
  · exact fun h => hq (List.mem_of_mem_drop (List.dropLast_subset _ h))
  · exact hq

theorem oneLine_tokenize {ws : List Str} (hws : ∀ w ∈ ws, OneLine w) {open? : Option Str}
    (hopen : ∀ q, open? = some q → OneLine q) : ∀ t ∈ tokenize open? ws, OneLine t := by
  induction ws generalizing open? with
  | nil =>
    intro t ht
    cases open? with
    | none => exact absurd ht List.not_mem_nil
    | some q =>
      obtain rfl := List.mem_singleton.mp ht
      exact oneLine_unquote (hopen q rfl)
  | cons w ws ih =>
    have hw : OneLine w := hws w List.mem_cons_self
    have hws' : ∀ v ∈ ws, OneLine v := fun v hv => hws v (List.mem_cons_of_mem w hv)
    -- going on with no text open, and with the text `q` open
    have closed : ∀ t ∈ tokenize none ws, OneLine t := ih hws' nofun
    have opened : ∀ q, OneLine q → ∀ t ∈ tokenize (some q) ws, OneLine t := fun q hq =>
      ih hws' fun q' hq' => Option.some.inj hq' ▸ hq
    intro t ht
    cases open? with
    | none =>
      rw [tokenize] at ht
      split at ht
      · split at ht
        · rcases List.mem_cons.mp ht with rfl | ht
          · exact oneLine_unquote hw
          · exact closed t ht
        · exact opened w hw t ht
      · rcases List.mem_cons.mp ht with rfl | ht
        · exact hw
        · exact closed t ht
    | some q =>
      have hq : OneLine (q ++ ' ' :: w) :=
        oneLine_append (hopen q rfl) (oneLine_cons (by decide) hw)
      rw [tokenize] at ht
      split at ht
      · rcases List.mem_cons.mp ht with rfl | ht
        · exact oneLine_unquote hq
        · exact closed t ht
      · exact opened _ hq t ht

/-- The unknown word a line has where the name of a message type should be. -/
def unknownType (buf : Str) : Option Str :=
  if (cstr buf).getLast? = some '\n' then
    match tokenize none (words (cstr buf).dropLast) with
    | [] => none
    | word :: _ => if (typeMap.lookup word).isNone then some word else none
  else none

/-- **What `decode` does with a line**: the arguments of a request are single
lines, and a line that is no request is reported in few words, unless there is an
unknown one. -/
theorem decode_cases (buf : Str) :
    (∃ req, decode (cstr buf) = .ok req ∧ (∀ a ∈ req.args, OneLine a) ∧ unknownType buf = none) ∨
      (∃ what, decode (cstr buf) = .error (.invalidMessage what) ∧
        Reportable (.invalidMessage what) ∧ unknownType buf = none) ∨
      ∃ word,
        decode (cstr buf) = .error (.invalidMessage ("Unknown message type: ".toList ++ word)) ∧
        OneLine word ∧ unknownType buf = some word := by
  rw [decode, unknownType]
  split
  · rename_i hempty
    refine Or.inr (Or.inl ⟨_, rfl, by decide, ?_⟩)
    rw [List.isEmpty_iff.mp hempty]
    rfl
  split
  · rename_i hlast
    exact Or.inr (Or.inl ⟨_, rfl, by decide, if_neg (by simpa using hlast)⟩)
  · rename_i hlast
    rw [if_pos (by simpa using hlast)]
    have htokens : ∀ t ∈ tokenize none (words (cstr buf).dropLast), OneLine t :=
      oneLine_tokenize (oneLine_wordsFrom List.not_mem_nil _) nofun
    cases htok : tokenize none (words (cstr buf).dropLast) with
    | nil => exact Or.inr (Or.inl ⟨_, rfl, by decide, rfl⟩)
    | cons t args =>
      rw [htok] at htokens
      dsimp only
      cases htype : typeMap.lookup t with
      | none => exact Or.inr (Or.inr ⟨t, rfl, htokens t List.mem_cons_self, rfl⟩)
      | some type =>
        exact Or.inl ⟨_, rfl, fun a ha => htokens a (List.mem_cons_of_mem t ha), rfl⟩

/-- A line whose first word, if it is unknown, is short enough to be reported. -/
def FitsReport (buf : Str) : Prop := ∀ word, unknownType buf = some word → word.length ≤ 993

/-- A line holding a `DIV`. -/
def IsDiv (buf : Str) : Prop := ∃ req, decode (cstr buf) = .ok req ∧ req.messageType = .div

/-- The inputs that are answered: lines that fit, the `DIV`s left aside. -/
def Answerable : Input → Prop
  | .line buf => FitsReport buf ∧ ¬IsDiv buf
  | _ => False

/-- The inputs on which `chat_with_client` returns in the state `s`. -/
def Input.ends (i : Input) (s : ClientConnection β) : Bool :=
  match i with
  | .line buf =>
      match decode (cstr buf) with
      | .ok req => endsSession req s
      | .error _ => true
  | .eof => true
  | .error => false

/-- How a round of the loop should end that was started in `s`: with one response,
if the input is answerable, and not by an exception then. -/
def RoundDone (i : Input) (s : ClientConnection Str)
    (rs : Except Exn Next × ClientConnection Str) : Prop :=
  Clean rs.2 ∧ match rs.1 with
    | .ok next => (Answerable i → Wrote 1 s rs.2) ∧ Served (i.ends s) s next rs.2
    | .error _ => ¬Answerable i

/-- **One round of the loop** writes one response to an input that is answerable. -/
theorem wp_chatBody {addrLe : Str → Str → Bool} {i : Input} {s : ClientConnection Str}
    (hs : Clean s) :
    (responses (¬Answerable i)).wp (chatBody (Env.plain addrLe) i s)
      (fun _ rs => RoundDone i s rs) () := by
  cases i with
  | error => exact ⟨id, nofun⟩
  | eof => exact ⟨hs, False.elim, fun _ => Or.inr ⟨rfl, .refl s⟩⟩
  | line buf =>
    rw [chatBody, tryCatch_apply, bind_apply, fromExcept_apply, Program.ret_bind]
    rcases decode_cases buf with ⟨req, hreq, hargs, -⟩ | ⟨what, hreq, hrep, -⟩ |
      ⟨word, hreq, hword, hun⟩
    · -- a request
      have hends : Input.ends (.line buf) s = endsSession req s := by rw [Input.ends, hreq]
      rw [hreq, Protocol.wp_bind]
      have hdiv : req.messageType = .div → ¬Answerable (.line buf) :=
        fun hty ha => ha.2 ⟨req, hreq, hty⟩
      refine (responses _).wp_mono (says_chatRequest hargs hdiv hs) ?_
      rintro ⟨⟩ ⟨e | next, s'⟩ ⟨hs', hw, hv⟩
      · refine (responses _).wp_mono (says_catchBlocks hv hs') ?_
        rintro ⟨⟩ ⟨e | next, s''⟩ ⟨hs'', hw', hv'⟩
        · exact hv'.elim
        · refine ⟨hs'', fun _ => ?_, hends ▸ hv'⟩
          simpa using hw.trans hw'
      · exact ⟨hs', fun _ => hw, hends ▸ hv⟩
    · -- no request, for a reason that is short
      have hends : Input.ends (.line buf) s = true := by rw [Input.ends, hreq]
      rw [hreq, Program.ret_bind]
      have hrej : Rejected (Input.ends (.line buf) s) s (.invalidMessage what) s :=
        ⟨hrep, fun _ => Or.inr ⟨hends, .refl s⟩⟩
      refine (responses _).wp_mono (says_catchBlocks hrej hs) ?_
      rintro ⟨⟩ ⟨e | next, s'⟩ ⟨hs', hw, hv⟩
      · exact hv.elim
      · exact ⟨hs', fun _ => hw, hv⟩
    · -- no request, as its first word is unknown, and the report has all of the word
      have hends : Input.ends (.line buf) s = true := by rw [Input.ends, hreq]
      have hone := oneLine_append (a := "Unknown message type: ".toList) (by decide) hword
      rw [hreq, Program.ret_bind]
      by_cases hfits : Answerable (.line buf)
      · have hlen : ("Unknown message type: ".toList ++ word).length ≤ 1015 := by
          have := hfits.1 word hun
          have : "Unknown message type: ".toList.length = 22 := by decide
          rw [List.length_append]
          omega
        have hsend : Says (¬Answerable (.line buf)) 1 Any Never (sendError _) s :=
          .sendError hlen hone
        have h := hsend hs
        rw [sendError_apply hlen] at h
        obtain ⟨hclean, hwrote, -⟩ := h.2 () trivial
        dsimp only
        rw [catchBlocks, bind_apply, sendError_apply hlen, Program.call_bind]
        refine ⟨trivial, fun _ _ => ⟨hclean, fun _ => hwrote, ?_⟩⟩
        exact fun _ => Or.inr ⟨hends, rfl, rfl, rfl⟩
      · -- the report does not fit, and the exception of `encode` leaves the function
        dsimp only
        rw [catchBlocks, bind_apply, sendError, send, bind_apply, fromExcept_apply,
          Program.ret_bind]
        have henc : _ ∨ ∃ line,
            encode ⟨.error, ["Unknown message type: ".toList ++ word]⟩ = .ok line ∧ _ :=
          encode_cases (by simp) (by simpa using hone)
        rcases henc with henc | ⟨line, henc, -⟩
        · rw [henc]
          exact ⟨hs, hfits⟩
        · rw [henc]
          exact ⟨trivial, fun _ _ => ⟨⟨hs.stack, hs.buffer⟩, fun h => absurd h hfits,
            fun _ => Or.inr ⟨hends, rfl, rfl, rfl⟩⟩⟩

/-! ### All sessions at once -/

/-- **A call that obeys keeps the tables clean**, and is answered as it may be. -/
theorem cleanTables_exec {mayEnd : Prop} {σ σ' : Tables Str} {t : SessionId} {c : Call Str}
    {r : c.Result} (hσ : CleanTables σ) (hpre : (responses mayEnd).pre c ())
    (h : c.exec t σ = some (r, σ')) : (responses mayEnd).may c () r ∧ CleanTables σ' := by
  have hclean : ∀ u k v, (σ'.table u).Stores k v → OneLine v := by
    intro u k v hv
    rcases Call.stores_exec h hv with (hv | hv) | ⟨u, key, rfl⟩
    · exact hσ.data _ k v hv
    · exact hσ.tempData _ k v hv
    · exact hpre
  refine ⟨?_, fun u k v hv => hclean u k v (Or.inl hv), fun u k v hv => hclean u k v (Or.inr hv)⟩
  cases c with
  | get u key =>
    obtain ⟨rfl, rfl⟩ := Prod.mk.inj (Option.some.inj h)
    change MayRead key ((σ.table u).get key)
    cases hget : (σ.table u).get key with
    | ok v => exact Or.inr ⟨v, rfl, hclean u key v (.of_get hget)⟩
    | error e =>
      rw [Table.get] at hget
      split at hget
      · cases hget
      · split at hget
        · cases hget
        · exact Or.inl hget.symm
  | terminate => exact r.elim
  | _ => trivial

/-- How a round ends that leaves the session in `l'`. -/
def RoundEnd (i : Input) (l l' : Local Str) : Prop :=
  Clean l'.conn ∧ (Answerable i → Wrote 1 l.conn l'.conn) ∧
    (l'.closed = true → Parted (i.ends l.conn) l.conn l'.conn)

/-- **In every reachable state, what is left of a round ends as it should.** -/
theorem rounds_of_run {addrLe : Str → Str → Bool} {ok : World Str → Act SessionId Input → Prop}
    {w : World Str} (h : (system (serverEnv addrLe)).Run ok start w) :
    System.Ok (fun _ i _ => responses (¬Answerable i)) (fun _ i l l' _ => RoundEnd i l l')
      (fun _ l _ => Clean l.conn) (fun σ _ => CleanTables σ) w := by
  have hclean : Clean {} := ⟨by simp, by simp⟩
  refine System.ok_of_run ?_ ?_ ?_ ⟨fun _ => (), ?_, ?_⟩ h
  · exact fun _ _ _ _ _ hl => hl.1
  · intro w γ t i l p _ _ _ hp hl
    rw [system] at hp
    simp only at hp
    split at hp
    · exact absurd hp (by simp)
    · obtain rfl := Option.some.inj hp
      refine wp_round ((responses _).wp_mono (wp_chatBody hl) ?_)
      rintro ⟨⟩ ⟨_ | next, s'⟩ ⟨hs', hout⟩
      · exact hout
      · exact ⟨hs', hout.1, fun hclosed => hout.2 (by simpa using hclosed)⟩
  · exact fun w γ t i l c k r σ' _ _ hσ hpre hex => cleanTables_exec hσ hpre hex
  · exact ⟨by simp [start], by simp [start]⟩
  · exact fun _ => hclean

/-- **The line is answered by one response**, in runs whose moves all satisfy `ok`: while
session `t` serves the line `buf`, which came in the state `l`, it does not come to the
end of the process, nor does it fail to write to its client, and once it has served it
has written one response. -/
def OneResponse (addrLe : Str → Str → Bool) (ok : World Str → Act SessionId Input → Prop)
    (t : SessionId) (l : Local Str) (buf : Str) : Prop :=
  ∀ w : World Str, (system (serverEnv addrLe)).Run ok start w →
    ∀ p, w.thread t = .run (.line buf) l p →
      (∀ k, p ≠ .call .terminate k) ∧
      (ok w (.fail t) → (system (serverEnv addrLe)).step w (.fail t) = none) ∧
      ∀ l', p = .ret l' → Wrote 1 l.conn l'.conn

/-- A line that is answered at once takes the server down if the client does not take
the response. -/
theorem not_oneResponse_of_fail {addrLe : Str → Str → Bool} {w : World Str}
    (hw : Reachable (serverEnv addrLe) w) {t : SessionId} {l : Local Str}
    (ht : w.thread t = .rest l) (hdown : w.down = false) (hl : l.closed = false) {buf line : Str}
    {k : Unit → Program (Call Str) Call.Result (Except Exn Next × ClientConnection Str)}
    (hprog : chatBody (Env.plain addrLe) (.line buf) l.conn = .call (.write line) k) :
    ¬OneResponse addrLe (fun _ _ => True) t l buf := by
  intro h
  have hstep : (system (serverEnv addrLe)).step w (.input t (.line buf)) =
      some (System.put w t (.run (.line buf) l
        (.call (.write line) fun r => (k r).bind (endRound l))) w.shared false) := by
    rw [System.step, if_neg (by rw [hdown]; decide)]
    simp only [ht, system, hl, Bool.false_eq_true, if_false, Option.map_some, serverEnv, hprog]
    rfl
  have hreach : Reachable (serverEnv addrLe) _ := Relation.ReflTransGen.tail hw ⟨_, trivial, hstep⟩
  have hnone := (h _ hreach _ (Function.update_self ..)).2.1 trivial
  simp [System.step, System.put, system, Call.fallible] at hnone

end Server

end Csf
