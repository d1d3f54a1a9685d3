import Csf.Server.Codec

/-!
# Which lines are decoded

`decode` fills a message it is given, and looks at the line first: it throws as long as
it has not touched the message, so a line that is refused leaves it as it was
(`Csf.Server.decodeInto_run`).

A line is taken if it ends with a newline and its first *token* is the name of a message
type. That token need not be the first word: `decode` has taken the double quotes off it
by then, if it had any (`Csf.Server.head_tokenize_iff`). And how long the line is is not
looked at, neither here nor before. So a line is taken or refused as it should be unless
its first word is a name in quotes, or a name in a line that is too long
(`Csf.Server.decodesFramed_iff`).
-/

namespace Csf

namespace Server

/-! ### The message that is filled -/

/-- `Message::Message()` -/
def Message.uninitialized : Message := ⟨.none, []⟩

/-- `Message::set_message_type` -/
def Message.setMessageType (m : Message) (type : MessageType) : Message :=
  { m with messageType := type }

/-- `Message::push_arg` -/
def Message.pushArg (m : Message) (arg : Str) : Message := { m with args := m.args ++ [arg] }

/-- `MessageSerialization::decode`, on the message `msg` it is given to fill. What it has
done to the message before it throws stays done. -/
def decodeInto (encodedMsg : Str) : ExceptT Exn (StateM Message) Unit := do
  if encodedMsg.isEmpty then
    throw (.invalidMessage "Empty message received".toList)
  else if encodedMsg.getLast? != some '\n' then
    throw (.invalidMessage "Message didn't end with a newline".toList)
  else
    match tokenize none (words encodedMsg.dropLast) with
    | [] => throw (.invalidMessage "Empty message received".toList)
    | t :: args =>
        match typeMap.lookup t with
        | none => throw (.invalidMessage ("Unknown message type: ".toList ++ t))
        | some type =>
            set Message.uninitialized
            modify fun msg => msg.setMessageType type
            args.forM fun arg => modify fun msg => msg.pushArg arg

/-- How a call of `decode` ends, and the message after it. -/
def decodeInto.outcome (encodedMsg : Str) (msg : Message) : Except Exn Unit × Message :=
  (decodeInto encodedMsg).run.run msg

/-- Pushing arguments one after the other appends them. -/
theorem run_pushArgs (args : List Str) (msg : Message) :
    ((args.forM fun arg => modify fun msg => msg.pushArg arg :
      ExceptT Exn (StateM Message) Unit).run.run msg) =
        (.ok (), { msg with args := msg.args ++ args }) := by
  induction args generalizing msg with
  | nil => simp; rfl
  | cons a args ih =>
    have h := ih (msg.pushArg a)
    simp only [Message.pushArg, List.append_assoc, List.singleton_append] at h
    exact h

/-- **`decode` fills the message when it returns, and leaves it alone when it throws.** -/
theorem decodeInto_run (s : Str) (msg : Message) :
    decodeInto.outcome s msg = match decode s with
      | .ok m => (.ok (), m)
      | .error e => (.error e, msg) := by
  rw [decodeInto.outcome, decodeInto, decode]
  split
  · rfl
  split
  · rfl
  cases tokenize none (words s.dropLast) with
  | nil => rfl
  | cons t args =>
    dsimp only
    cases typeMap.lookup t with
    | none => rfl
    | some type => exact run_pushArgs args (Message.uninitialized.setMessageType type)

/-! ### The first token -/

/-- The word is the name of a message type. -/
def NamesType (w : Str) : Prop := ∃ type : MessageType, type.name = some w

/-- A word put in double quotes. -/
abbrev quoted (w : Str) : Str := '"' :: w ++ ['"']

theorem NamesType.isWord {w : Str} (h : NamesType w) : IsWord w := (name_spec h.choose_spec).1

theorem NamesType.not_opens {w : Str} (h : NamesType w) : ¬Opens w := (name_spec h.choose_spec).2.1

/-- The names are the words `type_map` has. -/
theorem namesType_iff {w : Str} : NamesType w ↔ ∃ type, typeMap.lookup w = some type := by
  constructor
  · rintro ⟨type, hname⟩
    exact ⟨type, (name_spec hname).2.2⟩
  · rintro ⟨type, hlookup⟩
    have hnames : ∀ p ∈ typeMap, p.2.name = some p.1 := by decide
    obtain ⟨before, after, hmap, -⟩ := List.lookup_eq_some_iff.mp hlookup
    exact ⟨type, hnames (w, type) (by rw [hmap]; simp)⟩

/-- **The first token of a text that is still open** has a blank in it, or the double
quote that it began with: it is the name of no type. -/
theorem head_tokenize_open {q : Str} (hopens : Opens q) (hcloses : ¬Closes q) (ws : List Str) :
    ∃ t ts, tokenize (some q) ws = t :: ts ∧ ¬NamesType t := by
  induction ws generalizing q with
  | nil =>
    refine ⟨unquote q, [], rfl, fun hname => ?_⟩
    rcases unquote_cases hopens with ⟨h, -⟩ | h
    · exact (h ▸ hname).not_opens hopens
    · exact hcloses (h ▸ List.getLast?_concat)
  | cons w ws ih =>
    have hq : q ≠ [] := by
      rintro rfl
      exact absurd hopens (by simp)
    have hopens' : Opens (q ++ ' ' :: w) := by rwa [Opens, List.head?_append_of_ne_nil _ hq]
    rw [tokenize]
    by_cases hc : Closes (q ++ ' ' :: w)
    · rw [if_pos (beq_iff_eq.mpr hc)]
      refine ⟨_, _, rfl, fun hname => ?_⟩
      rcases unquote_cases hopens' with ⟨h, -⟩ | h
      · exact (h ▸ hname).not_opens hopens'
      · -- the blank between the two is in what the quotes have been taken off
        have hblank : ' ' ∈ unquote (q ++ ' ' :: w) := by
          obtain ⟨c, q, rfl⟩ := List.exists_cons_of_ne_nil hq
          have hmem : ' ' ∈ q ++ ' ' :: w := by simp
          have htail : q ++ ' ' :: w = unquote (c :: q ++ ' ' :: w) ++ ['"'] := (List.cons.inj h).2
          rw [htail] at hmem
          simpa using hmem
        exact absurd (hname.isWord.2 ' ' hblank) (by decide)
    · rw [if_neg (mt beq_iff_eq.mp hc)]
      exact ih hopens' hc

/-- **The first token is the name of a type** if and only if the first word is, or is one
in double quotes. -/
theorem head_tokenize_iff (w : Str) (ws : List Str) :
    (∃ t ts, tokenize none (w :: ws) = t :: ts ∧ NamesType t) ↔
      NamesType w ∨ ∃ name, NamesType name ∧ w = quoted name := by
  rw [tokenize]
  by_cases hopens : Opens w
  · have hnot : ¬NamesType w := fun h => h.not_opens hopens
    rw [if_pos (by simpa using hopens)]
    by_cases hcloses : Closes w
    · rw [if_pos (by simpa using hcloses)]
      rcases unquote_cases hopens with ⟨hsame, hquote⟩ | hquoted
      · rw [hsame, hquote hcloses]
        refine iff_of_false ?_ (not_or.mpr ⟨hquote hcloses ▸ hnot, ?_⟩)
        · rintro ⟨t, ts, heq, hname⟩
          exact hnot (hquote hcloses ▸ (List.cons.inj heq).1 ▸ hname)
        · rintro ⟨name, -, heq⟩
          exact absurd (congrArg List.length heq) (by simp)
      · constructor
        · rintro ⟨t, ts, heq, hname⟩
          exact Or.inr ⟨unquote w, (List.cons.inj heq).1 ▸ hname, hquoted⟩
        · rintro (h | ⟨name, hname, heq⟩)
          · exact absurd h hnot
          · obtain rfl : unquote w = name := by rw [heq, unquote_quoted]
            exact ⟨_, _, rfl, hname⟩
    · rw [if_neg (by simpa using hcloses)]
      obtain ⟨t, ts, htok, hname⟩ := head_tokenize_open hopens hcloses ws
      refine iff_of_false ?_ (not_or.mpr ⟨hnot, ?_⟩)
      · rintro ⟨t', ts', heq, hname'⟩
        exact hname ((List.cons.inj (htok.symm.trans heq)).1 ▸ hname')
      · rintro ⟨name, -, rfl⟩
        exact hcloses List.getLast?_concat
  · rw [if_neg (by simpa using hopens)]
    constructor
    · rintro ⟨t, ts, heq, hname⟩
      exact Or.inl ((List.cons.inj heq).1 ▸ hname)
    · rintro (h | ⟨name, -, rfl⟩)
      · exact ⟨w, _, rfl, h⟩
      · exact absurd rfl hopens

/-! ### Lines -/

/-- White space at the end is no part of any word. -/
theorem wordsFrom_concat {c : Char} (hc : isspace c = true) (word line : Str) :
    wordsFrom word (line ++ [c]) = wordsFrom word line := by
  induction line generalizing word with
  | nil => simp [wordsFrom, hc]
  | cons d line ih =>
    rw [List.cons_append, wordsFrom, wordsFrom, ih, ih]

/-- **What `decode` takes**: a line with a newline at its end whose first word is the name
of a type, or one in double quotes. -/
theorem decode_isOk_iff (s : Str) :
    (∃ m, decode s = .ok m) ↔ s.getLast? = some '\n' ∧ ∃ w, (words s).head? = some w ∧
      (NamesType w ∨ ∃ name, NamesType name ∧ w = quoted name) := by
  by_cases hlast : s.getLast? = some '\n'
  · obtain ⟨line, rfl⟩ := List.getLast?_eq_some_iff.mp hlast
    have hwords : words (line ++ ['\n']) = words line := wordsFrom_concat rfl [] line
    rw [decode, if_neg (by simp), if_neg (by simp), List.dropLast_concat, hwords]
    simp only [List.getLast?_concat, true_and]
    rcases hline : words line with _ | ⟨w, ws⟩
    · simp [tokenize]
    · simp only [List.head?_cons, Option.some.injEq, exists_eq_left']
      rw [← head_tokenize_iff w ws]
      rcases tokenize none (w :: ws) with _ | ⟨t, ts⟩
      · exact iff_of_false (by simp) (by simp)
      · simp only [List.cons.injEq, and_assoc, exists_and_left, exists_eq_left', namesType_iff]
        cases typeMap.lookup t with
        | none => exact iff_of_false (by simp) (by simp)
        | some type => exact iff_of_true ⟨_, rfl⟩ ⟨_, rfl⟩
  · refine iff_of_false ?_ fun h => hlast h.1
    rintro ⟨m, hm⟩
    rw [decode] at hm
    split at hm
    · exact absurd hm (by simp)
    · rw [if_pos (by simpa using hlast)] at hm
      exact absurd hm (by simp)

/-- Whatever `decode` throws is an `InvalidMessage`. -/
theorem invalidMessage_of_decode {s : Str} {e : Exn} (h : decode s = .error e) :
    ∃ what, e = .invalidMessage what := by
  rw [decode] at h
  split at h
  · exact ⟨_, (Except.error.inj h).symm⟩
  split at h
  · exact ⟨_, (Except.error.inj h).symm⟩
  split at h
  · exact ⟨_, (Except.error.inj h).symm⟩
  split at h
  · exact ⟨_, (Except.error.inj h).symm⟩
  · exact absurd h (by simp)

/-- **A line that is framed as it should be**: it ends with a newline, is not too long, and
its first word is the name of a message type. -/
structure WellFramed (s : Str) : Prop where
  newline : s.getLast? = some '\n'
  length_le : s.length ≤ maxEncodedLen
  named : ∃ w, (words s).head? = some w ∧ NamesType w

/-- **`decode` takes the line exactly if it is framed as it should be**, and else it throws
an `InvalidMessage` and leaves the message as it was. -/
def DecodesFramed (s : Str) (msg : Message) : Prop :=
  ((decodeInto.outcome s msg).1 = .ok () ↔ WellFramed s) ∧
    (¬WellFramed s → ∃ what, decodeInto.outcome s msg = (.error (.invalidMessage what), msg))

/-- A line that is taken although it should not be: its first word is the name of a type
and it is too long, or its first word is such a name in double quotes. -/
def SlipsThrough (s : Str) : Prop :=
  s.getLast? = some '\n' ∧ ∃ w, (words s).head? = some w ∧
    (NamesType w ∧ maxEncodedLen < s.length ∨ ∃ name, NamesType name ∧ w = quoted name)

/-- **`decode` takes exactly the lines that are framed as they should be and those that
slip through**, whatever the message is that it is to fill. -/
theorem decodesFramed_iff (s : Str) (msg : Message) :
    DecodesFramed s msg ↔ ¬SlipsThrough s := by
  have hquoted : ∀ w, NamesType w → ¬∃ name, NamesType name ∧ w = quoted name := by
    rintro w hw ⟨name, -, rfl⟩
    exact hw.not_opens rfl
  have hok : (∃ m, decode s = .ok m) ↔ WellFramed s ∨ SlipsThrough s := by
    rw [decode_isOk_iff]
    constructor
    · rintro ⟨hlast, w, hw, hname | hname⟩
      · rcases Nat.lt_or_ge maxEncodedLen s.length with hlen | hlen
        · exact Or.inr ⟨hlast, w, hw, Or.inl ⟨hname, hlen⟩⟩
        · exact Or.inl ⟨hlast, hlen, w, hw, hname⟩
      · exact Or.inr ⟨hlast, w, hw, Or.inr hname⟩
    · rintro (⟨hlast, -, w, hw, hname⟩ | ⟨hlast, w, hw, ⟨hname, -⟩ | hname⟩)
      · exact ⟨hlast, w, hw, Or.inl hname⟩
      · exact ⟨hlast, w, hw, Or.inl hname⟩
      · exact ⟨hlast, w, hw, Or.inr hname⟩
  have hexcl : SlipsThrough s → ¬WellFramed s := by
    rintro ⟨-, w, hw, hslip⟩ ⟨-, hlen, w', hw', hname⟩
    obtain rfl : w = w' := Option.some.inj (hw.symm.trans hw')
    rcases hslip with ⟨-, hlong⟩ | hq
    · omega
    · exact hquoted w hname hq
  rw [DecodesFramed, decodeInto_run]
  cases hdec : decode s with
  | ok m =>
    have htaken := hok.mp ⟨m, hdec⟩
    constructor
    · rintro ⟨hiff, -⟩ hslip
      exact hexcl hslip (hiff.mp rfl)
    · intro hslip
      have hframed : WellFramed s := htaken.resolve_right hslip
      exact ⟨iff_of_true rfl hframed, fun h => absurd hframed h⟩
  | error e =>
    have hnot : ¬(WellFramed s ∨ SlipsThrough s) := by
      rw [← hok]
      rintro ⟨m, hm⟩
      exact absurd (hdec.symm.trans hm) (by simp)
    rw [not_or] at hnot
    obtain ⟨what, rfl⟩ := invalidMessage_of_decode hdec
    exact iff_of_true ⟨iff_of_false nofun hnot.1, fun _ => ⟨what, rfl⟩⟩ hnot.2

/-- A request with a key of more than a thousand letters. -/
def tooLongLine : Str := "GET foo ".toList ++ List.replicate 1024 'x' ++ ['\n']

/-- **A line that is too long is decoded.** -/
theorem not_always_decodesFramed : ¬∀ s msg, DecodesFramed s msg := by
  intro h
  obtain ⟨hiff, -⟩ := h tooLongLine Message.uninitialized
  have hlen : tooLongLine.length = 1033 := by decide +kernel
  have hdec : decode tooLongLine = .ok ⟨.get, ["foo".toList, List.replicate 1024 'x']⟩ := by
    decide +kernel
  rw [decodeInto_run, hdec] at hiff
  have hframed := (hiff.mp rfl).length_le
  rw [hlen] at hframed
  exact absurd hframed (by decide)

end Server

end Csf
