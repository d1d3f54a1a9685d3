import Csf.Server.Codec

/-!
# What is sent can be read

Sender and receiver of a message have each a limit of their own. `encode` takes
whatever comes to at most `MAX_ENCODED_LEN` bytes, the newline among them. The
server and the clients read with `Rio_readlineb` into a buffer of that size, of
which the last byte is the terminating NUL: one byte less for the line.

A line of full length is therefore accepted by `encode` and not read as a whole,
and `Csf.Server.arrives_iff` says what else is not: a message without a type has no
line, a newline inside an argument ends the line early, and a NUL ends what the
receiver takes for the text of the line.
-/

namespace Csf

namespace Server

/-! ### Reading a line -/

/-- The loop of `rio_readlineb`, with the number of rounds it may still make: the
bytes stored in the buffer, and what is left in the connection. -/
def readlineLoop : ℕ → Str → Str × Str
  | 0, s => ([], s)
  | _ + 1, [] => ([], [])
  | n + 1, c :: s =>
      if c = '\n' then ([c], s) else (c :: (readlineLoop n s).1, (readlineLoop n s).2)

/-- `rio_readlineb`, on a connection that does not fail: the bytes before the
terminating NUL, and what is left in the connection. The last byte of the buffer
is kept for the NUL. -/
def rioReadlineb (maxlen : ℕ) (s : Str) : Str × Str := readlineLoop (maxlen - 1) s

theorem length_readlineLoop_le (n : ℕ) (s : Str) : (readlineLoop n s).1.length ≤ n := by
  induction n generalizing s with
  | zero => exact Nat.le_refl 0
  | succ n ih =>
    cases s with
    | nil => exact Nat.zero_le (n + 1)
    | cons c s =>
      rw [readlineLoop]
      split
      · exact Nat.succ_le_succ (Nat.zero_le n)
      · exact Nat.succ_le_succ (ih s)

/-- Only the last byte that is read can be a newline. -/
theorem newline_notMem_dropLast (n : ℕ) (s : Str) : '\n' ∉ (readlineLoop n s).1.dropLast := by
  induction n generalizing s with
  | zero => simp [readlineLoop]
  | succ n ih =>
    cases s with
    | nil => simp [readlineLoop]
    | cons c s =>
      rw [readlineLoop]
      split
      · simp
      · next hc =>
        intro hmem
        rcases List.mem_cons.mp (List.mem_of_mem_dropLast hmem) with h | -
        · exact hc h.symm
        · cases hl : (readlineLoop n s).1 with
          | nil => simp [hl] at hmem
          | cons d l =>
            rw [hl, List.dropLast_cons_cons] at hmem
            rcases List.mem_cons.mp hmem with h | h
            · exact hc h.symm
            · exact ih s (hl ▸ h)

/-- **A line that fits is read**, and what follows it stays in the connection. -/
theorem readlineLoop_line {line : Str} {n : ℕ} (h : '\n' ∉ line) (hn : line.length < n)
    (rest : Str) : readlineLoop n (line ++ '\n' :: rest) = (line ++ ['\n'], rest) := by
  induction line generalizing n with
  | nil =>
    obtain ⟨n, rfl⟩ := Nat.exists_eq_add_of_lt hn
    rw [List.nil_append, readlineLoop, if_pos rfl, List.nil_append]
  | cons c line ih =>
    have hc : c ≠ '\n' := fun e => h (e ▸ List.mem_cons_self)
    have hline : '\n' ∉ line := fun hm => h (List.mem_cons_of_mem c hm)
    obtain ⟨n, rfl⟩ : ∃ k, n = k + 1 := ⟨n - 1, by rw [List.length_cons] at hn; omega⟩
    rw [List.cons_append, readlineLoop, if_neg hc,
      ih hline (by rw [List.length_cons] at hn; omega)]
    rfl

theorem isPrefix_cstr (buf : Str) : cstr buf <+: buf := List.takeWhile_prefix _

theorem nul_notMem_cstr (buf : Str) : '\x00' ∉ cstr buf := by
  intro h
  have hne := List.mem_takeWhile_imp h
  simp at hne

theorem cstr_eq_self {s : Str} (h : '\x00' ∉ s) : cstr s = s := by
  rw [cstr, List.takeWhile_eq_self_iff]
  intro c hc
  simpa using fun e : c = '\x00' => h (e ▸ hc)

/-! ### Encodings -/

/-- The length of the encoding of a message: the name and the newline, the
arguments with a blank before each, and the quotes of a text. -/
def encodedLength (m : Message) : ℕ :=
  (m.messageType.name.getD []).length + (m.args.map fun a => a.length + 1).sum +
    (if (m.messageType == .failed || m.messageType == .error) && !m.args.isEmpty then 2 else 0) + 1

theorem length_encodeArgs (quoted : Bool) (args : List Str) :
    (encodeArgs quoted args).length =
      (args.map fun a => a.length + 1).sum + if quoted && !args.isEmpty then 2 else 0 := by
  induction args generalizing quoted with
  | nil => simp [encodeArgs]
  | cons a args ih =>
    cases quoted <;> simp [encodeArgs, ih] <;> omega

theorem length_encoding (m : Message) : (encoding m).length = encodedLength m := by
  rw [encoding, List.length_append, List.length_append, length_encodeArgs, encodedLength]
  simp only [List.length_singleton]
  omega

/-- The arguments are in the line, between blanks and quotes. -/
theorem mem_encodeArgs {c : Char} (hb : c ≠ ' ') (hq : c ≠ '"') (quoted : Bool)
    (args : List Str) : c ∈ encodeArgs quoted args ↔ ∃ a ∈ args, c ∈ a := by
  induction args generalizing quoted with
  | nil => simp [encodeArgs]
  | cons a args ih => cases quoted <;> simp [encodeArgs, ih, hb, hq]

/-- What `encode` has encoded is a line, and decodes to a message of its type. -/
theorem decode_encoding {m : Message} (h : m.messageType ≠ .none) :
    ∃ args, decode (encoding m) = .ok ⟨m.messageType, args⟩ := by
  obtain ⟨name, hname⟩ : ∃ name, m.messageType.name = some name := by
    cases hty : m.messageType with
    | none => exact absurd hty h
    | _ => exact ⟨_, rfl⟩
  obtain ⟨hword, hopen, -⟩ := name_spec hname
  have hfirst : (name.head? == some '"') = false := by simpa using hopen
  have htokens : tokenize none (words (name ++
      encodeArgs (m.messageType == .failed || m.messageType == .error) m.args)) =
      name :: tokenize none (words
        (encodeArgs (m.messageType == .failed || m.messageType == .error) m.args)) := by
    rw [words_append hword fun c => head?_encodeArgs, tokenize, hfirst,
      if_neg Bool.false_ne_true]
  rw [encoding, hname]
  exact ⟨_, decode_of_tokenize hname htokens⟩

/-! ### What arrives -/

/-- **An encoded message arrives**: whatever follows it on the connection, one read
delivers the whole of it, and the receiver decodes that as a message ending in a
newline. -/
def Arrives (s : Str) : Prop :=
  ∀ rest, cstr (rioReadlineb maxEncodedLen (s ++ rest)).1 = s ∧ s.getLast? = some '\n' ∧
    ∃ m, decode (cstr (rioReadlineb maxEncodedLen (s ++ rest)).1) = .ok m

/-- A message that arrives when it is sent: it has a type, neither a newline nor a
NUL in an argument, and leaves one byte of the buffer for the terminating NUL. -/
structure Sendable (m : Message) : Prop where
  typed : m.messageType ≠ .none
  newline : ∀ a ∈ m.args, '\n' ∉ a
  nul : ∀ a ∈ m.args, '\x00' ∉ a
  fits : encodedLength m < maxEncodedLen

/-- What arrives is shorter than the buffer it is read into. -/
theorem Arrives.length_lt {s : Str} (h : Arrives s) : s.length < maxEncodedLen := by
  have hread : cstr (rioReadlineb maxEncodedLen (s ++ [])).1 = s := (h []).1
  have hlen : s.length ≤ maxEncodedLen - 1 :=
    calc s.length ≤ (rioReadlineb maxEncodedLen (s ++ [])).1.length := by
          conv_lhs => rw [← hread]
          exact (isPrefix_cstr _).length_le
      _ ≤ maxEncodedLen - 1 := length_readlineLoop_le _ _
  rw [maxEncodedLen] at hlen ⊢
  omega

/-- What arrives has its one newline at the end. -/
theorem Arrives.newline_notMem {line : Str} (h : Arrives (line ++ ['\n'])) : '\n' ∉ line := by
  have hread := (h []).1
  obtain ⟨t, ht⟩ := isPrefix_cstr (rioReadlineb maxEncodedLen (line ++ ['\n'] ++ [])).1
  rw [hread] at ht
  have hlast := newline_notMem_dropLast (maxEncodedLen - 1) (line ++ ['\n'] ++ [])
  rw [← rioReadlineb, ← ht, List.append_assoc,
    List.dropLast_append_of_ne_nil (by simp)] at hlast
  exact fun hm => hlast (List.mem_append_left _ hm)

theorem Arrives.nul_notMem {s : Str} (h : Arrives s) : '\x00' ∉ s := by
  rw [← (h []).1]
  exact nul_notMem_cstr _

/-- A character that is neither in the arguments nor one the encoder adds is not in
the line. -/
theorem notMem_of_encoding {m : Message} {line : Str} (hline : encoding m = line ++ ['\n'])
    {c : Char} (hc : c ≠ ' ' ∧ c ≠ '"')
    (hname : ∀ type : MessageType, c ∉ type.name.getD []) (h : ∀ a ∈ m.args, c ∉ a) : c ∉ line := by
  obtain rfl : line = _ := (List.append_left_injective _ hline).symm
  intro hm
  rcases List.mem_append.mp hm with hm | hm
  · exact hname m.messageType hm
  · obtain ⟨a, ha, hca⟩ := (mem_encodeArgs hc.1 hc.2 _ _).mp hm
    exact h a ha hca

/-- **What `encode` has accepted arrives if and only if the message is
`Csf.Server.Sendable`.** -/
theorem arrives_iff {m : Message} {s : Str} (henc : encode m = .ok s) :
    Arrives s ↔ Sendable m := by
  constructor
  · intro h
    have hty : m.messageType ≠ .none := by
      intro hty
      have hnil : encode m = .ok [] := by rw [encode, hty]; rfl
      obtain rfl := Except.ok.inj (henc.symm.trans hnil)
      exact absurd (h []).2.1 (by simp)
    rw [encode_eq hty] at henc
    split at henc
    · exact absurd henc (by simp)
    obtain rfl := Except.ok.inj henc
    have hnew := h.newline_notMem
    refine ⟨hty, fun a ha hm => ?_, fun a ha hm => ?_, length_encoding m ▸ h.length_lt⟩
    · exact hnew (List.mem_append_right _
        ((mem_encodeArgs (by decide) (by decide) _ _).mpr ⟨a, ha, hm⟩))
    · exact h.nul_notMem (List.mem_append_left _ (List.mem_append_right _
        ((mem_encodeArgs (by decide) (by decide) _ _).mpr ⟨a, ha, hm⟩)))
  · rintro ⟨hty, hnew, hnul, hfits⟩
    have hlen := length_encoding m
    obtain rfl : s = encoding m := by
      rw [encode_eq hty, if_neg (by omega)] at henc
      exact (Except.ok.inj henc).symm
    -- The line is the encoding without its newline.
    obtain ⟨line, hline⟩ : ∃ line, encoding m = line ++ ['\n'] := ⟨_, rfl⟩
    have hread : ∀ rest, (rioReadlineb maxEncodedLen (encoding m ++ rest)).1 = encoding m := by
      intro rest
      rw [hline, List.append_assoc, List.singleton_append, rioReadlineb, readlineLoop_line]
      · exact notMem_of_encoding hline (by decide) (by rintro ⟨⟩ <;> decide) hnew
      · rw [hline, List.length_append, List.length_singleton] at hlen
        omega
    have hstr : cstr (encoding m) = encoding m := by
      rw [hline]
      refine cstr_eq_self fun hm => ?_
      rcases List.mem_append.mp hm with hm | hm
      · exact notMem_of_encoding hline (by decide) (by rintro ⟨⟩ <;> decide) hnul hm
      · exact absurd (List.mem_singleton.mp hm) (by decide)
    obtain ⟨args, hdec⟩ := decode_encoding hty
    intro rest
    rw [hread rest, hstr]
    exact ⟨rfl, hline ▸ List.getLast?_concat, _, hdec⟩

/-- A request that arrives. -/
theorem arrives_iff_login : Arrives "LOGIN alice\n".toList ↔ Sendable ⟨.login, ["alice".toList]⟩ :=
  arrives_iff (by decide +kernel)

/-- The longest message the unit tests encode. -/
def longGetReq : Message := ⟨.get, [List.replicate 509 'y', List.replicate 509 'y']⟩

/-- **The longest message that is encoded does not arrive.** -/
theorem not_always_arrives : ¬∀ m s, encode m = .ok s → Arrives s := by
  intro h
  have hlen : (encoding longGetReq).length = 1024 := by
    rw [length_encoding]
    decide +kernel
  have henc : encode longGetReq = .ok (encoding longGetReq) := by
    rw [encode_eq (by decide), if_neg (by rw [hlen]; decide)]
  have hlt := (h _ _ henc).length_lt
  rw [hlen] at hlt
  exact absurd hlt (by decide)

end Server

end Csf
