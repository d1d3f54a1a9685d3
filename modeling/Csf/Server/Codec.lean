import Csf.Server.Serialization

/-!
# What is encoded is decoded again

The decoder reads a line word by word and glues the words of a quoted text back
together, so everything here is about *words*: strings that are not empty and have
no white space (`Csf.Server.IsWord`).

Reading the words off a line undoes joining them with single blanks
(`Csf.Server.words_joined`), and that is how the encoder puts arguments together.
What the tokenizer makes of words is settled by three rules: words that do not
begin with a double quote stay as they are (`Csf.Server.tokenize_plain`), an open
text swallows the words up to the first one that ends with a double quote
(`Csf.Server.tokenize_glue`), and a text in quotes comes out as one token, without
them (`Csf.Server.tokenize_quoted`).

The two together are the round trip on the messages the protocol has
(`Csf.Server.Conforming`).
-/

namespace Csf

namespace Server

/-! ### Words -/

/-- **A word**: not empty, and without white space. -/
def IsWord (w : Str) : Prop := w ≠ [] ∧ ∀ c ∈ w, isspace c = false

instance (w : Str) : Decidable (IsWord w) :=
  decidable_of_iff (w ≠ [] ∧ w.all (fun c => !isspace c) = true) (by simp [IsWord])

theorem isspace_quote : isspace '"' = false := by decide

theorem IsWord.cons_quote {w : Str} (h : ∀ c ∈ w, isspace c = false) : IsWord ('"' :: w) :=
  ⟨by simp, fun c hc => (List.mem_cons.mp hc).elim (fun hq => hq ▸ isspace_quote) (h c)⟩

theorem IsWord.append_quote {w : Str} (h : ∀ c ∈ w, isspace c = false) : IsWord (w ++ ['"']) :=
  ⟨by simp, fun c hc => (List.mem_append.mp hc).elim (h c) fun hq =>
    (List.mem_singleton.mp hq) ▸ isspace_quote⟩

/-- The characters of a word go to the word being read. -/
theorem wordsFrom_append {w : Str} (h : ∀ c ∈ w, isspace c = false) (word rest : Str) :
    wordsFrom word (w ++ rest) = wordsFrom (w.reverse ++ word) rest := by
  induction w generalizing word with
  | nil => rfl
  | cons c w ih =>
    have hc : isspace c = false := h c List.mem_cons_self
    rw [List.cons_append, wordsFrom, hc, if_neg Bool.false_ne_true,
      ih fun d hd => h d (List.mem_cons_of_mem c hd)]
    simp

/-- A word is read up to the white space after it. -/
theorem words_append {w rest : Str} (hw : IsWord w)
    (hrest : ∀ c, rest.head? = some c → isspace c = true) :
    words (w ++ rest) = w :: words rest := by
  have hne : (w.reverse ++ []).isEmpty = false := by simpa using hw.1
  rw [words, wordsFrom_append hw.2]
  cases rest with
  | nil => simp [wordsFrom, words, hw.1]
  | cons c rest =>
    have hc : isspace c = true := hrest c rfl
    rw [words, wordsFrom, wordsFrom, hc, if_pos rfl, if_pos rfl, hne, if_neg Bool.false_ne_true]
    simp

@[simp] theorem words_nil : words [] = [] := rfl

/-- Blanks before a word are skipped. -/
@[simp] theorem words_blank (s : Str) : words (' ' :: s) = words s := rfl

theorem words_append_blank {w : Str} (hw : IsWord w) (s : Str) :
    words (w ++ ' ' :: s) = w :: words s := by
  rw [words_append hw, words_blank]
  intro c hc
  exact Option.some.inj hc ▸ rfl

/-- What is being read is a word, and so is all that is read after it. -/
theorem isWord_of_mem_wordsFrom {s word w : Str} (hword : ∀ c ∈ word, isspace c = false)
    (hw : w ∈ wordsFrom word s) : IsWord w := by
  have hrev : word.isEmpty = false → IsWord word.reverse := fun hne =>
    ⟨by simpa using hne, fun c hc => hword c (List.mem_reverse.mp hc)⟩
  have hnil : ∀ c ∈ ([] : Str), isspace c = false := fun c hc => absurd hc (by simp)
  induction s generalizing word with
  | nil =>
    rw [wordsFrom] at hw
    split at hw
    · exact absurd hw (by simp)
    · next hne => exact (List.mem_singleton.mp hw) ▸ hrev (by simpa using hne)
  | cons c s ih =>
    rw [wordsFrom] at hw
    split at hw
    · split at hw
      · exact ih hnil hw (by simp)
      · next hne =>
        rcases List.mem_cons.mp hw with rfl | hw
        · exact hrev (by simpa using hne)
        · exact ih hnil hw (by simp)
    · next hc =>
      have hword' : ∀ d ∈ c :: word, isspace d = false := fun d hd =>
        (List.mem_cons.mp hd).elim (fun h => h ▸ by simpa using hc) (hword d)
      exact ih hword' hw fun _ =>
        ⟨by simp, fun d hd => hword' d (List.mem_reverse.mp hd)⟩

theorem isWord_of_mem_words {s w : Str} (hw : w ∈ words s) : IsWord w :=
  isWord_of_mem_wordsFrom (fun c hc => absurd hc (by simp)) hw

/-! ### Words joined by blanks -/

theorem encodeArgs_cons (a : Str) (as : List Str) :
    encodeArgs false (a :: as) = ' ' :: a ++ encodeArgs false as := by
  simp [encodeArgs]

theorem encodeArgs_append (as bs : List Str) :
    encodeArgs false (as ++ bs) = encodeArgs false as ++ encodeArgs false bs := by
  induction as with
  | nil => rfl
  | cons a as ih => rw [List.cons_append, encodeArgs_cons, encodeArgs_cons, ih, List.append_assoc]

/-- What joins to a text: its first word, then the others with a blank before each. -/
theorem intercalate_cons (w : Str) (ws : List Str) :
    [' '].intercalate (w :: ws) = w ++ encodeArgs false ws := by
  induction ws generalizing w with
  | nil => simp [encodeArgs]
  | cons u us ih =>
    rw [List.intercalate_cons_cons, ih, encodeArgs_cons]
    simp

theorem head?_encodeArgs {quoted : Bool} {as : List Str} {c : Char}
    (h : (encodeArgs quoted as).head? = some c) : isspace c = true := by
  cases as with
  | nil => simp [encodeArgs] at h
  | cons a as =>
    rw [encodeArgs, List.cons_append, List.head?_cons] at h
    exact (Option.some.inj h) ▸ rfl

/-- **Reading words undoes joining them.** -/
theorem words_encodeArgs {ws : List Str} (h : ∀ w ∈ ws, IsWord w) :
    words (encodeArgs false ws) = ws := by
  induction ws with
  | nil => rfl
  | cons w ws ih =>
    rw [encodeArgs_cons, List.cons_append, words_blank,
      words_append (h w List.mem_cons_self) fun c => head?_encodeArgs,
      ih fun u hu => h u (List.mem_cons_of_mem w hu)]

theorem words_joined {w : Str} {ws : List Str} (hw : IsWord w) (h : ∀ u ∈ ws, IsWord u) :
    words (w ++ encodeArgs false ws) = w :: ws := by
  rw [words_append hw fun c => head?_encodeArgs, words_encodeArgs h]

theorem words_of_isWord {w : Str} (h : IsWord w) : words w = [w] := by
  rw [← List.append_nil w, words_append h (by simp), words_nil, List.append_nil]

/-! ### The tokenizer -/

/-- Whether a word opens a text: it begins with a double quote. -/
abbrev Opens (w : Str) : Prop := w.head? = some '"'

/-- Whether a word closes a text: it ends with a double quote. -/
abbrev Closes (w : Str) : Prop := w.getLast? = some '"'

/-- Words that do not begin with a double quote are tokens. -/
theorem tokenize_plain {ws : List Str} (h : ∀ w ∈ ws, ¬Opens w) : tokenize none ws = ws := by
  induction ws with
  | nil => rfl
  | cons w ws ih =>
    have hw : (w.head? == some '"') = false := by simpa using h w List.mem_cons_self
    rw [tokenize, hw, if_neg Bool.false_ne_true, ih fun u hu => h u (List.mem_cons_of_mem w hu)]

/-- The last character of a text that a word has been glued to is the word's. -/
theorem getLast?_glue (q : Str) {w : Str} (hw : w ≠ []) :
    (q ++ ' ' :: w).getLast? = w.getLast? := by
  obtain ⟨c, w, rfl⟩ := List.exists_cons_of_ne_nil hw
  rw [List.getLast?_append, List.getLast?_cons_cons, List.getLast?_cons]
  rfl

/-- **An open text swallows the words that do not close it.** -/
theorem tokenize_glue {us : List Str} (h : ∀ u ∈ us, IsWord u ∧ ¬Closes u) (q : Str)
    (ws : List Str) :
    tokenize (some q) (us ++ ws) = tokenize (some (q ++ encodeArgs false us)) ws := by
  induction us generalizing q with
  | nil => simp [encodeArgs]
  | cons u us ih =>
    obtain ⟨hword, hopen⟩ := h u List.mem_cons_self
    have hlast : ((q ++ ' ' :: u).getLast? == some '"') = false := by
      rw [getLast?_glue q hword.1]
      simpa using hopen
    rw [List.cons_append, tokenize, hlast, if_neg Bool.false_ne_true,
      ih (fun u' hu' => h u' (List.mem_cons_of_mem u hu')), encodeArgs_cons]
    simp

/-- A text in quotes ends with one. -/
theorem getLast?_quoted (v : Str) : (('"' :: v ++ ['"']).getLast? == some '"') = true := by
  rw [List.getLast?_concat, beq_self_eq_true]

/-- Quotes that have been put around a text are taken off again. -/
theorem unquote_quoted (v : Str) : unquote ('"' :: v ++ ['"']) = v := by
  rw [unquote, getLast?_quoted]
  simp

/-- The text that an opening quote is taken off either has none at its end, or is
the quote alone, or loses one at each end. -/
theorem unquote_cases {q : Str} (h : Opens q) :
    (unquote q = q ∧ (Closes q → q = ['"'])) ∨ q = '"' :: unquote q ++ ['"'] := by
  obtain ⟨c, q, rfl⟩ : ∃ c r, q = c :: r := by
    cases q with
    | nil => exact absurd h (by simp)
    | cons c r => exact ⟨c, r, rfl⟩
  obtain rfl : c = '"' := Option.some.inj h
  by_cases hlast : Closes ('"' :: q)
  · rcases List.eq_nil_or_concat' q with rfl | ⟨r, c, rfl⟩
    · exact Or.inl ⟨rfl, fun _ => rfl⟩
    · obtain rfl : c = '"' := by
        rw [Closes, ← List.cons_append, List.getLast?_concat] at hlast
        exact Option.some.inj hlast
      refine Or.inr ?_
      rw [← List.cons_append, unquote_quoted]
  · have hne : (('"' :: q).getLast? == some '"') = false := by simpa using hlast
    refine Or.inl ⟨?_, fun hc => absurd hc hlast⟩
    rw [unquote, hne, Bool.and_false, if_neg Bool.false_ne_true]

/-- **A text in quotes is one token**, when none of its words but the last ends
with a double quote. -/
theorem tokenize_quoted {us : List Str} {u : Str} (hus : ∀ u ∈ us, IsWord u ∧ ¬Closes u)
    (hu : IsWord u) :
    tokenize none (words ('"' :: [' '].intercalate (us ++ [u]) ++ ['"'])) =
      [[' '].intercalate (us ++ [u])] := by
  cases us with
  | nil =>
    have hword : IsWord ('"' :: u ++ ['"']) := IsWord.append_quote (IsWord.cons_quote hu.2).2
    rw [List.nil_append, intercalate_cons, encodeArgs, List.append_nil, words_of_isWord hword,
      tokenize, getLast?_quoted, unquote_quoted, if_pos rfl, if_pos (by simp), tokenize]
  | cons w us =>
    obtain ⟨hw, hopen⟩ := hus w List.mem_cons_self
    have hus' : ∀ u ∈ us, IsWord u ∧ ¬Closes u := fun u' h => hus u' (List.mem_cons_of_mem w h)
    have hlast : IsWord (u ++ ['"']) := IsWord.append_quote hu.2
    -- The quotes go to the first and to the last word.
    have htext : '"' :: [' '].intercalate (w :: us ++ [u]) ++ ['"'] =
        ('"' :: w) ++ encodeArgs false (us ++ [u ++ ['"']]) := by
      simp [intercalate_cons, encodeArgs_append, encodeArgs]
    have hwords : words ('"' :: [' '].intercalate (w :: us ++ [u]) ++ ['"']) =
        ('"' :: w) :: (us ++ [u ++ ['"']]) := by
      rw [htext]
      refine words_joined (IsWord.cons_quote hw.2) fun u' hu' => ?_
      rcases List.mem_append.mp hu' with h | h
      · exact (hus' u' h).1
      · exact (List.mem_singleton.mp h) ▸ hlast
    have hfirst : (('"' :: w).getLast? == some '"') = false := by
      obtain ⟨c, w, rfl⟩ := List.exists_cons_of_ne_nil hw.1
      simpa [List.getLast?_cons_cons] using hopen
    rw [hwords, tokenize, hfirst, if_pos (by simp), if_neg Bool.false_ne_true, tokenize_glue hus',
      tokenize, getLast?_glue _ hlast.1, if_pos (by simp), tokenize]
    have hq : '"' :: w ++ encodeArgs false us ++ ' ' :: (u ++ ['"']) =
        '"' :: [' '].intercalate (w :: us ++ [u]) ++ ['"'] := by
      simp [intercalate_cons, encodeArgs_append, encodeArgs]
    rw [hq, unquote_quoted]

/-! ### The round trip -/

/-- What `encode` produces before it looks at the length: the encoding of a
message. -/
def encoding (m : Message) : Str :=
  m.messageType.name.getD [] ++
    encodeArgs (m.messageType == .failed || m.messageType == .error) m.args ++ ['\n']

theorem encode_eq {m : Message} (h : m.messageType ≠ .none) :
    encode m =
      if (encoding m).length > maxEncodedLen then
        .error (.invalidMessage "Encoded message exceeds maximum size".toList)
      else .ok (encoding m) := by
  obtain ⟨type, args⟩ := m
  cases type with
  | none => exact absurd rfl h
  | _ => rfl

/-- The name of a type is a word that does not begin with a double quote, and the
name the decoder has in its table. -/
theorem name_spec {type : MessageType} {name : Str} (h : type.name = some name) :
    IsWord name ∧ ¬Opens name ∧ typeMap.lookup name = some type := by
  cases type with
  | none => exact absurd h (by simp [MessageType.name])
  | _ =>
    obtain rfl := Option.some.inj h
    decide +kernel

/-- A line whose tokens are the name of a type and its arguments is decoded as
that. -/
theorem decode_of_tokenize {type : MessageType} {name line : Str} {args : List Str}
    (hname : type.name = some name) (h : tokenize none (words line) = name :: args) :
    decode (line ++ ['\n']) = .ok ⟨type, args⟩ := by
  have hlast : (line ++ ['\n']).getLast? = some '\n' := List.getLast?_concat
  simp only [decode, hlast, List.dropLast_concat, h, (name_spec hname).2.2]
  simp

/-- The text of a response: words without double quotes, a single blank between
any two. -/
def IsText (t : Str) : Prop :=
  ∃ ws : List Str, ws ≠ [] ∧ (∀ w ∈ ws, IsWord w ∧ '"' ∉ w) ∧ t = [' '].intercalate ws

/-- **The messages the protocol has**: words for arguments, none beginning with a
double quote, and a text in a `FAILED` or an `ERROR`. -/
def Conforming (m : Message) : Prop :=
  if m.messageType = .failed ∨ m.messageType = .error then ∀ a ∈ m.args, IsText a
  else ∀ a ∈ m.args, IsWord a ∧ ¬Opens a

/-- The arguments of a request come out as the tokens they were. -/
theorem tokenize_encodeArgs {name : Str} {args : List Str} (hname : IsWord name ∧ ¬Opens name)
    (hargs : ∀ a ∈ args, IsWord a ∧ ¬Opens a) :
    tokenize none (words (name ++ encodeArgs false args)) = name :: args := by
  rw [words_joined hname.1 fun a ha => (hargs a ha).1]
  refine tokenize_plain fun w hw => ?_
  rcases List.mem_cons.mp hw with rfl | hw
  · exact hname.2
  · exact (hargs w hw).2

/-- The text of a response comes out as one token. -/
theorem tokenize_isText {name t : Str} (hname : IsWord name ∧ ¬Opens name) (ht : IsText t) :
    tokenize none (words (name ++ encodeArgs true [t])) = [name, t] := by
  obtain ⟨ws, hne, hws, rfl⟩ := ht
  obtain ⟨us, u, rfl⟩ : ∃ us u, ws = us ++ [u] := ⟨_, _, (List.dropLast_append_getLast hne).symm⟩
  have hopen : (name.head? == some '"') = false := by simpa using hname.2
  have hus : ∀ w ∈ us, IsWord w ∧ ¬Closes w := fun w hw =>
    have h := hws w (List.mem_append_left _ hw)
    ⟨h.1, fun hc => h.2 (List.mem_of_getLast? hc)⟩
  have hu : IsWord u := (hws u (by simp)).1
  have hwords : words (name ++ encodeArgs true [[' '].intercalate (us ++ [u])]) =
      name :: words ('"' :: [' '].intercalate (us ++ [u]) ++ ['"']) := by
    have htext : encodeArgs true [[' '].intercalate (us ++ [u])] =
        ' ' :: ('"' :: [' '].intercalate (us ++ [u]) ++ ['"']) := by
      simp [encodeArgs]
    rw [words_append hname.1 fun c => head?_encodeArgs, htext, words_blank]
  rw [hwords, tokenize, hopen, if_neg Bool.false_ne_true, tokenize_quoted hus hu]

/-- **The round trip**: a message of the protocol whose encoding is not too long is
encoded, and decoding what comes out gives the message back. -/
theorem decode_encode {m : Message} (hvalid : m.isValid = true) (hconf : Conforming m)
    (hlen : (encoding m).length ≤ maxEncodedLen) :
    ∃ s, encode m = .ok s ∧ decode s = .ok m := by
  obtain ⟨type, args⟩ := m
  have hty : type ≠ .none := by
    rintro rfl
    exact absurd hvalid (by simp [Message.isValid])
  obtain ⟨name, hname⟩ : ∃ name, type.name = some name := by
    cases type with
    | none => exact absurd rfl hty
    | _ => exact ⟨_, rfl⟩
  obtain ⟨hword, hopen, -⟩ := name_spec hname
  refine ⟨encoding ⟨type, args⟩, ?_, ?_⟩
  · rw [encode_eq hty, if_neg (by omega)]
  rw [encoding, hname]
  refine decode_of_tokenize hname ?_
  by_cases hq : type = .failed ∨ type = .error
  · -- A response with a text has just the one argument.
    obtain ⟨t, rfl⟩ : ∃ t, args = [t] := by
      have hone : args.length = 1 := by
        rcases hq with rfl | rfl <;> simpa [Message.isValid] using hvalid
      exact List.length_eq_one_iff.mp hone
    have hquoted : (type == .failed || type == .error) = true := by simpa using hq
    have ht : IsText t := by
      rw [Conforming, if_pos hq] at hconf
      exact hconf t List.mem_cons_self
    rw [hquoted]
    exact tokenize_isText ⟨hword, hopen⟩ ht
  · have hquoted : (type == .failed || type == .error) = false := by simpa using hq
    rw [Conforming, if_neg hq] at hconf
    rw [hquoted]
    exact tokenize_encodeArgs ⟨hword, hopen⟩ hconf

/-- The text of the unit test for an `ERROR`. -/
theorem decode_encode_error :
    ∃ s, encode ⟨.error, ["Wow, something really got messed up".toList]⟩ = .ok s ∧
      decode s = .ok ⟨.error, ["Wow, something really got messed up".toList]⟩ := by
  refine decode_encode rfl ?_ (by decide +kernel)
  rw [Conforming, if_pos (Or.inr rfl)]
  intro a ha
  obtain rfl := List.mem_singleton.mp ha
  exact ⟨words "Wow, something really got messed up".toList, by decide +kernel,
    by decide +kernel, by decide +kernel⟩

end Server

end Csf
