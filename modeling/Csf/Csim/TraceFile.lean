import Csf.Csim.Simulator

/-!
# The trace file and the program

`read_trace_file` and `main` of `main.cpp`. The fields of a trace are read with `>>`, which
passes over white space and leaves behind what it does not need, and knows nothing of lines.
The loop ends when one of the three fields cannot be read, so what comes first in the file is
processed, whatever comes after it (`Csf.Csim.readTraceFile_append`). The address is a string
that `std::stoul` has to make sense of; nobody catches the exception if it cannot, and then
nothing has been printed (`Csf.Csim.main_of_lines`).
-/

namespace Csf

namespace Csim

open Interaction

/-! ### Reading from a stream -/

/-- `input >> addr_str`: the characters up to the next white space. -/
def readString (s : Str) : Option (Str × Str) :=
  let rest := s.dropWhile isspace
  if rest.isEmpty then none
  else some (rest.takeWhile (!isspace ·), rest.dropWhile (!isspace ·))

/-- `input >> sz`: a number that has 32 bits, with a sign or without, up to the first character
that is not a digit. A negative number is wrapped around. -/
def readNumber (s : Str) : Option (UInt32 × Str) :=
  let rest := s.dropWhile isspace
  let signed := rest.head? == some '-' || rest.head? == some '+'
  let unsigned := if signed then rest.tail else rest
  let digits := unsigned.takeWhile Char.isDigit
  if digits.isEmpty || digitsVal digits ≥ 2 ^ 32 then none
  else
    let n := UInt32.ofNat (digitsVal digits)
    some (if rest.head? == some '-' then -n else n, unsigned.dropWhile Char.isDigit)

/-! ### Hexadecimal numbers -/

/-- What follows `0x`, if a digit does. -/
def afterPrefix : Str → Str
  | '0' :: x :: d :: rest =>
      if (x == 'x' || x == 'X') && isxdigit d then d :: rest else '0' :: x :: d :: rest
  | s => s

/-- `std::stoul(addr_str, nullptr, 16)` -/
def stoul16 (s : Str) : Except StoulExn UInt64 :=
  let rest := s.dropWhile isspace
  let signed := rest.head? == some '-' || rest.head? == some '+'
  let digits := (afterPrefix (if signed then rest.tail else rest)).takeWhile isxdigit
  if digits.isEmpty then .error .invalidArgument
  else if xdigitsVal digits ≥ 2 ^ 64 then .error .outOfRange
  else
    let n := UInt64.ofNat (xdigitsVal digits)
    .ok (if rest.head? == some '-' then -n else n)

/-! ### The trace file -/

/-- `input >> type >> addr_str >> sz`: the first two of them, and what is left. -/
def readFields (s : Str) : Option (Char × Str × Str) := do
  let (type, s) ← readChar s
  let (addrStr, s) ← readString s
  let (_, s) ← readNumber s
  return (type, addrStr, s)

/-- The loop of `read_trace_file`, with at most `n` rounds. -/
def readTraces : ℕ → Str → Except StoulExn (List Trace)
  | 0, _ => .ok []
  | n + 1, s =>
      match readFields s with
      | none => .ok []
      | some (type, addrStr, rest) => do
          let address ← stoul16 addrStr
          let traces ← readTraces n rest
          return ⟨type, address.toUInt32⟩ :: traces

/-- `read_trace_file`, which always returns `true` if it returns. There are not more rounds than
characters. -/
def readTraceFile (input : Str) : Except StoulExn (List Trace) :=
  readTraces (input.length + 1) input

/-! ### The program -/

/-- `CacheSim::print_cache` -/
def printCache (counters : Counters) : Str :=
  "Total loads: ".toList ++ Nat.toDigits 10 counters.totalLoads.toNat ++ "\n".toList ++
  "Total stores: ".toList ++ Nat.toDigits 10 counters.totalStores.toNat ++ "\n".toList ++
  "Load hits: ".toList ++ Nat.toDigits 10 counters.loadHits.toNat ++ "\n".toList ++
  "Load misses: ".toList ++ Nat.toDigits 10 counters.loadMisses.toNat ++ "\n".toList ++
  "Store hits: ".toList ++ Nat.toDigits 10 counters.storeHits.toNat ++ "\n".toList ++
  "Store misses: ".toList ++ Nat.toDigits 10 counters.storeMisses.toNat ++ "\n".toList ++
  "Total cycles: ".toList ++ Nat.toDigits 10 counters.totalCycles.toNat ++ "\n".toList

/-- How the program ends, and what it has written. -/
inductive Ended where
  /-- It returns from `main`. -/
  | exit (code : ℕ) (stdout stderr : Str)
  /-- An exception leaves `main`. -/
  | terminate (exn : StoulExn)
  deriving DecidableEq

/-- What `parse_arguments` writes before it returns `false`: it says nothing about the number of
arguments or the kind of eviction. -/
def invalidParameters (argv : List Str) : Str :=
  match argv with
  | [_, _, _, _, _, _, repl] =>
      if (repl == "lru".toList) ^^ (repl == "fifo".toList) then
        "Invalid cache parameters\n".toList
      else []
  | _ => []

/-- `main` -/
def main (argv : List Str) (stdin : Str) : Ended :=
  match parseArguments argv with
  | .error exn => .terminate exn
  | .ok none => .exit 1 [] (invalidParameters argv ++ "Incorrect input format \n".toList)
  | .ok (some cache) =>
      match readTraceFile stdin with
      | .error exn => .terminate exn
      | .ok traces =>
          let sim := traces.foldl (fun sim t => (sim.accessMemory t).2) (CacheSim.new cache)
          .exit 0 (printCache sim.counters) []

/-! ### The rounds of the loop -/

theorem length_of_readString {s str rest : Str} (h : readString s = some (str, rest)) :
    rest.length ≤ s.length := by
  obtain ⟨-, h⟩ := Option.ite_none_left_eq_some.mp h
  cases h
  exact (List.length_dropWhile_le _ _).trans (List.length_dropWhile_le isspace s)

theorem length_of_readNumber {s rest : Str} {n : UInt32} (h : readNumber s = some (n, rest)) :
    rest.length ≤ s.length := by
  obtain ⟨-, h⟩ := Option.ite_none_left_eq_some.mp h
  obtain ⟨-, rfl⟩ := Prod.mk.inj (Option.some.inj h)
  refine (List.length_dropWhile_le _ _).trans (le_trans ?_ (List.length_dropWhile_le isspace s))
  split
  · exact List.length_tail.trans_le (Nat.sub_le _ _)
  · exact le_rfl

/-- A round reads something. -/
theorem length_of_readFields {s addrStr rest : Str} {type : Char}
    (h : readFields s = some (type, addrStr, rest)) : rest.length < s.length := by
  obtain ⟨⟨type, s₁⟩, hchar, h⟩ := Option.bind_eq_some_iff.mp h
  obtain ⟨⟨addrStr, s₂⟩, hstring, h⟩ := Option.bind_eq_some_iff.mp h
  obtain ⟨⟨size, s₃⟩, hnumber, h⟩ := Option.bind_eq_some_iff.mp h
  have h₁ := length_of_readChar hchar
  have h₂ := length_of_readString hstring
  have h₃ := length_of_readNumber hnumber
  cases h
  omega

/-- More rounds than characters are enough. -/
theorem readTraces_eq {m n : ℕ} {s : Str} (hm : s.length < m) (hn : s.length < n) :
    readTraces m s = readTraces n s := by
  induction m generalizing n s with
  | zero => exact absurd hm (Nat.not_lt_zero _)
  | succ m ih =>
    obtain ⟨n, rfl⟩ := Nat.exists_eq_add_of_lt (Nat.zero_lt_of_lt hn)
    rw [Nat.zero_add] at hn ⊢
    rw [readTraces, readTraces]
    cases hfields : readFields s with
    | none => rfl
    | some fields =>
      obtain ⟨type, addrStr, rest⟩ := fields
      have hlt := length_of_readFields hfields
      dsimp only
      rw [ih (by omega) (by omega : rest.length < n)]

/-- **The file ends** where the three fields cannot be read. -/
theorem readTraceFile_of_none {s : Str} (h : readFields s = none) : readTraceFile s = .ok [] := by
  rw [readTraceFile, readTraces, h]

/-- **One round** reads one access. -/
theorem readTraceFile_of_some {s addrStr rest : Str} {type : Char}
    (h : readFields s = some (type, addrStr, rest)) :
    readTraceFile s = (stoul16 addrStr).bind fun address =>
      (readTraceFile rest).map fun traces => ⟨type, address.toUInt32⟩ :: traces := by
  have hlt := length_of_readFields h
  rw [readTraceFile, readTraces, h, readTraceFile]
  dsimp only
  rw [readTraces_eq hlt (Nat.lt_succ_self _)]
  cases stoul16 addrStr with
  | error exn => rfl
  | ok address => cases readTraces (rest.length + 1) rest <;> rfl

/-- White space before the fields is passed over. -/
theorem readTraceFile_cons_of_isspace {c : Char} (hc : isspace c = true) (s : Str) :
    readTraceFile (c :: s) = readTraceFile s := by
  have hfields : readFields (c :: s) = readFields s := by
    rw [readFields, readFields, readChar, readChar, List.dropWhile_cons_of_pos hc]
  cases h : readFields s with
  | none => rw [readTraceFile_of_none h, readTraceFile_of_none (hfields.trans h)]
  | some fields =>
    obtain ⟨type, addrStr, rest⟩ := fields
    rw [readTraceFile_of_some h, readTraceFile_of_some (hfields.trans h)]

/-! ### Lines -/

/-- **An access as it is written**: the type, the address in hexadecimal digits, and the size,
in a line of their own. -/
structure Line where
  type : Char
  digits : Str
  size : Str

/-- The text of a line. -/
def Line.text (line : Line) : Str :=
  line.type :: ' ' :: '0' :: 'x' :: line.digits ++ ' ' :: line.size ++ ['\n']

/-- The access that a line is of. -/
def Line.trace (line : Line) : Trace := ⟨line.type, .ofNat (xdigitsVal line.digits)⟩

/-- **A line is well written**: the address and the size have digits, and 32 bits. -/
structure Line.WellWritten (line : Line) : Prop where
  type : isspace line.type = false
  digits_ne_nil : line.digits ≠ []
  digits : ∀ c ∈ line.digits, isxdigit c = true
  address_lt : xdigitsVal line.digits < 2 ^ 32
  size_ne_nil : line.size ≠ []
  size : ∀ c ∈ line.size, c.isDigit = true
  size_lt : digitsVal line.size < 2 ^ 32

/-- The part of a list that satisfies a test ends where something does not. -/
theorem takeWhile_append_cons {p : Char → Bool} {s : Str} {c : Char}
    (hs : ∀ c ∈ s, p c = true) (hc : p c = false) (rest : Str) :
    (s ++ c :: rest).takeWhile p = s ∧ (s ++ c :: rest).dropWhile p = c :: rest := by
  rw [List.takeWhile_append_of_pos hs, List.dropWhile_append_of_pos hs,
    List.takeWhile_cons_of_neg (by simp [hc]), List.dropWhile_cons_of_neg (by simp [hc]),
    List.append_nil]
  exact ⟨rfl, rfl⟩

theorem readString_append {str : Str} (hne : str ≠ []) (hstr : ∀ c ∈ str, (!isspace c) = true)
    (rest : Str) : readString (' ' :: (str ++ ' ' :: rest)) = some (str, ' ' :: rest) := by
  obtain ⟨htake, hdrop⟩ := takeWhile_append_cons hstr
    (show (!isspace ' ') = false from rfl) rest
  obtain ⟨c, s, rfl⟩ := List.exists_cons_of_ne_nil hne
  have hc : ¬isspace c = true := by simpa using hstr c List.mem_cons_self
  have hstart : (' ' :: (c :: s ++ ' ' :: rest)).dropWhile isspace = c :: s ++ ' ' :: rest := by
    rw [List.dropWhile_cons_of_pos rfl, List.cons_append, List.dropWhile_cons_of_neg hc]
  rw [readString, hstart, htake, hdrop]
  rfl

theorem readNumber_append {digits : Str} (hne : digits ≠ [])
    (hdigits : ∀ c ∈ digits, c.isDigit = true) (hlt : digitsVal digits < 2 ^ 32) (rest : Str) :
    readNumber (' ' :: (digits ++ '\n' :: rest)) =
      some (.ofNat (digitsVal digits), '\n' :: rest) := by
  obtain ⟨htake, hdrop⟩ := takeWhile_append_cons hdigits
    (show '\n'.isDigit = false from rfl) rest
  obtain ⟨c, s, rfl⟩ := List.exists_cons_of_ne_nil hne
  have hc : c.isDigit = true := hdigits c List.mem_cons_self
  have hsigns : c ≠ '-' ∧ c ≠ '+' := by
    constructor
    · rintro rfl
      exact absurd hc (by decide)
    · rintro rfl
      exact absurd hc (by decide)
  have hstart : (' ' :: (c :: s ++ '\n' :: rest)).dropWhile isspace = c :: s ++ '\n' :: rest := by
    rw [List.dropWhile_cons_of_pos rfl, List.cons_append,
      List.dropWhile_cons_of_neg (by simp [not_isspace_of_isDigit hc])]
  have hhead : (c :: s ++ '\n' :: rest).head? = some c := rfl
  simp only [readNumber, hstart, hhead, Option.some_beq_some, beq_eq_false_iff_ne.mpr hsigns.1,
    beq_eq_false_iff_ne.mpr hsigns.2, Bool.or_false, Bool.false_eq_true, if_false, htake, hdrop]
  rw [if_neg (by simpa using hlt)]

/-- **The fields of a line** are read, up to its end. -/
theorem readFields_text {line : Line} (h : line.WellWritten) (rest : Str) :
    readFields (line.text ++ rest) =
      some (line.type, '0' :: 'x' :: line.digits, '\n' :: rest) := by
  have htext : line.text ++ rest =
      line.type :: ' ' :: (('0' :: 'x' :: line.digits) ++ ' ' :: (line.size ++ '\n' :: rest)) := by
    simp [Line.text]
  have haddr : ∀ c ∈ '0' :: 'x' :: line.digits, (!isspace c) = true := by
    intro c hc
    rcases List.mem_cons.mp hc with rfl | hc
    · rfl
    rcases List.mem_cons.mp hc with rfl | hc
    · rfl
    · rw [not_isspace_of_isxdigit (h.digits c hc), Bool.not_false]
  have hstring := readString_append (by simp) haddr (line.size ++ '\n' :: rest)
  have hnumber := readNumber_append h.size_ne_nil h.size h.size_lt rest
  simp only [htext, readFields, readChar_cons h.type, hstring, hnumber, Option.bind_eq_bind,
    Option.bind_some, Option.pure_def]

/-- **Its address** is what `std::stoul` makes of it. -/
theorem stoul16_digits {line : Line} (h : line.WellWritten) :
    stoul16 ('0' :: 'x' :: line.digits) = .ok (.ofNat (xdigitsVal line.digits)) := by
  obtain ⟨d, ds, hds⟩ := List.exists_cons_of_ne_nil h.digits_ne_nil
  have hd : isxdigit d = true := h.digits d (hds ▸ List.mem_cons_self)
  have hprefix : afterPrefix ('0' :: 'x' :: line.digits) = line.digits := by
    rw [hds, afterPrefix, hd]
    rfl
  have hall : line.digits.takeWhile isxdigit = line.digits :=
    List.takeWhile_eq_self_iff.mpr h.digits
  have hlt := h.address_lt
  have hempty : line.digits.isEmpty = false := by simpa using h.digits_ne_nil
  have hstart : ('0' :: 'x' :: line.digits).dropWhile isspace = '0' :: 'x' :: line.digits := rfl
  have hminus : (('0' :: 'x' :: line.digits).head? == some '-') = false := rfl
  have hplus : (('0' :: 'x' :: line.digits).head? == some '+') = false := rfl
  simp only [stoul16, hstart, hminus, hplus, Bool.or_false, Bool.false_eq_true, if_false, hprefix,
    hall, hempty]
  rw [if_neg (by omega)]

/-- **A line is read** as its access. -/
theorem readTraceFile_text {line : Line} (h : line.WellWritten) (rest : Str) :
    readTraceFile (line.text ++ rest) = (readTraceFile rest).map (line.trace :: ·) := by
  rw [readTraceFile_of_some (readFields_text h rest), stoul16_digits h,
    readTraceFile_cons_of_isspace rfl]
  have haddr : (UInt64.ofNat (xdigitsVal line.digits)).toUInt32 =
      .ofNat (xdigitsVal line.digits) := by
    simp
  rw [Line.trace, ← haddr]
  rfl

/-- **Lines are read** as their accesses, whatever comes after them. -/
theorem readTraceFile_append {lines : List Line} (h : ∀ line ∈ lines, line.WellWritten)
    (rest : Str) : readTraceFile (lines.flatMap (·.text) ++ rest) =
      (readTraceFile rest).map (lines.map (·.trace) ++ ·) := by
  induction lines with
  | nil =>
    rw [List.flatMap_nil, List.nil_append]
    cases readTraceFile rest <;> rfl
  | cons line lines ih =>
    obtain ⟨hline, hlines⟩ := List.forall_mem_cons.mp h
    rw [List.flatMap_cons, List.append_assoc, readTraceFile_text hline, ih hlines]
    cases readTraceFile rest <;> rfl

/-! ### The whole program -/

/-- **What `main` does with well-written lines** and something after them: it is what
`read_trace_file` makes of that. -/
theorem main_eq {argv : List Str} {config : Cache}
    (hargs : parseArguments argv = .ok (some config)) {lines : List Line}
    (h : ∀ line ∈ lines, line.WellWritten) (rest : Str) :
    main argv (lines.flatMap (·.text) ++ rest) =
      match readTraceFile rest with
      | .error exn => .terminate exn
      | .ok traces => .exit 0 (printCache (after CacheSim.accessMemory (.new config)
          (lines.map (·.trace) ++ traces)).counters) [] := by
  rw [main, hargs]
  dsimp only
  rw [readTraceFile_append h]
  cases readTraceFile rest with
  | error exn => rfl
  | ok traces =>
    simp only [Except.map, foldl_eq_after]

/-- **The lines of the file are processed** up to where the fields of an access cannot be read,
and what is printed is what has been counted for them. But if what is there has the fields of
an access and its address is not a number, nothing is printed at all. -/
theorem main_of_lines {argv : List Str} {config : Cache}
    (hargs : parseArguments argv = .ok (some config)) {lines : List Line}
    (h : ∀ line ∈ lines, line.WellWritten) (rest : Str) :
    (readFields rest = none → main argv (lines.flatMap (·.text) ++ rest) =
      .exit 0 (printCache (after CacheSim.accessMemory (.new config)
        (lines.map (·.trace))).counters) []) ∧
    ∀ type addrStr rest' exn, readFields rest = some (type, addrStr, rest') →
      stoul16 addrStr = .error exn →
        main argv (lines.flatMap (·.text) ++ rest) = .terminate exn := by
  rw [main_eq hargs h]
  constructor
  · intro hrest
    rw [readTraceFile_of_none hrest]
    dsimp only
    rw [List.append_nil]
  · intro type addrStr rest' exn hrest haddr
    rw [readTraceFile_of_some hrest, haddr]
    rfl

/-- Two lines and a third one that has no size. -/
theorem main_of_lines_two :
    main (["csim", "1", "2", "16", "write-allocate", "write-back", "lru"].map String.toList)
        "l 0x10 4\ns 0x1A 4\nl 0x20".toList =
      .exit 0 (printCache (after CacheSim.accessMemory (.new ⟨1, 2, 16, true, true, true, false⟩)
        [⟨'l', 16⟩, ⟨'s', 26⟩]).counters) [] := by
  have hargs : parseArguments (["csim", "1", "2", "16", "write-allocate", "write-back",
      "lru"].map String.toList) = .ok (some ⟨1, 2, 16, true, true, true, false⟩) := by
    decide +kernel
  have hlines : ∀ line ∈ [(⟨'l', ['1', '0'], ['4']⟩ : Line), ⟨'s', ['1', 'A'], ['4']⟩],
      line.WellWritten := by
    intro line hline
    rcases List.mem_pair.mp hline with rfl | rfl
    all_goals
      refine ⟨rfl, by decide, List.all_eq_true.mp rfl, ?_, by decide, List.all_eq_true.mp rfl, ?_⟩
      · exact Nat.lt_of_le_of_lt (by decide : _ ≤ 26) (by norm_num)
      · exact Nat.lt_of_le_of_lt (by decide : _ ≤ 4) (by norm_num)
  exact (main_of_lines hargs hlines "l 0x20".toList).1 (by decide +kernel)

end Csim

end Csf
