import Csf.Csim.Arguments

/-!
# The documented arguments

Three numbers, written in decimal digits, and a policy of each of three kinds, spelled out:
that is how the comments of `main.cpp` and `cache_sim.h` describe the arguments
(`Csf.Csim.Documented`). What is written like that is accepted or refused as it should be.

`parse_arguments` is less strict about how they are written. `std::stoul` passes over white
space, takes a sign and stops at the first character that is not a digit; what it has read
is cut to 32 bits; and a policy that is not the one a comparison asks for is taken to be
the other one. Only the kind of eviction is compared with both its names. So arguments that
pass the checks that way should have been refused, unless they are well written
(`Csf.Csim.parsesDocumented_iff`).
-/

namespace Csf

namespace Csim

/-- Seven arguments, the name of the program first. -/
structure Arguments where
  /-- `argv[0]` -/
  program : Str
  /-- `argv[1]` -/
  numSets : Str
  /-- `argv[2]` -/
  blockNumPerSet : Str
  /-- `argv[3]` -/
  blockSize : Str
  /-- `argv[4]` -/
  wa : Str
  /-- `argv[5]` -/
  wb : Str
  /-- `argv[6]` -/
  repl : Str

/-- `argv` -/
def Arguments.argv (args : Arguments) : List Str :=
  [args.program, args.numSets, args.blockNumPerSet, args.blockSize, args.wa, args.wb, args.repl]

/-! ### What is documented -/

/-- **A decimal numeral** of the number. -/
structure Denotes (s : Str) (n : UInt32) : Prop where
  ne_nil : s ≠ []
  digits : ∀ c ∈ s, c.isDigit = true
  value : digitsVal s = n.toNat

/-- **The arguments describe the configuration**, as the documentation has it. -/
structure Documented (args : Arguments) (config : Cache) : Prop where
  /-- The numbers are powers of two, the third at least 4, there is one way of eviction,
  and no-write-allocate does not go with write-back. -/
  accepted : config.Accepted
  numSets : Denotes args.numSets config.numSets
  blockNumPerSet : Denotes args.blockNumPerSet config.blockNumPerSet
  blockSize : Denotes args.blockSize config.blockSize
  wa : args.wa =
    if config.isWriteAllocate then "write-allocate".toList else "no-write-allocate".toList
  wb : args.wb = if config.isWriteBack then "write-back".toList else "write-through".toList
  repl : args.repl = if config.isLru then "lru".toList else "fifo".toList

/-- **`parse_arguments` returns `true` exactly for the documented arguments**, and then the
fields are what the arguments say. -/
def ParsesDocumented (args : Arguments) : Prop :=
  ((∃ config, parseArguments args.argv = .ok (some config)) ↔ ∃ config, Documented args config) ∧
    ∀ config, parseArguments args.argv = .ok (some config) → Documented args config

/-! ### What is accepted -/

/-- The number that the code makes of an argument: what `stoul` reads, cut to 32 bits. -/
def numberRead (s : Str) : Option ℕ :=
  match stoul s with
  | .ok n => some n.toUInt32.toNat
  | .error _ => none

/-- **The arguments pass the checks**, with the numbers that are read. -/
structure Passes (args : Arguments) : Prop where
  numSets : ∃ k, numberRead args.numSets = some (2 ^ k)
  blockNumPerSet : ∃ k, numberRead args.blockNumPerSet = some (2 ^ k)
  blockSize : ∃ k, numberRead args.blockSize = some (2 ^ k) ∧ 4 ≤ 2 ^ k
  policies : args.wa = "write-allocate".toList ∨ args.wb ≠ "write-back".toList
  repl : args.repl = "lru".toList ∨ args.repl = "fifo".toList

/-- A string of decimal digits whose value has 32 bits. -/
structure WellFormed (s : Str) : Prop where
  ne_nil : s ≠ []
  digits : ∀ c ∈ s, c.isDigit = true
  value_lt : digitsVal s < 2 ^ 32

/-- **The arguments are well written**: the numbers are decimal digits and have 32 bits,
and the two write policies are spelled right. -/
structure WellWritten (args : Arguments) : Prop where
  numSets : WellFormed args.numSets
  blockNumPerSet : WellFormed args.blockNumPerSet
  blockSize : WellFormed args.blockSize
  wa : args.wa = "write-allocate".toList ∨ args.wa = "no-write-allocate".toList
  wb : args.wb = "write-back".toList ∨ args.wb = "write-through".toList

/-- A string of digits is read as what it denotes. -/
theorem numberRead_of_wellFormed {s : Str} (h : WellFormed s) :
    numberRead s = some (digitsVal s) := by
  obtain ⟨d, ds, hs⟩ := List.exists_cons_of_ne_nil h.ne_nil
  have hd : d.isDigit = true := h.digits d (hs ▸ List.mem_cons_self)
  have hsigns : d ≠ '-' ∧ d ≠ '+' := by
    constructor
    · rintro rfl
      exact absurd hd (by decide)
    · rintro rfl
      exact absurd hd (by decide)
  have hrest : s.dropWhile isspace = s := by
    rw [hs, List.dropWhile_cons, if_neg (by simp [not_isspace_of_isDigit hd])]
  have hdigits : s.takeWhile Char.isDigit = s := List.takeWhile_eq_self_iff.mpr h.digits
  have hhead : s.head? = some d := by rw [hs, List.head?_cons]
  have hsigned : (s.head? == some '-' || s.head? == some '+') = false := by
    simp [hhead, hsigns]
  have hlt := h.value_lt
  have hstoul : stoul s = .ok (UInt64.ofNat (digitsVal s)) := by
    simp only [stoul, hrest, hsigned, Bool.false_eq_true, if_false, hdigits]
    rw [if_neg (by simpa using h.ne_nil), if_neg (by omega), if_neg (by simp [hhead, hsigns])]
  rw [numberRead, hstoul]
  simp
  omega

theorem numberRead_eq_some {s : Str} {n : ℕ} :
    numberRead s = some n ↔ ∃ x, stoul s = .ok x ∧ x.toUInt32.toNat = n := by
  rw [numberRead]
  cases stoul s <;> simp

/-- **What `parse_arguments` returns**, read off the fields. -/
theorem parseArguments_argv {args : Arguments} {config : Cache} :
    parseArguments args.argv = .ok (some config) ↔
      (numberRead args.numSets = some config.numSets.toNat ∧
        numberRead args.blockNumPerSet = some config.blockNumPerSet.toNat ∧
        numberRead args.blockSize = some config.blockSize.toNat) ∧
      ((args.wa == "write-allocate".toList) = config.isWriteAllocate ∧
        (args.wb == "write-back".toList) = config.isWriteBack ∧
        (args.repl == "lru".toList) = config.isLru ∧
        (args.repl == "fifo".toList) = config.isFifo) ∧ config.Accepted := by
  rw [Arguments.argv, parseArguments_eq_some]
  simp only [numberRead_eq_some, UInt32.toNat_inj]
  constructor
  · rintro ⟨s, n, z, hs, hn, hz, rfl, haccepted⟩
    exact ⟨⟨⟨s, hs, rfl⟩, ⟨n, hn, rfl⟩, ⟨z, hz, rfl⟩⟩, ⟨rfl, rfl, rfl, rfl⟩, haccepted⟩
  · rintro ⟨⟨⟨s, hs, hs'⟩, ⟨n, hn, hn'⟩, ⟨z, hz, hz'⟩⟩, ⟨hwa, hwb, hlru, hfifo⟩, haccepted⟩
    refine ⟨s, n, z, hs, hn, hz, ?_, haccepted⟩
    rw [hs', hn', hz', hwa, hwb, hlru, hfifo]

/-- **The arguments that are accepted are those that pass the checks.** -/
theorem exists_parseArguments_iff (args : Arguments) :
    (∃ config, parseArguments args.argv = .ok (some config)) ↔ Passes args := by
  constructor
  · rintro ⟨config, h⟩
    obtain ⟨⟨hs, hn, hz⟩, ⟨hwa, hwb, hlru, hfifo⟩, haccepted⟩ := parseArguments_argv.mp h
    obtain ⟨⟨k, hk⟩, ⟨k', hk'⟩, ⟨k'', hk''⟩, hfour, hpolicy, hwrite⟩ := haccepted
    refine ⟨⟨k, hk ▸ hs⟩, ⟨k', hk' ▸ hn⟩, ⟨k'', hk'' ▸ hz, hk'' ▸ hfour⟩, ?_, ?_⟩
    · rw [← hwa, ← hwb] at hwrite
      simpa using hwrite
    · by_contra hrepl
      rw [not_or] at hrepl
      rw [← hlru, ← hfifo, beq_false_of_ne hrepl.1, beq_false_of_ne hrepl.2] at hpolicy
      exact absurd hpolicy (by decide)
  · rintro ⟨⟨k, hs⟩, ⟨k', hn⟩, ⟨k'', hz, hfour⟩, hwrite, hrepl⟩
    obtain ⟨s, hs, hs'⟩ := numberRead_eq_some.mp hs
    obtain ⟨n, hn, hn'⟩ := numberRead_eq_some.mp hn
    obtain ⟨z, hz, hz'⟩ := numberRead_eq_some.mp hz
    refine ⟨_, (parseArguments_eq_some args.program).mpr ⟨s, n, z, hs, hn, hz, rfl, ?_⟩⟩
    refine ⟨⟨k, hs'⟩, ⟨k', hn'⟩, ⟨k'', hz'⟩, hz'.symm ▸ hfour, ?_, by simpa using hwrite⟩
    rcases hrepl with h | h <;> rw [h] <;> rfl

/-- Documented arguments are accepted, as the configuration they describe. -/
theorem Documented.parses {args : Arguments} {config : Cache}
    (h : Documented args config) : parseArguments args.argv = .ok (some config) := by
  have hread : ∀ {s : Str} {n : UInt32}, Denotes s n → numberRead s = some n.toNat := by
    intro s n hn
    rw [← hn.value]
    exact numberRead_of_wellFormed ⟨hn.ne_nil, hn.digits, hn.value ▸ n.toNat_lt⟩
  have hpolicy := h.accepted.policy
  refine parseArguments_argv.mpr ⟨⟨hread h.numSets, hread h.blockNumPerSet, hread h.blockSize⟩,
    ⟨?_, ?_, ?_, ?_⟩, h.accepted⟩
  · rw [h.wa]
    cases config.isWriteAllocate <;> decide
  · rw [h.wb]
    cases config.isWriteBack <;> decide
  · rw [h.repl]
    cases config.isLru <;> decide
  · rw [h.repl, hpolicy]
    cases config.isLru <;> decide

/-- Documented arguments are well written. -/
theorem Documented.wellWritten {args : Arguments} {config : Cache} (h : Documented args config) :
    WellWritten args := by
  have hformed : ∀ {s : Str} {n : UInt32}, Denotes s n → WellFormed s :=
    fun {s n} hn => ⟨hn.ne_nil, hn.digits, hn.value ▸ n.toNat_lt⟩
  refine ⟨hformed h.numSets, hformed h.blockNumPerSet, hformed h.blockSize, ?_, ?_⟩
  · rw [h.wa]
    cases config.isWriteAllocate <;> simp
  · rw [h.wb]
    cases config.isWriteBack <;> simp

/-- Arguments that are accepted and well written are documented. -/
theorem WellWritten.documented {args : Arguments} {config : Cache} (h : WellWritten args)
    (hargs : parseArguments args.argv = .ok (some config)) : Documented args config := by
  obtain ⟨⟨hs, hn, hz⟩, ⟨hwa, hwb, hlru, hfifo⟩, haccepted⟩ := parseArguments_argv.mp hargs
  have hdenotes : ∀ {s : Str} {n : UInt32}, WellFormed s → numberRead s = some n.toNat →
      Denotes s n := fun {s n} hs hread =>
    ⟨hs.ne_nil, hs.digits, Option.some.inj ((numberRead_of_wellFormed hs).symm.trans hread)⟩
  refine ⟨haccepted, hdenotes h.numSets hs, hdenotes h.blockNumPerSet hn,
    hdenotes h.blockSize hz, ?_, ?_, ?_⟩
  · rw [← hwa]
    rcases h.wa with hw | hw <;> rw [hw] <;> decide
  · rw [← hwb]
    rcases h.wb with hw | hw <;> rw [hw] <;> decide
  · rcases ((exists_parseArguments_iff args).mp ⟨config, hargs⟩).repl with hr | hr <;>
      rw [← hlru, hr] <;> decide

/-- **`parse_arguments` does what is documented** unless the arguments pass the checks
without being well written. -/
theorem parsesDocumented_iff (args : Arguments) :
    ParsesDocumented args ↔ (Passes args → WellWritten args) := by
  rw [ParsesDocumented, exists_parseArguments_iff]
  constructor
  · rintro ⟨hiff, -⟩ hpasses
    obtain ⟨config, hconfig⟩ := hiff.mp hpasses
    exact hconfig.wellWritten
  · intro h
    have hdocumented : ∀ config, parseArguments args.argv = .ok (some config) →
        Documented args config := fun config hargs =>
      (h ((exists_parseArguments_iff args).mp ⟨config, hargs⟩)).documented hargs
    refine ⟨?_, hdocumented⟩
    rw [← exists_parseArguments_iff]
    exact ⟨fun ⟨config, hargs⟩ => ⟨config, hdocumented config hargs⟩,
      fun ⟨config, hconfig⟩ => ⟨config, hconfig.parses⟩⟩

/-- A number with letters after it, a number of more than 32 bits, and a policy that is
misspelled. -/
def sloppyArguments : Arguments :=
  ⟨"csim".toList, "4sets".toList, "4294967297".toList, "16".toList, "write-alocate".toList,
    "write-through".toList, "lru".toList⟩

/-- **Sloppy arguments are accepted.** -/
theorem not_always_parsesDocumented : ¬∀ args, ParsesDocumented args := by
  intro h
  have hargs : parseArguments sloppyArguments.argv =
      .ok (some ⟨4, 1, 16, false, false, true, false⟩) := by decide +kernel
  have hdigits := ((h sloppyArguments).2 _ hargs).numSets.digits
  exact absurd (hdigits 's' (by decide)) (by decide)

end Csim

end Csf
