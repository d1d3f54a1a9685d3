import Csf.Lib.Strings

/-!
# The arguments of the cache simulator

`parse_arguments` of `main.cpp`: three numbers, which `std::stoul` reads and which are
then cut to 32 bits, and three policies (`Csf.Csim.parseArguments`). What it accepts is
described by `Csf.Csim.Cache.Accepted`, in terms of the fields.
-/

namespace Csf

namespace Csim

/-- `struct Cache`, the cache configuration. -/
structure Cache where
  /-- `num_sets` -/
  numSets : UInt32
  /-- `block_num_per_set` -/
  blockNumPerSet : UInt32
  /-- `block_size`, in bytes -/
  blockSize : UInt32
  /-- `is_write_allocate` -/
  isWriteAllocate : Bool
  /-- `is_write_back`, else write-through -/
  isWriteBack : Bool
  /-- `is_lru` -/
  isLru : Bool
  /-- `is_fifo` -/
  isFifo : Bool
  deriving DecidableEq

/-- `is_power_of_two` -/
def isPowerOfTwo (x : UInt32) : Bool := x != 0 && (x &&& (x - 1)) == 0

/-- How `std::stoul` can fail. -/
inductive StoulExn where
  | invalidArgument
  | outOfRange
  deriving DecidableEq

/-- `std::stoul(s)`: white space is skipped, a sign and as many digits as there are are
read. A negative number is wrapped around. -/
def stoul (s : Str) : Except StoulExn UInt64 :=
  let rest := s.dropWhile isspace
  let signed := rest.head? == some '-' || rest.head? == some '+'
  let digits := (if signed then rest.tail else rest).takeWhile Char.isDigit
  if digits.isEmpty then .error .invalidArgument
  else if digitsVal digits ≥ 2 ^ 64 then .error .outOfRange
  else
    let n := UInt64.ofNat (digitsVal digits)
    .ok (if rest.head? == some '-' then -n else n)

/-- `parse_arguments`: the configuration, or `none` for `false`. The exceptions are those
of `std::stoul`, which nobody catches. -/
def parseArguments (argv : List Str) : Except StoulExn (Option Cache) :=
  match argv with
  | [_, numSets, blockNumPerSet, blockSize, wa, wb, repl] => do
      let numSets ← stoul numSets
      let blockNumPerSet ← stoul blockNumPerSet
      let blockSize ← stoul blockSize
      let cache : Cache :=
        { numSets := numSets.toUInt32
          blockNumPerSet := blockNumPerSet.toUInt32
          blockSize := blockSize.toUInt32
          isWriteAllocate := wa == "write-allocate".toList
          isWriteBack := wb == "write-back".toList
          isLru := repl == "lru".toList
          isFifo := repl == "fifo".toList }
      if !(cache.isLru ^^ cache.isFifo) then return none
      if !isPowerOfTwo cache.numSets || !isPowerOfTwo cache.blockNumPerSet
          || !isPowerOfTwo cache.blockSize || cache.blockSize < 4
          || (!cache.isWriteAllocate && cache.isWriteBack) then
        return none
      return some cache
  | _ => .ok none

/-- **What `parse_arguments` accepts**, in terms of the fields. -/
structure Cache.Accepted (config : Cache) : Prop where
  /-- The number of sets is a power of two. -/
  numSets : ∃ k, config.numSets.toNat = 2 ^ k
  /-- The number of blocks in a set is a power of two. -/
  blockNumPerSet : ∃ k, config.blockNumPerSet.toNat = 2 ^ k
  /-- The size of a block is a power of two. -/
  blockSize : ∃ k, config.blockSize.toNat = 2 ^ k
  /-- A block has at least four bytes. -/
  four_le : 4 ≤ config.blockSize.toNat
  /-- There is one replacement policy. -/
  policy : config.isFifo = !config.isLru
  /-- Without write-allocate there is no write-back. -/
  write : config.isWriteAllocate = true ∨ config.isWriteBack = false

/-- There is a set. -/
theorem Cache.Accepted.numSets_pos {config : Cache} (h : config.Accepted) :
    0 < config.numSets.toNat := by
  obtain ⟨k, hk⟩ := h.numSets
  exact hk ▸ Nat.two_pow_pos k

/-- There is a line in a set. -/
theorem Cache.Accepted.blockNumPerSet_pos {config : Cache} (h : config.Accepted) :
    0 < config.blockNumPerSet.toNat := by
  obtain ⟨k, hk⟩ := h.blockNumPerSet
  exact hk ▸ Nat.two_pow_pos k

/-- The test is one for powers of two. -/
theorem isPowerOfTwo_iff {x : UInt32} : isPowerOfTwo x = true ↔ ∃ k, x.toNat = 2 ^ k := by
  have hx : x ≠ 0 ↔ x.toNat ≠ 0 := not_congr UInt32.toNat_inj.symm
  rw [isPowerOfTwo, Bool.and_eq_true, bne_iff_ne, beq_iff_eq, hx, ← UInt32.toNat_inj,
    UInt32.toNat_and]
  refine (and_congr_right fun h0 => ?_).trans Nat.ne_zero_and_sub_one_eq_zero_iff_isPowerOfTwo
  have hle : (1 : UInt32) ≤ x := UInt32.le_iff_toNat_le.mpr (Nat.one_le_iff_ne_zero.mpr h0)
  rw [UInt32.toNat_sub_of_le x 1 hle]
  rfl

/-- **The checks are the description.** -/
theorem checks_iff (cache : Cache) :
    ((cache.isLru ^^ cache.isFifo) = true ∧
      (!isPowerOfTwo cache.numSets || !isPowerOfTwo cache.blockNumPerSet
        || !isPowerOfTwo cache.blockSize || cache.blockSize < 4
        || (!cache.isWriteAllocate && cache.isWriteBack)) = false) ↔ cache.Accepted := by
  have hfour : ¬cache.blockSize < 4 ↔ 4 ≤ cache.blockSize.toNat := by
    rw [UInt32.not_lt]
    exact UInt32.le_iff_toNat_le
  have hpolicy : (cache.isLru ^^ cache.isFifo) = true ↔ cache.isFifo = !cache.isLru := by
    cases cache.isLru <;> cases cache.isFifo <;> decide
  have hwrite : (!cache.isWriteAllocate && cache.isWriteBack) = false ↔
      cache.isWriteAllocate = true ∨ cache.isWriteBack = false := by
    cases cache.isWriteAllocate <;> cases cache.isWriteBack <;> decide
  simp only [Bool.or_eq_false_iff, Bool.not_eq_false', decide_eq_false_iff_not, hfour, hpolicy,
    hwrite, isPowerOfTwo_iff]
  constructor
  · rintro ⟨hfifo, ⟨⟨⟨hs, hn⟩, hz⟩, hle⟩, hwb⟩
    exact ⟨hs, hn, hz, hle, hfifo, hwb⟩
  · rintro ⟨hs, hn, hz, hle, hfifo, hwb⟩
    exact ⟨hfifo, ⟨⟨⟨hs, hn⟩, hz⟩, hle⟩, hwb⟩

/-- A configuration that is checked comes out if it satisfies the description. -/
theorem checked_eq_some (cache config : Cache) :
    (if !(cache.isLru ^^ cache.isFifo) then .ok none
      else if !isPowerOfTwo cache.numSets || !isPowerOfTwo cache.blockNumPerSet
        || !isPowerOfTwo cache.blockSize || cache.blockSize < 4
        || (!cache.isWriteAllocate && cache.isWriteBack) then .ok none
      else .ok (some cache) : Except StoulExn (Option Cache)) = .ok (some config) ↔
    cache = config ∧ config.Accepted := by
  constructor
  · intro h
    split at h
    · exact nomatch h
    split at h
    · exact nomatch h
    rename_i hpolicy hfields
    obtain rfl : cache = config := Option.some.inj (Except.ok.inj h)
    exact ⟨rfl, (checks_iff cache).mp ⟨by simpa using hpolicy, Bool.eq_false_iff.mpr hfields⟩⟩
  · rintro ⟨rfl, haccepted⟩
    obtain ⟨hpolicy, hfields⟩ := (checks_iff cache).mpr haccepted
    rw [if_neg (by simp [hpolicy]), if_neg (Bool.eq_false_iff.mp hfields)]

/-- **What `parse_arguments` returns**: the configuration the arguments come to, when the
three numbers can be read and it satisfies the description. -/
theorem parseArguments_eq_some (program : Str) {numSets blockNumPerSet blockSize wa wb repl : Str}
    {config : Cache} :
    parseArguments [program, numSets, blockNumPerSet, blockSize, wa, wb, repl] =
        .ok (some config) ↔
      ∃ s n z, stoul numSets = .ok s ∧ stoul blockNumPerSet = .ok n ∧ stoul blockSize = .ok z ∧
        { numSets := s.toUInt32, blockNumPerSet := n.toUInt32, blockSize := z.toUInt32,
          isWriteAllocate := wa == "write-allocate".toList
          isWriteBack := wb == "write-back".toList
          isLru := repl == "lru".toList, isFifo := repl == "fifo".toList } = config ∧
        config.Accepted := by
  rw [parseArguments]
  cases stoul numSets with
  | error e => exact iff_of_false nofun nofun
  | ok s =>
  cases stoul blockNumPerSet with
  | error e => exact iff_of_false nofun nofun
  | ok n =>
  cases stoul blockSize with
  | error e => exact iff_of_false nofun nofun
  | ok z =>
  simp only [Except.ok.injEq, exists_and_left, exists_eq_left']
  exact checked_eq_some
    { numSets := s.toUInt32, blockNumPerSet := n.toUInt32, blockSize := z.toUInt32,
      isWriteAllocate := wa == "write-allocate".toList, isWriteBack := wb == "write-back".toList,
      isLru := repl == "lru".toList, isFifo := repl == "fifo".toList } config

/-- What is accepted satisfies the description. -/
theorem accepted_of_parseArguments {argv : List Str} {config : Cache}
    (h : parseArguments argv = .ok (some config)) : config.Accepted := by
  unfold parseArguments at h
  split at h
  · rename_i program _ _ _ _ _ _
    obtain ⟨_, _, _, -, -, -, -, haccepted⟩ := (parseArguments_eq_some program).mp h
    exact haccepted
  · exact nomatch h

end Csim

end Csf
