import Csf.Csim.Address

/-!
# Configurations that are too large

`parse_arguments` checks that its numbers are powers of two, and has no upper bound for
them. The arithmetic of 32 bits is enough (`Csf.Csim.Cache.WithinWord`) as long as a block
in every set is less than `2 ^ 32` bytes together and a block is no more than `2 ^ 27`, and
then only (`Csf.Csim.withinWord_iff`): beyond that, the tag is shifted by as much as a word
has bits or more, or the cost of a transfer wraps around.
-/

namespace Csf

namespace Csim

variable {config : Cache}

/-- **The arithmetic of 32 bits does what it is for**: no shift of `parse_address` is one by
the width of a word or more, the cost of a transfer fits, and an address is split into the
index of a set and a tag that tell its block. -/
structure Cache.WithinWord (config : Cache) : Prop where
  /-- The shift by `block_offsets`. -/
  blockOffsets_lt : (builtinCtz config.blockSize).toNat < 32
  /-- The shift by `set_offsets`. -/
  setOffsets_lt : (builtinCtz config.numSets).toNat < 32
  /-- The shift by both. -/
  offsets_lt : (builtinCtz config.blockSize + builtinCtz config.numSets).toNat < 32
  /-- `(config.block_size / 4) * 100` -/
  cost_le : config.blockSize.toNat / 4 * 100 ≤ 2 ^ 32 - 1
  /-- The set index is that of a set. -/
  setIdx_lt : ∀ a, (parseAddress config a).1.toNat < config.numSets.toNat
  /-- Set index and tag are those of the block. -/
  sameBlock_iff : ∀ a b, parseAddress config a = parseAddress config b ↔
    a.toNat / config.blockSize.toNat = b.toNat / config.blockSize.toNat

/-- Of an accepted number, `__builtin_ctz` is the exponent, and less than 32. -/
theorem exists_builtinCtz {x : UInt32} (h : ∃ k, x.toNat = 2 ^ k) :
    (builtinCtz x).toNat < 32 ∧ x.toNat = 2 ^ (builtinCtz x).toNat := by
  obtain ⟨k, hk⟩ := h
  have hlt : 2 ^ k < 2 ^ 32 := hk ▸ x.toNat_lt
  rw [builtinCtz_of_pow hk]
  exact ⟨(Nat.pow_lt_pow_iff_right (by decide)).mp hlt, hk⟩

/-- The shift by both offsets is one by less than a word exactly when the product fits. -/
theorem offsets_lt_iff (h : config.Accepted) :
    (builtinCtz config.blockSize + builtinCtz config.numSets).toNat < 32 ↔
      config.numSets.toNat * config.blockSize.toNat < 2 ^ 32 := by
  obtain ⟨hset, hsets⟩ := exists_builtinCtz h.numSets
  obtain ⟨hblock, hblocks⟩ := exists_builtinCtz h.blockSize
  rw [hsets, hblocks, ← Nat.pow_add, Nat.pow_lt_pow_iff_right (by decide), UInt32.toNat_add,
    Nat.mod_eq_of_lt (by omega), Nat.add_comm]

/-- Where it fits, the two parts of an address tell its block. -/
theorem parseAddress_eq_iff (h : config.Accepted)
    (hsize : config.numSets.toNat * config.blockSize.toNat < 2 ^ 32) (a b : UInt32) :
    parseAddress config a = parseAddress config b ↔ blockOf config a = blockOf config b := by
  obtain ⟨ha, ha'⟩ := parseAddress_eq h hsize a
  obtain ⟨hb, hb'⟩ := parseAddress_eq h hsize b
  rw [Prod.ext_iff, ← UInt32.toNat_inj, ← UInt32.toNat_inj, ha, hb, ha', hb']
  constructor
  · rintro ⟨hmod, hdiv⟩
    rw [← Nat.div_add_mod (blockOf config a) config.numSets.toNat, hmod, hdiv, Nat.div_add_mod]
  · intro heq
    rw [heq]
    exact ⟨rfl, rfl⟩

/-- The cost of a transfer of a power of two. -/
theorem cost_le_iff (h : config.Accepted) :
    config.blockSize.toNat / 4 * 100 ≤ 2 ^ 32 - 1 ↔ config.blockSize.toNat ≤ 2 ^ 27 := by
  obtain ⟨k, hk⟩ := h.blockSize
  refine ⟨fun hcost => ?_, fun hle => by omega⟩
  by_contra hlarge
  rw [hk, not_le, Nat.pow_lt_pow_iff_right (by decide)] at hlarge
  have hpow : 2 ^ 28 ≤ 2 ^ k := Nat.pow_le_pow_right (by decide) hlarge
  rw [hk] at hcost
  omega

/-- **The arithmetic of 32 bits is enough** for a configuration that is accepted exactly
when its sets and blocks are not too large. -/
theorem withinWord_iff {argv : List Str} {config : Cache}
    (hargs : parseArguments argv = .ok (some config)) :
    config.WithinWord ↔ config.numSets.toNat * config.blockSize.toNat < 2 ^ 32 ∧
      config.blockSize.toNat ≤ 2 ^ 27 := by
  have h := accepted_of_parseArguments hargs
  constructor
  · intro hword
    exact ⟨(offsets_lt_iff h).mp hword.offsets_lt, (cost_le_iff h).mp hword.cost_le⟩
  · rintro ⟨hsize, hblock⟩
    exact ⟨(exists_builtinCtz h.blockSize).1, (exists_builtinCtz h.numSets).1,
      (offsets_lt_iff h).mpr hsize, (cost_le_iff h).mpr hblock, setIdx_lt h,
      parseAddress_eq_iff h hsize⟩

/-- The arguments for a cache of 64 sets. -/
def manySets : List Str :=
  ["csim", "64", "32", "4", "write-allocate", "write-back", "lru"].map String.toList

/-- A configuration of moderate size. -/
theorem withinWord_iff_manySets : (⟨64, 32, 4, true, true, true, false⟩ : Cache).WithinWord := by
  have hargs : parseArguments manySets = .ok (some ⟨64, 32, 4, true, true, true, false⟩) := by
    decide +kernel
  exact (withinWord_iff hargs).mpr ⟨by decide, by decide⟩

/-- The arguments for two sets with blocks of half the address space. -/
def hugeBlocks : List Str :=
  ["csim", "2", "1", "2147483648", "write-allocate", "write-back", "lru"].map String.toList

/-- **Two blocks of `2 ^ 31` bytes** are accepted, and the tag is what is left of an address
after a shift by 32. -/
theorem not_withinWord :
    parseArguments hugeBlocks = .ok (some ⟨2, 1, 2147483648, true, true, true, false⟩) ∧
      ¬(⟨2, 1, 2147483648, true, true, true, false⟩ : Cache).WithinWord :=
  ⟨by decide +kernel, fun h => absurd h.offsets_lt (by decide +kernel)⟩

end Csim

end Csf
