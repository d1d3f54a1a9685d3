import Csf.Csim.Simulator

/-!
# Addresses, and the set they are in

What `parse_address` computes: the set index is the block number modulo the number of
sets, and the tag is the rest of the block number (`Csf.Csim.parseAddress_eq`). This
needs that the two shifts together do not leave the word.

An access then works on the set of that index and on the counters, and on nothing else
(`Csf.Csim.accessSet`, `Csf.Csim.accessMemory_eq`).
-/

namespace Csf

namespace Csim

variable {config : Cache}

/-- A counter with room is one more when it is incremented. -/
theorem toNat_succ {n : UInt32} (h : n.toNat + 1 < 2 ^ 32) : (n + 1).toNat = n.toNat + 1 := by
  rw [UInt32.toNat_add, UInt32.toNat_one, Nat.mod_eq_of_lt h]

/-- Of a power of two, `__builtin_ctz` is the exponent. -/
theorem builtinCtz_of_pow {x : UInt32} {k : ℕ} (h : x.toNat = 2 ^ k) :
    (builtinCtz x).toNat = k := by
  have hx : x.toBitVec ≠ 0#32 := by
    intro h0
    have h0 : x.toNat = 0 := congrArg BitVec.toNat h0
    exact absurd (h.symm.trans h0) (Nat.ne_of_gt (Nat.two_pow_pos k))
  have hbit := BitVec.getLsbD_true_ctz_of_ne_zero hx
  rw [BitVec.getLsbD, show x.toBitVec.toNat = 2 ^ k from h, Nat.testBit_two_pow] at hbit
  exact (of_decide_eq_true hbit).symm

/-- A shift by less than the width of the word is a division. -/
theorem toNat_shiftRight_of_lt {x k : UInt32} (hk : k.toNat < 32) :
    (x >>> k).toNat = x.toNat / 2 ^ k.toNat := by
  rw [UInt32.toNat_shiftRight, Nat.mod_eq_of_lt hk, Nat.shiftRight_eq_div_pow]

/-- The mask of a power of two below the width of the word. -/
theorem toNat_mask {k : UInt32} (hk : k.toNat < 32) :
    ((1 <<< k : UInt32) - 1).toNat = 2 ^ k.toNat - 1 := by
  have hlt : 2 ^ k.toNat < 2 ^ 32 := Nat.pow_lt_pow_right (by decide) hk
  have hshift : (1 <<< k : UInt32).toNat = 2 ^ k.toNat := by
    rw [UInt32.toNat_shiftLeft, Nat.mod_eq_of_lt hk, Nat.shiftLeft_eq, UInt32.toNat_one,
      Nat.one_mul, Nat.mod_eq_of_lt hlt]
  have hle : (1 : UInt32) ≤ 1 <<< k := by
    rw [UInt32.le_iff_toNat_le, hshift]
    exact Nat.two_pow_pos _
  rw [UInt32.toNat_sub_of_le _ _ hle, hshift]
  rfl

/-- The index that an access uses is one of a set. -/
theorem setIdx_lt (h : config.Accepted) (addr : UInt32) :
    (parseAddress config addr).1.toNat < config.numSets.toNat := by
  obtain ⟨s, hs⟩ := h.numSets
  have hcs := builtinCtz_of_pow hs
  have hlt : 2 ^ s < 2 ^ 32 := hs ▸ config.numSets.toNat_lt
  have hs32 : s < 32 := (Nat.pow_lt_pow_iff_right (by decide)).mp hlt
  rw [parseAddress, UInt32.toNat_and, toNat_mask (by omega), hcs, hs]
  have hpos := Nat.two_pow_pos s
  exact Nat.lt_of_le_of_lt Nat.and_le_right (by omega)

/-- The number of the block that an address is in. -/
def blockOf (config : Cache) (addr : UInt32) : ℕ := addr.toNat / config.blockSize.toNat

/-- **The set index is the block number modulo the number of sets, and the tag is the
rest**, when the two shifts stay in the word. -/
theorem parseAddress_eq (h : config.Accepted)
    (hsize : config.numSets.toNat * config.blockSize.toNat < 2 ^ 32) (addr : UInt32) :
    (parseAddress config addr).1.toNat = blockOf config addr % config.numSets.toNat ∧
      (parseAddress config addr).2.toNat = blockOf config addr / config.numSets.toNat := by
  obtain ⟨s, hs⟩ := h.numSets
  obtain ⟨k, hk⟩ := h.blockSize
  have hsk : s + k < 32 := by
    rw [hs, hk, ← Nat.pow_add] at hsize
    exact (Nat.pow_lt_pow_iff_right (by decide)).mp hsize
  have hcs := builtinCtz_of_pow hs
  have hck := builtinCtz_of_pow hk
  simp only [parseAddress, blockOf, hs, hk]
  constructor
  · rw [UInt32.toNat_and, toNat_shiftRight_of_lt (by omega), toNat_mask (by omega), hcs, hck,
      Nat.and_two_pow_sub_one_eq_mod]
  · have hsum : (builtinCtz config.blockSize + builtinCtz config.numSets).toNat = k + s := by
      rw [UInt32.toNat_add, hcs, hck, Nat.mod_eq_of_lt (by omega)]
    rw [toNat_shiftRight_of_lt (by omega), hsum, Nat.pow_add, Nat.div_div_eq_div_mul]

/-- The part of `access_memory` that works on one set. -/
def accessSet (config : Cache) (load : Bool) (tag : UInt32) (set : CacheSet)
    (counters : Counters) : Bool × CacheSet × Counters :=
  let (hit, set) := findCacheLine config set tag
  (hit, if load then handleLoad config set counters tag hit
    else handleStore config set counters tag hit)

/-- **An access works on one set.** -/
theorem accessMemory_eq (sim : CacheSim) (trace : Trace) :
    sim.accessMemory trace =
      let load := trace.type == 'l'
      let counters :=
        if load then { sim.counters with totalLoads := sim.counters.totalLoads + 1 }
        else { sim.counters with totalStores := sim.counters.totalStores + 1 }
      let i := (parseAddress sim.config trace.address).1.toNat
      let r := accessSet sim.config load (parseAddress sim.config trace.address).2
        (sim.sets.getD i default) counters
      (r.1, { sim with sets := sim.sets.set i r.2.1, counters := r.2.2 }) := rfl

end Csim

end Csf
