import Csf.Csim.Address
import Csf.Lib.Reorder

/-!
# The sets are independent

An access reads and writes its own set. The counters it only adds to, and what it adds
depends on the set and the access and not on the counters (`Csf.Csim.accessSet_add`). So
two accesses to different sets may change places (`Csf.Csim.independent_accessMemory`), and
of a trace only the order among the accesses to each set matters
(`Csf.Csim.after_eq_of_same_order`).
-/

namespace Csf

namespace Csim

open Interaction

variable {config : Cache}

/-! ### Adding to the counters -/

/-- Counters are added one by one, modulo `2 ^ 64`. -/
instance : Add Counters where
  add c d :=
    { totalLoads := c.totalLoads + d.totalLoads
      totalStores := c.totalStores + d.totalStores
      loadHits := c.loadHits + d.loadHits
      loadMisses := c.loadMisses + d.loadMisses
      storeHits := c.storeHits + d.storeHits
      storeMisses := c.storeMisses + d.storeMisses
      totalCycles := c.totalCycles + d.totalCycles }

theorem Counters.add_def (c d : Counters) : c + d =
    { totalLoads := c.totalLoads + d.totalLoads
      totalStores := c.totalStores + d.totalStores
      loadHits := c.loadHits + d.loadHits
      loadMisses := c.loadMisses + d.loadMisses
      storeHits := c.storeHits + d.storeHits
      storeMisses := c.storeMisses + d.storeMisses
      totalCycles := c.totalCycles + d.totalCycles } := rfl

/-- What is added may be added in another order. -/
theorem Counters.add_right_comm (c d e : Counters) : c + d + e = c + e + d := by
  simp only [Counters.add_def, Counters.mk.injEq]
  refine ⟨?_, ?_, ?_, ?_, ?_, ?_, ?_⟩ <;> ac_rfl

/-- More cycles are more of what is added. -/
theorem Counters.addCycles_add (c d : Counters) (n : UInt32) :
    (c + d).addCycles n = c + d.addCycles n := by
  simp only [Counters.add_def, Counters.addCycles, UInt64.add_assoc]

/-! ### One set -/

/-- Making place in a set adds to the counters. -/
theorem removeLine_add (config : Cache) (set : CacheSet) (c d : Counters) :
    removeLine config set (c + d) =
      ((removeLine config set d).1, (removeLine config set d).2.1,
        c + (removeLine config set d).2.2) := by
  simp only [removeLine, Counters.addCycles_add]
  split
  · rfl
  · simp only [apply_ite (c + ·)]

/-- So does a load. -/
theorem handleLoad_add (config : Cache) (set : CacheSet) (c d : Counters) (tag : UInt32)
    (hit : Bool) :
    handleLoad config set (c + d) tag hit =
      ((handleLoad config set d tag hit).1, c + (handleLoad config set d tag hit).2) := by
  have hhit : { c + d with loadHits := (c + d).loadHits + 1 } =
      c + { d with loadHits := d.loadHits + 1 } := by
    simp only [Counters.add_def, UInt64.add_assoc]
  have hmiss : { c + d with loadMisses := (c + d).loadMisses + 1 } =
      c + { d with loadMisses := d.loadMisses + 1 } := by
    simp only [Counters.add_def, UInt64.add_assoc]
  cases hit
  · simp only [handleLoad, hmiss, Counters.addCycles_add, removeLine_add, Bool.false_eq_true,
      if_false]
  · simp only [handleLoad, hhit, Counters.addCycles_add, if_true]

/-- So does a store. -/
theorem handleStore_add (config : Cache) (set : CacheSet) (c d : Counters) (tag : UInt32)
    (hit : Bool) :
    handleStore config set (c + d) tag hit =
      ((handleStore config set d tag hit).1, c + (handleStore config set d tag hit).2) := by
  have hhit : { c + d with storeHits := (c + d).storeHits + 1 } =
      c + { d with storeHits := d.storeHits + 1 } := by
    simp only [Counters.add_def, UInt64.add_assoc]
  have hmiss : { c + d with storeMisses := (c + d).storeMisses + 1 } =
      c + { d with storeMisses := d.storeMisses + 1 } := by
    simp only [Counters.add_def, UInt64.add_assoc]
  cases hit
  · simp only [handleStore, hmiss, Counters.addCycles_add, removeLine_add, Bool.false_eq_true,
      if_false]
    cases config.isWriteAllocate
    · rfl
    · simp only [if_true, apply_ite (c + ·)]
  · simp only [handleStore, hhit, Counters.addCycles_add, if_true]
    split
    · cases config.isWriteBack <;> rfl
    · rfl

/-- **What an access does to a set does not depend on the counters**, and it adds to
them. -/
theorem accessSet_add (config : Cache) (load : Bool) (tag : UInt32) (set : CacheSet)
    (c d : Counters) :
    accessSet config load tag set (c + d) =
      ((accessSet config load tag set d).1, (accessSet config load tag set d).2.1,
        c + (accessSet config load tag set d).2.2) := by
  simp only [accessSet, handleLoad_add, handleStore_add]
  cases load <;> rfl

/-! ### The cache -/

/-- An access by itself: the counters start with the total of the accesses of its kind. -/
def access (config : Cache) (load : Bool) (tag : UInt32) (set : CacheSet) :
    Bool × CacheSet × Counters :=
  accessSet config load tag set (if load then { totalLoads := 1 } else { totalStores := 1 })

/-- **An access changes its own set**, and adds to the counters. -/
theorem accessMemory_eq_access (sim : CacheSim) (trace : Trace) :
    (sim.accessMemory trace).2 =
      let i := (parseAddress sim.config trace.address).1.toNat
      let r := access sim.config (trace.type == 'l') (parseAddress sim.config trace.address).2
        (sim.sets.getD i default)
      { sim with sets := sim.sets.set i r.2.1, counters := sim.counters + r.2.2 } := by
  have hbegin : (if trace.type == 'l' then
        { sim.counters with totalLoads := sim.counters.totalLoads + 1 }
      else { sim.counters with totalStores := sim.counters.totalStores + 1 }) =
      sim.counters + (if trace.type == 'l' then { totalLoads := 1 } else { totalStores := 1 }) := by
    cases trace.type == 'l' <;> simp [Counters.add_def]
  rw [accessMemory_eq]
  dsimp only
  rw [hbegin, accessSet_add]
  rfl

/-- The set of an access, as an index. -/
def setOf (config : Cache) (trace : Trace) : ℕ := (parseAddress config trace.address).1.toNat

/-- A set that an access does not go to is as it was. -/
theorem getD_set_of_ne {sets : List CacheSet} {i j : ℕ} (h : i ≠ j) (set : CacheSet) :
    (sets.set i set).getD j default = sets.getD j default := by
  rw [List.getD_eq_getElem?_getD, List.getD_eq_getElem?_getD, List.getElem?_set_ne h]

/-- **Accesses to different sets may change places.** -/
theorem independent_accessMemory (config : Cache) :
    Independent CacheSim.accessMemory (setOf config) (·.config = config) where
  step sim trace h := by
    rw [accessMemory_eq_access]
    exact h
  swap sim t u h hne := by
    subst h
    simp only [setOf] at hne
    simp only [accessMemory_eq_access, getD_set_of_ne hne, getD_set_of_ne (Ne.symm hne),
      List.set_comm _ _ hne, Counters.add_right_comm]

/-- The set of an access is one of the sets, and the number of its block modulo their
number. -/
theorem setOf_eq (h : config.Accepted)
    (hsize : config.numSets.toNat * config.blockSize.toNat < 2 ^ 32) (trace : Trace) :
    setOf config trace = blockOf config trace.address % config.numSets.toNat :=
  (parseAddress_eq h hsize trace.address).1

/-- **The sets are independent**: two traces in which the accesses to every set are the
same, in the same order, end with the same sets and counters. -/
theorem after_eq_of_same_order {argv : List Str} {config : Cache}
    (hargs : parseArguments argv = .ok (some config))
    (hsize : config.numSets.toNat * config.blockSize.toNat < 2 ^ 32) {traces traces' : List Trace}
    (hsame : ∀ i < config.numSets.toNat,
      traces.filter (fun t => blockOf config t.address % config.numSets.toNat = i) =
        traces'.filter fun t => blockOf config t.address % config.numSets.toNat = i) :
    after CacheSim.accessMemory (.new config) traces =
      after CacheSim.accessMemory (.new config) traces' := by
  have h := accepted_of_parseArguments hargs
  refine after_eq_of_filter_eq (independent_accessMemory config) rfl fun i => ?_
  simp only [setOf_eq h hsize]
  by_cases hi : i < config.numSets.toNat
  · exact hsame i hi
  · have hne : ∀ t : Trace, blockOf config t.address % config.numSets.toNat ≠ i :=
      fun t ht => hi (ht ▸ Nat.mod_lt _ h.numSets_pos)
    simp only [hne, decide_false, List.filter_false]

/-- The arguments for a cache of two sets with one line each. -/
def twoSets : List Str :=
  ["csim", "2", "1", "16", "write-allocate", "write-back", "lru"].map String.toList

/-- Two sets, the accesses to which are interleaved or not. -/
theorem after_eq_of_same_order_twoSets :
    let config : Cache := ⟨2, 1, 16, true, true, true, false⟩
    let first : List Trace := [⟨'s', 0⟩, ⟨'l', 32⟩]
    let second : List Trace := [⟨'s', 16⟩, ⟨'l', 16⟩]
    after CacheSim.accessMemory (.new config) [⟨'s', 0⟩, ⟨'s', 16⟩, ⟨'l', 32⟩, ⟨'l', 16⟩] =
        after CacheSim.accessMemory (.new config) (first ++ second) ∧
      (after CacheSim.accessMemory (.new config) (first ++ second)).counters.totalCycles ≠ 0 := by
  intro config first second
  have hargs : parseArguments twoSets = .ok (some config) := by decide +kernel
  refine ⟨after_eq_of_same_order hargs (by decide) fun i hi => ?_, by decide +kernel⟩
  have hi : i = 0 ∨ i = 1 := by
    have hi : i < 2 := hi
    omega
  rcases hi with rfl | rfl <;> simp [blockOf, config, first, second]

end Csim

end Csf
