import Csf.Csim.Reference

/-!
# What the simulator counts

Apart from the cycles, an access is counted in two of the counters: as a load or a store,
and as a hit or a miss of that (`Csf.Csim.Counters.count`). That is all that it does to
them (`Csf.Csim.accessMemory_counters`), so a run counts its misses
(`Csf.Csim.misses_run`).
-/

namespace Csf

namespace Csim

open Interaction

/-! ### One access -/

/-- **An access counted**, but for its cycles. -/
def Counters.count (counters : Counters) (load hit : Bool) : Counters :=
  match load, hit with
  | true, true =>
      { counters with
        totalLoads := counters.totalLoads + 1, loadHits := counters.loadHits + 1 }
  | true, false =>
      { counters with
        totalLoads := counters.totalLoads + 1, loadMisses := counters.loadMisses + 1 }
  | false, true =>
      { counters with
        totalStores := counters.totalStores + 1, storeHits := counters.storeHits + 1 }
  | false, false =>
      { counters with
        totalStores := counters.totalStores + 1, storeMisses := counters.storeMisses + 1 }

/-- The counters, with another number of cycles. -/
def Counters.withCycles (counters : Counters) (cycles : UInt64) : Counters :=
  { counters with totalCycles := cycles }

/-- Making place in a set takes cycles and counts nothing. -/
theorem removeLine_counters (config : Cache) (set : CacheSet) (counters : Counters) :
    ∃ cycles, (removeLine config set counters).2.2 = counters.withCycles cycles := by
  rw [removeLine]
  split
  · exact ⟨counters.totalCycles, rfl⟩
  · dsimp only
    split_ifs <;> exact ⟨_, rfl⟩

/-- What a load counts, on its way with the cycles. -/
theorem handleLoad_counters (config : Cache) (set : CacheSet) (counters : Counters) (tag : UInt32)
    (hit : Bool) :
    ∃ cycles, (handleLoad config set
        { counters with totalLoads := counters.totalLoads + 1 } tag hit).2 =
      (counters.count true hit).withCycles cycles := by
  cases hit
  · obtain ⟨cycles, h⟩ := removeLine_counters config set
      ({ counters.count true false with }.addCycles (1 + config.transferCycles))
    exact ⟨cycles, h⟩
  · exact ⟨_, rfl⟩

/-- What a store counts. -/
theorem handleStore_counters (config : Cache) (set : CacheSet) (counters : Counters)
    (tag : UInt32) (hit : Bool) :
    ∃ cycles, (handleStore config set
        { counters with totalStores := counters.totalStores + 1 } tag hit).2 =
      (counters.count false hit).withCycles cycles := by
  rw [handleStore]
  cases hit
  · rw [if_neg Bool.false_ne_true]
    cases config.isWriteAllocate
    · exact ⟨_, rfl⟩
    · obtain ⟨cycles, h⟩ := removeLine_counters config set
        ((counters.count false false).addCycles (1 + config.transferCycles))
      dsimp only [Counters.count] at h
      dsimp only
      rw [if_pos rfl, h]
      cases config.isWriteBack <;> exact ⟨_, rfl⟩
  · rw [if_pos rfl]
    dsimp only
    split
    · cases config.isWriteBack <;> exact ⟨_, rfl⟩
    · exact ⟨_, rfl⟩

/-- **An access is counted once**, as what it is. -/
theorem accessMemory_counters (sim : CacheSim) (trace : Trace) :
    ∃ cycles, (sim.accessMemory trace).2.counters =
      (sim.counters.count (trace.type == 'l') (sim.accessMemory trace).1).withCycles cycles := by
  rw [accessMemory_eq]
  simp only [accessSet]
  cases trace.type == 'l'
  · exact handleStore_counters _ _ _ _ _
  · exact handleLoad_counters _ _ _ _ _

/-- **The totals are those of the hits and misses**, for as many accesses at most. -/
structure Counters.Balanced (counters : Counters) (n : ℕ) : Prop where
  /-- A load is a hit or a miss. -/
  loads : counters.totalLoads = counters.loadHits + counters.loadMisses
  /-- So is a store. -/
  stores : counters.totalStores = counters.storeHits + counters.storeMisses
  /-- What is counted as a load has been an access. -/
  loads_le : counters.loadHits.toNat + counters.loadMisses.toNat ≤ n
  /-- So has what is counted as a store. -/
  stores_le : counters.storeHits.toNat + counters.storeMisses.toNat ≤ n

/-- A counter is at most one more when it is incremented. -/
theorem toNat_add_one_le (n : UInt64) : (n + 1).toNat ≤ n.toNat + 1 := by
  rw [UInt64.toNat_add, UInt64.toNat_one]
  exact Nat.mod_le _ _

/-- To count an access keeps the balance. -/
theorem Counters.Balanced.count {counters : Counters} {n : ℕ} (h : counters.Balanced n)
    (load hit : Bool) (cycles : UInt64) :
    ((counters.count load hit).withCycles cycles).Balanced (n + 1) := by
  obtain ⟨hloads, hstores, hloads_le, hstores_le⟩ := h
  have hlh := toNat_add_one_le counters.loadHits
  have hlm := toNat_add_one_le counters.loadMisses
  have hsh := toNat_add_one_le counters.storeHits
  have hsm := toNat_add_one_le counters.storeMisses
  cases load <;> cases hit <;> constructor <;>
    simp only [Counters.count, Counters.withCycles, hloads, hstores] <;> first | omega | ac_rfl

/-! ### A run -/

/-- **The totals balance after a run.** -/
theorem balanced_run {sim : CacheSim} {n : ℕ} (h : sim.counters.Balanced n)
    (traces : List Trace) :
    (after CacheSim.accessMemory sim traces).counters.Balanced (n + traces.length) := by
  induction traces generalizing sim n with
  | nil => exact h
  | cons trace traces ih =>
    obtain ⟨cycles, hcount⟩ := accessMemory_counters sim trace
    rw [after_cons, List.length_cons, Nat.add_comm traces.length, ← Nat.add_assoc]
    exact ih (hcount ▸ h.count _ _ cycles)

/-- The loads, or the stores, of a trace that are misses, given which accesses are
hits. -/
def missesOf (load : Bool) (traces : List Trace) (hits : List Bool) : ℕ :=
  (traces.zip hits).countP fun access => (access.1.type == 'l') == load && !access.2

/-- There are no more misses than accesses. -/
theorem missesOf_le (load : Bool) (traces : List Trace) (hits : List Bool) :
    missesOf load traces hits ≤ traces.length :=
  List.countP_le_length.trans (by rw [List.length_zip]; exact Nat.min_le_left _ _)

theorem missesOf_cons (load hit : Bool) (trace : Trace) (traces : List Trace) (hits : List Bool) :
    missesOf load (trace :: traces) (hit :: hits) = missesOf load traces hits +
      if ((trace.type == 'l') == load && !hit) = true then 1 else 0 := by
  rw [missesOf, List.zip_cons_cons, List.countP_cons]
  rfl

/-- Counting on from one more is counting one more. -/
theorem add_one_add_ofNat (a : UInt64) (n : ℕ) : a + 1 + .ofNat n = a + .ofNat (n + 1) := by
  rw [UInt64.ofNat_add, UInt64.add_assoc, UInt64.add_comm 1]
  rfl

/-- **A run counts its misses.** -/
theorem misses_run (sim : CacheSim) (traces : List Trace) :
    (after CacheSim.accessMemory sim traces).counters.loadMisses = sim.counters.loadMisses +
        .ofNat (missesOf true traces (outputs CacheSim.accessMemory sim traces)) ∧
      (after CacheSim.accessMemory sim traces).counters.storeMisses = sim.counters.storeMisses +
        .ofNat (missesOf false traces (outputs CacheSim.accessMemory sim traces)) := by
  induction traces generalizing sim with
  | nil => simp [missesOf]
  | cons trace traces ih =>
    obtain ⟨hload, hstore⟩ := ih (sim.accessMemory trace).2
    obtain ⟨cycles, hcount⟩ := accessMemory_counters sim trace
    rw [after_cons, hload, hstore, outputs_cons, hcount, missesOf_cons, missesOf_cons]
    cases trace.type == 'l' <;> cases (sim.accessMemory trace).1 <;>
      simp [Counters.count, Counters.withCycles, add_one_add_ofNat]

/-- **A run counts its stores.** -/
theorem totalStores_run (sim : CacheSim) (traces : List Trace) :
    (after CacheSim.accessMemory sim traces).counters.totalStores =
      sim.counters.totalStores + .ofNat (traces.countP (·.type != 'l')) := by
  induction traces generalizing sim with
  | nil => simp
  | cons trace traces ih =>
    obtain ⟨cycles, hcount⟩ := accessMemory_counters sim trace
    rw [after_cons, ih, hcount, List.countP_cons, bne]
    cases trace.type == 'l' <;> cases (sim.accessMemory trace).1 <;>
      simp [Counters.count, Counters.withCycles, add_one_add_ofNat]

/-- The misses that the simulator has counted after a trace. -/
theorem misses_new (config : Cache) (traces : List Trace) :
    (after CacheSim.accessMemory (.new config) traces).counters.loadMisses =
        .ofNat (missesOf true traces (outputs CacheSim.accessMemory (.new config) traces)) ∧
      (after CacheSim.accessMemory (.new config) traces).counters.storeMisses =
        .ofNat (missesOf false traces (outputs CacheSim.accessMemory (.new config) traces)) := by
  obtain ⟨hload, hstore⟩ := misses_run (.new config) traces
  exact ⟨hload.trans (UInt64.zero_add _), hstore.trans (UInt64.zero_add _)⟩

end Csim

end Csf
