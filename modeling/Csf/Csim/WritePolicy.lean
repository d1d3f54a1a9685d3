import Csf.Csim.Accounting

/-!
# Write-back against write-through

The dirty bits are written in the loops that decide on hits and misses, but never read there.
So two simulators that differ in what happens to a store that hits go through the same sets,
but for these bits (`Csf.Csim.accessSet_clean`), and count the same hits and misses. What
differs is what they are charged for (`Csf.Csim.writePolicies_agree`).
-/

namespace Csf

namespace Csim

open Interaction

variable {config : Cache} {set set' : CacheSet} {tag : UInt32}

/-! ### What is left without the dirty bits -/

/-- A line without its dirty bit. -/
def CacheLine.clean (line : CacheLine) : CacheLine := { line with dirty := false }

/-- A set without its dirty bits. -/
@[simps] def CacheSet.clean (set : CacheSet) : CacheSet :=
  { set with lines := set.lines.map (·.clean) }

/-- The configuration with the other way of treating a store. -/
@[simps] def Cache.withWriteBack (config : Cache) (b : Bool) : Cache :=
  { config with isWriteBack := b }

/-- What does not look at the dirty bits finds the same line. -/
theorem findIdx?_clean {p : CacheLine → Bool} (h : ∀ line : CacheLine, p line.clean = p line)
    (set : CacheSet) : set.clean.lines.findIdx? p = set.lines.findIdx? p := by
  rw [CacheSet.clean, List.findIdx?_map]
  exact congrArg (set.lines.findIdx? ·) (funext h)

/-- The line that has not been used the longest is the same. -/
theorem minElement_clean (set : CacheSet) : minElement set.clean.lines = minElement set.lines := by
  rw [minElement, minElement, CacheSet.clean, List.findIdx_map]
  refine congrArg (set.lines.findIdx ·) (funext fun a => ?_)
  rw [Function.comp_apply, List.all_map]
  rfl

/-- What is changed in a line apart from its dirty bit is changed without it, too. -/
theorem map_clean_modify {f : CacheLine → CacheLine}
    (h : ∀ line : CacheLine, (f line).clean = f line.clean) (i : ℕ) (lines : List CacheLine) :
    (lines.modify i f).map (·.clean) = (lines.map (·.clean)).modify i f := by
  refine List.ext_getElem? fun j => ?_
  rw [List.getElem?_map, List.getElem?_modify, List.getElem?_modify, List.getElem?_map]
  cases lines[j]? with
  | none => rfl
  | some line =>
    refine congrArg some ?_
    dsimp only
    split
    · exact h line
    · rfl

theorem findCacheLine_clean (b : Bool) (set : CacheSet) (tag : UInt32) :
    findCacheLine (config.withWriteBack b) set.clean tag =
      ((findCacheLine config set tag).1, (findCacheLine config set tag).2.clean) := by
  rw [findCacheLine, findCacheLine, findIdx?_clean fun _ => rfl]
  cases set.lines.findIdx? (·.holds tag) with
  | none => rfl
  | some i =>
    refine congrArg (Prod.mk true) ?_
    rw [Cache.withWriteBack_isLru, apply_ite CacheSet.clean]
    have hlines := map_clean_modify (f := fun line => { line with accessTime := set.lruCounter })
      (fun _ => rfl) i set.lines
    exact if_congr Iff.rfl ((CacheSet.mk.injEq ..).mpr ⟨hlines.symm, rfl, rfl⟩) rfl

/-- **The line to be replaced** is the same, and so is the set that is left. -/
theorem removeLine_clean (b : Bool) (set : CacheSet) (counters counters' : Counters) :
    (removeLine (config.withWriteBack b) set.clean counters').1 =
        (removeLine config set counters).1 ∧
      (removeLine (config.withWriteBack b) set.clean counters').2.1 =
        (removeLine config set counters).2.1.clean := by
  rw [removeLine, removeLine, findIdx?_clean fun _ => rfl]
  cases set.lines.findIdx? (!·.valid) with
  | some i => exact ⟨rfl, rfl⟩
  | none =>
    have hlen : set.clean.lines.length = set.lines.length := List.length_map _
    simp only [Cache.withWriteBack_isFifo, minElement_clean, hlen]
    cases config.isFifo <;> exact ⟨rfl, rfl⟩

@[simp] theorem clean_clean (set : CacheSet) : set.clean.clean = set.clean := by
  simp only [CacheSet.clean, List.map_map]
  rfl

theorem assign_clean (set : CacheSet) (i : ℕ) (tag : UInt32) (dirty dirty' : Bool) :
    (set.clean.assign i tag dirty').clean = (set.assign i tag dirty).clean := by
  simp only [CacheSet.assign, CacheSet.clean, List.map_set, List.map_map]
  rfl

/-- **A line is filled** with the same block in the same place. -/
theorem fill_clean (b : Bool) (set : CacheSet) (counters counters' : Counters) (tag : UInt32)
    (dirty dirty' : Bool) :
    let r := removeLine config set counters
    let r' := removeLine (config.withWriteBack b) set.clean counters'
    (r'.2.1.assign r'.1 tag dirty').clean = (r.2.1.assign r.1 tag dirty).clean := by
  intro r r'
  obtain ⟨hindex, hset⟩ : r'.1 = r.1 ∧ r'.2.1 = r.2.1.clean :=
    removeLine_clean b set counters counters'
  rw [hindex, hset, assign_clean _ _ _ dirty]

theorem handleLoad_clean (b : Bool) (set : CacheSet) (counters counters' : Counters)
    (tag : UInt32) (hit : Bool) :
    (handleLoad (config.withWriteBack b) set.clean counters' tag hit).1.clean =
      (handleLoad config set counters tag hit).1.clean := by
  cases hit
  · exact fill_clean b set _ _ tag false false
  · exact clean_clean set

/-- A store that hits changes nothing else. -/
theorem store_hit_clean (config : Cache) (set : CacheSet) (counters : Counters) (tag : UInt32) :
    (handleStore config set counters tag true).1.clean = set.clean := by
  rw [handleStore, if_pos rfl]
  split
  · rename_i i _
    have hlines := map_modify_of_same (f := fun ln : CacheLine => { ln with dirty := true })
      (g := CacheLine.clean) (fun _ => rfl) i set.lines
    cases config.isWriteBack
    · rfl
    · exact (CacheSet.mk.injEq ..).mpr ⟨hlines, rfl, rfl⟩
  · rfl

theorem handleStore_clean (b : Bool) (set : CacheSet) (counters counters' : Counters)
    (tag : UInt32) (hit : Bool) :
    (handleStore (config.withWriteBack b) set.clean counters' tag hit).1.clean =
      (handleStore config set counters tag hit).1.clean := by
  cases hit
  · simp only [handleStore, Bool.false_eq_true, if_false, Cache.withWriteBack_isWriteAllocate]
    cases config.isWriteAllocate
    · exact clean_clean set
    · exact fill_clean b set _ _ tag _ _
  · rw [store_hit_clean, store_hit_clean, clean_clean]

/-- **An access of one set** decides the same, and leaves the same but for the dirty bits. -/
theorem accessSet_clean (b load : Bool) (tag : UInt32) (set : CacheSet)
    (counters counters' : Counters) :
    (accessSet (config.withWriteBack b) load tag set.clean counters').1 =
        (accessSet config load tag set counters).1 ∧
      (accessSet (config.withWriteBack b) load tag set.clean counters').2.1.clean =
        (accessSet config load tag set counters).2.1.clean := by
  simp only [accessSet, findCacheLine_clean]
  cases load
  · exact ⟨trivial, handleStore_clean b _ _ _ tag _⟩
  · exact ⟨trivial, handleLoad_clean b _ _ _ tag _⟩

/-! ### Both simulators -/

/-- **The simulators agree** in all but the dirty bits and the cycles. -/
structure Agree (sim sim' : CacheSim) : Prop where
  config : ∃ b, sim'.config = sim.config.withWriteBack b
  sets : sim'.sets.map (·.clean) = sim.sets.map (·.clean)
  counters : ∃ cycles, sim'.counters = sim.counters.withCycles cycles

/-- The cycles are apart from what is counted. -/
theorem withCycles_count (counters : Counters) (cycles : UInt64) (load hit : Bool) :
    ∃ cycles', (counters.withCycles cycles).count load hit =
      (counters.count load hit).withCycles cycles' := by
  cases load <;> cases hit <;> exact ⟨cycles, rfl⟩

/-- What an access does to the sets. -/
theorem accessMemory_sets (sim : CacheSim) (trace : Trace) :
    let p := parseAddress sim.config trace.address
    let i := p.1.toNat
    let r := accessSet sim.config (trace.type == 'l') p.2 (sim.sets.getD i default)
    ∃ counters, (sim.accessMemory trace).1 = (r counters).1 ∧
      (sim.accessMemory trace).2.config = sim.config ∧
        (sim.accessMemory trace).2.sets = sim.sets.set i (r counters).2.1 :=
  ⟨_, rfl, rfl, rfl⟩

/-- **One access** is decided in the same way. -/
theorem agree_accessMemory {sim sim' : CacheSim} (h : Agree sim sim') (trace : Trace) :
    (sim'.accessMemory trace).1 = (sim.accessMemory trace).1 ∧
      Agree (sim.accessMemory trace).2 (sim'.accessMemory trace).2 := by
  obtain ⟨⟨b, hconfig⟩, hsets, ⟨cycles, hcycles⟩⟩ := h
  obtain ⟨counters, hhit, hconfig₁, hsets₁⟩ := accessMemory_sets sim trace
  obtain ⟨counters', hhit', hconfig₂, hsets₂⟩ := accessMemory_sets sim' trace
  have hparse : parseAddress sim'.config trace.address = parseAddress sim.config trace.address := by
    rw [hconfig]
    rfl
  have hset : ∀ i, (sim'.sets.getD i default).clean = (sim.sets.getD i default).clean := by
    intro i
    rw [← List.getD_map (f := CacheSet.clean), ← List.getD_map (f := CacheSet.clean), hsets]
  rw [hparse] at hhit' hsets₂
  generalize (parseAddress sim.config trace.address).1.toNat = i at *
  generalize (parseAddress sim.config trace.address).2 = tag at *
  -- both are compared with the set without dirty bits
  have hsame := @accessSet_clean sim.config b (trace.type == 'l') tag
    (sim.sets.getD i default) counters counters'
  have hsame' := @accessSet_clean sim'.config b (trace.type == 'l') tag
    (sim'.sets.getD i default) counters' counters'
  rw [hset, show sim'.config.withWriteBack b = sim.config.withWriteBack b by rw [hconfig]; rfl]
    at hsame'
  have hdecide : (sim'.accessMemory trace).1 = (sim.accessMemory trace).1 := by
    rw [hhit, hhit', ← hsame.1, hsame'.1]
  refine ⟨hdecide, ⟨b, by rw [hconfig₂, hconfig₁, hconfig]⟩, ?_, ?_⟩
  · rw [hsets₁, hsets₂, List.map_set, List.map_set, hsets, ← hsame.2, hsame'.2]
  · obtain ⟨cycles₁, hcount₁⟩ := accessMemory_counters sim trace
    obtain ⟨cycles₂, hcount₂⟩ := accessMemory_counters sim' trace
    obtain ⟨cycles₃, hcount₃⟩ := withCycles_count sim.counters cycles (trace.type == 'l')
      (sim.accessMemory trace).1
    refine ⟨cycles₂, ?_⟩
    rw [hcount₂, hdecide, hcycles, hcount₃, hcount₁]
    rfl

/-- Empty caches agree. -/
theorem agree_new (config : Cache) (b : Bool) :
    Agree (.new config) (.new (config.withWriteBack b)) :=
  ⟨⟨b, rfl⟩, rfl, ⟨0, rfl⟩⟩

/-- Write-through needs no more than write-back. -/
theorem Cache.Accepted.withWriteBack_false (h : config.Accepted) :
    (config.withWriteBack false).Accepted :=
  ⟨h.numSets, h.blockNumPerSet, h.blockSize, h.four_le, h.policy, .inr rfl⟩

/-- What has been spent with the two ways of treating a store that hits. -/
theorem spent_withWriteBack (hwb : config.isWriteBack = true) (counters : Counters)
    (cycles : UInt64) : (config.withWriteBack false).spent (counters.withCycles cycles) =
      config.spent counters + 100 * counters.totalStores := by
  simp only [Cache.spent, hwb, Cache.withWriteBack_isWriteBack, if_true, Bool.false_eq_true,
    if_false, UInt64.mul_zero, UInt64.add_zero]
  rfl

/-- **Write-back and write-through decide the same** on every access of a trace, and count the
same. Write-through is charged a hundred cycles for every store, and write-back what it takes
to write back a block for every one that is evicted after it has been stored to. -/
theorem writePolicies_agree {argv : List Str} {config : Cache}
    (hargs : parseArguments argv = .ok (some config)) (hwb : config.isWriteBack = true)
    (traces : List Trace) :
    let back := after CacheSim.accessMemory (.new config) traces
    let through := after CacheSim.accessMemory (.new (config.withWriteBack false)) traces
    let D := dirtyEvictions (outputs CacheSim.observe (.new config) traces).reverse
    outputs CacheSim.accessMemory (.new (config.withWriteBack false)) traces =
        outputs CacheSim.accessMemory (.new config) traces ∧
      (∃ cycles, through.counters = back.counters.withCycles cycles) ∧
      through.counters.totalCycles + config.transferCycles.toUInt64 * .ofNat D =
        back.counters.totalCycles + 100 * .ofNat (traces.countP (·.type != 'l')) := by
  intro back through D
  have h := accepted_of_parseArguments hargs
  obtain ⟨hout, hagree⟩ := outputs_eq (R := fun _ sim' sim => Agree sim sim') (N := traces.length)
    (fun _ _ _ _ trace hsim => agree_accessMemory hsim trace) (agree_new config false) traces
    (Nat.zero_add _).le
  obtain ⟨cycles, hcounters⟩ := hagree.counters
  refine ⟨hout, ⟨cycles, hcounters⟩, ?_⟩
  have hback := (accounted_run h (accounted_new h) traces).cycles
  have hthrough :=
    (accounted_run h.withWriteBack_false (accounted_new h.withWriteBack_false) traces).cycles
  rw [after_observe, List.append_nil] at hback hthrough
  have hstores := (totalStores_run (.new config) traces).trans (UInt64.zero_add _)
  have hnothing : ∀ n, (config.withWriteBack false).writeBackCycles n = 0 := fun n =>
    UInt64.mul_zero
  have hevicted : config.writeBackCycles D = config.transferCycles.toUInt64 * .ofNat D := by
    rw [Cache.writeBackCycles, if_pos hwb]
  rw [hnothing, UInt64.add_zero, hcounters, spent_withWriteBack hwb, hstores] at hthrough
  rw [hevicted] at hback
  rw [hback, hcounters, hthrough]
  ac_rfl

/-- A block that is stored to twice and evicted, in the cache of `Csf.Csim.oneSet`. -/
theorem writePolicies_agree_oneSet :
    let config : Cache := ⟨1, 2, 16, true, true, true, false⟩
    let traces : List Trace := [⟨'s', 0⟩, ⟨'s', 4⟩, ⟨'l', 16⟩, ⟨'l', 32⟩]
    (after CacheSim.accessMemory (.new (config.withWriteBack false)) traces).counters.totalCycles +
        config.transferCycles.toUInt64 * .ofNat 1 =
      (after CacheSim.accessMemory (.new config) traces).counters.totalCycles +
        100 * .ofNat (traces.countP (·.type != 'l')) := by
  intro config traces
  have hargs : parseArguments oneSet = .ok (some config) := by decide +kernel
  have hevicted : dirtyEvictions (outputs CacheSim.observe (.new config) traces).reverse = 1 := by
    decide +kernel
  rw [← hevicted]
  exact (writePolicies_agree hargs rfl traces).2.2

end Csim

end Csf
