import Csf.Csim.Arguments
import Csf.Lib.Machine

/-!
# The cache simulator

`cache_sim.cpp`: a cache as a vector of sets, each a vector of lines, and what
`access_memory` does to it for every line of a trace (`Csf.Csim.CacheSim.accessMemory`).
The recency of a line is the value the counter of its set had when the line was last used
or filled; the order of first-in-first-out is that of the lines, from the index
`first_in` on.

All numbers are machine words, 32 bits in the lines and sets and 64 bits in the counters
of the simulation. The member functions that work on one set are given the set and the
counters, and give back both.
-/

namespace Csf

namespace Csim

/-- `struct Trace` -/
structure Trace where
  /-- `'l'` for a load, anything else is a store. -/
  type : Char
  /-- `address` -/
  address : UInt32

/-- `struct CacheLine` -/
structure CacheLine where
  /-- `tag` -/
  tag : UInt32 := 0
  /-- `valid` -/
  valid : Bool := false
  /-- `dirty`, for write-back -/
  dirty : Bool := false
  /-- `load_time` -/
  loadTime : UInt32 := 0
  /-- `access_time`, for LRU replacement -/
  accessTime : UInt32 := 0
  deriving DecidableEq, Inhabited

/-- `struct CacheSet` -/
structure CacheSet where
  /-- `lines` -/
  lines : List CacheLine
  /-- `lru_counter` -/
  lruCounter : UInt32
  /-- `first_in`, the FIFO index -/
  firstIn : UInt32
  deriving DecidableEq, Inhabited

/-- The counters of `class CacheSim`. -/
structure Counters where
  /-- `total_loads` -/
  totalLoads : UInt64 := 0
  /-- `total_stores` -/
  totalStores : UInt64 := 0
  /-- `load_hits` -/
  loadHits : UInt64 := 0
  /-- `load_misses` -/
  loadMisses : UInt64 := 0
  /-- `store_hits` -/
  storeHits : UInt64 := 0
  /-- `store_misses` -/
  storeMisses : UInt64 := 0
  /-- `total_cycles` -/
  totalCycles : UInt64 := 0
  deriving DecidableEq

/-- `class CacheSim` -/
structure CacheSim where
  /-- `config` -/
  config : Cache
  /-- `sets` -/
  sets : List CacheSet
  /-- The counters. -/
  counters : Counters
  deriving DecidableEq

/-! ### Addresses -/

/-- `__builtin_ctz` -/
def builtinCtz (x : UInt32) : UInt32 := ⟨x.toBitVec.ctz⟩

/-- `CacheSim::parse_address`: the set index and the tag. A shift by 32 or more, which is
undefined, is one by the remainder modulo 32. -/
def parseAddress (config : Cache) (addr : UInt32) : UInt32 × UInt32 :=
  let blockOffsets := builtinCtz config.blockSize
  let setOffsets := builtinCtz config.numSets
  let setIdx := (addr >>> blockOffsets) &&& ((1 <<< setOffsets) - 1)
  let tag := addr >>> (blockOffsets + setOffsets)
  (setIdx, tag)

/-! ### One set -/

/-- The test `line.valid && line.tag == tag` of the loops that look for a tag. -/
def CacheLine.holds (tag : UInt32) (line : CacheLine) : Bool := line.valid && line.tag == tag

/-- `CacheSim::find_cache_line`: whether the tag is there. With `lru` the line that has it
is marked as used. -/
def findCacheLine (config : Cache) (set : CacheSet) (tag : UInt32) : Bool × CacheSet :=
  match set.lines.findIdx? (·.holds tag) with
  | some i =>
      (true,
        if config.isLru then
          { set with
            lines := set.lines.modify i fun line => { line with accessTime := set.lruCounter }
            lruCounter := set.lruCounter + 1 }
        else set)
  | none => (false, set)

/-- `std::min_element` with the comparison of `access_time`: the first line that no line
is less than. -/
def minElement (lines : List CacheLine) : ℕ :=
  lines.findIdx fun a => lines.all fun b => a.accessTime ≤ b.accessTime

/-- `(config.block_size / 4) * 100`, in 32 bits. -/
def Cache.transferCycles (config : Cache) : UInt32 := config.blockSize / 4 * 100

/-- More cycles. -/
def Counters.addCycles (counters : Counters) (n : UInt32) : Counters :=
  { counters with totalCycles := counters.totalCycles + n.toUInt64 }

/-- `CacheSim::remove_line`: the index of the line, instead of a pointer to it. -/
def removeLine (config : Cache) (set : CacheSet) (counters : Counters) :
    ℕ × CacheSet × Counters :=
  match set.lines.findIdx? (!·.valid) with
  | some i => (i, set, counters)
  | none =>
      let (removeMe, set) :=
        if config.isFifo then
          (set.firstIn.toNat,
            { set with firstIn := .ofNat ((set.firstIn + 1).toNat % set.lines.length) })
        else (minElement set.lines, set)
      let dirty := (set.lines.getD removeMe default).dirty
      (removeMe, set,
        if dirty && config.isWriteBack then counters.addCycles config.transferCycles
        else counters)

/-- The assignment `*remove_me = {tag, true, dirty, 0, cache_set.lru_counter++}`. -/
def CacheSet.assign (set : CacheSet) (removeMe : ℕ) (tag : UInt32) (dirty : Bool) : CacheSet :=
  { set with
    lines := set.lines.set removeMe
      { tag, valid := true, dirty, loadTime := 0, accessTime := set.lruCounter }
    lruCounter := set.lruCounter + 1 }

/-- `CacheSim::handle_load` -/
def handleLoad (config : Cache) (set : CacheSet) (counters : Counters) (tag : UInt32)
    (hit : Bool) : CacheSet × Counters :=
  if hit then
    (set, { counters with loadHits := counters.loadHits + 1 }.addCycles 1)
  else
    let counters :=
      { counters with loadMisses := counters.loadMisses + 1 }.addCycles
        (1 + config.transferCycles)
    let (removeMe, set, counters) := removeLine config set counters
    (set.assign removeMe tag false, counters)

/-- `CacheSim::handle_store` -/
def handleStore (config : Cache) (set : CacheSet) (counters : Counters) (tag : UInt32)
    (hit : Bool) : CacheSet × Counters :=
  if hit then
    let counters := { counters with storeHits := counters.storeHits + 1 }.addCycles 1
    match set.lines.findIdx? (·.holds tag) with
    | some i =>
        if config.isWriteBack then
          ({ set with lines := set.lines.modify i fun ln => { ln with dirty := true } }, counters)
        else (set, counters.addCycles 100)
    | none => (set, counters)
  else
    let counters := { counters with storeMisses := counters.storeMisses + 1 }
    if config.isWriteAllocate then
      let counters := counters.addCycles (1 + config.transferCycles)
      let (removeMe, set, counters) := removeLine config set counters
      (set.assign removeMe tag config.isWriteBack,
        if !config.isWriteBack then counters.addCycles 100 else counters)
    else (set, counters.addCycles 100)

/-! ### The cache -/

namespace CacheSim

/-- The constructor. -/
def new (config : Cache) : CacheSim where
  config := config
  sets := List.replicate config.numSets.toNat
    { lines := List.replicate config.blockNumPerSet.toNat {}, lruCounter := 0, firstIn := 0 }
  counters := {}

/-- `CacheSim::access_memory`. The value is the variable `hit`, the decision that is made
on the access. -/
def accessMemory (sim : CacheSim) (trace : Trace) : Bool × CacheSim :=
  let load := trace.type == 'l'
  let counters :=
    if load then { sim.counters with totalLoads := sim.counters.totalLoads + 1 }
    else { sim.counters with totalStores := sim.counters.totalStores + 1 }
  let (setIdx, tag) := parseAddress sim.config trace.address
  let (hit, cacheSet) := findCacheLine sim.config (sim.sets.getD setIdx.toNat default) tag
  let (cacheSet, counters) :=
    if load then handleLoad sim.config cacheSet counters tag hit
    else handleStore sim.config cacheSet counters tag hit
  (hit, { sim with sets := sim.sets.set setIdx.toNat cacheSet, counters })

end CacheSim

end Csim

end Csf
