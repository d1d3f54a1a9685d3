import Csf.Csim.Counting
import Csf.Csim.Fifo
import Csf.Csim.Lru
import Csf.Lib.Paging

/-!
# The simulator against any other cache

With write-allocate every miss fills a line, and each set is a cache of its own that is given
its blocks one by one (`Csf.Csim.reference_eq_sharded`). Both kinds of eviction are
conservative. So a trace that accesses no more blocks of a set than that has lines misses each
of them once (`Csf.Csim.compulsory_misses`). And for other traces no cache does much better,
not even one that is told what is going to be accessed (`Csf.Csim.misses_competitive`).
-/

namespace Csf

namespace Csim

open Interaction

variable {config : Cache}

/-! ### The reference as a cache in parts -/

/-- The blocks that a trace accesses. -/
def blocksOf (config : Cache) (traces : List Trace) : List ℕ :=
  traces.map fun trace => blockOf config trace.address

/-- With write-allocate the reference is a cache with a part for each set. -/
theorem reference_eq_sharded (hwa : config.isWriteAllocate = true)
    (access : Bool → List ℕ → ℕ → List ℕ) (blocks : ℕ → List ℕ) (trace : Trace) :
    reference access config blocks trace = sharded (pageWith (access true))
      (· % config.numSets.toNat) blocks (blockOf config trace.address) := by
  simp only [reference, sharded, pageWith, hwa, Bool.or_true]

/-- What the simulator follows: how a set makes place. -/
def evictWith (config : Cache) : Bool → List ℕ → ℕ → List ℕ :=
  if config.isLru then lruAccess config.blockNumPerSet.toNat
  else fifoAccess config.blockNumPerSet.toNat

/-- Fewer accesses than a counter can count that must not wrap around: those that tell which
line was used the longest ago, or those that count the misses. -/
def Cache.maxAccesses (config : Cache) : ℕ := if config.isLru then 2 ^ 32 else 2 ^ 64

theorem Cache.maxAccesses_le (config : Cache) : config.maxAccesses ≤ 2 ^ 64 := by
  rw [Cache.maxAccesses]
  split <;> decide

/-- **The simulator decides as the reference does**, with either kind of eviction. -/
theorem outputs_eq_reference {argv : List Str} (hargs : parseArguments argv = .ok (some config))
    (hsize : config.numSets.toNat * config.blockSize.toNat < 2 ^ 32) {traces : List Trace}
    (hlen : traces.length < config.maxAccesses) :
    outputs CacheSim.accessMemory (.new config) traces =
      outputs (reference (evictWith config) config) (fun _ => []) traces := by
  have h := accepted_of_parseArguments hargs
  rw [evictWith]
  rw [Cache.maxAccesses] at hlen
  cases hlru : config.isLru
  · have hfifo : config.isFifo = true := by rw [h.policy, hlru, Bool.not_false]
    have hnew : Represents (Fifo config) config (.new config) fun _ => [] :=
      represents_new (Fifo.new h.blockNumPerSet_pos)
    exact (outputs_eq (R := fun _ => Represents (Fifo config) config) (N := traces.length)
      (fun _ _ sim blocks trace hsim => represents_accessMemory h hsize
        (fun i fill tags tag => fifoAccess_map (blockIn_injective h i) _ fill tags tag)
        (fun _ _ _ load counters hset => fifo_accessSet hset hlru hfifo load counters)
        (fun _ _ hset => hset) hsim trace) hnew traces (Nat.zero_add _).le).1
  · rw [hlru, if_pos rfl] at hlen
    exact (lruAt_run h hlru hsize traces hlen).1

/-- The kind of eviction is conservative. -/
theorem conservative_evictWith (hpos : 0 < config.blockNumPerSet.toNat) :
    Conservative config.blockNumPerSet.toNat (pageWith (evictWith config true)) [] := by
  rw [evictWith]
  cases config.isLru
  · exact conservative_fifo hpos (bounded_nil _)
  · exact conservative_lru hpos (bounded_nil _)

/-- It brings in nothing but what is accessed. -/
theorem mem_of_mem_evictWith (l : List ℕ) (x y : ℕ) (h : y ∈ evictWith config true l x) :
    y = x ∨ y ∈ l := by
  rw [evictWith] at h
  cases hlru : config.isLru <;> rw [hlru] at h
  · exact mem_of_mem_fifoAccess h
  · exact mem_of_mem_lruAccess h

/-! ### What is counted -/

/-- A miss is that of a load or of a store. -/
theorem missesOf_add {traces : List Trace} {hits : List Bool} (h : hits.length = traces.length) :
    missesOf true traces hits + missesOf false traces hits = hits.count false := by
  induction traces generalizing hits with
  | nil => rw [List.eq_nil_of_length_eq_zero h]; rfl
  | cons trace traces ih =>
    cases hits with
    | nil => exact absurd h (by simp)
    | cons hit hits =>
      rw [missesOf_cons, missesOf_cons, List.count_cons, ← ih (by simpa using h)]
      cases trace.type == 'l' <;> cases hit <;> simp <;> omega

/-- **All that the simulator misses** is in its two counters, and is what its reference
misses. -/
theorem misses_eq {argv : List Str} (hargs : parseArguments argv = .ok (some config))
    (hwa : config.isWriteAllocate = true)
    (hsize : config.numSets.toNat * config.blockSize.toNat < 2 ^ 32) {traces : List Trace}
    (hlen : traces.length < config.maxAccesses) :
    let counters := (after CacheSim.accessMemory (.new config) traces).counters
    counters.loadMisses.toNat + counters.storeMisses.toNat =
      misses (sharded (pageWith (evictWith config true)) (· % config.numSets.toNat))
        (fun _ => []) (blocksOf config traces) := by
  intro counters
  obtain ⟨hload, hstore⟩ := misses_new config traces
  have hlen64 := hlen.trans_le config.maxAccesses_le
  have hcount : ∀ load, (UInt64.ofNat (missesOf load traces
      (outputs CacheSim.accessMemory (.new config) traces))).toNat =
        missesOf load traces (outputs CacheSim.accessMemory (.new config) traces) := fun load =>
    UInt64.toNat_ofNat_of_lt' ((missesOf_le load traces _).trans_lt hlen64)
  rw [show counters.loadMisses = _ from hload, show counters.storeMisses = _ from hstore, hcount,
    hcount, missesOf_add (length_outputs _ _ _), outputs_eq_reference hargs hsize hlen,
    outputs_map (reference_eq_sharded hwa (evictWith config))]
  rfl

/-! ### Against any other cache -/

/-- **Another cache serves the trace**: after each access it has the block that is accessed,
and of each set no more than `h` blocks. What it has beside may have been chosen knowing the
whole trace. -/
def Serves (config : Cache) (h : ℕ) : List Trace → List (Finset ℕ) → Prop :=
  List.Forall₂ fun trace blocks => blockOf config trace.address ∈ blocks ∧
    ∀ i, (blocks.filter (· % config.numSets.toNat = i)).card ≤ h

/-- **No other cache does much better**: with `k` lines in a set, the simulator misses at most
`k / (k + 1 - h)` times as often as any cache with the same sets and blocks and room for `h`
blocks in each brings in a block, but for `k` times in each set. -/
theorem misses_competitive {argv : List Str} {config : Cache}
    (hargs : parseArguments argv = .ok (some config)) (hwa : config.isWriteAllocate = true)
    (hsize : config.numSets.toNat * config.blockSize.toNat < 2 ^ 32) {traces : List Trace}
    (hlen : traces.length < config.maxAccesses) {h : ℕ} {contents : List (Finset ℕ)}
    (hserves : Serves config h traces contents) :
    let counters := (after CacheSim.accessMemory (.new config) traces).counters
    let k := config.blockNumPerSet.toNat
    (k + 1 - h) * (counters.loadMisses.toNat + counters.storeMisses.toNat) ≤
      k * (cost ∅ contents + config.numSets.toNat * (k + 1 - h)) := by
  intro counters k
  have haccepted := accepted_of_parseArguments hargs
  rw [misses_eq hargs hwa hsize hlen]
  refine Interaction.competitive (fun _ => conservative_evictWith haccepted.blockNumPerSet_pos)
    haccepted.blockNumPerSet_pos (fun x _ => Nat.mod_lt x haccepted.numSets_pos) (by simp) ?_
  rw [blocksOf, List.forall₂_map_left_iff]
  exact hserves

/-- The arguments for a cache of one set with two lines, and `lru`. -/
def oneSetLru : List Str :=
  ["csim", "1", "2", "16", "write-allocate", "write-through", "lru"].map String.toList

/-- Three blocks in turn, of which the simulator misses every one, and a cache that keeps the
right ones brings in four. -/
theorem misses_competitive_cycle :
    let config : Cache := ⟨1, 2, 16, true, false, true, false⟩
    let traces : List Trace := [⟨'l', 0⟩, ⟨'s', 16⟩, ⟨'l', 32⟩, ⟨'l', 0⟩, ⟨'l', 16⟩, ⟨'s', 32⟩]
    let counters := (after CacheSim.accessMemory (.new config) traces).counters
    (2 + 1 - 2) * (counters.loadMisses.toNat + counters.storeMisses.toNat) ≤
      2 * (4 + 1 * (2 + 1 - 2)) := by
  intro config traces
  have hargs : parseArguments oneSetLru = .ok (some config) := by decide +kernel
  have hsmall : ∀ blocks : Finset ℕ, blocks.card ≤ 2 → ∀ i,
      (blocks.filter (· % config.numSets.toNat = i)).card ≤ 2 :=
    fun blocks h i => (Finset.card_filter_le blocks _).trans h
  have hserves : Serves config 2 traces [{0}, {0, 1}, {0, 2}, {0, 2}, {1, 2}, {1, 2}] := by
    refine .cons ⟨?_, hsmall _ ?_⟩ (.cons ⟨?_, hsmall _ ?_⟩ (.cons ⟨?_, hsmall _ ?_⟩
      (.cons ⟨?_, hsmall _ ?_⟩ (.cons ⟨?_, hsmall _ ?_⟩ (.cons ⟨?_, hsmall _ ?_⟩ .nil)))))
    all_goals decide
  exact misses_competitive hargs rfl (by decide) (by decide) hserves

/-- **Only what has to be missed is missed** if no set has more blocks in the trace than
lines: each of them is missed the first time and never again. -/
theorem compulsory_misses {argv : List Str} {config : Cache}
    (hargs : parseArguments argv = .ok (some config)) (hwa : config.isWriteAllocate = true)
    (hsize : config.numSets.toNat * config.blockSize.toNat < 2 ^ 32) {traces : List Trace}
    (hlen : traces.length < config.maxAccesses)
    (hroom : ∀ i, ((blocksOf config traces).filter (· % config.numSets.toNat = i)).toFinset.card ≤
      config.blockNumPerSet.toNat) :
    let counters := (after CacheSim.accessMemory (.new config) traces).counters
    counters.loadMisses.toNat + counters.storeMisses.toNat =
      (blocksOf config traces).toFinset.card := by
  intro counters
  have haccepted := accepted_of_parseArguments hargs
  rw [misses_eq hargs hwa hsize hlen]
  exact misses_of_room (fun _ => rfl)
    (fun _ => conservative_evictWith haccepted.blockNumPerSet_pos) mem_of_mem_evictWith
    (fun x _ => Nat.mod_lt x haccepted.numSets_pos) hroom

/-- Two blocks in turn, in two lines. -/
theorem compulsory_misses_two :
    let config : Cache := ⟨1, 2, 16, true, false, true, false⟩
    let traces : List Trace := [⟨'l', 0⟩, ⟨'s', 16⟩, ⟨'l', 4⟩, ⟨'l', 24⟩, ⟨'s', 8⟩]
    let counters := (after CacheSim.accessMemory (.new config) traces).counters
    counters.loadMisses.toNat + counters.storeMisses.toNat = 2 := by
  intro config traces
  have hargs : parseArguments oneSetLru = .ok (some config) := by decide +kernel
  have hlen : traces.length < config.maxAccesses := by decide
  have hblocks : (blocksOf config traces).toFinset.card = 2 := by decide
  refine Eq.trans (compulsory_misses hargs rfl (by decide) hlen fun i => ?_) hblocks
  rw [List.toFinset_filter]
  exact (Finset.card_filter_le _ _).trans (by decide)

end Csim

end Csf
