import Csf.Csim.Reference
import Csf.Lib.Fifo

/-!
# Replacement of the line that was filled first

With `fifo` a set has no ages. Lines are filled from the left as long as there is an
invalid one, and then the line at `first_in` is replaced and the index goes on by one,
around the end: the tags of the lines are a queue in the slots of an array
(`Csf.Csim.Fifo`), the oldest first. A hit leaves the queue alone, and a line that is
filled puts its tag at the end, after the oldest is dropped when there is no invalid line
(`Csf.Csim.fifo_accessSet`).

So the simulator decides on hits and misses as the queues of block numbers do
(`Csf.Csim.fifo_refinement`), for traces of any length: no counter has a part in it.
-/

namespace Csf

namespace Csim

open Interaction

variable {config : Cache} {set : CacheSet} {queue : List UInt32} {tag : UInt32}

/-! ### The lines of a set as a queue -/

/-- The tag that a line holds, if it is valid. -/
def held (line : CacheLine) : Option UInt32 := if line.valid then some line.tag else none

theorem held_eq_some {line : CacheLine} : held line = some tag ↔ line.holds tag = true := by
  simp [held, CacheLine.holds]

theorem isNone_held (line : CacheLine) : (held line).isNone = !line.valid := by
  cases hvalid : line.valid <;> simp [held, hvalid]

/-- **The set holds the tags of the queue**, the one filled first at the front. -/
def Fifo (config : Cache) (set : CacheSet) (queue : List UInt32) : Prop :=
  Ring config.blockNumPerSet.toNat (set.lines.map held) set.firstIn.toNat queue

namespace Fifo

/-- A set of invalid lines holds nothing. -/
theorem new (hpos : 0 < config.blockNumPerSet.toNat) :
    Fifo config ⟨List.replicate config.blockNumPerSet.toNat {}, 0, 0⟩ [] := by
  rw [Fifo, List.map_replicate]
  exact .empty hpos

theorem length (h : Fifo config set queue) :
    set.lines.length = config.blockNumPerSet.toNat := by
  rw [← h.length_slots, List.length_map]

theorem mem_iff (h : Fifo config set queue) : tag ∈ queue ↔ ∃ line ∈ set.lines, line.holds tag := by
  rw [Ring.mem_iff h, List.mem_map]
  simp only [held_eq_some]

/-- A tag that is there is found, and nothing is changed. -/
theorem found (h : Fifo config set queue) (hlru : config.isLru = false) (htag : tag ∈ queue) :
    findCacheLine config set tag = (true, set) := by
  obtain ⟨i, hfind, -⟩ := findIdx?_of_holds (h.mem_iff.mp htag)
  rw [findCacheLine, hfind]
  dsimp only
  rw [if_neg (by simp [hlru])]

/-- A tag that is not there is not found, and nothing is changed. -/
theorem not_found (h : Fifo config set queue) (htag : tag ∉ queue) :
    findCacheLine config set tag = (false, set) :=
  findCacheLine_of_not_holds (mt h.mem_iff.mpr htag)

/-- A hit of a store writes to a line, which leaves the queue alone. -/
theorem store_hit (h : Fifo config set queue) (tag : UInt32) (counters : Counters) :
    Fifo config (handleStore config set counters tag true).1 queue := by
  rw [handleStore, if_pos rfl]
  split
  · rename_i i hfind
    cases config.isWriteBack
    · exact h
    · have hheld : ∀ ln, held { ln with dirty := true } = held ln := fun _ => rfl
      rw [if_pos rfl, Fifo]
      dsimp only
      rw [map_modify_of_same hheld]
      exact h
  · exact h

/-- **Filling a line** puts its tag at the end of the queue, after the oldest is dropped
when the set is full. -/
theorem fill (h : Fifo config set queue) (hfifo : config.isFifo = true) (tag : UInt32)
    (dirty : Bool) (counters : Counters) :
    let r := removeLine config set counters
    Fifo config (r.2.1.assign r.1 tag dirty)
      ((if queue.length < config.blockNumPerSet.toNat then queue else queue.tail) ++ [tag]) := by
  have hmap : ∀ {lines : List CacheLine} {i : ℕ},
      (lines.set i ⟨tag, true, dirty, 0, set.lruCounter⟩).map held =
        (lines.map held).set i (some tag) := by
    intro lines i
    rw [List.map_set]
    rfl
  have hfind : set.lines.findIdx? (!·.valid) =
      if queue.length < config.blockNumPerSet.toNat then some queue.length else none := by
    rw [← Ring.findIdx?_isNone h, List.findIdx?_map]
    exact congrArg (set.lines.findIdx? ·) (funext fun line => (isNone_held line).symm)
  have hlt : set.firstIn.toNat < config.blockNumPerSet.toNat := h.first_lt
  rw [removeLine, hfind]
  by_cases hroom : queue.length < config.blockNumPerSet.toNat
  · rw [if_pos hroom, if_pos hroom]
    dsimp only
    rw [Fifo, CacheSet.assign, hmap]
    exact Ring.push h hroom tag
  · rw [if_neg hroom, if_neg hroom, if_pos hfifo]
    dsimp only
    have hways := config.blockNumPerSet.toNat_lt
    -- the index of the oldest line goes on by one, around the end
    have hnext : (UInt32.ofNat ((set.firstIn + 1).toNat % set.lines.length)).toNat =
        (set.firstIn.toNat + 1) % config.blockNumPerSet.toNat := by
      have hmod : (set.firstIn.toNat + 1) % config.blockNumPerSet.toNat < 2 ^ 32 :=
        (Nat.mod_lt _ (by omega)).trans hways
      rw [h.length, toNat_succ (by omega), UInt32.toNat_ofNat_of_lt' hmod]
    rw [Fifo, CacheSet.assign, hmap, hnext]
    exact Ring.replace h hroom tag

end Fifo

/-- **An access of one set** does to the tags what one does of a first-in-first-out
queue, and decides as that does on hit or miss. -/
theorem fifo_accessSet (h : Fifo config set queue) (hlru : config.isLru = false)
    (hfifo : config.isFifo = true) (load : Bool) (counters : Counters) :
    (accessSet config load tag set counters).1 = decide (tag ∈ queue) ∧
      Fifo config (accessSet config load tag set counters).2.1
        (fifoAccess config.blockNumPerSet.toNat (load || config.isWriteAllocate) queue tag) := by
  rw [fifoAccess]
  by_cases htag : tag ∈ queue
  · rw [accessSet, h.found hlru htag, if_pos htag]
    refine ⟨(decide_eq_true htag).symm, ?_⟩
    cases load
    · exact h.store_hit tag counters
    · exact h
  · rw [accessSet, h.not_found htag, if_neg htag]
    refine ⟨(decide_eq_false htag).symm, ?_⟩
    cases load
    · cases hwa : config.isWriteAllocate
      · rw [if_neg (by simp)]
        simpa [handleStore, hwa] using h
      · rw [if_pos (by simp)]
        simp only [handleStore, hwa, if_true]
        exact h.fill hfifo tag config.isWriteBack _
    · rw [if_pos (by simp)]
      exact h.fill hfifo tag false _

/-! ### The whole cache -/

/-- **The reference**: for each set a queue of the numbers of the blocks that are in it,
the oldest first. -/
def fifoReference (config : Cache) : (ℕ → List ℕ) → Trace → Bool × (ℕ → List ℕ) :=
  reference (fifoAccess config.blockNumPerSet.toNat) config

/-- **The simulator with `fifo` decides on hits and misses as the reference does.** -/
theorem fifo_refinement {argv : List Str} {config : Cache}
    (hargs : parseArguments argv = .ok (some config)) (hfifo : config.isFifo = true)
    (hsize : config.numSets.toNat * config.blockSize.toNat < 2 ^ 32) (traces : List Trace) :
    outputs CacheSim.accessMemory (.new config) traces =
      outputs (fifoReference config) (fun _ => []) traces := by
  have h := accepted_of_parseArguments hargs
  have hways := h.blockNumPerSet_pos
  have hlru : config.isLru = false := by simpa [hfifo] using h.policy
  have hstep : ∀ n < traces.length, ∀ sim blocks trace, Represents (Fifo config) config sim blocks →
      (CacheSim.accessMemory sim trace).1 = (fifoReference config blocks trace).1 ∧
        Represents (Fifo config) config (sim.accessMemory trace).2
          (fifoReference config blocks trace).2 :=
    fun _ _ sim blocks trace hsim => represents_accessMemory h hsize
      (fun i fill tags tag => fifoAccess_map (blockIn_injective h i) _ fill tags tag)
      (fun _ _ _ load counters hset => fifo_accessSet hset hlru hfifo load counters)
      (fun _ _ hset => hset) hsim trace
  have hnew : Represents (Fifo config) config (.new config) fun _ => [] :=
    represents_new (Fifo.new hways)
  exact (outputs_eq hstep hnew traces (Nat.zero_add _).le).1

/-- The arguments for a cache of two sets with two lines each, and no write-allocate. -/
def smallFifo : List Str :=
  ["csim", "2", "2", "16", "no-write-allocate", "write-through", "fifo"].map String.toList

/-- Two blocks are filled in, a use of the first does not help it, the third takes its
place, and it is missed. -/
theorem fifo_refinement_small :
    let config : Cache := ⟨2, 2, 16, false, false, false, true⟩
    outputs CacheSim.accessMemory (.new config)
      [⟨'s', 0⟩, ⟨'l', 0⟩, ⟨'l', 32⟩, ⟨'s', 4⟩, ⟨'l', 64⟩, ⟨'l', 8⟩] =
        [false, false, false, true, false, false] := by
  intro config
  have hargs : parseArguments smallFifo = .ok (some config) := by decide +kernel
  rw [fifo_refinement hargs rfl (by decide)]
  decide +kernel

end Csim

end Csf
