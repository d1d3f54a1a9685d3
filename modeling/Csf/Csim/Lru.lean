import Csf.Csim.Reference
import Csf.Lib.Recency

/-!
# Replacement of the least recently used line

A set keeps the recency of its lines as values of a counter. The valid lines are stamped
keys (`Csf.Csim.stamps`), and the list of tags in the order of their last use is what the
set is about (`Csf.Csim.Lru`): finding a tag moves it to the front, and a line that is
filled replaces the last one when there is no invalid line (`Csf.Csim.lru_accessSet`).

For the whole cache the reference is a list of block numbers for each set
(`Csf.Csim.lruReference`), and the simulator decides on hits and misses as it does
(`Csf.Csim.lru_refinement`). The counters must not wrap around, which takes as many
accesses as there are words.
-/

namespace Csf

namespace Csim

open Interaction

variable {config : Cache} {set : CacheSet} {lines : List CacheLine} {tags : List UInt32}
  {tag : UInt32} {line : CacheLine} {i : ℕ}

/-! ### The lines of a set as stamped tags -/

/-- The tag of a valid line, stamped with the time of its last use. -/
def stamp (line : CacheLine) : Option (UInt32 × ℕ) :=
  if line.valid then some (line.tag, line.accessTime.toNat) else none

/-- The stamped tags of the valid lines. -/
def stamps (lines : List CacheLine) : List (UInt32 × ℕ) := lines.filterMap stamp

theorem stamps_cons_of_valid (h : line.valid = true) :
    stamps (line :: lines) = (line.tag, line.accessTime.toNat) :: stamps lines :=
  List.filterMap_cons_some (by rw [stamp, if_pos h])

theorem stamps_cons_of_invalid (h : line.valid = false) : stamps (line :: lines) = stamps lines :=
  List.filterMap_cons_none (by rw [stamp, if_neg (by simp [h])])

/-- The stamps are those of one line, and those of the others. -/
theorem stamps_perm (h : i < lines.length) :
    (stamps lines).Perm (stamps (lines[i] :: lines.eraseIdx i)) :=
  (List.getElem_cons_eraseIdx_perm h).symm.filterMap stamp

/-- When a line is replaced, the stamps of the others stay. -/
theorem stamps_set_perm (h : i < lines.length) (line : CacheLine) :
    (stamps (line :: lines.eraseIdx i)).Perm (stamps (lines.set i line)) :=
  (List.set_perm_cons_eraseIdx h line).symm.filterMap stamp

/-- When a line is changed, the stamps of the others stay. -/
theorem stamps_modify_perm (h : i < lines.length) (f : CacheLine → CacheLine) :
    (stamps (f lines[i] :: lines.eraseIdx i)).Perm (stamps (lines.modify i f)) := by
  rw [List.modify_eq_set, List.getElem?_eq_getElem h, Option.getD_some]
  exact stamps_set_perm h (f lines[i])

/-- There are at most as many stamps as lines. -/
theorem length_stamps_le (lines : List CacheLine) : (stamps lines).length ≤ lines.length :=
  List.length_filterMap_le stamp lines

/-- When all lines are valid, there are as many stamps as lines. -/
theorem length_stamps (h : ∀ line ∈ lines, line.valid = true) :
    (stamps lines).length = lines.length := by
  induction lines with
  | nil => rfl
  | cons line lines ih =>
    obtain ⟨hline, hlines⟩ := List.forall_mem_cons.mp h
    rw [stamps_cons_of_valid hline, List.length_cons, ih hlines, List.length_cons]

/-- A tag is stamped if and only if a line holds it. -/
theorem mem_stamps_iff : tag ∈ (stamps lines).map Prod.fst ↔ ∃ line ∈ lines, line.holds tag := by
  simp only [List.mem_map, stamps, List.mem_filterMap, stamp, Option.ite_none_right_eq_some,
    CacheLine.holds, Bool.and_eq_true, beq_iff_eq, Option.some.injEq]
  constructor
  · rintro ⟨p, ⟨line, hline, hvalid, rfl⟩, rfl⟩
    exact ⟨line, hline, hvalid, rfl⟩
  · rintro ⟨line, hline, hvalid, rfl⟩
    exact ⟨_, ⟨line, hline, hvalid, rfl⟩, rfl⟩

/-! ### The tags of a set in the order of their last use -/

/-- **The set holds the tags**, in the order of their last use, the latest first. -/
structure Lru (config : Cache) (set : CacheSet) (tags : List UInt32) : Prop where
  /-- The set has its number of lines. -/
  length : set.lines.length = config.blockNumPerSet.toNat
  /-- The access times say what the order is. -/
  stamped : Stamped set.lruCounter.toNat tags (stamps set.lines)

namespace Lru

theorem mem_iff (h : Lru config set tags) : tag ∈ tags ↔ ∃ line ∈ set.lines, line.holds tag :=
  h.stamped.map_perm.mem_iff.trans mem_stamps_iff

/-- A set of invalid lines holds nothing. -/
theorem new (config : Cache) :
    Lru config ⟨List.replicate config.blockNumPerSet.toNat {}, 0, 0⟩ [] := by
  refine ⟨List.length_replicate, ?_⟩
  have hnil : stamps (List.replicate config.blockNumPerSet.toNat {}) = [] :=
    List.filterMap_eq_nil_iff.mpr fun line hline => by
      rw [List.eq_of_mem_replicate hline]
      rfl
  rw [hnil]
  exact .nil _

/-- No tag is held by two lines. -/
theorem nodup (h : Lru config set tags) : ((stamps set.lines).map Prod.fst).Nodup :=
  h.stamped.map_perm.nodup_iff.mp h.stamped.nodup

/-- A line that is filled puts its tag in front of those of the other lines. -/
theorem assign {others : List UInt32} (hlen : set.lines.length = config.blockNumPerSet.toNat)
    (hroom : set.lruCounter.toNat + 1 < 2 ^ 32) (hi : i < set.lines.length)
    (h : Stamped set.lruCounter.toNat others (stamps (set.lines.eraseIdx i)))
    (htag : tag ∉ others) (dirty : Bool) :
    Lru config (set.assign i tag dirty) (tag :: others) := by
  have hperm := stamps_set_perm hi ⟨tag, true, dirty, 0, set.lruCounter⟩
  rw [stamps_cons_of_valid rfl] at hperm
  refine ⟨?_, ?_⟩
  · rw [CacheSet.assign, List.length_set, hlen]
  · rw [CacheSet.assign, toNat_succ hroom]
    exact (h.push htag (Nat.lt_succ_self _)).perm hperm

/-- One of the lines has been used before all others. -/
theorem exists_oldest (h : lines ≠ []) :
    ∃ a ∈ lines, ∀ b ∈ lines, a.accessTime ≤ b.accessTime := by
  induction lines with
  | nil => exact absurd rfl h
  | cons line lines ih =>
    rcases eq_or_ne lines [] with rfl | hne
    · exact ⟨line, List.mem_cons_self, by simp⟩
    · obtain ⟨a, ha, hmin⟩ := ih hne
      rcases UInt32.le_total a.accessTime line.accessTime with hle | hle
      · exact ⟨a, List.mem_cons_of_mem _ ha, List.forall_mem_cons.mpr ⟨hle, hmin⟩⟩
      · refine ⟨line, List.mem_cons_self, List.forall_mem_cons.mpr ⟨UInt32.le_refl _, ?_⟩⟩
        exact fun b hb => UInt32.le_trans hle (hmin b hb)

/-- The line `std::min_element` finds has been used before all others. -/
theorem minElement_spec (h : lines ≠ []) :
    ∃ hi : minElement lines < lines.length,
      ∀ line ∈ lines, lines[minElement lines].accessTime ≤ line.accessTime := by
  obtain ⟨a, ha, hmin⟩ := exists_oldest h
  have hi : minElement lines < lines.length :=
    List.findIdx_lt_length_of_exists ⟨a, ha, by simpa using hmin⟩
  have hspec : (lines.all fun b => lines[minElement lines].accessTime ≤ b.accessTime) = true :=
    List.findIdx_getElem (w := hi)
  exact ⟨hi, by simpa using hspec⟩

/-- **The line to be replaced** is an invalid one, or all are valid and it is the one
that has not been used the longest. -/
theorem removeLine_spec (hfifo : config.isFifo = false) (hlen : 0 < set.lines.length)
    (counters : Counters) :
    ∃ i counters', removeLine config set counters = (i, set, counters') ∧
      ∃ hi : i < set.lines.length, set.lines[i].valid = false ∨
        (∀ line ∈ set.lines, line.valid = true) ∧
          ∀ line ∈ set.lines, set.lines[i].accessTime ≤ line.accessTime := by
  rw [removeLine]
  split
  · rename_i i hfind
    obtain ⟨hi, hinvalid, -⟩ := List.findIdx?_eq_some_iff_getElem.mp hfind
    exact ⟨i, counters, rfl, hi, .inl (by simpa using hinvalid)⟩
  · rename_i hfind
    have hvalid : ∀ line ∈ set.lines, line.valid = true := by
      simpa using List.findIdx?_eq_none_iff.mp hfind
    obtain ⟨hi, hmin⟩ := minElement_spec (List.ne_nil_of_length_pos hlen)
    rw [if_neg (by simp [hfifo])]
    exact ⟨_, _, rfl, hi, .inr ⟨hvalid, hmin⟩⟩

/-- **Filling a line** puts its tag in front, after the last one is dropped when the set
is full. -/
theorem fill (h : Lru config set tags) (hfifo : config.isFifo = false)
    (hpos : 0 < config.blockNumPerSet.toNat) (hroom : set.lruCounter.toNat + 1 < 2 ^ 32)
    (htag : tag ∉ tags) (dirty : Bool) (counters : Counters) :
    let r := removeLine config set counters
    Lru config (r.2.1.assign r.1 tag dirty)
        (tag :: if tags.length < config.blockNumPerSet.toNat then tags else tags.dropLast) ∧
      (r.2.1.assign r.1 tag dirty).lruCounter = set.lruCounter + 1 := by
  obtain ⟨i, counters', hremove, hi, hline⟩ := removeLine_spec hfifo (h.length ▸ hpos) counters
  simp only [hremove]
  refine ⟨?_, rfl⟩
  have hperm := stamps_perm hi
  rcases hline with hinvalid | ⟨hvalid, hmin⟩
  · rw [stamps_cons_of_invalid hinvalid] at hperm
    have hle := length_stamps_le (set.lines.eraseIdx i)
    rw [List.length_eraseIdx_of_lt hi, ← hperm.length_eq, ← h.stamped.length_eq, h.length] at hle
    rw [if_pos (by omega)]
    exact assign h.length hroom hi (h.stamped.perm hperm) htag dirty
  · have hfull : ¬tags.length < config.blockNumPerSet.toNat := by
      rw [h.stamped.length_eq, length_stamps hvalid, h.length]
      exact lt_irrefl _
    rw [if_neg hfull]
    rw [stamps_cons_of_valid (hvalid _ (List.getElem_mem hi))] at hperm
    refine assign h.length hroom hi ((h.stamped.perm hperm).dropLast fun q hq => ?_)
      (fun hmem => htag ((List.dropLast_sublist tags).mem hmem)) dirty
    obtain ⟨line, hline, hstamp⟩ := List.mem_filterMap.mp hq
    obtain ⟨-, heq⟩ := Option.ite_none_right_eq_some.mp hstamp
    rw [← Option.some.inj heq]
    exact UInt32.le_iff_toNat_le.mp (hmin line (List.mem_of_mem_eraseIdx hline))

/-- **Finding a tag** that is there moves it to the front. -/
theorem found (h : Lru config set tags) (hlru : config.isLru = true)
    (hroom : set.lruCounter.toNat + 1 < 2 ^ 32) (htag : tag ∈ tags) :
    ∃ set', findCacheLine config set tag = (true, set') ∧
      Lru config set' (tag :: tags.erase tag) ∧ set'.lruCounter = set.lruCounter + 1 := by
  obtain ⟨i, hfind, hi, hholds⟩ := findIdx?_of_holds (h.mem_iff.mp htag)
  rw [findCacheLine, hfind]
  dsimp only
  rw [if_pos hlru]
  refine ⟨_, rfl, ⟨?_, ?_⟩, rfl⟩
  · rw [List.length_modify, h.length]
  · obtain ⟨hvalid, rfl⟩ : set.lines[i].valid = true ∧ set.lines[i].tag = tag := by
      simpa [CacheLine.holds] using hholds
    have hperm := stamps_perm hi
    rw [stamps_cons_of_valid hvalid] at hperm
    have hremove := (h.stamped.perm hperm).remove
    have hpush := hremove.push h.stamped.nodup.not_mem_erase (Nat.lt_succ_self _)
    have hset := stamps_modify_perm hi fun line => { line with accessTime := set.lruCounter }
    rw [stamps_cons_of_valid (by exact hvalid)] at hset
    rw [toNat_succ hroom]
    exact hpush.perm hset

/-- A tag that is not there is not found, and nothing is changed. -/
theorem not_found (h : Lru config set tags) (htag : tag ∉ tags) :
    findCacheLine config set tag = (false, set) :=
  findCacheLine_of_not_holds (mt h.mem_iff.mpr htag)

/-- A hit of a store writes to a line, which leaves the recency alone. -/
theorem store_hit (h : Lru config set tags) (tag : UInt32) (counters : Counters) :
    Lru config (handleStore config set counters tag true).1 tags ∧
      (handleStore config set counters tag true).1.lruCounter = set.lruCounter := by
  rw [handleStore, if_pos rfl]
  split
  · rename_i i hfind
    obtain ⟨hi, -, -⟩ := List.findIdx?_eq_some_iff_getElem.mp hfind
    cases config.isWriteBack
    · exact ⟨h, rfl⟩
    · refine ⟨⟨?_, ?_⟩, rfl⟩
      · rw [if_pos rfl, List.length_modify, h.length]
      · have hperm := stamps_modify_perm hi fun ln => { ln with dirty := true }
        exact h.stamped.perm ((stamps_perm hi).trans hperm)
  · exact ⟨h, rfl⟩

end Lru

/-- **An access of one set** does to the tags what one does of a least-recently-used
list, and decides as that does on hit or miss. -/
theorem lru_accessSet (h : Lru config set tags) (hlru : config.isLru = true)
    (hfifo : config.isFifo = false) (hpos : 0 < config.blockNumPerSet.toNat)
    (hroom : set.lruCounter.toNat + 1 < 2 ^ 32) (load : Bool) (counters : Counters) :
    (accessSet config load tag set counters).1 = decide (tag ∈ tags) ∧
      Lru config (accessSet config load tag set counters).2.1
        (lruAccess config.blockNumPerSet.toNat (load || config.isWriteAllocate) tags tag) ∧
      (accessSet config load tag set counters).2.1.lruCounter.toNat ≤ set.lruCounter.toNat + 1 := by
  rw [lruAccess]
  by_cases htag : tag ∈ tags
  · obtain ⟨set', hfind, hset', hcounter⟩ := h.found hlru hroom htag
    have hle : set'.lruCounter.toNat ≤ set.lruCounter.toNat + 1 := by
      rw [hcounter, toNat_succ hroom]
    rw [accessSet, hfind, if_pos htag]
    refine ⟨(decide_eq_true htag).symm, ?_⟩
    cases load
    · obtain ⟨hstore, hsame⟩ := hset'.store_hit tag counters
      exact ⟨hstore, hsame ▸ hle⟩
    · exact ⟨hset', hle⟩
  · rw [accessSet, h.not_found htag, if_neg htag]
    refine ⟨(decide_eq_false htag).symm, ?_⟩
    have hfill := fun dirty counters =>
      (h.fill hfifo hpos hroom htag dirty counters).imp_right fun hcounter =>
        (congrArg UInt32.toNat hcounter).le.trans (toNat_succ hroom).le
    cases load
    · cases hwa : config.isWriteAllocate
      · rw [if_neg (by simp)]
        refine ⟨?_, ?_⟩
        · simpa [handleStore, hwa] using h
        · simp [handleStore, hwa]
      · rw [if_pos (by simp)]
        simp only [handleStore, hwa, if_true]
        exact hfill config.isWriteBack _
    · rw [if_pos (by simp)]
      exact hfill false _

/-! ### The whole cache -/

/-- **The reference**: for each set, the numbers of the blocks that are in it, in the
order of their last use. -/
def lruReference (config : Cache) : (ℕ → List ℕ) → Trace → Bool × (ℕ → List ℕ) :=
  reference (lruAccess config.blockNumPerSet.toNat) config

/-- What a set holds after at most `n` accesses, which is what its counter counts. -/
def LruAt (config : Cache) (n : ℕ) (set : CacheSet) (tags : List UInt32) : Prop :=
  set.lruCounter.toNat ≤ n ∧ Lru config set tags

/-- **One access** is decided as in the reference, and keeps the correspondence. -/
theorem lruAt_accessMemory (h : config.Accepted) (hlru : config.isLru = true)
    (hsize : config.numSets.toNat * config.blockSize.toNat < 2 ^ 32) {n : ℕ}
    (hn : n < 2 ^ 32 - 1) {sim : CacheSim} {blocks : ℕ → List ℕ}
    (hsim : Represents (LruAt config n) config sim blocks) (trace : Trace) :
    (sim.accessMemory trace).1 = (lruReference config blocks trace).1 ∧
      Represents (LruAt config (n + 1)) config (sim.accessMemory trace).2
        (lruReference config blocks trace).2 := by
  have hfifo : config.isFifo = false := by rw [h.policy, hlru]; rfl
  have hways := h.blockNumPerSet_pos
  refine represents_accessMemory h hsize
    (fun i fill tags tag => lruAccess_map (blockIn_injective h i) _ fill tags tag)
    (fun set tags tag load counters hset => ?_) (fun set tags hset => ?_) hsim trace
  · obtain ⟨hcount, hset⟩ := hset
    obtain ⟨hhit, hset', hcount'⟩ :=
      lru_accessSet hset hlru hfifo hways (by omega) load counters
    exact ⟨hhit, by omega, hset'⟩
  · exact ⟨hset.1.trans (Nat.le_succ n), hset.2⟩

/-- **A run** of fewer accesses than a counter can count is decided as in the reference,
and keeps the correspondence. -/
theorem lruAt_run (h : config.Accepted) (hlru : config.isLru = true)
    (hsize : config.numSets.toNat * config.blockSize.toNat < 2 ^ 32) (traces : List Trace)
    (hlen : traces.length < 2 ^ 32) :
    outputs CacheSim.accessMemory (.new config) traces =
        outputs (lruReference config) (fun _ => []) traces ∧
      Represents (LruAt config traces.length) config
        (after CacheSim.accessMemory (.new config) traces)
        (after (lruReference config) (fun _ => []) traces) := by
  have hnew : Represents (LruAt config 0) config (.new config) fun _ => [] :=
    represents_new ⟨le_rfl, .new config⟩
  have hstep : ∀ n < 2 ^ 32 - 1, ∀ sim blocks trace, Represents (LruAt config n) config sim blocks →
      (CacheSim.accessMemory sim trace).1 = (lruReference config blocks trace).1 ∧
        Represents (LruAt config (n + 1)) config (sim.accessMemory trace).2
          (lruReference config blocks trace).2 :=
    fun n hn sim blocks trace hsim => lruAt_accessMemory h hlru hsize hn hsim trace
  have hrun := outputs_eq hstep hnew traces (by omega)
  rwa [Nat.zero_add] at hrun

/-- The stamped tags are the tags of the valid lines. -/
theorem map_fst_stamps (lines : List CacheLine) :
    (stamps lines).map Prod.fst = (lines.filter (·.valid)).map (·.tag) := by
  induction lines with
  | nil => rfl
  | cons line lines ih =>
    cases hvalid : line.valid
    · rw [stamps_cons_of_invalid hvalid, ih, List.filter_cons_of_neg (by simp [hvalid])]
    · rw [stamps_cons_of_valid hvalid, List.map_cons, ih, List.filter_cons_of_pos hvalid,
        List.map_cons]

/-- **The simulator with `lru` decides on hits and misses as the reference does**, and no
set ever holds a tag twice. -/
theorem lru_refinement {argv : List Str} {config : Cache}
    (hargs : parseArguments argv = .ok (some config)) (hlru : config.isLru = true)
    (hsize : config.numSets.toNat * config.blockSize.toNat < 2 ^ 32) (traces : List Trace)
    (hlen : traces.length < 2 ^ 32) :
    outputs CacheSim.accessMemory (.new config) traces =
        outputs (lruReference config) (fun _ => []) traces ∧
      ∀ set ∈ (after CacheSim.accessMemory (.new config) traces).sets,
        ((set.lines.filter (·.valid)).map (·.tag)).Nodup := by
  obtain ⟨hout, hrun⟩ :=
    lruAt_run (accepted_of_parseArguments hargs) hlru hsize traces hlen
  refine ⟨hout, fun set hset => ?_⟩
  obtain ⟨i, hi, rfl⟩ := List.getElem_of_mem hset
  obtain ⟨tags, ⟨-, htags⟩, -⟩ := hrun.sets i hi
  rw [← map_fst_stamps]
  exact htags.nodup

/-- The arguments for a cache of two sets with two lines each. -/
def smallLru : List Str :=
  ["csim", "2", "2", "16", "write-allocate", "write-back", "lru"].map String.toList

/-- Five accesses to one set, the fourth of which takes away the block of the second. -/
def fiveAccesses : List Trace := [⟨'l', 0⟩, ⟨'s', 32⟩, ⟨'l', 4⟩, ⟨'l', 64⟩, ⟨'l', 40⟩]

/-- Two blocks are filled in, the first is used again, and the second makes place for a
third. -/
theorem lru_refinement_small :
    let config : Cache := ⟨2, 2, 16, true, true, true, false⟩
    outputs CacheSim.accessMemory (.new config) fiveAccesses = [false, false, true, false, false] ∧
      ∀ set ∈ (after CacheSim.accessMemory (.new config) fiveAccesses).sets,
        ((set.lines.filter (·.valid)).map (·.tag)).Nodup := by
  intro config
  have hargs : parseArguments smallLru = .ok (some config) := by decide +kernel
  obtain ⟨hout, hnodup⟩ := lru_refinement hargs rfl (by decide) fiveAccesses (by decide)
  have href : outputs (lruReference config) (fun _ => []) fiveAccesses =
      [false, false, true, false, false] := by decide +kernel
  exact ⟨hout.trans href, hnodup⟩

end Csim

end Csf
