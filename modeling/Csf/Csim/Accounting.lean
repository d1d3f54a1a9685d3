import Csf.Csim.Counting
import Csf.Csim.Fifo
import Csf.Csim.Lru

/-!
# What the cycles are spent on

Every access is charged for in one of several places, and the charge for a block that is
written back is due when the block is evicted, for a store that may be long past: it is
the dirty bit of the line that tells. The bit says what the history of the block says
(`Csf.Csim.storedSince`), whether there has been a store to it since it was last brought
in. This is kept by every access of a set (`Csf.Csim.marked_accessSet`), so that what has
been spent is told by what has happened (`Csf.Csim.accounting`).

What happens is observed from outside, on the blocks that are in a set before and after
an access (`Csf.Csim.CacheSim.observe`). A block is given by the index of its set and its
tag, as `parse_address` computes them.
-/

namespace Csf

namespace Csim

open Interaction

variable {config : Cache} {set : CacheSet} {lines : List CacheLine} {line : CacheLine}
  {written : UInt32 → Bool} {tag : UInt32} {i : ℕ}

/-! ### The blocks in a set -/

/-- The tags of the blocks that are in the lines. -/
def residents (lines : List CacheLine) : List UInt32 := lines.filterMap held

/-- The tags of the blocks that were in the lines and are not there any more. -/
def evicted (before after : List CacheLine) : List UInt32 :=
  (residents before).filter (· ∉ residents after)

theorem mem_residents : tag ∈ residents lines ↔ ∃ line ∈ lines, line.holds tag := by
  simp only [residents, List.mem_filterMap, held_eq_some]

theorem residents_cons (line : CacheLine) (lines : List CacheLine) :
    residents (line :: lines) = (held line).toList ++ residents lines := by
  rw [residents, List.filterMap_cons]
  cases held line <;> rfl

/-- The residents are that of one line, and those of the others. -/
theorem residents_perm (h : i < lines.length) :
    (residents lines).Perm ((held lines[i]).toList ++ residents (lines.eraseIdx i)) := by
  rw [← residents_cons]
  exact (List.getElem_cons_eraseIdx_perm h).symm.filterMap held

/-- When a line is replaced, the other residents stay. -/
theorem residents_set_perm (h : i < lines.length) (hline : held line = some tag) :
    (residents (lines.set i line)).Perm (tag :: residents (lines.eraseIdx i)) := by
  have hcons : residents (line :: lines.eraseIdx i) = tag :: residents (lines.eraseIdx i) := by
    rw [residents_cons, hline]
    rfl
  rw [← hcons]
  exact (List.set_perm_cons_eraseIdx h line).filterMap held

/-- When no block comes or goes, none is evicted. -/
theorem evicted_eq_nil {before after : List CacheLine}
    (h : (residents after).Perm (residents before)) : evicted before after = [] := by
  refine List.filter_eq_nil_iff.mpr fun tag htag => ?_
  simpa using h.mem_iff.mpr htag

/-- **When a line is filled, what it has held is evicted**, and nothing else. -/
theorem countP_evicted (hi : i < lines.length) (hnodup : (residents lines).Nodup)
    (hline : held line = some tag) (htag : tag ∉ residents lines) (written : UInt32 → Bool) :
    (evicted lines (lines.set i line)).countP written =
      (held lines[i]).toList.countP written := by
  have hperm := residents_perm hi
  have hset : ∀ t, t ∈ residents (lines.set i line) ↔
      t = tag ∨ t ∈ residents (lines.eraseIdx i) :=
    fun t => (residents_set_perm hi hline).mem_iff.trans List.mem_cons
  rw [evicted, List.countP_filter, hperm.countP_eq, List.countP_append]
  -- the other lines still hold what they have held
  have hothers : (residents (lines.eraseIdx i)).countP (fun t => written t &&
      decide (t ∉ residents (lines.set i line))) = 0 := by
    refine List.countP_eq_zero.mpr fun t ht => ?_
    simp [(hset t).mpr (.inr ht)]
  rw [hothers, Nat.add_zero]
  refine List.countP_congr fun t ht => ?_
  have hgone : t ∉ residents (lines.set i line) := by
    rw [hset]
    rintro (rfl | hrest)
    · exact htag (hperm.mem_iff.mpr (List.mem_append_left _ ht))
    · exact List.disjoint_of_nodup_append (hperm.nodup_iff.mp hnodup) ht hrest
  simp [hgone]

/-! ### The history of a block -/

/-- **What an access is to the cache**, seen from outside. -/
structure Event where
  /-- The index of the set. -/
  setIdx : ℕ
  /-- The tag of the block that is accessed. -/
  tag : UInt32
  /-- It is a load. -/
  load : Bool
  /-- It is a hit. -/
  hit : Bool
  /-- The tags of the blocks that are in the set before the access and not after. -/
  evicted : List UInt32

/-- `access_memory`, with what is seen of it. -/
def CacheSim.observe (sim : CacheSim) (trace : Trace) : Event × CacheSim :=
  let (setIdx, tag) := parseAddress sim.config trace.address
  let (hit, sim') := sim.accessMemory trace
  ({ setIdx := setIdx.toNat, tag, load := trace.type == 'l', hit
     evicted := evicted (sim.sets.getD setIdx.toNat default).lines
       (sim'.sets.getD setIdx.toNat default).lines }, sim')

/-- **The block has been stored to since it was last brought in**, by a history that has
the latest event first: a load that misses brings the block in, and so does a store that
misses, but that is also a store to it. -/
def storedSince (setIdx : ℕ) (tag : UInt32) : List Event → Bool
  | [] => false
  | event :: past =>
      if event.setIdx = setIdx ∧ event.tag = tag then
        if event.load then event.hit && storedSince setIdx tag past else true
      else storedSince setIdx tag past

/-- **The number of evicted blocks that had been stored to** since they were last brought
in, in a history that has the latest event first. -/
def dirtyEvictions : List Event → ℕ
  | [] => 0
  | event :: past =>
      dirtyEvictions past + event.evicted.countP fun tag => storedSince event.setIdx tag past

/-! ### One set -/

/-- **The lines of a set are marked** as blocks that have been written to. -/
structure Marked (config : Cache) (written : UInt32 → Bool) (set : CacheSet) : Prop where
  /-- The set has its number of lines. -/
  length : set.lines.length = config.blockNumPerSet.toNat
  /-- The next line to be replaced is one of them. -/
  firstIn_lt : set.firstIn.toNat < config.blockNumPerSet.toNat
  /-- No two lines hold the same block. -/
  nodup : (residents set.lines).Nodup
  /-- With write-back the dirty bits say what has been written to. -/
  dirty : config.isWriteBack = true →
    ∀ line ∈ set.lines, line.valid = true → line.dirty = written line.tag

/-- What the histories of the blocks of a set are after an access of it. -/
def writtenAfter (written : UInt32 → Bool) (tag : UInt32) (load hit : Bool) : UInt32 → Bool :=
  Function.update written tag (if load then hit && written tag else true)

theorem writtenAfter_self (written : UInt32 → Bool) (tag : UInt32) (load hit : Bool) :
    writtenAfter written tag load hit tag = if load then hit && written tag else true := by
  rw [writtenAfter, Function.update_self]

theorem writtenAfter_of_ne (written : UInt32 → Bool) (load hit : Bool) {t : UInt32}
    (h : t ≠ tag) : writtenAfter written tag load hit t = written t :=
  Function.update_of_ne h _ _

/-- What it takes to write back so many blocks. -/
def Cache.writeBackCycles (config : Cache) (n : ℕ) : UInt64 :=
  config.transferCycles.toUInt64 * .ofNat (if config.isWriteBack then n else 0)

namespace Marked

/-- A set of invalid lines. -/
theorem new (hpos : 0 < config.blockNumPerSet.toNat) (written : UInt32 → Bool) :
    Marked config written ⟨List.replicate config.blockNumPerSet.toNat {}, 0, 0⟩ := by
  refine ⟨List.length_replicate, hpos, ?_, fun _ line hline hvalid => ?_⟩
  · have hnil : residents (List.replicate config.blockNumPerSet.toNat {}) = [] :=
      List.filterMap_eq_nil_iff.mpr fun line hline => by
        rw [List.eq_of_mem_replicate hline]
        rfl
    rw [hnil]
    exact .nil
  · rw [List.eq_of_mem_replicate hline] at hvalid
    exact nomatch hvalid

/-- **One line is replaced** by one that holds a block that no other line holds. Only the
history of that block may have changed. -/
theorem replace (h : Marked config written set) (hi : i < set.lines.length)
    (hline : held line = some tag) (htag : tag ∉ residents (set.lines.eraseIdx i))
    {written' : UInt32 → Bool} (hsame : ∀ t ≠ tag, written' t = written t)
    (hdirty : config.isWriteBack = true → line.dirty = written' tag) {firstIn : UInt32}
    (hfirst : firstIn.toNat < config.blockNumPerSet.toNat) (lruCounter : UInt32) :
    Marked config written' ⟨set.lines.set i line, lruCounter, firstIn⟩ := by
  have hrest : (residents (set.lines.eraseIdx i)).Nodup :=
    (List.nodup_append.mp ((residents_perm hi).nodup_iff.mp h.nodup)).2.1
  refine ⟨?_, hfirst, ?_, fun hwb other hother hvalid => ?_⟩
  · rw [List.length_set, h.length]
  · exact (residents_set_perm hi hline).nodup_iff.mpr (List.nodup_cons.mpr ⟨htag, hrest⟩)
  · rcases List.mem_cons.mp ((List.set_perm_cons_eraseIdx hi line).mem_iff.mp hother) with
      rfl | hother
    · obtain ⟨-, heq⟩ := Option.ite_none_right_eq_some.mp hline
      rw [Option.some.inj heq]
      exact hdirty hwb
    · have hmem : other.tag ∈ residents (set.lines.eraseIdx i) :=
        List.mem_filterMap.mpr ⟨other, hother, if_pos hvalid⟩
      rw [hsame _ fun heq => htag (heq ▸ hmem)]
      exact h.dirty hwb other (List.mem_of_mem_eraseIdx hother) hvalid

/-- **The line that holds a block is written to**, and goes on holding it. -/
theorem modify (h : Marked config written set) (hi : i < set.lines.length)
    (hholds : set.lines[i].holds tag = true) {f : CacheLine → CacheLine}
    (hheld : ∀ line, held (f line) = held line) {written' : UInt32 → Bool}
    (hsame : ∀ t ≠ tag, written' t = written t)
    (hdirty : config.isWriteBack = true → (f set.lines[i]).dirty = written' tag)
    (lruCounter : UInt32) :
    Marked config written' ⟨set.lines.modify i f, lruCounter, set.firstIn⟩ := by
  have hline : held set.lines[i] = some tag := held_eq_some.mpr hholds
  have hnodup := (residents_perm hi).nodup_iff.mp h.nodup
  rw [hline] at hnodup
  rw [List.modify_eq_set, List.getElem?_eq_getElem hi, Option.getD_some]
  exact h.replace hi ((hheld _).trans hline) (List.nodup_cons.mp hnodup).1 hsame hdirty
    h.firstIn_lt lruCounter

/-- With write-through, nothing is said about histories. -/
theorem of_writeThrough (h : Marked config written set) (hwb : config.isWriteBack = false)
    (written' : UInt32 → Bool) : Marked config written' set :=
  ⟨h.length, h.firstIn_lt, h.nodup, fun hwb' => absurd hwb' (by simp [hwb])⟩

end Marked

/-- What is changed in a line that goes on holding its block does not change the
residents. -/
theorem residents_modify {f : CacheLine → CacheLine} (hheld : ∀ line, held (f line) = held line)
    (i : ℕ) (lines : List CacheLine) : residents (lines.modify i f) = residents lines := by
  have hmap : ∀ lines, residents lines = (lines.map held).filterMap id := fun lines => by
    rw [List.filterMap_map]
    rfl
  rw [hmap, hmap, map_modify_of_same hheld]

/-- **Looking for a block** finds it if it is there, and leaves the marks alone. -/
theorem marked_findCacheLine (h : Marked config written set) (tag : UInt32) :
    ∃ set', findCacheLine config set tag = (decide (tag ∈ residents set.lines), set') ∧
      Marked config written set' ∧ residents set'.lines = residents set.lines := by
  by_cases htag : tag ∈ residents set.lines
  · obtain ⟨i, hfind, hi, hholds⟩ := findIdx?_of_holds (mem_residents.mp htag)
    rw [findCacheLine, hfind, decide_eq_true htag]
    dsimp only
    cases config.isLru
    · exact ⟨set, rfl, h, rfl⟩
    · have hheld : ∀ line : CacheLine,
          held { line with accessTime := set.lruCounter } = held line := fun _ => rfl
      refine ⟨_, rfl, h.modify hi hholds hheld (fun _ _ => rfl) (fun hwb => ?_) _,
        residents_modify hheld i set.lines⟩
      obtain ⟨hvalid, rfl⟩ : set.lines[i].valid = true ∧ set.lines[i].tag = tag := by
        simpa [CacheLine.holds] using hholds
      exact (h.dirty hwb _ (List.getElem_mem hi) hvalid :)
  · rw [findCacheLine_of_not_holds (mt mem_residents.mpr htag), decide_eq_false htag]
    exact ⟨set, rfl, h, rfl⟩

/-- **The line to be replaced**: when a block in it has been written to, it takes cycles
to write it back. -/
theorem marked_removeLine (h : Marked config written set)
    (hpos : 0 < config.blockNumPerSet.toNat) (counters : Counters) :
    ∃ i firstIn counters', removeLine config set counters =
        (i, { set with firstIn }, counters') ∧
      firstIn.toNat < config.blockNumPerSet.toNat ∧ ∃ hi : i < set.lines.length,
        counters'.totalCycles = counters.totalCycles +
          config.writeBackCycles ((held set.lines[i]).toList.countP written) := by
  rw [removeLine]
  split
  · rename_i i hfind
    obtain ⟨hi, hinvalid, -⟩ := List.findIdx?_eq_some_iff_getElem.mp hfind
    have hheld : held set.lines[i] = none := if_neg (by simpa using hinvalid)
    refine ⟨i, set.firstIn, counters, rfl, h.firstIn_lt, hi, ?_⟩
    simp [hheld, Cache.writeBackCycles]
  · rename_i hfind
    have hvalid : ∀ line ∈ set.lines, line.valid = true := by
      simpa using List.findIdx?_eq_none_iff.mp hfind
    -- what is charged for the line that is chosen
    have hcharge : ∀ i (hi : i < set.lines.length),
        (if (set.lines.getD i default).dirty && config.isWriteBack then
            counters.addCycles config.transferCycles
          else counters).totalCycles = counters.totalCycles +
            config.writeBackCycles ((held set.lines[i]).toList.countP written) := by
      intro i hi
      have hmem := List.getElem_mem hi
      have hheld : held set.lines[i] = some set.lines[i].tag := if_pos (hvalid _ hmem)
      rw [List.getD_eq_getElem?_getD, List.getElem?_eq_getElem hi, Option.getD_some, hheld]
      cases hwb : config.isWriteBack
      · simp [Cache.writeBackCycles, hwb]
      · rw [h.dirty hwb _ hmem (hvalid _ hmem)]
        cases hwritten : written set.lines[i].tag <;>
          simp [Cache.writeBackCycles, hwb, hwritten, Counters.addCycles]
    cases config.isFifo
    · obtain ⟨hi, -⟩ := Lru.minElement_spec (List.ne_nil_of_length_pos (h.length ▸ hpos))
      exact ⟨_, set.firstIn, _, rfl, h.firstIn_lt, hi, hcharge _ hi⟩
    · have hi : set.firstIn.toNat < set.lines.length := h.length ▸ h.firstIn_lt
      refine ⟨_, _, _, rfl, ?_, hi, hcharge _ hi⟩
      rw [h.length]
      exact Nat.lt_of_le_of_lt (Nat.mod_le _ _) (Nat.mod_lt _ hpos)

/-- **A line is filled**, and what it has held is evicted. -/
theorem marked_fill (h : Marked config written set) (hpos : 0 < config.blockNumPerSet.toNat)
    (htag : tag ∉ residents set.lines) {written' : UInt32 → Bool}
    (hsame : ∀ t ≠ tag, written' t = written t) {dirty : Bool}
    (hdirty : config.isWriteBack = true → dirty = written' tag) (counters : Counters) :
    let r := removeLine config set counters
    Marked config written' (r.2.1.assign r.1 tag dirty) ∧
      r.2.2.totalCycles = counters.totalCycles + config.writeBackCycles
        ((evicted set.lines (r.2.1.assign r.1 tag dirty).lines).countP written) := by
  obtain ⟨i, firstIn, counters', hremove, hfirst, hi, hcycles⟩ :=
    marked_removeLine h hpos counters
  simp only [hremove]
  have hothers : tag ∉ residents (set.lines.eraseIdx i) := fun hmem =>
    htag ((residents_perm hi).mem_iff.mpr (List.mem_append_right _ hmem))
  exact ⟨h.replace hi rfl hothers hsame hdirty hfirst _,
    hcycles.trans (congrArg _ (congrArg _ (countP_evicted hi h.nodup rfl htag written).symm))⟩

/-- What an access costs, but for what it takes to write back a block. -/
def Cache.cost (config : Cache) (load hit : Bool) : UInt64 :=
  (if hit then 1 else 0) +
    (if !hit && (load || config.isWriteAllocate) then 1 + config.transferCycles.toUInt64 else 0) +
    if !load && !config.isWriteBack then 100 else 0

/-- The sum in `1 + (config.block_size / 4) * 100` does not wrap around. -/
theorem toUInt64_one_add_transferCycles (config : Cache) :
    (1 + config.transferCycles).toUInt64 = 1 + config.transferCycles.toUInt64 := by
  have hval : config.transferCycles.toNat =
      config.blockSize.toNat / 4 * 100 % 2 ^ 32 := by
    rw [Cache.transferCycles, UInt32.toNat_mul, UInt32.toNat_div]
    rfl
  -- it is a multiple of four, so it is not the last word
  have hlt : 1 + config.transferCycles.toNat < 2 ^ 32 := by omega
  refine UInt64.toNat_inj.mp ?_
  rw [UInt32.toNat_toUInt64, UInt32.toNat_add, UInt64.toNat_add, UInt32.toNat_toUInt64,
    UInt32.toNat_one, UInt64.toNat_one, Nat.mod_eq_of_lt hlt,
    Nat.mod_eq_of_lt (hlt.trans (by decide))]

/-- What it costs to fill a line. -/
theorem cost_fill {load : Bool} (h : (load || config.isWriteAllocate) = true) :
    config.cost load false = (1 + config.transferCycles).toUInt64 +
      if !load && !config.isWriteBack then 100 else 0 := by
  rw [toUInt64_one_add_transferCycles, Cache.cost, h]
  simp

/-- **A load** of a block keeps the marks, and is charged for. -/
theorem marked_handleLoad (h : Marked config written set)
    (hpos : 0 < config.blockNumPerSet.toNat) {hit : Bool}
    (hhit : hit = decide (tag ∈ residents set.lines)) (counters : Counters) :
    let r := handleLoad config set counters tag hit
    Marked config (writtenAfter written tag true hit) r.1 ∧
      r.2.totalCycles = counters.totalCycles + config.cost true hit +
        config.writeBackCycles ((evicted set.lines r.1.lines).countP written) := by
  cases hit
  · have htag : tag ∉ residents set.lines := of_decide_eq_false hhit.symm
    have hdirty : false = writtenAfter written tag true false tag :=
      (writtenAfter_self written tag true false).symm
    obtain ⟨hmarked, hcycles⟩ := marked_fill h hpos htag
      (fun _ ht => writtenAfter_of_ne written true false ht) (fun _ => hdirty)
      ({ counters with loadMisses := counters.loadMisses + 1 }.addCycles
        (1 + config.transferCycles))
    refine ⟨hmarked, hcycles.trans (congrArg (· + _) ?_)⟩
    rw [cost_fill rfl, Bool.not_true, Bool.false_and, if_neg Bool.false_ne_true, UInt64.add_zero]
    rfl
  · have hwritten : writtenAfter written tag true true = written :=
      Function.update_eq_self tag written
    intro r
    rw [hwritten, show r.1 = set from rfl, evicted_eq_nil (.refl _)]
    refine ⟨h, ?_⟩
    simp [r, handleLoad, Counters.addCycles, Cache.cost, Cache.writeBackCycles]

/-- **A store** to a block keeps the marks, and is charged for. With write-back there is
write-allocate, so that what is stored to is in the set. -/
theorem marked_handleStore (h : Marked config written set)
    (hpos : 0 < config.blockNumPerSet.toNat)
    (hwrite : config.isWriteAllocate = true ∨ config.isWriteBack = false) {hit : Bool}
    (hhit : hit = decide (tag ∈ residents set.lines)) (counters : Counters) :
    let r := handleStore config set counters tag hit
    Marked config (writtenAfter written tag false hit) r.1 ∧
      r.2.totalCycles = counters.totalCycles + config.cost false hit +
        config.writeBackCycles ((evicted set.lines r.1.lines).countP written) := by
  have hsame : ∀ t ≠ tag, writtenAfter written tag false hit t = written t :=
    fun _ ht => writtenAfter_of_ne written false hit ht
  have hdirty : true = writtenAfter written tag false hit tag :=
    (writtenAfter_self written tag false hit).symm
  cases hit
  · have htag : tag ∉ residents set.lines := of_decide_eq_false hhit.symm
    cases hwa : config.isWriteAllocate
    · have hwb : config.isWriteBack = false := hwrite.resolve_left (by simp [hwa])
      simp only [handleStore, hwa, Bool.false_eq_true, if_false, evicted_eq_nil (.refl _)]
      refine ⟨h.of_writeThrough hwb _, ?_⟩
      simp [Counters.addCycles, Cache.cost, Cache.writeBackCycles, hwa, hwb]
    · obtain ⟨hmarked, hcycles⟩ := marked_fill h hpos htag hsame (fun hwb => hwb.trans hdirty)
        ({ counters with storeMisses := counters.storeMisses + 1 }.addCycles
          (1 + config.transferCycles))
      simp only [handleStore, hwa, if_true, Bool.false_eq_true, if_false]
      refine ⟨hmarked, ?_⟩
      have hpaid : ∀ c : Counters,
          (if !config.isWriteBack then c.addCycles 100 else c).totalCycles =
            c.totalCycles + if !config.isWriteBack then 100 else 0 := by
        intro c
        cases config.isWriteBack <;> simp [Counters.addCycles]
      rw [hpaid, hcycles, @cost_fill config false hwa, Bool.not_false, Bool.true_and]
      simp only [Counters.addCycles]
      ac_rfl
  · obtain ⟨i, hfind, hi, hholds⟩ :=
      findIdx?_of_holds (mem_residents.mp (of_decide_eq_true hhit.symm))
    simp only [handleStore, hfind, if_true]
    cases hwb : config.isWriteBack
    · simp only [Bool.false_eq_true, if_false, evicted_eq_nil (.refl _)]
      refine ⟨h.of_writeThrough hwb _, ?_⟩
      simp [Counters.addCycles, Cache.cost, Cache.writeBackCycles, hwb, UInt64.add_assoc]
    · have hheld : ∀ line : CacheLine, held { line with dirty := true } = held line :=
        fun _ => rfl
      have hperm := List.Perm.of_eq (residents_modify hheld i set.lines)
      simp only [if_true, evicted_eq_nil hperm]
      refine ⟨h.modify hi hholds hheld hsame (fun _ => hdirty) _, ?_⟩
      simp [Counters.addCycles, Cache.cost, Cache.writeBackCycles, hwb]

/-- **An access of one set** keeps the marks, and is charged for. -/
theorem marked_accessSet (h : Marked config written set)
    (hpos : 0 < config.blockNumPerSet.toNat)
    (hwrite : config.isWriteAllocate = true ∨ config.isWriteBack = false) (load : Bool)
    (tag : UInt32) (counters : Counters) :
    let r := accessSet config load tag set counters
    Marked config (writtenAfter written tag load r.1) r.2.1 ∧
      r.2.2.totalCycles = counters.totalCycles + config.cost load r.1 +
        config.writeBackCycles ((evicted set.lines r.2.1.lines).countP written) := by
  obtain ⟨set', hfind, hmarked, hres⟩ := marked_findCacheLine h tag
  have hevicted : ∀ after, evicted set.lines after = evicted set'.lines after := fun after => by
    rw [evicted, evicted, hres]
  have hhit : decide (tag ∈ residents set.lines) = decide (tag ∈ residents set'.lines) := by
    rw [hres]
  simp only [accessSet, hfind, hevicted]
  cases load
  · exact marked_handleStore hmarked hpos hwrite hhit counters
  · exact marked_handleLoad hmarked hpos hhit counters

/-! ### A run -/

/-- What has been spent according to the counters, but for what it takes to write back
blocks. -/
def Cache.spent (config : Cache) (counters : Counters) : UInt64 :=
  counters.loadHits + counters.storeHits +
    (1 + config.transferCycles.toUInt64) *
      (counters.loadMisses + if config.isWriteAllocate then counters.storeMisses else 0) +
    100 * if config.isWriteBack then 0 else counters.totalStores

/-- An access that is counted has been paid for. -/
theorem spent_count (config : Cache) (counters : Counters) (load hit : Bool) (cycles : UInt64) :
    config.spent ((counters.count load hit).withCycles cycles) =
      config.spent counters + config.cost load hit := by
  cases load <;> cases hit <;> cases hwa : config.isWriteAllocate <;>
    cases hwb : config.isWriteBack <;>
    simp only [Cache.spent, Cache.cost, Counters.count, Counters.withCycles, hwa, hwb] <;> grind

theorem writeBackCycles_add (config : Cache) (m n : ℕ) :
    config.writeBackCycles (m + n) = config.writeBackCycles m + config.writeBackCycles n := by
  simp only [Cache.writeBackCycles]
  cases config.isWriteBack
  · simp
  · simp only [if_true, UInt64.ofNat_add, UInt64.mul_add]

/-- **What has been spent is told by the past**, which has the latest event first. -/
structure Accounted (config : Cache) (past : List Event) (sim : CacheSim) : Prop where
  /-- The configuration does not change. -/
  same_config : sim.config = config
  /-- Nor does the number of sets. -/
  length : sim.sets.length = config.numSets.toNat
  /-- The lines are marked with the history of their blocks. -/
  sets : ∀ i (hi : i < sim.sets.length),
    Marked config (fun tag => storedSince i tag past) sim.sets[i]
  /-- The cycles are those of the accesses, and those of the blocks written back. -/
  cycles : sim.counters.totalCycles =
    config.spent sim.counters + config.writeBackCycles (dirtyEvictions past)

/-- Nothing has been spent on an empty cache. -/
theorem accounted_new (h : config.Accepted) : Accounted config [] (.new config) := by
  refine ⟨rfl, List.length_replicate, fun i hi => ?_, ?_⟩
  · rw [show (CacheSim.new config).sets[i] = _ from List.getElem_replicate hi]
    exact .new h.blockNumPerSet_pos _
  · simp [CacheSim.new, Cache.spent, Cache.writeBackCycles, dirtyEvictions]

/-- The history of the blocks of a set after an access of it. -/
theorem storedSince_cons_self (event : Event) (past : List Event) :
    (fun tag => storedSince event.setIdx tag (event :: past)) =
      writtenAfter (fun tag => storedSince event.setIdx tag past) event.tag event.load
        event.hit := by
  funext t
  rcases eq_or_ne t event.tag with rfl | ht
  · rw [writtenAfter_self, storedSince, if_pos ⟨rfl, rfl⟩]
  · rw [writtenAfter_of_ne _ _ _ ht, storedSince, if_neg fun h => ht h.2.symm]

/-- Only the blocks of its set have an event in their history. -/
theorem storedSince_cons_of_ne {event : Event} (h : event.setIdx ≠ i) (past : List Event) :
    (fun tag => storedSince i tag (event :: past)) = fun tag => storedSince i tag past :=
  funext fun _ => if_neg fun hboth => h hboth.1

/-- **What is seen of an access** is what it does to one set. -/
theorem observe_eq (h : config.Accepted) {sim : CacheSim} (hconfig : sim.config = config)
    (hlen : sim.sets.length = config.numSets.toNat) (trace : Trace) :
    ∃ tag counters, ∃ i, ∃ hi : i < sim.sets.length,
      let load := trace.type == 'l'
      let r := accessSet config load tag sim.sets[i] counters
      counters.totalCycles = sim.counters.totalCycles ∧
        sim.observe trace =
          (⟨i, tag, load, r.1, evicted sim.sets[i].lines r.2.1.lines⟩,
            { sim with sets := sim.sets.set i r.2.1, counters := r.2.2 }) := by
  subst hconfig
  have hi := setIdx_lt h trace.address
  rw [← hlen] at hi
  refine ⟨(parseAddress sim.config trace.address).2,
    if trace.type == 'l' then { sim.counters with totalLoads := sim.counters.totalLoads + 1 }
    else { sim.counters with totalStores := sim.counters.totalStores + 1 }, _, hi, ?_, ?_⟩
  · cases trace.type == 'l' <;> rfl
  · rw [CacheSim.observe, accessMemory_eq]
    simp only [List.getD_eq_getElem?_getD, List.getElem?_eq_getElem hi, Option.getD_some,
      List.getElem?_set_self hi]

/-- **One access** is accounted for. -/
theorem accounted_observe (h : config.Accepted) {past : List Event} {sim : CacheSim}
    (hsim : Accounted config past sim) (trace : Trace) :
    Accounted config ((sim.observe trace).1 :: past) (sim.observe trace).2 := by
  obtain ⟨hconfig, hlen, hsets, hcycles⟩ := hsim
  obtain ⟨tag, counters, i, hi, hsame, hobserve⟩ := observe_eq h hconfig hlen trace
  obtain ⟨hmarked, hpaid⟩ := marked_accessSet (hsets i hi) h.blockNumPerSet_pos h.write
    (trace.type == 'l') tag counters
  obtain ⟨cycles, hcount⟩ : ∃ cycles, (sim.observe trace).2.counters =
      (sim.counters.count (trace.type == 'l') (sim.observe trace).1.hit).withCycles cycles :=
    accessMemory_counters sim trace
  rw [hobserve] at hcount ⊢
  generalize (trace.type == 'l') = load at *
  generalize accessSet config load tag sim.sets[i] counters = r at *
  obtain ⟨hit, set', counters'⟩ := r
  refine ⟨hconfig, by rw [List.length_set, hlen], fun j hj => ?_, ?_⟩
  · rw [List.length_set] at hj
    rcases eq_or_ne j i with rfl | hji
    · rw [List.getElem_set_self]
      exact storedSince_cons_self ⟨j, tag, load, hit, _⟩ past ▸ hmarked
    · rw [List.getElem_set_ne hji.symm, storedSince_cons_of_ne hji.symm]
      exact hsets j hj
  · have hspent : config.spent counters' = config.spent sim.counters + config.cost load hit := by
      rw [show counters' = _ from hcount, spent_count]
    have hcycles' : counters'.totalCycles = _ := hpaid
    simp only [dirtyEvictions, writeBackCycles_add, hspent]
    rw [hcycles', hsame, hcycles]
    ac_rfl

/-- **A run** is accounted for. -/
theorem accounted_run (h : config.Accepted) {past : List Event} {sim : CacheSim}
    (hsim : Accounted config past sim) (traces : List Trace) :
    Accounted config ((outputs CacheSim.observe sim traces).reverse ++ past)
      (after CacheSim.observe sim traces) := by
  induction traces generalizing past sim with
  | nil => exact hsim
  | cons trace traces ih =>
    rw [outputs_cons, after_cons, List.reverse_cons, List.append_assoc]
    exact ih (accounted_observe h hsim trace)

/-- To observe the simulator does not change what it does. -/
theorem after_observe (sim : CacheSim) (traces : List Trace) :
    after CacheSim.observe sim traces = after CacheSim.accessMemory sim traces := by
  induction traces generalizing sim with
  | nil => rfl
  | cons trace traces ih => exact ih (sim.accessMemory trace).2

/-- **The accounts of a run**: the totals are those of the hits and misses, and the
cycles are one for a hit, what it takes to fill a line for a miss that fills one, a
hundred for a store that is sent to memory, and what it takes to write back a block for
one that is evicted after it has been stored to. -/
theorem accounting {argv : List Str} {config : Cache}
    (hargs : parseArguments argv = .ok (some config)) (traces : List Trace) :
    let counters := (after CacheSim.accessMemory (.new config) traces).counters
    let hits := outputs CacheSim.accessMemory (.new config) traces
    let T := config.transferCycles.toUInt64
    let F := missesOf true traces hits +
      if config.isWriteAllocate then missesOf false traces hits else 0
    let W := if config.isWriteBack then 0 else traces.countP (·.type != 'l')
    let D := if config.isWriteBack then
      dirtyEvictions (outputs CacheSim.observe (.new config) traces).reverse else 0
    counters.totalLoads = counters.loadHits + counters.loadMisses ∧
      counters.totalStores = counters.storeHits + counters.storeMisses ∧
      (traces.length < 2 ^ 64 →
        counters.totalLoads.toNat = counters.loadHits.toNat + counters.loadMisses.toNat ∧
        counters.totalStores.toNat = counters.storeHits.toNat + counters.storeMisses.toNat) ∧
      counters.totalCycles = counters.loadHits + counters.storeHits + (1 + T) * .ofNat F +
        100 * .ofNat W + T * .ofNat D := by
  intro counters hits T F W D
  have h := accepted_of_parseArguments hargs
  have hnew : (CacheSim.new config).counters.Balanced 0 := ⟨rfl, rfl, le_rfl, le_rfl⟩
  obtain ⟨hloads, hstores, hloads_le, hstores_le⟩ := balanced_run hnew traces
  refine ⟨hloads, hstores, fun hlen => ⟨?_, ?_⟩, ?_⟩
  · refine (congrArg UInt64.toNat hloads).trans ?_
    rw [UInt64.toNat_add, Nat.mod_eq_of_lt (by omega)]
  · refine (congrArg UInt64.toNat hstores).trans ?_
    rw [UInt64.toNat_add, Nat.mod_eq_of_lt (by omega)]
  · have hcycles := (accounted_run h (accounted_new h) traces).cycles
    rw [after_observe, List.append_nil] at hcycles
    obtain ⟨hloadMisses, hstoreMisses⟩ := misses_new config traces
    have hfilled : (counters.loadMisses +
        if config.isWriteAllocate then counters.storeMisses else 0) = .ofNat F := by
      rw [show counters.loadMisses = _ from hloadMisses,
        show counters.storeMisses = _ from hstoreMisses, UInt64.ofNat_add]
      cases config.isWriteAllocate <;> rfl
    have hsent : (if config.isWriteBack then 0 else counters.totalStores) = .ofNat W := by
      rw [show counters.totalStores = _ from
        (totalStores_run (.new config) traces).trans (UInt64.zero_add _)]
      simp only [W]
      cases config.isWriteBack <;> rfl
    rw [show counters.totalCycles = _ from hcycles, Cache.spent, hfilled, hsent]
    rfl

/-- The arguments for a cache of one set with two lines and write-back. -/
def oneSet : List Str :=
  ["csim", "1", "2", "16", "write-allocate", "write-back", "lru"].map String.toList

/-- Four misses that fill a line and a hit. Of the two blocks that are evicted one has been
stored to. -/
theorem accounting_oneSet :
    let config : Cache := ⟨1, 2, 16, true, true, true, false⟩
    (after CacheSim.accessMemory (.new config)
      [⟨'s', 0⟩, ⟨'l', 16⟩, ⟨'s', 4⟩, ⟨'l', 32⟩, ⟨'l', 48⟩]).counters.totalCycles =
        1 + (1 + 400) * 4 + 400 := by
  intro config
  have hargs : parseArguments oneSet = .ok (some config) := by decide +kernel
  rw [(accounting hargs _).2.2.2]
  decide +kernel

end Csim

end Csf
