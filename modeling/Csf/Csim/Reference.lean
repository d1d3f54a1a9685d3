import Csf.Csim.Address
import Csf.Lib.Machine

/-!
# The simulator against a reference

A reference for a replacement policy keeps a list of block numbers for each set, and is
given by what one access makes of such a list (`Csf.Csim.reference`). The simulator has
sets of lines with tags. What a policy has to say is how a set stands for a list of tags,
and that an access of the set does to the list what the reference does; that the whole
simulator then follows the reference is the same for all policies
(`Csf.Csim.represents_accessMemory`).
-/

namespace Csf

namespace Csim

open Interaction

variable {config : Cache}

/-- What is read off a list of lines does not change when one line is changed in other
respects. -/
theorem map_modify_of_same {α β : Type} {f : α → α} {g : α → β} (h : ∀ a, g (f a) = g a) (i : ℕ)
    (l : List α) : (l.modify i f).map g = l.map g := by
  refine List.ext_getElem? fun j => ?_
  rw [List.getElem?_map, List.getElem?_map, List.getElem?_modify]
  cases l[j]? with
  | none => rfl
  | some a =>
    refine congrArg some ?_
    dsimp only
    split
    · exact h a
    · rfl

/-- A tag that some line holds is found. -/
theorem findIdx?_of_holds {lines : List CacheLine} {tag : UInt32}
    (h : ∃ line ∈ lines, line.holds tag) :
    ∃ i, lines.findIdx? (·.holds tag) = some i ∧
      ∃ hi : i < lines.length, lines[i].holds tag = true := by
  obtain ⟨line, hline, hholds⟩ := h
  cases hfind : lines.findIdx? (·.holds tag) with
  | none => exact absurd hholds (by simp [List.findIdx?_eq_none_iff.mp hfind line hline])
  | some i =>
    obtain ⟨hi, hholds, -⟩ := List.findIdx?_eq_some_iff_getElem.mp hfind
    exact ⟨i, rfl, hi, hholds⟩

/-- A tag that no line holds is not found, and nothing is changed. -/
theorem findCacheLine_of_not_holds {tag : UInt32} {set : CacheSet}
    (h : ¬∃ line ∈ set.lines, line.holds tag) : findCacheLine config set tag = (false, set) := by
  have hfind : set.lines.findIdx? (·.holds tag) = none :=
    List.findIdx?_eq_none_iff.mpr fun line hline =>
      Bool.eq_false_iff.mpr fun hholds => h ⟨line, hline, hholds⟩
  rw [findCacheLine, hfind]

/-- The number of the block with a tag in a set. -/
def blockIn (config : Cache) (i : ℕ) (tag : UInt32) : ℕ :=
  tag.toNat * config.numSets.toNat + i

/-- In one set, blocks have different tags. -/
theorem blockIn_injective (h : config.Accepted) (i : ℕ) : (blockIn config i).Injective := by
  intro tag tag' heq
  exact UInt32.toNat_inj.mp
    (Nat.eq_of_mul_eq_mul_right h.numSets_pos (Nat.add_right_cancel heq))

/-- **A reference**: for each set, a list of the numbers of the blocks that are in it,
and `access` for what one access makes of the list of its set. -/
def reference (access : Bool → List ℕ → ℕ → List ℕ) (config : Cache) (blocks : ℕ → List ℕ)
    (trace : Trace) : Bool × (ℕ → List ℕ) :=
  let block := blockOf config trace.address
  let i := block % config.numSets.toNat
  let fill := trace.type == 'l' || config.isWriteAllocate
  (decide (block ∈ blocks i), Function.update blocks i (access fill (blocks i) block))

/-- **The simulator stands for lists of blocks**, `R` being what it is for a set to stand
for a list of tags. -/
structure Represents (R : CacheSet → List UInt32 → Prop) (config : Cache) (sim : CacheSim)
    (blocks : ℕ → List ℕ) : Prop where
  /-- The configuration does not change. -/
  same_config : sim.config = config
  /-- Nor does the number of sets. -/
  length : sim.sets.length = config.numSets.toNat
  /-- Each set stands for its blocks. -/
  sets : ∀ i (hi : i < sim.sets.length),
    ∃ tags, R sim.sets[i] tags ∧ blocks i = tags.map (blockIn config i)

/-- An empty cache stands for no blocks. -/
theorem represents_new {R : CacheSet → List UInt32 → Prop}
    (h : R ⟨List.replicate config.blockNumPerSet.toNat {}, 0, 0⟩ []) :
    Represents R config (.new config) fun _ => [] := by
  refine ⟨rfl, List.length_replicate, fun i hi => ⟨[], ?_, rfl⟩⟩
  rwa [show (CacheSim.new config).sets[i] = _ from List.getElem_replicate hi]

/-- **One access of the simulator** is decided as in the reference, and keeps the
correspondence, when one of a set does: from `R` to `R'`, where `R'` is `R` but for what
time has passed. -/
theorem represents_accessMemory (h : config.Accepted)
    (hsize : config.numSets.toNat * config.blockSize.toNat < 2 ^ 32)
    {R R' : CacheSet → List UInt32 → Prop} {access : Bool → List ℕ → ℕ → List ℕ}
    {accessTags : Bool → List UInt32 → UInt32 → List UInt32}
    (hmap : ∀ i fill tags tag, access fill (tags.map (blockIn config i)) (blockIn config i tag) =
      (accessTags fill tags tag).map (blockIn config i))
    (hset : ∀ set tags tag load counters, R set tags →
      (accessSet config load tag set counters).1 = decide (tag ∈ tags) ∧
        R' (accessSet config load tag set counters).2.1
          (accessTags (load || config.isWriteAllocate) tags tag))
    (hkeep : ∀ set tags, R set tags → R' set tags) {sim : CacheSim} {blocks : ℕ → List ℕ}
    (hsim : Represents R config sim blocks) (trace : Trace) :
    (sim.accessMemory trace).1 = (reference access config blocks trace).1 ∧
      Represents R' config (sim.accessMemory trace).2
        (reference access config blocks trace).2 := by
  obtain ⟨rfl, hlen, hsets⟩ := hsim
  obtain ⟨hidx, htag⟩ := parseAddress_eq h hsize trace.address
  have hilt := setIdx_lt h trace.address
  rw [accessMemory_eq]
  simp only [reference]
  rw [hidx] at hilt ⊢
  generalize blockOf sim.config trace.address = block at *
  generalize (parseAddress sim.config trace.address).2 = tag at *
  generalize hi : block % sim.config.numSets.toNat = i at *
  -- the set of the block, and the tags in it
  rw [← hlen] at hilt
  obtain ⟨tags, hR, hblocks⟩ := hsets i hilt
  rw [List.getD_eq_getElem?_getD, List.getElem?_eq_getElem hilt, Option.getD_some, hblocks]
  obtain rfl : block = blockIn sim.config i tag := by
    rw [blockIn, htag, ← hi, Nat.div_add_mod']
  have hinj := blockIn_injective h i
  rw [hmap]
  generalize (if trace.type == 'l' then _ else _ : Counters) = counters
  obtain ⟨hhit, hR'⟩ := hset _ tags tag (trace.type == 'l') counters hR
  refine ⟨hhit.trans (decide_eq_decide.mpr (List.mem_map_of_injective hinj).symm), rfl, by
    rw [List.length_set, hlen], fun j hj => ?_⟩
  rw [List.length_set] at hj
  rcases eq_or_ne j i with rfl | hji
  · rw [List.getElem_set_self, Function.update_self]
    exact ⟨_, hR', rfl⟩
  · rw [List.getElem_set_ne hji.symm, Function.update_of_ne hji]
    obtain ⟨tags, hR, hblocks⟩ := hsets j hj
    exact ⟨tags, hkeep _ _ hR, hblocks⟩

end Csim

end Csf
