import Csf.Csim.Counting
import Csf.Csim.Lru

/-!
# More ways, no more misses

Two simulators with `lru` that differ in the number of lines in a set, on the same trace.
After an eviction their sets are never the same again, and a store without write-allocate
refreshes a line in the one and not in the other. What stays is that the smaller set
holds blocks of the larger one, in the same order of their last use
(`Interaction.Included`): an access that hits in the one hits in the other
(`Csf.Csim.lru_inclusion`).

The comparison is one of the references (`Csf.Csim.lruReference`), which the simulators
follow as long as their counters do not wrap around.
-/

namespace Csf

namespace Csim

open Interaction

variable {config config' : Cache}

/-- The two configurations have the same blocks, sets and policies for writing. -/
structure SameBut (config config' : Cache) : Prop where
  numSets : config'.numSets = config.numSets
  blockSize : config'.blockSize = config.blockSize
  isWriteAllocate : config'.isWriteAllocate = config.isWriteAllocate
  ways : config.blockNumPerSet.toNat ≤ config'.blockNumPerSet.toNat

/-- **One access of both references** keeps each set of the smaller cache included in
that of the larger, and hits in the larger when it hits in the smaller. -/
theorem included_lruReference (h : SameBut config config') (hpos : 0 < config.blockNumPerSet.toNat)
    {small large : ℕ → List ℕ}
    (hinc : ∀ i, Included config.blockNumPerSet.toNat (small i) (large i)) (trace : Trace) :
    ((lruReference config small trace).1 = true → (lruReference config' large trace).1 = true) ∧
      ∀ i, Included config.blockNumPerSet.toNat ((lruReference config small trace).2 i)
        ((lruReference config' large trace).2 i) := by
  have hblock : blockOf config' trace.address = blockOf config trace.address := by
    rw [blockOf, blockOf, h.blockSize]
  simp only [lruReference, reference, hblock, h.numSets, h.isWriteAllocate]
  generalize blockOf config trace.address = block
  generalize hi : block % config.numSets.toNat = i
  constructor
  · intro hhit
    exact decide_eq_true ((hinc i).sublist.mem (of_decide_eq_true hhit))
  · intro j
    rcases eq_or_ne j i with rfl | hji
    · rw [Function.update_self, Function.update_self]
      exact (hinc j).lruAccess hpos h.ways _ block
    · rw [Function.update_of_ne hji, Function.update_of_ne hji]
      exact hinc j

/-- What hits more often misses less often. -/
theorem missesOf_le_missesOf {hits hits' : List Bool}
    (h : List.Forall₂ (fun hit hit' => hit = true → hit' = true) hits hits') (load : Bool)
    (traces : List Trace) : missesOf load traces hits' ≤ missesOf load traces hits := by
  induction h generalizing traces with
  | nil => exact le_rfl
  | @cons hit hit' hits hits' hhit _ ih =>
    cases traces with
    | nil => exact le_rfl
    | cons trace traces =>
      rw [missesOf_cons, missesOf_cons]
      refine Nat.add_le_add (ih traces) ?_
      cases hit
      · split_ifs <;> simp_all
      · rw [hhit rfl]

/-- **More lines in a set, no more misses**: of two configurations with `lru` that differ
in the number of lines only, every access that hits in the smaller one hits in the larger
one, and there are no more misses of either kind in the larger one. -/
theorem lru_inclusion {argv argv' : List Str} {config config' : Cache}
    (hargs : parseArguments argv = .ok (some config))
    (hargs' : parseArguments argv' = .ok (some config')) (hlru : config.isLru = true)
    (hsame : config' = { config with blockNumPerSet := config'.blockNumPerSet })
    (hle : config.blockNumPerSet ≤ config'.blockNumPerSet)
    (hsize : config.numSets.toNat * config.blockSize.toNat < 2 ^ 32) (traces : List Trace)
    (hlen : traces.length < 2 ^ 32) :
    List.Forall₂ (fun hit hit' => hit = true → hit' = true)
        (outputs CacheSim.accessMemory (.new config) traces)
        (outputs CacheSim.accessMemory (.new config') traces) ∧
      (after CacheSim.accessMemory (.new config') traces).counters.loadMisses ≤
        (after CacheSim.accessMemory (.new config) traces).counters.loadMisses ∧
      (after CacheSim.accessMemory (.new config') traces).counters.storeMisses ≤
        (after CacheSim.accessMemory (.new config) traces).counters.storeMisses := by
  have h := accepted_of_parseArguments hargs
  have hpos := h.blockNumPerSet_pos
  have hbut : SameBut config config' := by
    refine ⟨?_, ?_, ?_, UInt32.le_iff_toNat_le.mp hle⟩ <;> rw [hsame]
  have hlru' : config'.isLru = true := by rw [hsame, hlru]
  have hsize' : config'.numSets.toNat * config'.blockSize.toNat < 2 ^ 32 := by
    rw [hbut.numSets, hbut.blockSize]
    exact hsize
  have hhits : List.Forall₂ (fun hit hit' => hit = true → hit' = true)
      (outputs CacheSim.accessMemory (.new config) traces)
      (outputs CacheSim.accessMemory (.new config') traces) := by
    rw [(lruAt_run h hlru hsize traces hlen).1,
      (lruAt_run (accepted_of_parseArguments hargs') hlru' hsize' traces hlen).1]
    exact outputs_forall₂ (fun small large trace hinc => included_lruReference hbut hpos hinc trace)
      (fun _ => Included.empty _) traces
  -- The counters have not wrapped around.
  have hcount : ∀ load, UInt64.ofNat (missesOf load traces
        (outputs CacheSim.accessMemory (.new config') traces)) ≤
      .ofNat (missesOf load traces (outputs CacheSim.accessMemory (.new config) traces)) := by
    intro load
    have hmono := missesOf_le_missesOf hhits load traces
    have hbound := missesOf_le load traces (outputs CacheSim.accessMemory (.new config) traces)
    have hsize64 : UInt64.size = 2 ^ 64 := rfl
    rw [UInt64.le_iff_toNat_le, UInt64.toNat_ofNat_of_lt' (by omega),
      UInt64.toNat_ofNat_of_lt' (by omega)]
    exact hmono
  obtain ⟨hload, hstore⟩ := misses_new config traces
  obtain ⟨hload', hstore'⟩ := misses_new config' traces
  rw [hload, hload', hstore, hstore']
  exact ⟨hhits, hcount true, hcount false⟩

/-- The arguments for caches of one set, with one line and with two. -/
def oneLine : List Str :=
  ["csim", "1", "1", "16", "no-write-allocate", "write-through", "lru"].map String.toList

/-- See `Csf.Csim.oneLine`. -/
def twoLines : List Str :=
  ["csim", "1", "2", "16", "no-write-allocate", "write-through", "lru"].map String.toList

/-- Two blocks in turn, where the second line makes the difference. -/
theorem lru_inclusion_twoLines :
    let traces : List Trace := [⟨'l', 0⟩, ⟨'l', 16⟩, ⟨'s', 0⟩, ⟨'l', 32⟩, ⟨'l', 0⟩]
    let small : Cache := ⟨1, 1, 16, false, false, true, false⟩
    let large : Cache := ⟨1, 2, 16, false, false, true, false⟩
    (after CacheSim.accessMemory (.new large) traces).counters.loadMisses ≤
        (after CacheSim.accessMemory (.new small) traces).counters.loadMisses ∧
      outputs CacheSim.accessMemory (.new large) traces = [false, false, true, false, true] := by
  intro traces small large
  have hsmall : parseArguments oneLine = .ok (some small) := by decide +kernel
  have hlarge : parseArguments twoLines = .ok (some large) := by decide +kernel
  obtain ⟨-, hload, -⟩ :=
    lru_inclusion hsmall hlarge rfl rfl (by decide) (by decide) traces (by decide)
  exact ⟨hload, by decide +kernel⟩

end Csim

end Csf
