import Mathlib

/-!
# Least recently used

A cache of a fixed capacity that forgets the key used the longest ago, as a list of keys
in the order of their last use, the latest first (`Interaction.lruAccess`).

Programs do not keep that list. They write down for every key when it was last used, and
look for the earliest time. The relation between the two is `Interaction.Stamped`: the
list is what one gets by sorting the stamped keys. Using a key, adding one, and taking
away the one with the earliest stamp do to the list what `Interaction.lruAccess` does
(`Interaction.Stamped.remove`, `Interaction.Stamped.push`,
`Interaction.Stamped.dropLast`).

Of two such caches with the same accesses the one with the larger capacity always holds
what the other holds (`Interaction.Included.lruAccess`).
-/

namespace Interaction

variable {κ τ : Type} [DecidableEq κ]

/-- **One access of a least-recently-used cache.** A key that is there moves to the
front; one that is not is put in front if it is to be filled in, after the last one is
dropped when the cache is full. -/
def lruAccess (capacity : ℕ) (fill : Bool) (l : List κ) (k : κ) : List κ :=
  if k ∈ l then k :: l.erase k
  else if fill then k :: (if l.length < capacity then l else l.dropLast)
  else l

/-- Renaming the keys changes nothing. -/
theorem lruAccess_map {κ' : Type} [DecidableEq κ'] {f : κ → κ'} (hf : f.Injective) (capacity : ℕ)
    (fill : Bool) (l : List κ) (k : κ) :
    lruAccess capacity fill (l.map f) (f k) = (lruAccess capacity fill l k).map f := by
  simp only [lruAccess, List.mem_map_of_injective hf, List.length_map]
  split_ifs
  · rw [List.map_cons, List.map_erase hf]
  · rw [List.map_cons]
  · rw [List.map_cons, List.map_dropLast]
  · rfl

/-! ### Two capacities -/

/-- **What the smaller of two caches holds**, with the same accesses: keys that the larger
one holds, in the same order; and as long as it is not full, all of them. -/
structure Included (capacity : ℕ) (small large : List κ) : Prop where
  /-- The order is that of the larger cache. -/
  sublist : small.Sublist large
  /-- The smaller cache holds what it can hold. -/
  length_le : small.length ≤ capacity
  /-- Until it is full, nothing has been dropped from either. -/
  eq_of_lt : small.length < capacity → small = large

omit [DecidableEq κ] in
/-- Empty caches are included in each other. -/
theorem Included.empty (capacity : ℕ) : Included capacity ([] : List κ) [] :=
  ⟨.refl [], Nat.zero_le _, fun _ => rfl⟩

omit [DecidableEq κ] in
/-- Dropping the last key of both keeps the order. -/
theorem sublist_dropLast {l l' : List κ} (h : l.Sublist l') : l.dropLast.Sublist l'.dropLast := by
  rw [← List.reverse_sublist, ← List.tail_reverse, ← List.tail_reverse]
  exact (List.reverse_sublist.mpr h).tail

/-- **An access keeps the inclusion**, whether it fills or not. -/
theorem Included.lruAccess {capacity capacity' : ℕ} {small large : List κ}
    (h : Included capacity small large) (hpos : 0 < capacity) (hle : capacity ≤ capacity')
    (fill : Bool) (k : κ) :
    Included capacity (lruAccess capacity fill small k) (lruAccess capacity' fill large k) := by
  obtain ⟨hsub, hlen, heq⟩ := h
  rw [Interaction.lruAccess, Interaction.lruAccess]
  by_cases hs : k ∈ small
  · -- both have the key, and move it to the front
    have hmove : (k :: small.erase k).length = small.length := by
      have hsmall := List.length_pos_of_mem hs
      rw [List.length_cons, List.length_erase_of_mem hs]
      omega
    rw [if_pos hs, if_pos (hsub.mem hs)]
    refine ⟨(hsub.erase k).cons_cons k, hmove ▸ hlen, fun hlt => ?_⟩
    rw [heq (hmove ▸ hlt)]
  have hdrop : small.length = capacity → (k :: small.dropLast).length = capacity := by
    intro hlen
    rw [List.length_cons, List.length_dropLast]
    omega
  by_cases hl : k ∈ large
  · -- only the larger cache has the key, so the smaller one is full
    have hfull : small.length = capacity :=
      hlen.antisymm (not_lt.mp fun hlt => hs (heq hlt ▸ hl))
    have hkeep : small.Sublist (large.erase k) := by
      rw [← List.erase_of_not_mem hs]
      exact hsub.erase k
    rw [if_neg hs, if_pos hl]
    cases fill
    · rw [if_neg Bool.false_ne_true]
      exact ⟨hkeep.cons k, hlen, fun hlt => absurd hlt (by omega)⟩
    · rw [if_pos rfl, if_neg (by omega)]
      exact ⟨((List.dropLast_sublist small).trans hkeep).cons_cons k, (hdrop hfull).le,
        fun hlt => absurd hlt (by have := hdrop hfull; omega)⟩
  · rw [if_neg hs, if_neg hl]
    cases fill
    · rw [if_neg Bool.false_ne_true, if_neg Bool.false_ne_true]
      exact ⟨hsub, hlen, heq⟩
    rw [if_pos rfl, if_pos rfl]
    by_cases hroom : small.length < capacity
    · -- there is room in both, which hold the same
      obtain rfl := heq hroom
      rw [if_pos hroom, if_pos (by omega)]
      exact ⟨.refl _, hroom, fun _ => rfl⟩
    · have hfull : small.length = capacity := by omega
      rw [if_neg hroom]
      refine ⟨List.Sublist.cons_cons k ?_, (hdrop hfull).le,
        fun hlt => absurd hlt (by have := hdrop hfull; omega)⟩
      split
      · exact (List.dropLast_sublist small).trans hsub
      · exact sublist_dropLast hsub

/-! ### Time stamps -/

/-- **Keys with time stamps**, all before `now`, and the list of the keys in the order of
their stamps, the latest first. -/
structure Stamped [LT τ] (now : τ) (l : List κ) (ps : List (κ × τ)) : Prop where
  /-- No key is there twice. -/
  nodup : l.Nodup
  /-- The list is what sorting gives. -/
  sorted : ∃ qs : List (κ × τ), qs.Perm ps ∧ qs.map Prod.fst = l ∧
    qs.Pairwise (fun p q => q.2 < p.2) ∧ ∀ p ∈ qs, p.2 < now

namespace Stamped

variable [LinearOrder τ] {now now' : τ} {l : List κ} {ps ps' : List (κ × τ)} {p : κ × τ} {k : κ}

omit [DecidableEq κ] in
theorem nil (now : τ) : Stamped now ([] : List κ) [] :=
  ⟨List.nodup_nil, [], .nil, rfl, .nil, by simp⟩

omit [DecidableEq κ] in
/-- The order in which the stamped keys are given does not matter. -/
theorem perm (h : Stamped now l ps) (hp : ps.Perm ps') : Stamped now l ps' := by
  obtain ⟨hnodup, qs, hqs, hl, hsorted, hnow⟩ := h
  exact ⟨hnodup, qs, hqs.trans hp, hl, hsorted, hnow⟩

omit [DecidableEq κ] in
theorem map_perm (h : Stamped now l ps) : l.Perm (ps.map Prod.fst) := by
  obtain ⟨-, qs, hqs, rfl, -⟩ := h
  exact hqs.map Prod.fst

omit [DecidableEq κ] in
theorem length_eq (h : Stamped now l ps) : l.length = ps.length := by
  rw [h.map_perm.length_eq, List.length_map]

omit [DecidableEq κ] in
/-- A key that is not there may be put in front, stamped with the time. -/
theorem push (h : Stamped now l ps) (hk : k ∉ l) (hnow : now < now') :
    Stamped now' (k :: l) ((k, now) :: ps) := by
  obtain ⟨hnodup, qs, hqs, hl, hsorted, hlt⟩ := h
  refine ⟨List.nodup_cons.mpr ⟨hk, hnodup⟩, (k, now) :: qs, hqs.cons _, ?_, ?_, ?_⟩
  · rw [List.map_cons, hl]
  · exact List.pairwise_cons.mpr ⟨hlt, hsorted⟩
  · exact List.forall_mem_cons.mpr ⟨hnow, fun q hq => (hlt q hq).trans hnow⟩

/-- A key may be taken away. -/
theorem remove (h : Stamped now l (p :: ps)) : Stamped now (l.erase p.1) ps := by
  obtain ⟨hnodup, qs, hqs, hl, hsorted, hlt⟩ := h
  have hp : p ∈ qs := hqs.mem_iff.mpr List.mem_cons_self
  obtain ⟨qs₁, qs₂, rfl⟩ := List.append_of_mem hp
  have hsub : (qs₁ ++ qs₂).Sublist (qs₁ ++ p :: qs₂) :=
    (List.Sublist.refl qs₁).append (List.sublist_cons_self p qs₂)
  refine ⟨hnodup.erase _, qs₁ ++ qs₂, ?_, ?_, hsorted.sublist hsub,
    fun q hq => hlt q (hsub.mem hq)⟩
  · exact (List.perm_middle.symm.trans hqs).cons_inv
  · rw [List.map_append, List.map_cons] at hl
    have hnot : p.1 ∉ qs₁.map Prod.fst := by
      rw [← hl] at hnodup
      exact fun hmem => (List.nodup_append.mp hnodup).2.2 _ hmem _ List.mem_cons_self rfl
    rw [← hl, List.erase_append_right _ hnot, List.erase_cons_head, List.map_append]

omit [DecidableEq κ] in
/-- **The key with the earliest stamp is the last one**, and may be taken away. -/
theorem dropLast (h : Stamped now l (p :: ps)) (hmin : ∀ q ∈ ps, p.2 ≤ q.2) :
    Stamped now l.dropLast ps := by
  obtain ⟨hnodup, qs, hqs, hl, hsorted, hlt⟩ := h
  have hp : p ∈ qs := hqs.mem_iff.mpr List.mem_cons_self
  obtain ⟨qs₁, qs₂, rfl⟩ := List.append_of_mem hp
  -- whatever comes after `p` has an earlier stamp, which there is not
  obtain rfl : qs₂ = [] := by
    refine List.eq_nil_iff_forall_not_mem.mpr fun q hq => ?_
    have hlt : q.2 < p.2 :=
      List.rel_of_pairwise_cons (List.pairwise_append.mp hsorted).2.1 hq
    have hqmem : q ∈ p :: ps := hqs.mem_iff.mp (by simp [hq])
    rcases List.mem_cons.mp hqmem with rfl | hq'
    · exact lt_irrefl _ hlt
    · exact absurd (hmin q hq') (not_le.mpr hlt)
  have hsub : qs₁.Sublist (qs₁ ++ [p]) := List.sublist_append_left _ _
  refine ⟨hnodup.sublist (List.dropLast_sublist l), qs₁, ?_, ?_, hsorted.sublist hsub,
    fun q hq => hlt q (hsub.mem hq)⟩
  · exact ((List.perm_append_singleton p qs₁).symm.trans hqs).cons_inv
  · rw [← hl, List.map_append, List.map_singleton, List.dropLast_concat]

end Stamped

end Interaction
