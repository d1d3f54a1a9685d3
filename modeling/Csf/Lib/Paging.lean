import Csf.Lib.Fifo
import Csf.Lib.Machine
import Csf.Lib.Recency

/-!
# Paging

A cache that decides for itself what it forgets, against one that is told: the former has
seen no more than the past, the latter may know what comes. What the former can promise is
that it is *conservative* (`Interaction.Conservative`): as long as there are no more
different keys than it has room for, it misses none of them twice. The two policies of
`Csf.Lib.Recency` and `Csf.Lib.Fifo` are (`Interaction.conservative_lru`,
`Interaction.conservative_fifo`).

The requests are cut into phases, each as long as there are no more different keys in it
than there is room (`Interaction.phases`). A conservative cache misses no more in a phase
than it has room for. And from the first request of a phase to the first of the next one
there is one key more, so that whoever serves them all has to bring some in
(`Interaction.phases_le_cost`). Hence the bound of `Interaction.competitive`, for a cache
in several parts, each for the keys with its number.
-/

namespace Interaction

variable {κ σ : Type} [DecidableEq κ]

theorem toFinset_concat (l : List κ) (x : κ) : (l ++ [x]).toFinset = insert x l.toFinset := by
  rw [List.toFinset_append, List.toFinset_cons, List.toFinset_nil, Finset.union_comm]
  rfl

/-! ### Misses -/

/-- The number of requests that a cache misses; it puts out whether it hits. -/
def misses (f : σ → κ → Bool × σ) (s : σ) (l : List κ) : ℕ := (outputs f s l).count false

section Misses

variable {f : σ → κ → Bool × σ} {s : σ}

omit [DecidableEq κ] in
@[simp] theorem misses_nil : misses f s [] = 0 := rfl

omit [DecidableEq κ] in
theorem misses_cons (x : κ) (l : List κ) :
    misses f s (x :: l) = (if (f s x).1 then 0 else 1) + misses f (f s x).2 l := by
  rw [misses, outputs_cons, List.count_cons, Nat.add_comm]
  cases (f s x).1 <;> rfl

omit [DecidableEq κ] in
theorem misses_append (l l' : List κ) :
    misses f s (l ++ l') = misses f s l + misses f (after f s l) l' := by
  induction l generalizing s with
  | nil => exact (Nat.zero_add _).symm
  | cons x l ih => rw [List.cons_append, misses_cons, misses_cons, ih, after_cons, Nat.add_assoc]

/-- **A conservative cache**: whatever has come before, if there are at most `k` different
keys in some requests, there are no more misses than that. -/
def Conservative (k : ℕ) (f : σ → κ → Bool × σ) (s : σ) : Prop :=
  ∀ l l', l'.toFinset.card ≤ k → misses f (after f s l) l' ≤ l'.toFinset.card

/-- `J P M` holds when the keys `P` have been requested and `M` of them been missed, and of those
none is missed again. -/
theorem misses_le_card {k : ℕ} {J : Finset κ → Finset κ → σ → Prop}
    (hsub : ∀ P M s, J P M s → M ⊆ P)
    (hstep : ∀ P M s x, J P M s → (insert x P).card ≤ k →
      (f s x).1 = true ∧ J (insert x P) M (f s x).2 ∨
        (f s x).1 = false ∧ x ∉ M ∧ J (insert x P) (insert x M) (f s x).2)
    {P M : Finset κ} (h : J P M s) (l : List κ) (hcard : (P ∪ l.toFinset).card ≤ k) :
    M.card + misses f s l ≤ (P ∪ l.toFinset).card := by
  induction l generalizing P M s with
  | nil =>
    rw [misses_nil, Nat.add_zero]
    exact Finset.card_le_card ((hsub P M s h).trans Finset.subset_union_left)
  | cons x l ih =>
    have hunion : P ∪ (x :: l).toFinset = insert x P ∪ l.toFinset := by
      rw [List.toFinset_cons, Finset.union_insert, Finset.insert_union]
    rw [hunion] at hcard ⊢
    rw [misses_cons]
    rcases hstep P M s x h ((Finset.card_le_card Finset.subset_union_left).trans hcard) with
      ⟨hhit, hJ⟩ | ⟨hmiss, hx, hJ⟩
    · rw [hhit, if_pos rfl, Nat.zero_add]
      exact ih hJ hcard
    · have hrest := ih hJ hcard
      rw [Finset.card_insert_of_notMem hx] at hrest
      rw [hmiss, if_neg Bool.false_ne_true]
      omega

/-- **The rule for conservative caches**: whatever has come before, nothing counts as requested at
first, and from then on no key is missed twice. -/
theorem conservative_of_step {k : ℕ} {I : σ → Prop} {J : Finset κ → Finset κ → σ → Prop}
    (hkeep : ∀ s x, I s → I (f s x).2) (hI : I s) (hempty : ∀ s, I s → J ∅ ∅ s)
    (hsub : ∀ P M s, J P M s → M ⊆ P)
    (hstep : ∀ P M s x, J P M s → (insert x P).card ≤ k →
      (f s x).1 = true ∧ J (insert x P) M (f s x).2 ∨
        (f s x).1 = false ∧ x ∉ M ∧ J (insert x P) (insert x M) (f s x).2) :
    Conservative k f s := by
  intro l l' hcard
  have hmisses := misses_le_card hsub hstep (hempty _ (after_inv hkeep hI l)) l'
    (by simpa using hcard)
  simpa using hmisses

/-- **What has not been there is missed**: a cache that brings in nothing but what is requested
misses every new key at least once. -/
theorem card_le_misses {H : σ → κ → Prop} (hhit : ∀ s x, (f s x).1 = true → H s x)
    (hheld : ∀ s x y, H (f s x).2 y → y = x ∨ H s y) {P : Finset κ} (h : ∀ y, H s y → y ∈ P)
    (l : List κ) : (l.toFinset \ P).card ≤ misses f s l := by
  induction l generalizing s P with
  | nil => simp
  | cons x l ih =>
    have hrest : (l.toFinset \ insert x P).card ≤ misses f (f s x).2 l := by
      refine ih fun y hy => ?_
      rcases hheld s x y hy with rfl | hy
      · exact Finset.mem_insert_self _ _
      · exact Finset.mem_insert_of_mem (h y hy)
    rw [misses_cons, List.toFinset_cons]
    split
    · rename_i hx
      have hxP := h x (hhit s x hx)
      rwa [Finset.insert_sdiff_of_mem _ hxP, Nat.zero_add, ← Finset.insert_eq_of_mem hxP]
    · have hsub : insert x l.toFinset \ P ⊆ insert x (l.toFinset \ insert x P) := by
        intro y hy
        simp only [Finset.mem_sdiff, Finset.mem_insert] at hy ⊢
        tauto
      have hcard := (Finset.card_le_card hsub).trans (Finset.card_insert_le _ _)
      omega

end Misses

/-! ### The two policies -/

/-- **A cache as a list of keys**, given by what a request makes of it. -/
def pageWith (access : List κ → κ → List κ) (l : List κ) (x : κ) : Bool × List κ :=
  (decide (x ∈ l), access l x)

/-- A list of keys that a cache of capacity `k` can hold. -/
structure Bounded (k : ℕ) (l : List κ) : Prop where
  nodup : l.Nodup
  length_le : l.length ≤ k

section Policies

variable {k : ℕ} {l : List κ} {x : κ}

omit [DecidableEq κ] in
theorem bounded_nil (k : ℕ) : Bounded k ([] : List κ) := ⟨List.nodup_nil, Nat.zero_le k⟩

theorem Bounded.lruAccess (h : Bounded k l) (hk : 0 < k) (x : κ) :
    Bounded k (lruAccess k true l x) := by
  obtain ⟨hnodup, hlen⟩ := h
  rw [Interaction.lruAccess, if_pos rfl]
  split
  · rename_i hx
    have hpos := List.length_pos_of_mem hx
    refine ⟨List.nodup_cons.mpr ⟨hnodup.not_mem_erase, hnodup.erase x⟩, ?_⟩
    rw [List.length_cons, List.length_erase_of_mem hx]
    omega
  · rename_i hx
    split
    · rename_i hroom
      exact ⟨List.nodup_cons.mpr ⟨hx, hnodup⟩, hroom⟩
    · refine ⟨List.nodup_cons.mpr ⟨fun hmem => hx ((List.dropLast_sublist l).mem hmem),
        hnodup.sublist (List.dropLast_sublist l)⟩, ?_⟩
      rw [List.length_cons, List.length_dropLast]
      omega

theorem Bounded.fifoAccess (h : Bounded k l) (hk : 0 < k) (x : κ) :
    Bounded k (fifoAccess k true l x) := by
  obtain ⟨hnodup, hlen⟩ := h
  rw [Interaction.fifoAccess, if_pos rfl]
  split
  · exact ⟨hnodup, hlen⟩
  · rename_i hx
    have hconcat : ∀ {l : List κ}, l.Nodup → x ∉ l → (l ++ [x]).Nodup := fun hl hx =>
      (List.perm_append_singleton x _).nodup_iff.mpr (List.nodup_cons.mpr ⟨hx, hl⟩)
    split
    · rename_i hroom
      refine ⟨hconcat hnodup hx, ?_⟩
      rw [List.length_append, List.length_singleton]
      omega
    · refine ⟨hconcat (hnodup.sublist (List.tail_sublist l))
        fun hmem => hx (List.mem_of_mem_tail hmem), ?_⟩
      rw [List.length_append, List.length_singleton, List.length_tail]
      omega

/-- **The cache that forgets what was used the longest ago is conservative**: the keys that
have been requested are those in front. -/
theorem conservative_lru (hk : 0 < k) (h : Bounded k l) :
    Conservative k (pageWith (lruAccess k true)) l := by
  refine conservative_of_step (I := Bounded k)
    (J := fun P M s => M ⊆ P ∧ Bounded k s ∧ ∃ recent old, s = recent ++ old ∧
      recent.toFinset = P) (fun s x hs => hs.lruAccess hk x) h
    (fun s hs => ⟨Finset.Subset.refl _, hs, [], s, rfl, rfl⟩) (fun _ _ _ h => h.1) ?_
  rintro P M s x ⟨hMP, hs, recent, old, rfl, rfl⟩ hP
  have hmem : ∀ y ∈ recent, y ∈ recent ++ old := fun y hy => List.mem_append_left old hy
  by_cases hx : x ∈ recent ++ old
  · refine .inl ⟨decide_eq_true hx, hMP.trans (Finset.subset_insert _ _), hs.lruAccess hk x, ?_⟩
    rw [pageWith, lruAccess, if_pos hx]
    by_cases hrecent : x ∈ recent
    · refine ⟨x :: recent.erase x, old, by rw [List.erase_append_left _ hrecent]; rfl, ?_⟩
      rw [← List.toFinset_eq_of_perm _ _ (List.perm_cons_erase hrecent),
        Finset.insert_eq_of_mem (List.mem_toFinset.mpr hrecent)]
    · exact ⟨x :: recent, old.erase x, by rw [List.erase_append_right _ hrecent]; rfl,
        List.toFinset_cons⟩
  · have hM : x ∉ M := fun h => hx (hmem x (List.mem_toFinset.mp (hMP h)))
    refine .inr ⟨decide_eq_false hx, hM, Finset.insert_subset_insert x hMP, hs.lruAccess hk x, ?_⟩
    rw [pageWith, lruAccess, if_neg hx, if_pos rfl]
    split
    · exact ⟨x :: recent, old, rfl, List.toFinset_cons⟩
    · rename_i hfull
      -- the last key is not one of those that have been requested
      have hold : old ≠ [] := by
        rintro rfl
        rw [List.append_nil] at hs hx hfull
        rw [Finset.card_insert_of_notMem (by simpa using hx),
          List.toFinset_card_of_nodup hs.nodup] at hP
        omega
      exact ⟨x :: recent, old.dropLast, by rw [List.dropLast_append_of_ne_nil hold]; rfl,
        List.toFinset_cons⟩

/-- **The cache that forgets what came in first is conservative**: the keys that have been
missed are those at the end. -/
theorem conservative_fifo (hk : 0 < k) (h : Bounded k l) :
    Conservative k (pageWith (fifoAccess k true)) l := by
  refine conservative_of_step (I := Bounded k)
    (J := fun P M s => M ⊆ P ∧ Bounded k s ∧ ∃ old recent, s = old ++ recent ∧
      recent.toFinset = M) (fun s x hs => hs.fifoAccess hk x) h
    (fun s hs => ⟨Finset.Subset.refl _, hs, s, [], (List.append_nil s).symm, rfl⟩)
    (fun _ _ _ h => h.1) ?_
  rintro P M s x ⟨hMP, hs, old, recent, rfl, rfl⟩ hP
  by_cases hx : x ∈ old ++ recent
  · refine .inl ⟨decide_eq_true hx, hMP.trans (Finset.subset_insert _ _), hs.fifoAccess hk x,
      old, recent, ?_, rfl⟩
    rw [pageWith, fifoAccess, if_pos hx]
  · have hrecent : x ∉ recent := fun h => hx (List.mem_append_right old h)
    have hinsert := toFinset_concat recent x
    refine .inr ⟨decide_eq_false hx, by simpa using hrecent, Finset.insert_subset_insert x hMP,
      hs.fifoAccess hk x, ?_⟩
    rw [pageWith, fifoAccess, if_neg hx, if_pos rfl]
    split
    · exact ⟨old, recent ++ [x], List.append_assoc _ _ _, hinsert⟩
    · rename_i hfull
      -- the first key is not one of those that have been missed
      have hold : old ≠ [] := by
        rintro rfl
        rw [List.nil_append] at hs hfull
        have hle := Finset.card_le_card (Finset.insert_subset_insert x hMP)
        rw [Finset.card_insert_of_notMem (by simpa using hrecent),
          List.toFinset_card_of_nodup hs.nodup] at hle
        omega
      exact ⟨old.tail, recent ++ [x], by
        rw [List.tail_append_of_ne_nil hold, List.append_assoc], hinsert⟩

/-- What is there after a request has been there before, or been requested. -/
theorem mem_of_mem_lruAccess {y : κ} (h : y ∈ lruAccess k true l x) : y = x ∨ y ∈ l := by
  rw [lruAccess, if_pos rfl] at h
  split at h
  · exact (List.mem_cons.mp h).imp_right List.mem_of_mem_erase
  · refine (List.mem_cons.mp h).imp_right fun hy => ?_
    split at hy
    · exact hy
    · exact (List.dropLast_sublist l).mem hy

theorem mem_of_mem_fifoAccess {y : κ} (h : y ∈ fifoAccess k true l x) : y = x ∨ y ∈ l := by
  rw [fifoAccess, if_pos rfl] at h
  split at h
  · exact .inr h
  · rcases List.mem_append.mp h with hy | hy
    · split at hy
      · exact .inr hy
      · exact .inr (List.mem_of_mem_tail hy)
    · exact .inl (List.mem_singleton.mp hy)

end Policies

/-! ### Phases -/

/-- **The number of phases** after the current one, in which the keys `P` have been requested: a
phase ends when there is a key more than `k`. -/
def phases (k : ℕ) : Finset κ → List κ → ℕ
  | _, [] => 0
  | P, x :: l =>
      if (insert x P).card ≤ k then phases k (insert x P) l else phases k {x} l + 1

/-- **What has to be brought in** to go through these contents of a cache, from `C` on. -/
def cost : Finset κ → List (Finset κ) → ℕ
  | _, [] => 0
  | C, D :: Ds => (D \ C).card + cost D Ds

section Phases

variable {k h : ℕ}

/-- A conservative cache misses no more in a phase than it has room for. -/
theorem Conservative.misses_le {f : σ → κ → Bool × σ} {s : σ} (hf : Conservative k f s)
    (hk : 0 < k) (l : List κ) : misses f s l ≤ k * (phases k ∅ l + 1) := by
  -- the requests `l'` have been those of the current phase, after `l₀`
  suffices hrest : ∀ l l₀ l', l'.toFinset.card ≤ k →
      misses f (after f s l₀) (l' ++ l) ≤ k * (phases k l'.toFinset l + 1) from
    hrest l [] [] (Nat.zero_le k)
  intro l
  induction l with
  | nil =>
    intro l₀ l' hcard
    rw [List.append_nil, phases, Nat.zero_add, Nat.mul_one]
    exact (hf l₀ l' hcard).trans hcard
  | cons x l ih =>
    intro l₀ l' hcard
    have hinsert := toFinset_concat l' x
    rw [phases]
    split
    · rename_i hle
      have hnext := ih l₀ (l' ++ [x]) (hinsert ▸ hle)
      rwa [List.append_assoc, hinsert] at hnext
    · have hnext := ih (l₀ ++ l') [x] hk
      rw [misses_append, ← after_append, Nat.mul_succ, Nat.add_comm]
      exact Nat.add_le_add hnext ((hf l₀ l' hcard).trans hcard)

/-- **Whoever serves the requests brings something in for every phase.** Only the keys of `p`
are looked at; `B` is what has been there since the first request of the phase. -/
theorem phases_le_cost {p : κ → Prop} [DecidablePred p] {l : List κ} {Ds : List (Finset κ)}
    (hserves : List.Forall₂ (fun x D => x ∈ D ∧ (D.filter p).card ≤ h) l Ds) {P B C : Finset κ}
    {a : ℕ} (hP : P ⊆ B) (hC : C.filter p ⊆ B) (hB : B.card ≤ h + a) :
    (k + 1 - h) * phases k P (l.filter (p ·)) ≤
      a + cost (C.filter p) (Ds.map (·.filter p)) := by
  induction hserves generalizing P B C a with
  | nil => simp [phases]
  | @cons x D l Ds hx _ ih =>
    obtain ⟨hxD, hD⟩ := hx
    have hB' : (B ∪ D.filter p).card ≤ h + (a + (D.filter p \ C.filter p).card) := by
      rw [← Finset.union_sdiff_self_eq_union]
      have hle := Finset.card_le_card
        (Finset.sdiff_subset_sdiff (Finset.Subset.refl (D.filter p)) hC)
      have hunion := Finset.card_union_le B (D.filter p \ B)
      omega
    rw [List.map_cons, cost, ← Nat.add_assoc]
    by_cases hpx : p x
    · rw [List.filter_cons_of_pos (by simpa using hpx), phases]
      have hxD' : x ∈ D.filter p := Finset.mem_filter.mpr ⟨hxD, hpx⟩
      have hsub : insert x P ⊆ B ∪ D.filter p :=
        Finset.insert_subset (Finset.mem_union_right _ hxD') (hP.trans Finset.subset_union_left)
      split
      · exact ih hsub Finset.subset_union_right hB'
      · rename_i hnew
        have hcard := Finset.card_le_card hsub
        have hrest := ih (P := {x}) (B := D.filter p) (C := D) (a := 0)
          (Finset.singleton_subset_iff.mpr hxD') (Finset.Subset.refl _) hD
        rw [Nat.mul_succ]
        omega
    · rw [List.filter_cons_of_neg (by simpa using hpx)]
      exact ih (hP.trans Finset.subset_union_left) Finset.subset_union_right hB'

end Phases

/-! ### A cache in several parts -/

/-- **A cache with a part for each number**, in which the keys with that number are. -/
def sharded (f : σ → κ → Bool × σ) (idx : κ → ℕ) (s : ℕ → σ) (x : κ) : Bool × (ℕ → σ) :=
  ((f (s (idx x)) x).1, Function.update s (idx x) (f (s (idx x)) x).2)

section Sharded

variable {f : σ → κ → Bool × σ} {idx : κ → ℕ} {s : ℕ → σ} {l : List κ} {n k h : ℕ}

omit [DecidableEq κ] in
@[simp] theorem sharded_fst (x : κ) : (sharded f idx s x).1 = (f (s (idx x)) x).1 := rfl

omit [DecidableEq κ] in
@[simp] theorem sharded_snd (x : κ) :
    (sharded f idx s x).2 = Function.update s (idx x) (f (s (idx x)) x).2 := rfl

omit [DecidableEq κ] in
/-- The misses are those of the parts, each with its own requests. -/
theorem misses_sharded (hidx : ∀ x ∈ l, idx x < n) : misses (sharded f idx) s l =
    ∑ i ∈ Finset.range n, misses f (s i) (l.filter (idx · = i)) := by
  induction l generalizing s with
  | nil => simp
  | cons x l ih =>
    obtain ⟨hx, hl⟩ := List.forall_mem_cons.mp hidx
    have hmem : idx x ∈ Finset.range n := Finset.mem_range.mpr hx
    have hown : (x :: l).filter (idx · = idx x) = x :: l.filter (idx · = idx x) :=
      List.filter_cons_of_pos (by simp)
    rw [misses_cons, ih hl, ← Finset.add_sum_erase _ _ hmem, ← Finset.add_sum_erase _ _ hmem, hown,
      misses_cons, sharded_fst, sharded_snd, Function.update_self, Nat.add_assoc]
    refine congrArg _ (congrArg _ (Finset.sum_congr rfl fun i hi => ?_))
    have hne := Finset.ne_of_mem_erase hi
    rw [Function.update_of_ne hne, List.filter_cons_of_neg (by simpa using hne.symm)]

/-- What is brought in is brought in for one of the parts. -/
theorem sum_cost_le (C : Finset κ) (Ds : List (Finset κ)) :
    ∑ i ∈ Finset.range n, cost (C.filter (idx · = i)) (Ds.map (·.filter (idx · = i))) ≤
      cost C Ds := by
  induction Ds generalizing C with
  | nil => simp [cost]
  | cons D Ds ih =>
    simp only [List.map_cons, cost, Finset.sum_add_distrib]
    refine Nat.add_le_add ?_ (ih D)
    have hparts : ∀ i, D.filter (idx · = i) \ C.filter (idx · = i) =
        (D \ C).filter (idx · = i) := fun i => by
      ext x
      simp only [Finset.mem_sdiff, Finset.mem_filter]
      tauto
    simp only [hparts]
    rw [← Finset.card_biUnion fun i _ j _ hij => Finset.disjoint_filter.mpr fun x _ hi hj =>
      hij (hi.symm.trans hj)]
    exact Finset.card_le_card (Finset.biUnion_subset.mpr fun i _ => Finset.filter_subset _ _)

/-- **A conservative cache is competitive**: a schedule that has room for `h` keys in each part
cannot do with much less, however much of the requests it knows in advance. -/
theorem competitive (hf : ∀ i, Conservative k f (s i)) (hk : 0 < k) (hidx : ∀ x ∈ l, idx x < n)
    {C : Finset κ} {Ds : List (Finset κ)} (hC : ∀ i, (C.filter (idx · = i)).card ≤ h)
    (hserves : List.Forall₂ (fun x D => x ∈ D ∧ ∀ i, (D.filter (idx · = i)).card ≤ h) l Ds) :
    (k + 1 - h) * misses (sharded f idx) s l ≤ k * (cost C Ds + n * (k + 1 - h)) := by
  have hpart : ∀ i ∈ Finset.range n, (k + 1 - h) * misses f (s i) (l.filter (idx · = i)) ≤
      k * (cost (C.filter (idx · = i)) (Ds.map (·.filter (idx · = i))) + (k + 1 - h)) := by
    intro i _
    have hmisses := (hf i).misses_le hk (l.filter (idx · = i))
    have hphases := phases_le_cost (k := k) (P := ∅) (B := C.filter (idx · = i)) (a := 0)
      (hserves.imp fun x D hD => ⟨hD.1, hD.2 i⟩) (Finset.empty_subset _) (Finset.Subset.refl _)
      (hC i)
    rw [Nat.zero_add] at hphases
    calc (k + 1 - h) * misses f (s i) (l.filter (idx · = i))
        ≤ (k + 1 - h) * (k * (phases k ∅ (l.filter (idx · = i)) + 1)) :=
          Nat.mul_le_mul_left _ hmisses
      _ = k * ((k + 1 - h) * phases k ∅ (l.filter (idx · = i)) + (k + 1 - h)) := by ring
      _ ≤ _ := Nat.mul_le_mul_left _ (Nat.add_le_add_right hphases _)
  rw [misses_sharded hidx, Finset.mul_sum]
  refine (Finset.sum_le_sum hpart).trans ?_
  rw [← Finset.mul_sum, Finset.sum_add_distrib, Finset.sum_const, Finset.card_range, smul_eq_mul]
  exact Nat.mul_le_mul_left _ (Nat.add_le_add_right (sum_cost_le C Ds) _)

/-- **A cache with room for all that is requested** misses every key once and no more, if it
begins without any. -/
theorem misses_of_room {access : List κ → κ → List κ} {s : ℕ → List κ} (hs : ∀ i, s i = [])
    (hf : ∀ i, Conservative k (pageWith access) (s i))
    (haccess : ∀ l x y, y ∈ access l x → y = x ∨ y ∈ l) (hidx : ∀ x ∈ l, idx x < n)
    (hroom : ∀ i, (l.filter (idx · = i)).toFinset.card ≤ k) :
    misses (sharded (pageWith access) idx) s l = l.toFinset.card := by
  refine le_antisymm ?_ ?_
  · rw [misses_sharded hidx]
    refine (Finset.sum_le_sum fun i _ => hf i [] _ (hroom i)).trans ?_
    rw [← Finset.card_biUnion fun i _ j _ hij => Finset.disjoint_left.mpr fun x hi hj => hij ?_]
    · refine Finset.card_le_card (Finset.biUnion_subset.mpr fun i _ x hx => ?_)
      exact List.mem_toFinset.mpr (List.mem_of_mem_filter (List.mem_toFinset.mp hx))
    · have hi := (List.mem_filter.mp (List.mem_toFinset.mp hi)).2
      have hj := (List.mem_filter.mp (List.mem_toFinset.mp hj)).2
      exact (of_decide_eq_true hi).symm.trans (of_decide_eq_true hj)
  · have hle := card_le_misses (f := sharded (pageWith access) idx) (s := s)
      (H := fun s x => x ∈ s (idx x)) (P := ∅) (fun s x hx => of_decide_eq_true hx) ?_ ?_ l
    · simpa using hle
    · intro s x y hy
      rcases eq_or_ne (idx y) (idx x) with heq | hne
      · rw [sharded_snd, heq, Function.update_self] at hy
        rw [heq]
        exact haccess _ _ _ hy
      · rw [sharded_snd, Function.update_of_ne hne] at hy
        exact .inr hy
    · intro y hy
      rw [hs] at hy
      exact absurd hy (List.not_mem_nil)

end Sharded

end Interaction
