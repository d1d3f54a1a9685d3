import Csf.Lib.Records
import Csf.ParSort.Threshold

/-!
# The programs `parsort` and `is_sorted`

`main` of `parsort.c` maps the file that it is given and sorts it in place, as an array of as
many `int64_t` as there are in it (`Csf.ParSort.Parsort`); `is_sorted` reads the same file one
element at a time, and tells where the order is broken (`Csf.ParSort.isSorted`). What is in the
file is the same for both, so the one has to be content with what the other has done
(`Csf.ParSort.parsort_isSorted`).

Where the file is not a multiple of eight bytes long, what is left at its end belongs to no
element: it stays as it is, and `is_sorted` does not look at it. An empty file cannot be mapped.
-/

namespace Csf

namespace ParSort

open Interaction Function

variable {m : Memory} {l file : List UInt8} {k n : ℕ}

/-! ### Files -/

/-- `int64_t` in memory and in a file. -/
def int64 : Layout ℤ UInt8 := twosComplement 8 (by decide)

/-- What is in the files that there are, by name. -/
abbrev Files := Str → Option (List UInt8)

/-- `num_elements` -/
def numElements (file : List UInt8) : ℕ := int64.count file

/-- The elements of a file. -/
def elements (file : List UInt8) : List ℤ := int64.records (numElements file) file

/-- `data`: the file, mapped into memory. -/
def mapped (file : List UInt8) : Memory := int64.get file

/-- What is in the file, once the memory that it is mapped into is `m`. -/
def written (file : List UInt8) (m : Memory) : List UInt8 :=
  int64.store (slice m 0 (numElements file)) file

/-! ### `parsort` -/

/-- `main` of `parsort.c` up to the call of `merge_sort`: the name of the file, the file, and the
threshold; or what is written before it ends with status 1. -/
def prepare (files : Files) : List Str → Except Str (Str × List UInt8 × UInt64)
  | [_, filename, arg] =>
      match parseThreshold arg with
      | none => .error "Error: threshold value is invalid\n".toList
      | some threshold =>
          match files filename with
          | none =>
              .error "Error: failure to open the file with the integers to be sorted\n".toList
          | some file =>
              -- `mmap` of no bytes at all fails
              if file.isEmpty then .error "Error: failure to mmap the file data\n".toList
              else .ok (filename, file, threshold)
  | argv =>
      .error ("Usage: ".toList ++ argv.headD [] ++ " <filename> <sequential threshold>\n".toList)

/-- **`main` of `parsort.c`** may end with this status and these files, in a run of `merge_sort`
whose steps all satisfy `ok`. -/
inductive Parsort (ok : List Side → Choice → Tree → Prop) (files : Files) (argv : List Str) :
    WaitStatus → Files → Prop
  /-- There is nothing to sort, or no threshold. -/
  | refused {err : Str} (h : prepare files argv = .error err) :
      Parsort ok files argv (.exited 1) files
  /-- `fstat` or `mmap` fails. -/
  | unmapped {filename : Str} {file : List UInt8} {threshold : UInt64}
      (h : prepare files argv = .ok (filename, file, threshold)) :
      Parsort ok files argv (.exited 1) files
  /-- The process ends in `merge_sort`, or after it. -/
  | ended {filename : Str} {file : List UInt8} {threshold : UInt64} {t : Tree} {m : Memory}
      {status : WaitStatus} (h : prepare files argv = .ok (filename, file, threshold))
      (hrun : Run ok threshold.toNat 0 (numElements file) (.start, mapped file) (t, m))
      (hstatus : t.status = some status) :
      Parsort ok files argv status (update files filename (some (written file m)))
  /-- `munmap` fails. -/
  | mapStays {filename : Str} {file : List UInt8} {threshold : UInt64} {t : Tree} {m : Memory}
      (h : prepare files argv = .ok (filename, file, threshold))
      (hrun : Run ok threshold.toNat 0 (numElements file) (.start, mapped file) (t, m))
      (hstatus : t.status = some (.exited 0)) :
      Parsort ok files argv (.exited 1) (update files filename (some (written file m)))

/-- What is to be sorted is in a file, and the file is not empty. -/
theorem prepare_eq_ok {files : Files} {argv : List Str} {filename : Str} {threshold : UInt64}
    (h : prepare files argv = .ok (filename, file, threshold)) :
    ∃ prog arg, argv = [prog, filename, arg] ∧ parseThreshold arg = some threshold ∧
      files filename = some file ∧ file ≠ [] := by
  unfold prepare at h
  split at h
  · next prog name arg =>
    split at h
    · cases h
    · next threshold' harg =>
      split at h
      · cases h
      · next file' hfile =>
        split at h
        · cases h
        · next hempty =>
          cases h
          exact ⟨prog, arg, rfl, harg, hfile, by simpa using hempty⟩
  · cases h

/-! ### `is_sorted` -/

/-- How a program has ended. -/
structure Output where
  /-- What `main` returns. -/
  status : ℕ
  /-- Standard output. -/
  stdout : Str
  /-- Standard error. -/
  stderr : Str
  deriving DecidableEq

/-- The loop of `main` of `is_sorted.c`, after `numElts` elements: how many have been read when
one is less than the one before it. -/
def isSortedLoop (numElts : ℕ) (prev : ℤ) (file : List UInt8) : Option ℕ :=
  match h : int64.next file with
  | none => none
  | some (curr, rest) =>
      if curr < prev then some (numElts + 1) else isSortedLoop (numElts + 1) curr rest
termination_by file.length
decreasing_by exact int64.length_of_next h

/-- What is printed where all is in order. -/
def sortedOutput : Output := ⟨0, "Data values are sorted!\n".toList, []⟩

/-- What is printed where there is nothing to read. -/
def emptyOutput : Output := ⟨0, [], "Could not read first data value (file is empty?)\n".toList⟩

/-- What is printed where an element is less than the one before it. -/
def notSortedOutput (numElts : ℕ) : Output :=
  ⟨1, [], "Data values are not sorted! (element ".toList ++ Nat.toDigits 10 numElts ++
    " is less than element ".toList ++ Nat.toDigits 10 (numElts - 1) ++ ")\n".toList⟩

/-- **`main` of `is_sorted.c`** -/
def isSorted (files : Files) : List Str → Output
  | [_, filename] =>
      match files filename with
      | none => ⟨1, [], "Couldn't open ".toList ++ filename ++ "\n".toList⟩
      | some file =>
          match int64.next file with
          | none => emptyOutput
          | some (prev, rest) =>
              match isSortedLoop 1 prev rest with
              | some numElts => notSortedOutput numElts
              | none => sortedOutput
  | argv => ⟨1, [], "Usage: ".toList ++ argv.headD [] ++ " <data file>\n".toList⟩

/-! ### The first element out of order -/

/-- The number of the first element that is less than the one before it, where `prev` is number
`k` and the rest follow. -/
def firstDescent (k : ℕ) (prev : ℤ) : List ℤ → Option ℕ
  | [] => none
  | curr :: l => if curr < prev then some (k + 1) else firstDescent (k + 1) curr l

theorem elements_of_not_le (h : ¬int64.size ≤ file.length) : elements file = [] := by
  rw [elements, numElements, int64.count_eq_zero h]
  rfl

theorem elements_eq_cons (h : int64.size ≤ file.length) :
    elements file = int64.get file 0 :: elements (file.drop int64.size) := by
  rw [elements, numElements, int64.count_drop h, int64.records_succ]
  rfl

/-- **The loop looks at the elements** one by one. -/
theorem isSortedLoop_eq (k : ℕ) (prev : ℤ) (file : List UInt8) :
    isSortedLoop k prev file = firstDescent k prev (elements file) := by
  induction hn : file.length using Nat.strong_induction_on generalizing file k prev with
  | _ n ih =>
    rw [isSortedLoop]
    by_cases hle : int64.size ≤ file.length
    · have hpos := int64.size_pos
      have hrest := ih _ (by rw [List.length_drop]; omega) (k + 1) (int64.get file 0)
        (file.drop int64.size) rfl
      rw [int64.next_eq_some hle, elements_eq_cons hle, firstDescent, ← hrest]
    · rw [Layout.next, if_neg hle, elements_of_not_le hle, firstDescent]

/-- Nothing is found where all is in order. -/
theorem firstDescent_of_isChain {prev : ℤ} {l : List ℤ} (h : (prev :: l).IsChain (· ≤ ·)) :
    firstDescent k prev l = none := by
  induction l generalizing k prev with
  | nil => rfl
  | cons curr l ih =>
    obtain ⟨hle, hchain⟩ := List.isChain_cons_cons.mp h
    rw [firstDescent, if_neg (not_lt.mpr hle), ih hchain]

/-- **What is found** is out of order, and nothing before it is. -/
theorem firstDescent_spec (k : ℕ) (prev : ℤ) (l : List ℤ) :
    firstDescent k prev l = none ∧ (prev :: l).IsChain (· ≤ ·) ∨
      ∃ l₁ x y l₂, prev :: l = l₁ ++ x :: y :: l₂ ∧ (l₁ ++ [x]).IsChain (· ≤ ·) ∧ y < x ∧
        firstDescent k prev l = some (k + l₁.length + 1) := by
  induction l generalizing k prev with
  | nil => exact .inl ⟨rfl, .singleton prev⟩
  | cons curr l ih =>
    by_cases hlt : curr < prev
    · refine .inr ⟨[], prev, curr, l, rfl, .singleton prev, hlt, ?_⟩
      rw [firstDescent, if_pos hlt, List.length_nil, Nat.add_zero]
    · have hle := not_lt.mp hlt
      rw [firstDescent, if_neg hlt]
      rcases ih (k + 1) curr with ⟨hnone, hchain⟩ | ⟨l₁, x, y, l₂, hl, hchain, hyx, hsome⟩
      · exact .inl ⟨hnone, hchain.cons_cons hle⟩
      · refine .inr ⟨prev :: l₁, x, y, l₂, by rw [hl, List.cons_append], ?_, hyx, ?_⟩
        · cases l₁ with
          | nil =>
            obtain ⟨rfl, -⟩ := List.cons.inj hl
            exact hchain.cons_cons hle
          | cons z l₁ =>
            obtain ⟨rfl, -⟩ := List.cons.inj hl
            exact hchain.cons_cons hle
        · rw [hsome, List.length_cons]
          congr 1
          omega

/-- What `is_sorted` prints about these elements. -/
def verdict : List ℤ → Output
  | [] => emptyOutput
  | prev :: l => (firstDescent 1 prev l).elim sortedOutput notSortedOutput

/-- **`is_sorted` depends on the elements** alone. -/
theorem isSorted_eq {files : Files} {filename : Str} (hfile : files filename = some file)
    (prog : Str) : isSorted files [prog, filename] = verdict (elements file) := by
  rw [isSorted, hfile]
  by_cases hle : int64.size ≤ file.length
  · simp only [int64.next_eq_some hle, isSortedLoop_eq, elements_eq_cons hle, verdict]
    cases firstDescent 1 (int64.get file 0) (elements (file.drop int64.size)) <;> rfl
  · simp only [Layout.next, if_neg hle, elements_of_not_le hle, verdict]

/-- **The verdict of `is_sorted`**: there is no element, or they are in order, or the one that is
named is the first that is less than the one before it. -/
theorem isSorted_verdict (files : Files) {filename : Str} (hfile : files filename = some file)
    (prog : Str) :
    elements file = [] ∧ isSorted files [prog, filename] = emptyOutput ∨
      elements file ≠ [] ∧ (elements file).Pairwise (· ≤ ·) ∧
        isSorted files [prog, filename] = sortedOutput ∨
      ∃ l₁ x y l₂, elements file = l₁ ++ x :: y :: l₂ ∧ (l₁ ++ [x]).Pairwise (· ≤ ·) ∧ y < x ∧
        isSorted files [prog, filename] = notSortedOutput (l₁.length + 2) := by
  rw [isSorted_eq hfile]
  cases elements file with
  | nil => exact .inl ⟨rfl, rfl⟩
  | cons prev l =>
    refine .inr ?_
    rcases firstDescent_spec 1 prev l with ⟨hnone, hchain⟩ | ⟨l₁, x, y, l₂, hl, hchain, hyx, hsome⟩
    · refine .inl ⟨List.cons_ne_nil _ _, List.isChain_iff_pairwise.mp hchain, ?_⟩
      rw [verdict, hnone, Option.elim_none]
    · refine .inr ⟨l₁, x, y, l₂, hl, List.isChain_iff_pairwise.mp hchain, hyx, ?_⟩
      rw [verdict, hsome, Option.elim_some, show 1 + l₁.length + 1 = l₁.length + 2 by omega]

/-- Three elements, of which the last is the least. -/
theorem isSorted_verdict_three :
    let file := [1, 2, 0].flatMap int64.encode
    ∃ l₁ x y l₂, elements file = l₁ ++ x :: y :: l₂ ∧ (l₁ ++ [x]).Pairwise (· ≤ ·) ∧ y < x ∧
      isSorted (fun _ => some file) [[], []] = notSortedOutput (l₁.length + 2) := by
  intro file
  have helements : elements file = [1, 2, 0] := by decide +kernel
  have hfile : (fun _ => some file : Files) [] = some file := rfl
  rcases isSorted_verdict (fun _ => some file) hfile [] with
    ⟨hnil, -⟩ | ⟨-, hsorted, -⟩ | h
  · rw [helements] at hnil
    exact absurd hnil (by decide)
  · rw [helements] at hsorted
    exact absurd hsorted (by decide)
  · exact h

/-! ### What one leaves to the other -/

/-- What is mapped is what the elements are. -/
theorem slice_mapped (file : List UInt8) :
    slice (mapped file) 0 (numElements file) = elements file := by
  rw [slice, List.Ico.zero_bot]
  rfl

/-- **What is in the file** afterwards, if the elements are the same ones in another order. -/
theorem elements_written (h : (slice m 0 (numElements file)).Perm (elements file)) :
    elements (written file m) = slice m 0 (numElements file) ∧
      (written file m).length = file.length ∧
      (written file m).drop (numElements file * int64.size) =
        file.drop (numElements file * int64.size) := by
  have hlen : (slice m 0 (numElements file)).length = numElements file := by
    rw [length_slice, Nat.sub_zero]
  have hvalid : ∀ z ∈ slice m 0 (numElements file), int64.Valid z := fun z hz =>
    int64.valid_of_mem_records (h.subset hz)
  have hlength : (written file m).length = file.length := int64.length_store hlen.le
  refine ⟨?_, hlength, ?_⟩
  · have hcount : numElements (written file m) = numElements file := by
      rw [numElements, Layout.count, hlength]
      rfl
    have hread := int64.records_store hvalid
      (file.drop ((slice m 0 (numElements file)).length * int64.size))
    rw [hlen] at hread
    rw [elements, hcount, written, Layout.store, hlen, hread]
  · have hdrop := int64.drop_store (slice m 0 (numElements file)) file
    rwa [hlen] at hdrop

/-- **In a run in which no failure is overlooked**, the processes have what they are to have. -/
theorem good_of_run {b e threshold : ℕ} {O : Memory} {s : Tree × Memory} (hbe : b ≤ e)
    (hrun : Run (fun path c t => overlooks path c t = false) threshold b e (.start, O) s) :
    Placed b e s.1 ∧ Good O s.2 b e s.1 := by
  induction hrun with
  | refl => exact ⟨placed_start b e, good_start rfl⟩
  | tail _ hstep ih =>
    obtain ⟨path, c, hok, hact⟩ := hstep
    exact ⟨(placed_act hbe ih.1 hact).1, good_act hbe hok ih.1 ih.2 hact⟩

/-- **What `parsort` has sorted, `is_sorted` finds in order**: when nobody overlooks a failure and
the exit status is 0, the file has as many bytes as before, the elements are those it had, what
belongs to no element is as it was, and no other file has changed. -/
theorem parsort_isSorted {files files' : Files} {argv : List Str}
    (h : Parsort (fun path c t => overlooks path c t = false) files argv (.exited 0) files') :
    ∃ filename file file', argv[1]? = some filename ∧ files filename = some file ∧
      files' = update files filename (some file') ∧ file'.length = file.length ∧
      file'.drop (numElements file * int64.size) = file.drop (numElements file * int64.size) ∧
      (elements file').Perm (elements file) ∧ ∀ prog, isSorted files' [prog, filename] =
        if elements file = [] then emptyOutput else sortedOutput := by
  cases h with
  | @ended filename file threshold t m _ hprep hrun hstatus =>
    obtain ⟨prog, arg, rfl, -, hfile, -⟩ := prepare_eq_ok hprep
    obtain ⟨-, hsorted, hperm⟩ := (good_of_run (Nat.zero_le _) hrun).2.succeeded hstatus
    rw [slice_mapped] at hperm
    obtain ⟨helements, hlength, hdrop⟩ := elements_written hperm
    refine ⟨filename, file, written file m, rfl, hfile, rfl, hlength, hdrop, ?_, fun prog => ?_⟩
    · rwa [helements]
    · rw [isSorted_eq (update_self _ _ _), helements]
      cases hslice : slice m 0 (numElements file) with
      | nil =>
        rw [hslice] at hperm
        rw [if_pos hperm.nil_eq.symm, verdict]
      | cons z l =>
        rw [hslice] at hperm hsorted
        have hne : elements file ≠ [] := fun hnil => List.cons_ne_nil z l (hnil ▸ hperm).eq_nil
        rw [if_neg hne, verdict, firstDescent_of_isChain hsorted.isChain, Option.elim_none]

/-- Two elements and a byte more, sorted by two children. -/
theorem parsort_isSorted_two :
    let file := [2, 1].flatMap int64.encode ++ [255]
    let argv : List Str := [[], ['f'], ['1']]
    ∃ files', Parsort (fun path c t => overlooks path c t = false) (fun _ => some file) argv
        (.exited 0) files' ∧ isSorted files' [[], ['f']] = sortedOutput := by
  intro file argv
  let s := follow (fun path c t => overlooks path c t = false) (1 : UInt64).toNat 0
    (numElements file) (.start, mapped file) exchanged
  have hprep : prepare (fun _ => some file) argv = .ok (['f'], file, 1) := by decide +kernel
  have hrun : Run (fun path c t => overlooks path c t = false) (1 : UInt64).toNat 0
      (numElements file) (.start, mapped file) (s.1, s.2) := run_follow _ _ _ _ _ _
  have hstatus : s.1.status = some (.exited 0) := by decide +kernel
  have hend := Parsort.ended hprep hrun hstatus
  refine ⟨_, hend, ?_⟩
  obtain ⟨filename, file₀, file', hname, hfile, -, -, -, -, hout⟩ := parsort_isSorted hend
  obtain rfl : ['f'] = filename := Option.some.inj hname
  obtain rfl : file = file₀ := Option.some.inj hfile
  rw [hout [], if_neg (by decide +kernel)]

end ParSort

end Csf
