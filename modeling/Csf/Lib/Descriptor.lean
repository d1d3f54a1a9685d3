import Mathlib

/-!
# Descriptors

What a program can read from and write to through a descriptor, at the level of system calls. A
call moves some of what there is to move, and how much is not for the program to say: there is a
list of *events*, one for each call, that says what the call meets with
(`Interaction.Event`). It may also be interrupted or fail, and then nothing is moved. Once the
list has come to its end a call moves as much as it can.

A program that does not look at how much a single call has moved reads and writes streams: what
has been read comes before what is left (`Interaction.Source.read_ok`), and what is written comes
after what has been written (`Interaction.Sink.write_ok`).
-/

namespace Interaction

/-- What a call meets with. -/
inductive Event where
  /-- It moves at most `n + 1` bytes. -/
  | ready (n : ℕ)
  /-- It is interrupted. -/
  | interrupted
  /-- It fails. -/
  | failed
  deriving DecidableEq

/-- Why a call has moved nothing. -/
inductive Errno where
  | interrupted
  | other
  deriving DecidableEq

/-- No call fails. -/
def NoneFails (events : List Event) : Prop := .failed ∉ events

instance (events : List Event) : Decidable (NoneFails events) :=
  inferInstanceAs (Decidable (_ ∉ _))

theorem NoneFails.of_cons {event : Event} {events : List Event}
    (h : NoneFails (event :: events)) : NoneFails events :=
  fun hmem => h (List.mem_cons_of_mem _ hmem)

variable {α : Type}

/-! ### Reading -/

/-- **What can be read** from a descriptor. -/
structure Source (α : Type) where
  /-- All that is going to arrive. -/
  pending : List α
  /-- What the calls meet with. -/
  events : List Event

namespace Source

/-- The call `read`, for at most `n` bytes: what it has stored, which is nothing only at the end
of the stream. -/
def read (n : ℕ) (src : Source α) : Except Errno (List α) × Source α :=
  match src.events with
  | [] => (.ok (src.pending.take n), ⟨src.pending.drop n, []⟩)
  | .ready k :: events =>
      (.ok (src.pending.take (min n (k + 1))), ⟨src.pending.drop (min n (k + 1)), events⟩)
  | .interrupted :: events => (.error .interrupted, ⟨src.pending, events⟩)
  | .failed :: events => (.error .other, ⟨src.pending, events⟩)

variable {n : ℕ} {src src' : Source α} {chunk : List α}

/-- **What is read** is the beginning of what is there. -/
theorem read_ok (h : src.read n = (.ok chunk, src')) :
    src.pending = chunk ++ src'.pending ∧ chunk.length ≤ n ∧
      (0 < n → chunk = [] → src.pending = []) ∧ (NoneFails src.events → NoneFails src'.events) := by
  obtain ⟨pending, events⟩ := src
  rcases events with _ | ⟨_ | _ | _, events⟩
  · obtain ⟨hchunk, rfl⟩ := Prod.mk.inj h
    obtain rfl := Except.ok.inj hchunk
    refine ⟨(List.take_append_drop n pending).symm, List.length_take_le n pending,
      fun hn h => ?_, id⟩
    exact (List.take_eq_nil_iff.mp h).resolve_left (by omega)
  · obtain ⟨hchunk, rfl⟩ := Prod.mk.inj h
    obtain rfl := Except.ok.inj hchunk
    refine ⟨(List.take_append_drop _ pending).symm,
      (List.length_take_le _ pending).trans (Nat.min_le_left ..), fun hn h => ?_,
      NoneFails.of_cons⟩
    exact (List.take_eq_nil_iff.mp h).resolve_left (by omega)
  · exact absurd (congrArg Prod.fst h) (by simp [read])
  · exact absurd (congrArg Prod.fst h) (by simp [read])

/-- A call that moves nothing leaves all that is there, and one event less. -/
theorem read_error {e : Errno} (h : src.read n = (.error e, src')) :
    src'.pending = src.pending ∧ src'.events.length < src.events.length ∧
      (NoneFails src.events → e = .interrupted ∧ NoneFails src'.events) := by
  obtain ⟨pending, events⟩ := src
  rcases events with _ | ⟨_ | _ | _, events⟩
  · exact absurd (congrArg Prod.fst h) (by simp [read])
  · exact absurd (congrArg Prod.fst h) (by simp [read])
  · obtain ⟨he, rfl⟩ := Prod.mk.inj h
    obtain rfl := Except.error.inj he
    exact ⟨rfl, Nat.lt_succ_self _, fun h => ⟨rfl, h.of_cons⟩⟩
  · obtain ⟨-, rfl⟩ := Prod.mk.inj h
    exact ⟨rfl, Nat.lt_succ_self _, fun h => absurd List.mem_cons_self h⟩

end Source

/-! ### Writing -/

/-- **What has been written** to a descriptor. -/
structure Sink (α : Type) where
  /-- All that has been written. -/
  written : List α
  /-- What the calls meet with. -/
  events : List Event

namespace Sink

/-- The call `write`: how many of the bytes have been written. -/
def write (bytes : List α) (dst : Sink α) : Except Errno ℕ × Sink α :=
  match dst.events with
  | [] => (.ok bytes.length, ⟨dst.written ++ bytes, []⟩)
  | .ready k :: events =>
      let n := min bytes.length (k + 1)
      (.ok n, ⟨dst.written ++ bytes.take n, events⟩)
  | .interrupted :: events => (.error .interrupted, ⟨dst.written, events⟩)
  | .failed :: events => (.error .other, ⟨dst.written, events⟩)

variable {bytes : List α} {dst dst' : Sink α} {k : ℕ}

/-- **What is written** is the beginning of what was to be written, and not nothing. -/
theorem write_ok (h : dst.write bytes = (.ok k, dst')) :
    dst'.written = dst.written ++ bytes.take k ∧ k ≤ bytes.length ∧ (bytes ≠ [] → 0 < k) ∧
      dst'.events.length ≤ dst.events.length ∧ (NoneFails dst.events → NoneFails dst'.events) := by
  obtain ⟨written, events⟩ := dst
  rcases events with _ | ⟨_ | _ | _, events⟩
  · obtain ⟨hk, rfl⟩ := Prod.mk.inj h
    obtain rfl := Except.ok.inj hk
    exact ⟨by rw [List.take_length], Nat.le_refl _, List.length_pos_iff.mpr, Nat.le_refl _, id⟩
  · obtain ⟨hk, rfl⟩ := Prod.mk.inj h
    obtain rfl := Except.ok.inj hk
    refine ⟨rfl, Nat.min_le_left .., fun hne => ?_, Nat.le_succ _,
      NoneFails.of_cons⟩
    have hpos := List.length_pos_iff.mpr hne
    omega
  · exact absurd (congrArg Prod.fst h) (by simp [write])
  · exact absurd (congrArg Prod.fst h) (by simp [write])

/-- A call that moves nothing has written nothing, and leaves one event less. -/
theorem write_error {e : Errno} (h : dst.write bytes = (.error e, dst')) :
    dst'.written = dst.written ∧ dst'.events.length < dst.events.length ∧
      (NoneFails dst.events → e = .interrupted ∧ NoneFails dst'.events) := by
  obtain ⟨written, events⟩ := dst
  rcases events with _ | ⟨_ | _ | _, events⟩
  · exact absurd (congrArg Prod.fst h) (by simp [write])
  · exact absurd (congrArg Prod.fst h) (by simp [write])
  · obtain ⟨he, rfl⟩ := Prod.mk.inj h
    obtain rfl := Except.error.inj he
    exact ⟨rfl, Nat.lt_succ_self _, fun h => ⟨rfl, h.of_cons⟩⟩
  · obtain ⟨-, rfl⟩ := Prod.mk.inj h
    exact ⟨rfl, Nat.lt_succ_self _, fun h => absurd List.mem_cons_self h⟩

end Sink

end Interaction
