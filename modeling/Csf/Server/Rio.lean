import Csf.Lib.Descriptor
import Csf.Server.Reading

/-!
# Robust input and output

The functions of `csapp.c` that the server and the clients read and write with. A `read` delivers
what has arrived, which need not be a line, and may be interrupted; `rio_read` keeps what has been
read and not been asked for in a buffer (`Csf.Server.RioT`), and calls `read` again when it has
been interrupted. `rio_readlineb` takes one byte after the other from there.

All that a caller can see of this is the stream that is left, the buffer and what is still to
arrive (`Csf.Server.RioT.left`). A line that is read is the one at its beginning
(`Csf.Server.RioT.readlineb_eq`), in whatever pieces it arrives. `rio_writen` writes all it is
given, in whatever pieces it goes out, or a part of it if a `write` fails
(`Csf.Server.rioWriten_spec`).
-/

namespace Csf

namespace Server

open Interaction

/-! ### The buffer -/

/-- `RIO_BUFSIZE` -/
def rioBufsize : ℕ := 8192

/-- `rio_t`, without the descriptor. -/
structure RioT where
  /-- `rio_cnt`: the number of unread bytes in the buffer, or `-1`. -/
  rioCnt : ℤ
  /-- `rio_bufptr`: where the next unread byte is in the buffer. -/
  rioBufptr : ℕ
  /-- `rio_buf` -/
  rioBuf : Str
  /-- It is an array of this size, -/
  length_rioBuf : rioBuf.length = rioBufsize
  /-- and the unread bytes are in it. -/
  inside : rioBufptr + rioCnt.toNat ≤ rioBufsize

namespace RioT

/-- The bytes of the buffer that have not been read. -/
def unread (rp : RioT) : Str := (rp.rioBuf.drop rp.rioBufptr).take rp.rioCnt.toNat

/-- `rio_readinitb` -/
def readinitb (rp : RioT) : RioT where
  rioCnt := 0
  rioBufptr := 0
  rioBuf := rp.rioBuf
  length_rioBuf := rp.length_rioBuf
  inside := Nat.zero_le _

/-- `rio_cnt` is what a `read` has returned that has stored nothing. -/
def drained (rp : RioT) (cnt : ℤ) (h : cnt ≤ 0) : RioT where
  rioCnt := cnt
  rioBufptr := rp.rioBufptr
  rioBuf := rp.rioBuf
  length_rioBuf := rp.length_rioBuf
  inside := by
    have hinside := rp.inside
    omega

/-- A `read` has stored `chunk` at the beginning of the buffer. -/
def filled (rp : RioT) (chunk : Str) (h : chunk.length ≤ rioBufsize) : RioT where
  rioCnt := chunk.length
  rioBufptr := 0
  rioBuf := chunk ++ rp.rioBuf.drop chunk.length
  length_rioBuf := by
    have hlen := rp.length_rioBuf
    rw [List.length_append, List.length_drop]
    omega
  inside := by
    rw [Int.toNat_natCast]
    omega

/-- `cnt` more bytes have been read. -/
def advanced (rp : RioT) (cnt : ℕ) (h : cnt ≤ rp.rioCnt.toNat) : RioT where
  rioCnt := rp.rioCnt - cnt
  rioBufptr := rp.rioBufptr + cnt
  rioBuf := rp.rioBuf
  length_rioBuf := rp.length_rioBuf
  inside := by
    have hinside := rp.inside
    omega

/-! ### Reading -/

/-- How the loop of `rio_read` ends: with something in the buffer, or with a `return`. -/
inductive Refilled where
  | data
  | eof
  | error
  deriving DecidableEq

/-- The loop of `rio_read`: refill the buffer if it is empty. -/
def refill (rp : RioT) (fd : Source Char) : Refilled × RioT × Source Char :=
  if 0 < rp.rioCnt then (.data, rp, fd)
  else
    match h : fd.read rioBufsize with
    | (.error .interrupted, fd') => (rp.drained (-1) (by decide)).refill fd'
    | (.error .other, fd') => (.error, rp.drained (-1) (by decide), fd')
    | (.ok [], fd') => (.eof, rp.drained 0 (le_refl 0), fd')
    | (.ok (c :: chunk), fd') => (.data, rp.filled (c :: chunk) (Source.read_ok h).2.1, fd')
termination_by fd.events.length
decreasing_by exact (Source.read_error h).2.1

/-- `rio_read`, for a number of bytes that is an `int`: what has been copied, or nothing if it
returns `-1`. -/
def read (n : ℕ) (rp : RioT) (fd : Source Char) : Option Str × RioT × Source Char :=
  match rp.refill fd with
  | (.error, rp', fd') => (none, rp', fd')
  | (.eof, rp', fd') => (some [], rp', fd')
  | (.data, rp', fd') =>
      let cnt := min n rp'.rioCnt.toNat
      (some ((rp'.rioBuf.drop rp'.rioBufptr).take cnt), rp'.advanced cnt (Nat.min_le_right ..), fd')

/-- The loop of `rio_readlineb`, with the number of rounds it may still make. -/
def readlinebLoop : ℕ → RioT → Source Char → Option Str × RioT × Source Char
  | 0, rp, fd => (some [], rp, fd)
  | n + 1, rp, fd =>
      match rp.read 1 fd with
      | (none, rp', fd') => (none, rp', fd')
      | (some [], rp', fd') => (some [], rp', fd')
      | (some (c :: _), rp', fd') =>
          if c = '\n' then (some [c], rp', fd')
          else
            let r := readlinebLoop n rp' fd'
            (r.1.map (c :: ·), r.2)

/-- `rio_readlineb`, for a size that is an `int`: the bytes before the terminating NUL, of which
it returns the number, or nothing if it returns `-1`. -/
def readlineb (maxlen : ℕ) (rp : RioT) (fd : Source Char) : Option Str × RioT × Source Char :=
  readlinebLoop (maxlen - 1) rp fd

/-! ### What is left of the stream -/

/-- **The stream that is left**: what is in the buffer, and what is still to arrive. -/
def left (rp : RioT) (fd : Source Char) : Str := rp.unread ++ fd.pending

theorem unread_eq_nil {rp : RioT} (h : rp.rioCnt ≤ 0) : rp.unread = [] := by
  rw [unread, Int.toNat_of_nonpos h, List.take_zero]

@[simp] theorem unread_readinitb (rp : RioT) : rp.readinitb.unread = [] :=
  unread_eq_nil (le_refl 0)

/-- Where nothing is in the buffer, all is still to arrive. -/
theorem left_of_nonpos {rp : RioT} (h : rp.rioCnt ≤ 0) (fd : Source Char) :
    rp.left fd = fd.pending := by
  rw [left, unread_eq_nil h, List.nil_append]

@[simp] theorem left_drained (rp : RioT) (cnt : ℤ) (h : cnt ≤ 0) (fd : Source Char) :
    (rp.drained cnt h).left fd = fd.pending :=
  left_of_nonpos h fd

@[simp] theorem unread_filled (rp : RioT) (chunk : Str) (h : chunk.length ≤ rioBufsize) :
    (rp.filled chunk h).unread = chunk := by
  simp [unread, filled]

theorem length_unread (rp : RioT) : rp.unread.length = rp.rioCnt.toNat := by
  have hinside := rp.inside
  have hlen := rp.length_rioBuf
  rw [unread, List.length_take, List.length_drop]
  omega

theorem unread_advanced (rp : RioT) (cnt : ℕ) (h : cnt ≤ rp.rioCnt.toNat) :
    (rp.advanced cnt h).unread = rp.unread.drop cnt := by
  rw [unread, unread, List.drop_take, List.drop_drop]
  congr 1
  simp only [advanced]
  omega

variable {rp rp' : RioT} {fd fd' : Source Char}

/-- **The loop of `rio_read`** leaves the stream as it is. -/
theorem refill_spec {r : Refilled} (h : rp.refill fd = (r, rp', fd')) :
    rp'.left fd' = rp.left fd ∧ (r = .data → 0 < rp'.rioCnt) ∧
      (r = .eof → rp'.left fd' = []) ∧
      (NoneFails fd.events → r ≠ .error ∧ NoneFails fd'.events) := by
  fun_induction refill rp fd with
  | case1 rp fd hpos =>
    obtain ⟨rfl, hrest⟩ := Prod.mk.inj h
    obtain ⟨rfl, rfl⟩ := Prod.mk.inj hrest
    exact ⟨rfl, fun _ => hpos, by simp, fun hsound => ⟨by simp, hsound⟩⟩
  | case2 rp fd hpos fd₁ hread ih =>
    obtain ⟨hpending, -, hsound⟩ := Source.read_error hread
    obtain ⟨hleft, hdata, heof, hnone⟩ := ih h
    refine ⟨?_, hdata, heof, fun h => hnone (hsound h).2⟩
    rw [hleft, left_drained, left_of_nonpos (not_lt.mp hpos), hpending]
  | case3 rp fd hpos fd₁ hread =>
    obtain ⟨rfl, hrest⟩ := Prod.mk.inj h
    obtain ⟨rfl, rfl⟩ := Prod.mk.inj hrest
    obtain ⟨hpending, -, hsound⟩ := Source.read_error hread
    refine ⟨?_, by simp, by simp, fun h => ?_⟩
    · rw [left_drained, left_of_nonpos (not_lt.mp hpos), hpending]
    · exact absurd (hsound h).1 (by simp)
  | case4 rp fd hpos fd₁ hread =>
    obtain ⟨rfl, hrest⟩ := Prod.mk.inj h
    obtain ⟨rfl, rfl⟩ := Prod.mk.inj hrest
    obtain ⟨hpending, -, hnil, hsound⟩ := Source.read_ok hread
    have hempty : fd.pending = [] := hnil (by decide) rfl
    rw [List.nil_append] at hpending
    refine ⟨?_, by simp, fun _ => ?_, fun h => ⟨by simp, hsound h⟩⟩
    · rw [left_drained, left_of_nonpos (not_lt.mp hpos), hpending]
    · rw [left_drained, ← hpending, hempty]
  | case5 rp fd hpos c chunk fd₁ hread =>
    obtain ⟨rfl, hrest⟩ := Prod.mk.inj h
    obtain ⟨rfl, rfl⟩ := Prod.mk.inj hrest
    obtain ⟨hpending, -, -, hsound⟩ := Source.read_ok hread
    refine ⟨?_, fun _ => ?_, by simp, fun h => ⟨by simp, hsound h⟩⟩
    · rw [left, unread_filled, left_of_nonpos (not_lt.mp hpos), hpending]
    · exact Int.natCast_pos.mpr (Nat.succ_pos _)

/-- **One byte** is the next one of the stream, if there is one. -/
theorem read_one_spec {r : Option Str} (h : rp.read 1 fd = (r, rp', fd')) :
    (r = none → rp'.left fd' = rp.left fd ∧ ¬NoneFails fd.events) ∧
      (∀ s, r = some s → (s = [] ∧ rp.left fd = [] ∧ rp'.left fd' = [] ∨
        ∃ c, s = [c] ∧ rp.left fd = c :: rp'.left fd') ∧
        (NoneFails fd.events → NoneFails fd'.events)) := by
  rw [read] at h
  rcases hrefill : rp.refill fd with ⟨_ | _ | _, rp₁, fd₁⟩
  all_goals
    obtain ⟨hleft, hdata, heof, hsound⟩ := refill_spec hrefill
    rw [hrefill] at h
    obtain ⟨rfl, hrest⟩ := Prod.mk.inj h
    obtain ⟨rfl, rfl⟩ := Prod.mk.inj hrest
  · -- there is a byte in the buffer
    refine ⟨by simp, fun s hs => ⟨Or.inr ?_, fun h => (hsound h).2⟩⟩
    have hlen := length_unread rp₁
    have hpos := hdata rfl
    obtain ⟨c, rest, hunread⟩ : ∃ c rest, rp₁.unread = c :: rest :=
      List.exists_cons_of_length_pos (by omega)
    have hmin : min 1 rp₁.rioCnt.toNat = 1 := by omega
    refine ⟨c, ?_, ?_⟩
    · rw [← Option.some.inj hs, hmin]
      have htake : rp₁.unread.take 1 = (rp₁.rioBuf.drop rp₁.rioBufptr).take 1 := by
        rw [unread, List.take_take, hmin]
      rw [← htake, hunread]
      rfl
    · rw [← hleft, left, left, unread_advanced, hmin, hunread]
      rfl
  · refine ⟨by simp, fun s hs => ⟨Or.inl ⟨(Option.some.inj hs).symm, ?_, heof rfl⟩,
      fun h => (hsound h).2⟩⟩
    rw [← hleft, heof rfl]
  · exact ⟨fun _ => ⟨hleft, fun h => (hsound h).1 rfl⟩, by simp⟩

/-- **The loop of `rio_readlineb`** reads what is at the beginning of the stream. -/
theorem readlinebLoop_spec {n : ℕ} {r : Option Str} (h : readlinebLoop n rp fd = (r, rp', fd')) :
    (r = none → ¬NoneFails fd.events) ∧
      (∀ s, r = some s → readlineLoop n (rp.left fd) = (s, rp'.left fd') ∧
        (NoneFails fd.events → NoneFails fd'.events)) := by
  induction n generalizing rp rp' fd fd' r with
  | zero =>
    obtain ⟨rfl, hrest⟩ := Prod.mk.inj h
    obtain ⟨rfl, rfl⟩ := Prod.mk.inj hrest
    refine ⟨by simp, fun s hs => ⟨?_, id⟩⟩
    rw [← Option.some.inj hs, readlineLoop]
  | succ n ih =>
    rw [readlinebLoop] at h
    rcases hread : rp.read 1 fd with ⟨_ | s, rp₁, fd₁⟩
    all_goals
      obtain ⟨hnone, hsome⟩ := read_one_spec hread
      rw [hread] at h
    · obtain ⟨rfl, -⟩ := Prod.mk.inj h
      exact ⟨fun _ => (hnone rfl).2, by simp⟩
    obtain ⟨⟨rfl, hleft, hleft'⟩ | ⟨c, rfl, hleft⟩, hsound⟩ := hsome s rfl
    · obtain ⟨rfl, hrest⟩ := Prod.mk.inj h
      obtain ⟨rfl, rfl⟩ := Prod.mk.inj hrest
      refine ⟨by simp, fun s hs => ⟨?_, hsound⟩⟩
      rw [← Option.some.inj hs, hleft, hleft', readlineLoop]
    · simp only at h
      rw [hleft, readlineLoop]
      split at h
      · next hc =>
        obtain ⟨rfl, hrest⟩ := Prod.mk.inj h
        obtain ⟨rfl, rfl⟩ := Prod.mk.inj hrest
        refine ⟨by simp, fun s hs => ⟨?_, hsound⟩⟩
        rw [← Option.some.inj hs, if_pos hc]
      · next hc =>
        rcases hloop : readlinebLoop n rp₁ fd₁ with ⟨r₁, rp₂, fd₂⟩
        obtain ⟨hnone₁, hsome₁⟩ := ih hloop
        rw [hloop] at h
        obtain ⟨rfl, hrest⟩ := Prod.mk.inj h
        obtain ⟨rfl, rfl⟩ := Prod.mk.inj hrest
        refine ⟨fun h hs => hnone₁ (Option.map_eq_none_iff.mp h) (hsound hs), fun s hs => ?_⟩
        obtain ⟨s₁, rfl, rfl⟩ := Option.map_eq_some_iff.mp hs
        obtain ⟨hlines, hsound₁⟩ := hsome₁ s₁ rfl
        refine ⟨?_, fun h => hsound₁ (hsound h)⟩
        rw [if_neg hc, hlines]

/-- **A line is read from the stream**, in whatever pieces it arrives. -/
theorem readlineb_eq (rp : RioT) (maxlen : ℕ) (h : NoneFails fd.events) :
    ∃ s, (rp.readlineb maxlen fd).1 = some s ∧
      rioReadlineb maxlen (rp.left fd) =
        (s, (rp.readlineb maxlen fd).2.1.left (rp.readlineb maxlen fd).2.2) ∧
      NoneFails (rp.readlineb maxlen fd).2.2.events := by
  rcases hread : rp.readlineb maxlen fd with ⟨_ | s, rp', fd'⟩
  · exact absurd h ((readlinebLoop_spec hread).1 rfl)
  · obtain ⟨hline, hsound⟩ := (readlinebLoop_spec hread).2 s rfl
    exact ⟨s, rfl, hline, hsound h⟩

end RioT

/-! ### Writing -/

/-- `rio_writen`: whether it has written everything. A `write` of something does not return zero. -/
def rioWriten (bytes : Str) (fd : Sink Char) : Bool × Sink Char :=
  if _hne : bytes = [] then (true, fd)
  else
    match _h : fd.write bytes with
    | (.error .interrupted, fd') => rioWriten bytes fd'
    | (.error .other, fd') => (false, fd')
    | (.ok n, fd') => rioWriten (bytes.drop n) fd'
termination_by fd.events.length + bytes.length
decreasing_by
  · have hless := (Sink.write_error _h).2.1
    omega
  · obtain ⟨-, hle, hpos, hevents, -⟩ := Sink.write_ok _h
    have hpos := hpos _hne
    rw [List.length_drop]
    omega

/-- **`rio_writen`** writes all it is given, in whatever pieces, or a part of it if it fails. -/
theorem rioWriten_spec {bytes : Str} {fd fd' : Sink Char} {ok : Bool}
    (h : rioWriten bytes fd = (ok, fd')) :
    (ok = true → fd'.written = fd.written ++ bytes) ∧
      (ok = false → ∃ s, fd'.written = fd.written ++ s ∧ s <+: bytes ∧ s ≠ bytes) ∧
      (NoneFails fd.events → ok = true ∧ NoneFails fd'.events) := by
  fun_induction rioWriten bytes fd with
  | case1 fd =>
    obtain ⟨rfl, rfl⟩ := Prod.mk.inj h
    exact ⟨fun _ => (List.append_nil _).symm, by simp, fun h => ⟨rfl, h⟩⟩
  | case2 bytes fd hne fd₁ hwrite ih =>
    obtain ⟨hwritten, -, hsound⟩ := Sink.write_error hwrite
    obtain ⟨hok, hfail, hsound'⟩ := ih h
    rw [hwritten] at hok hfail
    exact ⟨hok, hfail, fun h => hsound' (hsound h).2⟩
  | case3 bytes fd hne fd₁ hwrite =>
    obtain ⟨rfl, rfl⟩ := Prod.mk.inj h
    obtain ⟨hwritten, -, hsound⟩ := Sink.write_error hwrite
    refine ⟨by simp, fun _ => ⟨[], ?_, List.nil_prefix, Ne.symm hne⟩, fun h => ?_⟩
    · rw [hwritten, List.append_nil]
    · exact absurd (hsound h).1 (by simp)
  | case4 bytes fd hne n fd₁ hwrite ih =>
    obtain ⟨hwritten, -, -, -, hsound⟩ := Sink.write_ok hwrite
    obtain ⟨hok, hfail, hsound'⟩ := ih h
    refine ⟨fun h => ?_, fun h => ?_, fun h => hsound' (hsound h)⟩
    · rw [hok h, hwritten, List.append_assoc, List.take_append_drop]
    · obtain ⟨s, hs, ⟨t, ht⟩, hshort⟩ := hfail h
      refine ⟨bytes.take n ++ s, ?_, ⟨t, ?_⟩, fun heq => hshort ?_⟩
      · rw [hs, hwritten, List.append_assoc]
      · rw [List.append_assoc, ht, List.take_append_drop]
      · exact List.append_cancel_left (heq.trans (List.take_append_drop n bytes).symm)

end Server

end Csf
