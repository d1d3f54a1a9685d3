import Csf.Drawing.Asm.Pixel
import Csf.Drawing.Rect
import Csf.Lib.Lockstep

/-!
# Rectangles, in assembly

`draw_rect` goes through the rows of the rectangle and through the columns of each row, and
leaves it to `draw_pixel` to find out which of the points are in the image. So it needs no
sides within the image, and has nothing to get wrong about them: where no side overflows it
paints the points of the rectangle and no other ones (`Csf.Drawing.Asm.drawRect_paints`), which
the version in C does not.
-/

namespace Csf

namespace Drawing

namespace Asm

open X86 X86.Operand X86.Reg
open Ints Canvas Drawing.Image

/-! ### The function -/

/-- `.Lrect_col_loop` -/
def lRectColLoop (n : ℕ) : Code Unit := loop n do
  cmpl r14 rsi
  if ← jge then pure false else
  movl r13 rcx
  pushq rsi
  pushq rdx
  subqRsp 32
  call drawPixel
  addqRsp 32
  popq rdx
  popq rsi
  incl rsi
  pure true

/-- `.Lrect_row_loop` -/
def lRectRowLoop (n : ℕ) : Code Unit := loop n do
  cmpl r15 rdx
  if ← jge then pure false else
  movl (mem 0 r12) rsi
  lRectColLoop n
  incl rdx
  pure true

/-- `draw_rect`, its loops limited to `n` rounds. -/
def drawRect (n : ℕ) : Code Unit := do
  pushq r12
  pushq r13
  pushq r14
  pushq r15
  subqRsp 48
  movq rsi r12
  movl rdx r13
  movl (mem 0 r12) rsi
  movl (mem 4 r12) rdx
  movl (mem 8 r12) r14
  movl (mem 12 r12) r15
  addl rsi r14
  addl rdx r15
  lRectRowLoop n
  addqRsp 48
  popq r15
  popq r14
  popq r13
  popq r12
  ret

/-! ### The loops -/

/-- What the loops change. -/
abbrev rectRegs : List Reg := [rax, rcx, rdx, rsi, r8, r9, r10, r11]

section Loops

variable {s : State} {i j xMax yMax : Int32} {color : UInt32}

/-- **The loop over the columns** goes as one in C. -/
theorem matches_lRectColLoop {n : ℕ} (hn : (xMax.toInt - j.toInt).toNat < n)
    (himg : s.reg rdi = .ptr (.image .img) 0) (hcolor : s.reg r13 = .word color)
    (hxMax : s.reg r14 = .word xMax.toUInt32) (hcol : s.reg rsi = .word j.toUInt32)
    (hrow : s.reg rdx = .word i.toUInt32) :
    Matches (lRectColLoop n s)
      (forLt j xMax (fun col img => Drawing.drawPixel img col i color) s.heap.img)
      fun img _ s' => Kept rectRegs s s' ∧ s'.reg rdx = .word i.toUInt32 ∧
        s'.heap = s.heap.setImage img .img := by
  refine matches_forLt (I := fun j img t => Kept rectRegs s t ∧ t.reg rsi = .word j.toUInt32 ∧
    t.reg rdx = .word i.toUInt32 ∧ t.heap = s.heap.setImage img .img) hn ?_ ?_
    ⟨Kept.refl _ _, hcol, hrow, rfl⟩
  · rintro j img t hlt ⟨hkept, hcol, hrow, hheap⟩
    have hneg : ¬xMax ≤ j := Int32.not_le.mpr hlt
    simp [↓run_bind, hkept.reg, hxMax, hcol, hrow, hcolor, subFlags, hlt, add_assoc]
    refine Runs.matches (call_drawPixel (k := .img) (x := j.toUInt32) (y := i.toUInt32)
      (by simp [hkept.reg, himg]) (by simp [hcol]) (by simp [hrow])
      (show _ = some color by simp)) ?_
    rintro - t' ⟨⟨hrsp, hreg, hstack⟩, ⟨img', hdraw, hheap'⟩, -⟩
    simp [hheap] at hrsp hreg hstack hdraw hheap'
    rw [hdraw]
    simp [↓run_bind, hrsp, hstack, hheap', add_assoc]
    refine ⟨⟨by simp [hkept.rsp], fun r hr => ?_, fun a ha => ?_⟩, rfl⟩
    · have hkeep := hkept.reg r hr
      simp at hr
      simp [hr, hreg, hkeep]
    · have hkeep := hkept.stack a ha
      rw [← hkept.rsp] at ha
      simp (disch := omega) [hstack, Function.update_of_ne, hkeep]
  · rintro j img t hlt ⟨hkept, hcol, hrow, hheap⟩
    simp [↓run_bind, hkept.reg, hxMax, hcol, hrow, subFlags, hlt]
    exact ⟨hkept.setFlags _, hheap⟩

/-- **The loop over the rows** goes as one in C. -/
theorem matches_lRectRowLoop {n : ℕ} (hcols : (xMax.toInt - s.heap.rect.x.toInt).toNat < n)
    (hrows : (yMax.toInt - i.toInt).toNat < n)
    (himg : s.reg rdi = .ptr (.image .img) 0) (hrect : s.reg r12 = .ptr .rect 0)
    (hcolor : s.reg r13 = .word color) (hxMax : s.reg r14 = .word xMax.toUInt32)
    (hyMax : s.reg r15 = .word yMax.toUInt32) (hrow : s.reg rdx = .word i.toUInt32) :
    Matches (lRectRowLoop n s)
      (forLt i yMax (fun row => forLt s.heap.rect.x xMax fun col img =>
        Drawing.drawPixel img col row color) s.heap.img)
      fun img _ s' => Kept rectRegs s s' ∧ s'.heap = s.heap.setImage img .img := by
  refine matches_forLt (I := fun i img t => Kept rectRegs s t ∧ t.reg rdx = .word i.toUInt32 ∧
    t.heap = s.heap.setImage img .img) hrows ?_ ?_ ⟨Kept.refl _ _, hrow, rfl⟩
  · rintro i img t hlt ⟨hkept, hrow, hheap⟩
    simp [↓run_bind, hkept.reg, hyMax, hrect, hrow, hheap, subFlags, hlt]
    have hloop := matches_lRectColLoop (s := (t.setFlags
      (some ⟨i.toUInt32 == yMax.toUInt32, i - yMax < 0, true⟩)).set32 rsi
        s.heap.rect.x.toUInt32) (i := i) hcols (by simp [hkept.reg, himg])
      (show _ = Val.word color by simp [hkept.reg, hcolor]) (by simp [hkept.reg, hxMax]) (by simp)
      (by simp [hrow])
    simp [hheap] at hloop
    refine hloop.runs ?_
    rintro img' - t' ⟨hkept', hrow', hheap'⟩
    simp [hrow', hheap']
    refine ⟨?_, rfl⟩
    exact ((((hkept.setFlags _).set (by simp) _).again hkept').set (by simp) _).setFlags _
  · rintro i img t hlt ⟨hkept, hrow, hheap⟩
    simp [↓run_bind, hkept.reg, hyMax, hrow, subFlags, hlt]
    exact ⟨hkept.setFlags _, hheap⟩

end Loops

/-! ### The whole function -/

/-- The rectangle, row after row, with the sides where the sums of C are. -/
def sweepRect (img : Image) (rect : Rect) (color : UInt32) : Option Image :=
  forLt rect.y (rect.y + rect.height) (fun row => forLt rect.x (rect.x + rect.width) fun col img =>
    Drawing.drawPixel img col row color) img

section Specs

variable {s : State} {color : UInt32}

/-- **`draw_rect`** leaves the image that the loops leave. -/
theorem matches_drawRect {n : ℕ} (hn : 2 ^ 32 ≤ n) (himg : s.reg rdi = .ptr (.image .img) 0)
    (hrect : s.reg rsi = .ptr .rect 0) (hcolor : (s.reg rdx).word? = some color) :
    Matches (call (drawRect n) s) (sweepRect s.heap.img s.heap.rect color) fun img _ s' =>
      Kept [rax, rcx, rdx, rsi, r8, r9, r10, r11] s s' ∧ s'.heap = s.heap.setImage img .img := by
  rw [run_call, drawRect, sweepRect]
  have hx := toInt_bounds s.heap.rect.x
  have hy := toInt_bounds s.heap.rect.y
  have hxMax := toInt_bounds (s.heap.rect.x + s.heap.rect.width)
  have hyMax := toInt_bounds (s.heap.rect.y + s.heap.rect.height)
  have hadd : ∀ a b : Int32, b.toUInt32 + a.toUInt32 = (a + b).toUInt32 := fun a b => by
    rw [Int32.toUInt32_add, UInt32.add_comm]
  simp [↓run_bind, hrect, hcolor, hadd s.heap.rect.x, hadd s.heap.rect.y, add_assoc]
  refine Matches.runs (matches_lRectRowLoop (i := s.heap.rect.y)
    (show ((s.heap.rect.x + s.heap.rect.width).toInt - s.heap.rect.x.toInt).toNat < n by omega)
    (show ((s.heap.rect.y + s.heap.rect.height).toInt - s.heap.rect.y.toInt).toNat < n by omega)
    (by simp [himg]) (by simp) (show _ = Val.word color by simp) (by simp) (by simp)
    (by simp)) ?_
  rintro img - s' ⟨⟨hrsp, hreg, hstack⟩, hheap⟩
  simp at hrsp hreg hstack hheap
  simp [hrsp, hstack, hheap, add_assoc]
  refine ⟨by simp, fun r hr => ?_, fun a ha => ?_⟩
  · simp at hr
    cases r <;> simp at hr <;> simp [hreg]
  · simp (disch := omega) [hstack, Function.update_of_ne]

end Specs

/-! ### Both versions -/

section Agreement

variable {s : State} {color : UInt32}

/-- **What the loops paint**: the points of the rectangle, if no side overflows. -/
theorem exists_sweepRect (img : Image) (rect : Rect) (color : UInt32)
    (hright : IsInt32 (rect.x.toInt + rect.width.toInt))
    (hbottom : IsInt32 (rect.y.toInt + rect.height.toInt)) :
    ∃ img', sweepRect img rect color = some img' ∧ SameShape img img' ∧ img'.pixel =
      touch (fun p v => if rect.Covers p then Drawing.blendColors color v else v) img.pixel := by
  obtain ⟨img', hrun, hshape, hpixel⟩ : ∃ img', sweepRect img rect color = some img' ∧
      SameShape img img' ∧ img'.pixel = touch (fun p v =>
        if (rect.y.toInt ≤ p.2 ∧ p.2 < (rect.y + rect.height).toInt) ∧
          rect.x.toInt ≤ p.1 ∧ p.1 < (rect.x + rect.width).toInt then
            Drawing.blendColors color v else v) img.pixel := by
    refine forLt_forLt_touch (fun row col t _ _ (ht : SameShape img t) => ?_) ⟨rfl, rfl⟩
    obtain ⟨t', hrun, hshape, hpixel⟩ := exists_drawPixel t col row color
    refine ⟨t', hrun, ht.trans hshape, ?_⟩
    simpa only [Prod.ext_iff, and_comm] using hpixel
  refine ⟨img', hrun, hshape, hpixel.trans (touch_congr fun p v _ => if_congr ?_ rfl rfl)⟩
  rw [hright.toInt_add, hbottom.toInt_add, Rect.Covers]
  tauto

/-- **`draw_rect` paints the rectangle** and nothing else, wherever it lies, if none of its
sides overflows: the points of the rectangle that are in the image, each of them once. -/
theorem drawRect_paints (himg : s.reg rdi = .ptr (.image .img) 0)
    (hrect : s.reg rsi = .ptr .rect 0) (hcolor : (s.reg rdx).word? = some color)
    (hright : IsInt32 (s.heap.rect.x.toInt + s.heap.rect.width.toInt))
    (hbottom : IsInt32 (s.heap.rect.y.toInt + s.heap.rect.height.toInt)) :
    ∃ img, SameShape s.heap.img img ∧
      img.pixel = touch (fun p v =>
        if s.heap.rect.Covers p then Drawing.blendColors color v else v) s.heap.img.pixel ∧
      ∀ n ≥ 2 ^ 32, Runs (call (drawRect n) s) fun _ s' =>
        Kept [rax, rcx, rdx, rsi, r8, r9, r10, r11] s s' ∧ s'.heap = s.heap.setImage img .img := by
  obtain ⟨img, hsweep, hshape, hpixel⟩ :=
    exists_sweepRect s.heap.img s.heap.rect color hright hbottom
  refine ⟨img, hshape, hpixel, fun n hn => ?_⟩
  have hrun := matches_drawRect hn himg hrect hcolor
  rwa [hsweep] at hrun

/-- A rectangle left of an image with one pixel, of which C paints that pixel. -/
theorem drawRect_paints_left :
    let img : Image := ⟨1, 1, [0x000000FF], rfl, by decide⟩
    let s := entry ⟨img, img, ⟨-2, 0, 1, 1⟩⟩ fun
      | rdi => .ptr (.image .img) 0
      | rsi => .ptr .rect 0
      | _ => .word 0xFF0000FF
    AgreesFrom drawRect s (fun _ => some img) := by
  intro img s
  obtain ⟨img', hshape, hpixel, hruns⟩ :=
    drawRect_paints (s := s) rfl rfl rfl (by decide) (by decide)
  have hsame : img' = img := by
    refine ext_pixel hshape (hpixel.trans (touch_eq_self fun p v hv => if_neg ?_))
    rintro ⟨-, hx, -⟩
    have hp := (contains_of_pixel hv).1
    exact absurd (hp.trans_lt hx) (by decide)
  refine ⟨2 ^ 32, fun n hn => (hruns n hn).mono ?_⟩
  rintro - s' ⟨-, hheap⟩
  rw [hheap, Heap.img_setImage, hsame]

/-- **Both versions of `draw_rect` leave the same image if and only if** the rectangle is
empty, or does not end left of the image or above it, or the color leaves alone what C paints
there. -/
theorem drawRect_agrees_iff (himg : s.reg rdi = .ptr (.image .img) 0)
    (hrect : s.reg rsi = .ptr .rect 0) (hcolor : (s.reg rdx).word? = some color)
    (hright : IsInt32 (s.heap.rect.x.toInt + s.heap.rect.width.toInt))
    (hbottom : IsInt32 (s.heap.rect.y.toInt + s.heap.rect.height.toInt)) :
    AgreesFrom drawRect s (fun _ => Drawing.drawRect s.heap.img s.heap.rect color) ↔
      s.heap.rect.width ≤ 0 ∨ s.heap.rect.height ≤ 0 ∨
      (0 ≤ s.heap.rect.x.toInt + s.heap.rect.width.toInt ∧
        0 ≤ s.heap.rect.y.toInt + s.heap.rect.height.toInt) ∨
      ∀ p v, s.heap.img.pixel p = some v → s.heap.rect.Reaches p →
        Drawing.blendColors color v = v := by
  obtain ⟨img, hsweep, hshape, hpixel⟩ :=
    exists_sweepRect s.heap.img s.heap.rect color hright hbottom
  have hruns : ∀ n ≥ 2 ^ 32, Runs (call (drawRect n) s) fun _ s' => s'.heap.img = img := by
    intro n hn
    have hrun := matches_drawRect hn himg hrect hcolor
    rw [hsweep] at hrun
    refine Runs.mono hrun ?_
    rintro - s' ⟨-, hheap⟩
    rw [hheap, Heap.img_setImage]
  generalize s.heap.rect = rect at *
  generalize s.heap.img = img₀ at *
  rw [Int32.le_iff_toInt_le, Int32.le_iff_toInt_le, Int32.toInt_zero, ← or_assoc]
  by_cases hempty : rect.width.toInt ≤ 0 ∨ rect.height.toInt ≤ 0
  · have hdraw : Drawing.drawRect img₀ rect color = some img₀ := by
      rw [Drawing.drawRect, if_pos]
      rwa [Int32.le_iff_toInt_le, Int32.le_iff_toInt_le]
    rw [hdraw, agreesFrom_iff hruns]
    refine iff_of_true ?_ (.inl hempty)
    refine (ext_pixel hshape (hpixel.trans (touch_eq_self fun p v _ => if_neg ?_))).symm
    rintro ⟨hx, hx', hy, hy'⟩
    omega
  obtain ⟨img', hdraw, hshape', hpixel'⟩ := exists_drawRect img₀ color
    (by omega : 0 < rect.width.toInt) (by omega : 0 < rect.height.toInt)
  rw [or_iff_right hempty, hdraw, agreesFrom_iff hruns,
    eq_iff_of_touch hshape' hshape hpixel' hpixel]
  by_cases hends : 0 ≤ rect.x.toInt + rect.width.toInt ∧ 0 ≤ rect.y.toInt + rect.height.toInt
  · refine iff_of_true (fun p v _ => if_congr ?_ rfl rfl) (.inl hends)
    rw [Rect.Reaches, Rect.Covers]
    omega
  · -- elsewhere no point of the rectangle is in the image
    rw [or_iff_right hends]
    refine forall₃_congr fun p v hv => ?_
    rw [if_neg (not_covers (contains_of_pixel hv) hends), ite_eq_right_iff]

/-- A rectangle with its upper left corner outside of an image with one pixel. -/
theorem drawRect_agrees_corner :
    let img : Image := ⟨1, 1, [0x000000FF], rfl, by decide⟩
    let s := entry ⟨img, img, ⟨-1, -1, 2, 2⟩⟩ fun
      | rdi => .ptr (.image .img) 0
      | rsi => .ptr .rect 0
      | _ => .word 0xFF0000FF
    AgreesFrom drawRect s (fun _ => Drawing.drawRect img ⟨-1, -1, 2, 2⟩ 0xFF0000FF) :=
  (drawRect_agrees_iff rfl rfl rfl (by decide) (by decide)).mpr (.inr (.inr (.inl (by decide))))

end Agreement

end Asm

end Drawing

end Csf
