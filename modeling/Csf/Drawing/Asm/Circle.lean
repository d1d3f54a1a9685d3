import Csf.Drawing.Asm.Pixel
import Csf.Drawing.Circle
import Csf.Lib.Lockstep

/-!
# Circles, in assembly
-/

namespace Csf

namespace Drawing

namespace Asm

open X86 X86.Operand X86.Reg
open Ints Canvas Drawing.Image

/-! ### The function -/

/-- `.Lx_min_not_zero` and `.Ly_min_not_zero`: a lower bound. -/
def lowerBound (center bound : Reg) : Code Unit := do
  movl center bound
  cmpl bound rcx
  if ← jle then subl rcx bound else movl (imm 0) bound

/-- `.Lset_x_max` and `.Lset_y_max`: an upper bound. -/
def upperBound (center bound : Reg) : Code Unit := do
  movl center bound
  addl rcx bound

/-- `.Lcheck_xmax` and `.Lcheck_ymax`: an upper bound brought within the image. -/
def checkBound (size : ℤ) (bound : Reg) : Code Unit := do
  movl (mem size rdi) r11
  cmpl r11 bound
  if ← jl then pure () else
  movl r11 bound
  subl (imm 1) bound

/-- The body of `.Lx_loop`, up to `.Lnext_x`. -/
def circlePixel : Code Unit := do
  subqRsp 16
  movl rsi (top 0)
  movl rdx (top 4)
  movl r10 rsi
  movl r11 rdx
  call inBounds
  movl (top 0) rsi
  movl (top 4) rdx
  addqRsp 16
  cmpl (imm 0) rax
  if ← je then pure () else
  movl rsi rbx
  subl r10 rbx
  imull rbx rbx
  movl rdx rbp
  subl r11 rbp
  imull rbp rbp
  addl rbp rbx
  movl rcx rbp
  imull rbp rbp
  cmpl rbp rbx
  if ← jg then pure () else
  subqRsp 32
  movl rsi (top 0)
  movl rdx (top 4)
  movl rcx (top 8)
  movl r11 (top 12)
  movl r10 (top 16)
  movl r10 rsi
  movl r11 rdx
  movl (top 32) rcx
  call drawPixel
  movl (top 0) rsi
  movl (top 4) rdx
  movl (top 8) rcx
  movl (top 12) r11
  movl (top 16) r10
  addqRsp 32

/-- `.Lx_loop` -/
def lXLoop (n : ℕ) : Code Unit := loop n do
  cmpl r13 r10
  if ← jg then pure false else
  circlePixel
  incl r10
  pure true

/-- `.Ly_loop` -/
def lYLoop (n : ℕ) : Code Unit := loop n do
  cmpl r15 r11
  if ← jg then pure false else
  movl r12 r10
  lXLoop n
  incl r11
  pure true

/-- `.Ldone_circle` -/
def lDoneCircle : Code Unit := do
  addqRsp 80
  popq rbp
  popq rbx
  popq r10
  popq r11
  popq r15
  popq r14
  popq r13
  popq r12
  ret

/-- `draw_circle`, its loops limited to `n` rounds. -/
def drawCircle (n : ℕ) : Code Unit := do
  pushq r12
  pushq r13
  pushq r14
  pushq r15
  pushq r11
  pushq r10
  pushq rbx
  pushq rbp
  subqRsp 80
  movl r8 (top 0)
  cmpl (imm 0) rcx
  if ← jl then lDoneCircle else
  lowerBound rsi r12
  upperBound rsi r13
  lowerBound rdx r14
  upperBound rdx r15
  checkBound 4 r15
  checkBound 0 r13
  movl r14 r11
  lYLoop n
  lDoneCircle

/-! ### One pixel -/

section Pixel

variable {s : State} {x y r i j : Int32} {color : UInt32}

/-- What the loops change. -/
abbrev loopRegs : List Reg := [rax, rbx, rcx, rdx, rbp, rsi, r8, r9, r10, r11]

/-- **The arguments and the row**, in their registers. -/
structure Holds (s : State) (x y r i : Int32) : Prop where
  x : (s.reg rsi).word? = some x.toUInt32
  y : (s.reg rdx).word? = some y.toUInt32
  r : (s.reg rcx).word? = some r.toUInt32
  row : s.reg r11 = .word i.toUInt32

/-- **One pixel of the box** is drawn as in C. -/
theorem run_circlePixel (himg : s.reg rdi = .ptr (.image .img) 0) (hs : Holds s x y r i)
    (hcol : s.reg r10 = .word j.toUInt32) (hcolor : s.stack s.rsp = .word color) :
    Runs (circlePixel s) fun _ s' => Kept loopRegs s s' ∧ Holds s' x y r i ∧
      s'.reg r10 = .word j.toUInt32 ∧
      ∃ img, Drawing.circlePixel x y r color i j s.heap.img = some img ∧
        s'.heap = s.heap.setImage img .img := by
  obtain ⟨hx, hy, hr, hrow⟩ := hs
  rw [circlePixel, Drawing.circlePixel]
  simp [↓run_bind, hx, hy, hrow, hcol, add_assoc]
  refine (call_inBounds (k := .img) (x := j.toUInt32) (y := i.toUInt32) (by simp [himg]) (by simp)
    (by simp)).andThen ?_
  rintro - s₂ ⟨⟨hrsp, hreg, hstack⟩, hheap, hrax, -⟩
  simp at hrsp hreg hstack hheap hrax
  cases hin : Drawing.inBounds s.heap.img j i
  · simp [↓run_bind, hstack, hrax, hrsp, hin, subFlags, add_assoc, hheap]
    refine ⟨⟨by simp, fun q hq => ?_, fun a ha => ?_⟩, ⟨?_, ?_, ?_, ?_⟩, ?_⟩
    · simp at hq
      simp [hq, hreg]
    · simp (disch := omega) [hstack, Function.update_of_ne]
    all_goals simp [hreg, hr, hrow, hcol]
  by_cases hdist : r * r < (x - j) * (x - j) + (y - i) * (y - i)
  · have hgt := Int32.not_le.mpr hdist
    simp [↓run_bind, hstack, hrax, hrsp, hin, subFlags, add_assoc, hheap, hr, hreg, hrow, hcol,
      hdist, hgt, ← Int32.toUInt32_add, ← Int32.toUInt32_sub, ← Int32.toUInt32_mul,
      Ints.toUInt32_inj, Ints.ne_and_le_iff]
    refine ⟨⟨by simp, fun q hq => ?_, fun a ha => ?_⟩, ⟨?_, ?_, ?_, ?_⟩⟩
    · simp at hq
      simp [hq, hreg]
    · simp (disch := omega) [hstack, Function.update_of_ne]
    all_goals simp [hreg, hr, hrow]
  · have hle := Int32.not_lt.mp hdist
    simp [↓run_bind, hstack, hrax, hrsp, hin, subFlags, add_assoc, hr, hreg, hrow, hcol, hdist, hle,
      ← Int32.toUInt32_add, ← Int32.toUInt32_sub, ← Int32.toUInt32_mul, Ints.toUInt32_inj,
      Ints.ne_and_le_iff, hcolor]
    refine (call_drawPixel (k := .img) (x := j.toUInt32) (y := i.toUInt32) (by simp [hreg, himg])
      (by simp) (by simp) (by simp; rfl)).andThen ?_
    rintro - s₃ ⟨⟨hrsp₃, hreg₃, hstack₃⟩, ⟨img, hdraw, hheap₃⟩, -⟩
    simp [hheap] at hrsp₃ hreg₃ hstack₃ hheap₃ hdraw
    simp [↓run_bind, hrsp₃, hstack₃, hdraw, hheap₃, add_assoc]
    refine ⟨⟨by simp, fun q hq => ?_, fun a ha => ?_⟩, ⟨?_, ?_, ?_, ?_⟩⟩
    · simp at hq
      simp [hq, hreg₃, hreg]
    · simp (disch := omega) [hstack₃, hstack, Function.update_of_ne]
    all_goals simp

end Pixel

/-! ### The loops -/

section Loops

variable {s : State} {x y r i : Int32}

/-- **The loop over the columns** goes as in C. -/
theorem matches_lXLoop (n : ℕ) (j xMax : Int32) (color : UInt32)
    (himg : s.reg rdi = .ptr (.image .img) 0)
    (hxMax : s.reg r13 = .word xMax.toUInt32) (hcolor : s.stack s.rsp = .word color)
    (hs : Holds s x y r i) (hcol : s.reg r10 = .word j.toUInt32) :
    Matches (lXLoop n s)
      (Ints.forLe n j xMax (fun j img => Drawing.circlePixel x y r color i j img) s.heap.img)
      fun img _ s' => Kept loopRegs s s' ∧ Holds s' x y r i ∧
        s'.heap = s.heap.setImage img .img := by
  refine matches_loop (I := fun a t => Kept loopRegs s t ∧ Holds t x y r i ∧
    t.reg r10 = .word a.1.toUInt32 ∧ t.heap = s.heap.setImage a.2 .img) ?_
    ⟨Kept.refl _ _, hs, hcol, rfl⟩
  rintro ⟨j, img⟩ t ⟨hkept, hholds, hcol, hheap⟩
  rw [Ints.leBody]
  by_cases hlt : xMax < j
  · have hgt := Int32.not_le.mpr hlt
    simp [↓run_bind, hkept.reg, hxMax, hcol, subFlags, Ints.toUInt32_inj, Ints.ne_and_le_iff,
      hlt, hgt]
    exact ⟨rfl, ⟨hkept.rsp, hkept.reg, hkept.stack⟩,
      ⟨hholds.x, hholds.y, hholds.r, hholds.row⟩, hheap⟩
  · have hle := Int32.not_lt.mp hlt
    simp [↓run_bind, hkept.reg, hxMax, hcol, subFlags, Ints.toUInt32_inj, Ints.ne_and_le_iff,
      hlt, hle]
    refine Runs.matches (run_circlePixel (by simp [hkept.reg, himg])
      ⟨hholds.x, hholds.y, hholds.r, hholds.row⟩ (show _ = Val.word j.toUInt32 by simp [hcol])
      (show _ = Cell.word color by simp [hkept.rsp, hkept.stack, hcolor])) ?_
    rintro - t' ⟨hkept', hholds', hcol', img', hdraw, hheap'⟩
    simp [hheap] at hdraw hheap'
    rw [hdraw]
    simp [hcol']
    refine ⟨rfl, ?_, ⟨?_, ?_, ?_, ?_⟩, rfl, hheap'⟩
    · exact (((hkept.setFlags _).again hkept').set (by simp) _).setFlags _
    all_goals simp [hholds'.x, hholds'.y, hholds'.r, hholds'.row]

/-- **The loop over the rows** goes as in C. -/
theorem matches_lYLoop (n : ℕ) {xMin xMax yMax : Int32} {color : UInt32}
    (himg : s.reg rdi = .ptr (.image .img) 0)
    (hxMin : s.reg r12 = .word xMin.toUInt32) (hxMax : s.reg r13 = .word xMax.toUInt32)
    (hyMax : s.reg r15 = .word yMax.toUInt32) (hcolor : s.stack s.rsp = .word color)
    (hs : Holds s x y r i) :
    Matches (lYLoop n s)
      (Drawing.circleLoops n x y r color xMin xMax i yMax s.heap.img)
      fun img _ s' => Kept loopRegs s s' ∧ s'.heap = s.heap.setImage img .img := by
  refine matches_loop (I := fun a t => Kept loopRegs s t ∧ Holds t x y r a.1 ∧
    t.heap = s.heap.setImage a.2 .img) ?_ ⟨Kept.refl _ _, hs, rfl⟩
  rintro ⟨i, img⟩ t ⟨hkept, hholds, hheap⟩
  rw [Ints.leBody]
  by_cases hlt : yMax < i
  · have hgt := Int32.not_le.mpr hlt
    simp [↓run_bind, hkept.reg, hyMax, hholds.row, subFlags, Ints.toUInt32_inj, Ints.ne_and_le_iff,
      hlt, hgt]
    exact ⟨rfl, ⟨hkept.rsp, hkept.reg, hkept.stack⟩, hheap⟩
  · have hle := Int32.not_lt.mp hlt
    simp [↓run_bind, hkept.reg, hyMax, hxMin, hholds.row, subFlags, Ints.toUInt32_inj,
      Ints.ne_and_le_iff, hlt, hle]
    have hcols := matches_lXLoop n xMin xMax color (s := (t.setFlags
      (some ⟨i.toUInt32 == yMax.toUInt32, i - yMax < 0, i < yMax⟩)).set32 r10 xMin.toUInt32)
      (by simp [hkept.reg, himg]) (by simp [hkept.reg, hxMax])
      (by simp [hkept.rsp, hkept.stack, hcolor])
      ⟨hholds.x, hholds.y, hholds.r, hholds.row⟩ (by simp)
    simp [hheap] at hcols
    rw [Option.map_eq_bind]
    refine hcols.andThen ?_
    rintro img' - t' ⟨hkept', hholds', hheap'⟩
    simp [hholds'.row]
    refine ⟨rfl, ?_, ⟨?_, ?_, ?_, rfl⟩, hheap'⟩
    · exact ((((hkept.setFlags _).set (by simp) _).again hkept').set (by simp) _).setFlags _
    all_goals simp [hholds'.x, hholds'.y, hholds'.r]

end Loops

/-! ### The bounds -/

section Bounds

variable {s : State} {center bound : Reg} {c r : Int32}

theorem run_lowerBound (hbound : bound ≠ rcx) (hc : (s.reg center).word? = some c.toUInt32)
    (hr : (s.reg rcx).word? = some r.toUInt32) :
    Runs (lowerBound center bound s) fun _ s' => Kept [bound] s s' ∧ s'.heap = s.heap ∧
      s'.reg bound = .word (if r ≤ c then c - r else 0 : Int32).toUInt32 := by
  rw [lowerBound]
  by_cases hle : r ≤ c
  · simp [↓run_bind, hc, hr, hbound.symm, subFlags, Ints.toUInt32_inj, Ints.eq_or_lt_iff, hle]
    exact ((((Kept.refl [bound] s).set (by simp) _).setFlags _).set (by simp) _).setFlags _
  · simp [↓run_bind, hc, hr, hbound.symm, subFlags, Ints.toUInt32_inj, Ints.eq_or_lt_iff, hle]
    exact ⟨(((Kept.refl [bound] s).set (by simp) _).setFlags _).set (by simp) _, rfl⟩

theorem run_upperBound (hbound : bound ≠ rcx) (hc : (s.reg center).word? = some c.toUInt32)
    (hr : (s.reg rcx).word? = some r.toUInt32) :
    Runs (upperBound center bound s) fun _ s' => Kept [bound] s s' ∧ s'.heap = s.heap ∧
      s'.reg bound = .word (c + r).toUInt32 := by
  rw [upperBound]
  simp [↓run_bind, hc, hr, hbound.symm]
  exact (((Kept.refl [bound] s).set (by simp) _).set (by simp) _).setFlags _

theorem run_checkBound {off : ℤ} (b : Int32) (size : UInt32) (hbound : bound ≠ r11)
    (himg : s.reg rdi = .ptr (.image .img) 0)
    (hsize : Memory.load32 s.heap (Block.image .img) off = some size)
    (hb : s.reg bound = .word b.toUInt32) :
    Runs (checkBound off bound s) fun _ s' => Kept [r11, bound] s s' ∧ s'.heap = s.heap ∧
      s'.reg bound =
        .word (if b < size.toInt32 then b else (size - 1).toInt32 : Int32).toUInt32 := by
  rw [checkBound]
  by_cases hlt : b < size.toInt32
  · simp [↓run_bind, himg, hsize, hb, hbound, subFlags, hlt]
    exact ((Kept.refl [r11, bound] s).set (by simp) _).setFlags _
  · simp [↓run_bind, himg, hsize, hb, hbound, subFlags, hlt]
    exact ⟨(((((Kept.refl [r11, bound] s).set (by simp) _).setFlags _).set (by simp) _).set
      (by simp) _).setFlags _, rfl⟩

end Bounds

/-! ### The whole function -/

/-- The circle with the bounds of the assembly, which compares signed numbers. -/
def signedCircle (n : ℕ) (img : Image) (x y r : Int32) (color : UInt32) : Option Image :=
  if r < 0 then some img
  else circleLoops n x y r color (if r ≤ x then x - r else 0)
    (if x + r < img.width.toInt32 then x + r else (img.width - 1).toInt32)
    (if r ≤ y then y - r else 0)
    (if y + r < img.height.toInt32 then y + r else (img.height - 1).toInt32) img

section Specs

variable {s : State} {x y r : Int32} {color : UInt32}

/-- **`draw_circle`** ends if and only if the loops with these bounds do, and leaves the same
image. -/
theorem matches_drawCircle (n : ℕ) (himg : s.reg rdi = .ptr (.image .img) 0)
    (hx : (s.reg rsi).word? = some x.toUInt32) (hy : (s.reg rdx).word? = some y.toUInt32)
    (hr : (s.reg rcx).word? = some r.toUInt32) (hcolor : (s.reg r8).word? = some color) :
    Matches (call (drawCircle n) s) (signedCircle n s.heap.img x y r color) fun img _ s' =>
      Kept [rax, rcx, rdx, rsi, r8, r9] s s' ∧ s'.heap = s.heap.setImage img .img := by
  rw [run_call, drawCircle, signedCircle]
  by_cases hneg : r < 0
  · simp [↓run_bind, hr, hcolor, hneg, subFlags, lDoneCircle, add_assoc]
    refine ⟨by simp, fun q hq => ?_, fun a ha => ?_⟩
    · simp [Function.update_apply] at hq ⊢
      grind
    · simp (disch := omega) [Function.update_of_ne]
  simp [↓run_bind, hr, hcolor, hneg, subFlags, add_assoc]
  refine Runs.matches (run_lowerBound (c := x) (r := r) (by simp) (by simp [hx]) (by simp [hr])) ?_
  rintro - s₂ ⟨hkept₂, hheap₂, hxMin⟩
  refine Runs.matches (run_upperBound (c := x) (r := r) (by simp) (by simp [hkept₂.reg, hx])
    (by simp [hkept₂.reg, hr])) ?_
  rintro - s₃ ⟨hkept₃, hheap₃, hxMax⟩
  have hkept := hkept₂.trans hkept₃
  refine Runs.matches (run_lowerBound (c := y) (r := r) (by simp) (by simp [hkept.reg, hy])
    (by simp [hkept.reg, hr])) ?_
  rintro - s₄ ⟨hkept₄, hheap₄, hyMin⟩
  replace hkept := hkept.trans hkept₄
  refine Runs.matches (run_upperBound (c := y) (r := r) (by simp) (by simp [hkept.reg, hy])
    (by simp [hkept.reg, hr])) ?_
  rintro - s₅ ⟨hkept₅, hheap₅, hyMax⟩
  replace hkept := hkept.trans hkept₅
  simp at hheap₂
  refine Runs.matches (run_checkBound (y + r) s.heap.img.height (by simp)
    (by simp [hkept.reg, himg]) (by simp [hheap₅, hheap₄, hheap₃, hheap₂]) hyMax) ?_
  rintro - s₆ ⟨hkept₆, hheap₆, hyMax'⟩
  replace hkept := hkept.trans hkept₆
  refine Runs.matches (run_checkBound (x + r) s.heap.img.width (by simp)
    (by simp [hkept.reg, himg]) (by simp [hheap₆, hheap₅, hheap₄, hheap₃, hheap₂])
    (by simp [hkept₆.reg, hkept₅.reg, hkept₄.reg, hxMax])) ?_
  rintro - s₇ ⟨hkept₇, hheap₇, hxMax'⟩
  replace hkept := hkept.trans hkept₇
  have hcolor' := hkept.stack (s.rsp + -152) (by simp)
  obtain ⟨hrsp, hreg, hstack⟩ := hkept
  simp at hcolor' hrsp hstack hreg
  simp [hkept₇.reg, hkept₆.reg, hkept₅.reg, hyMin]
  have hloops := matches_lYLoop n (s := s₇.set32 r11 (if r ≤ y then y - r else 0 : Int32).toUInt32)
    (x := x) (y := y) (r := r) (by simp [hreg, himg])
    (by simp [hkept₇.reg, hkept₆.reg, hkept₅.reg, hkept₄.reg, hkept₃.reg, hxMin]; rfl)
    (by simp [hxMax']; rfl) (by simp [hkept₇.reg, hyMax']; rfl) (by simp [hrsp, hcolor']; rfl)
    ⟨by simp [hreg, hx], by simp [hreg, hy], by simp [hreg, hr], rfl⟩
  simp [hheap₇, hheap₆, hheap₅, hheap₄, hheap₃, hheap₂] at hloops
  refine hloops.runs ?_
  rintro img - s₈ ⟨⟨hrsp₈, hreg₈, hstack₈⟩, hheap₈⟩
  simp [hrsp] at hrsp₈ hreg₈ hstack₈
  simp [lDoneCircle, ↓run_bind, hrsp₈, hstack₈, hstack, hheap₈, add_assoc]
  refine ⟨by simp, fun q hq => ?_, fun a ha => ?_⟩
  · simp at hq
    simp [Function.update_apply]
    grind
  · simp (disch := omega) [hstack₈, hstack, Function.update_of_ne]

end Specs

/-! ### Both versions -/

/-- **What does not overflow** when a circle is drawn. -/
structure CircleFits (img : Image) (x y r : Int32) : Prop where
  left : IsInt32 (x.toInt - r.toInt)
  right : IsInt32 (x.toInt + r.toInt)
  top : IsInt32 (y.toInt - r.toInt)
  bottom : IsInt32 (y.toInt + r.toInt)
  radius : IsInt32 (r.toInt ^ 2)
  dist : ∀ p, img.Contains p → IsInt32 ((x.toInt - p.1) ^ 2 + (y.toInt - p.2) ^ 2)

section Agreement

variable {img : Image} {x y r : Int32} {p : ℤ × ℤ}

/-- Where nothing overflows, the test of the distance is that of the disk. -/
theorem CircleFits.dist_iff (h : CircleFits img x y r) (hp : img.Contains p) (hr : 0 ≤ r.toInt) :
    ((x.toInt - p.1) ^ 2 + (y.toInt - p.2) ^ 2).bmod (2 ^ 32) ≤ (r.toInt ^ 2).bmod (2 ^ 32) ↔
      InDisk x y r p := by
  rw [(h.dist p hp).bmod_eq_self, h.radius.bmod_eq_self, InDisk, and_iff_right hr]

/-- So C paints the disk. -/
theorem CircleFits.circled_iff (h : CircleFits img x y r) (hp : img.Contains p)
    (hr : 0 ≤ r.toInt) : Circled x y r p ↔ InDisk x y r p := by
  rw [Circled, h.dist_iff hp hr, h.left.toInt_sub, h.right.toInt_add, h.top.toInt_sub,
    h.bottom.toInt_add]
  refine ⟨fun hc => hc.2.2, fun hd => ?_⟩
  have hbounds := inDisk_bounds hd
  tauto

theorem toInt_lower {c : Int32} (h : IsInt32 (c.toInt - r.toInt)) :
    (if r ≤ c then c - r else 0 : Int32).toInt = max 0 (c.toInt - r.toInt) := by
  rw [apply_ite Int32.toInt, h.toInt_sub, Int32.toInt_zero]
  simp only [Int32.le_iff_toInt_le]
  split <;> omega

/-- The upper bound of a loop, unless the size is the largest negative number. -/
theorem toInt_signedUpper {size : UInt32} (h : size.toNat ≠ 2 ^ 31) (a : Int32) :
    (if a < size.toInt32 then a else (size - 1).toInt32 : Int32).toInt =
      min a.toInt (size.toInt32.toInt - 1) := by
  have hlt : size.toNat < 2 ^ 32 := size.toNat_lt
  have hpred : (size - 1).toInt32.toInt = size.toInt32.toInt - 1 := by
    have hnat : (size - 1).toNat = (4294967296 - 1 + size.toNat) % 4294967296 :=
      UInt32.toNat_sub size 1
    rw [toInt_toInt32, toInt_toInt32, hnat]
    omega
  rw [apply_ite Int32.toInt, hpred]
  simp only [Int32.lt_iff_toInt_lt]
  split <;> omega

theorem signedUpper_lt {size : UInt32} (h : size.toNat ≠ 2 ^ 31) (a : Int32) :
    (if a < size.toInt32 then a else (size - 1).toInt32 : Int32).toInt < 2147483647 := by
  have hsize := toInt_bounds size.toInt32
  rw [toInt_signedUpper h]
  exact (min_le_right _ _).trans_lt (by omega)

/-- The assembly paints it as well, unless its loop over the rows does not end. -/
theorem exists_signedCircle (h : CircleFits img x y r) (hr : 0 ≤ r.toInt)
    (hheight : img.height.toNat ≠ 2 ^ 31) (color : UInt32) :
    ∃ img', (∀ n ≥ 2 ^ 33, signedCircle n img x y r color = some img') ∧ SameShape img img' ∧
      img'.pixel = touch (fun p v => if InDisk x y r p then Drawing.blendColors color v else v)
        img.pixel := by
  have hneg : ¬r < 0 := by
    rw [Int32.lt_iff_toInt_lt, Int32.toInt_zero]
    omega
  simp only [signedCircle, if_neg hneg]
  have hxMin := toInt_lower h.left
  have hyMin := toInt_lower h.top
  have hyMax := toInt_signedUpper hheight (y + r)
  have hyBound := signedUpper_lt hheight (y + r)
  rw [h.bottom.toInt_add] at hyMax
  generalize (if r ≤ x then x - r else 0 : Int32) = xMin at hxMin
  generalize (if r ≤ y then y - r else 0 : Int32) = yMin at hyMin
  generalize (if y + r < img.height.toInt32 then y + r else (img.height - 1).toInt32 : Int32) = yMax
    at hyMax hyBound
  have hsigned := toInt_toInt32 img.height
  by_cases hrows : img.height.toInt32.toInt ≤ 0
  · -- without rows there are no rounds
    have hnone : yMax.toInt < yMin.toInt := by omega
    refine ⟨img, fun n hn => circleLoops_eq_self hnone hn _ _ _ _ _, ⟨rfl, rfl⟩,
      (touch_eq_self fun p v hv => ?_).symm⟩
    obtain ⟨h0, h1, h2, h3⟩ := contains_of_pixel hv
    have hsmall := img.height_lt (by omega)
    omega
  · have hwidth := img.width_lt (by omega)
    have hxMax := toInt_signedUpper (Nat.ne_of_lt hwidth) (x + r)
    have hxBound := signedUpper_lt (Nat.ne_of_lt hwidth) (x + r)
    rw [h.right.toInt_add] at hxMax
    generalize (if x + r < img.width.toInt32 then x + r else (img.width - 1).toInt32 : Int32) = xMax
      at hxMax hxBound
    obtain ⟨img', hrun, hshape, hpixel⟩ := exists_circleLoops hxBound hyBound img x y r color
    refine ⟨img', hrun, hshape, hpixel.trans (touch_congr fun p v hv => ?_)⟩
    have hp := contains_of_pixel hv
    rw [← ite_and]
    refine if_congr ((and_congr_right fun _ => h.dist_iff hp hr).trans
      ⟨fun hbox => hbox.2, fun hd => ⟨?_, hd⟩⟩) rfl rfl
    have hbounds := inDisk_bounds hd
    obtain ⟨h0, h1, h2, h3⟩ := hp
    rw [toInt_succ hxBound, toInt_succ hyBound, hxMin, hyMin, hxMax, hyMax,
      toInt_toInt32_of_lt hwidth, toInt_toInt32_of_lt (img.height_lt (by omega)),
      Int.lt_add_one_iff, Int.lt_add_one_iff]
    exact ⟨⟨max_le h2 hbounds.2.1, le_min hbounds.2.2 (Int.le_sub_one_of_lt h3)⟩,
      max_le h0 hbounds.1.1, le_min hbounds.1.2 (Int.le_sub_one_of_lt h1)⟩

/-- If it does not end, then because the largest number is its bound. -/
theorem signedCircle_eq_none (hr : 0 ≤ r.toInt) (hheight : img.height.toNat = 2 ^ 31) (n : ℕ)
    (color : UInt32) : signedCircle n img x y r color = none := by
  have hneg : ¬r < 0 := by
    rw [Int32.lt_iff_toInt_lt, Int32.toInt_zero]
    omega
  have hge : ¬y + r < img.height.toInt32 := by
    have hbounds := toInt_bounds (y + r)
    rw [Int32.lt_iff_toInt_lt, toInt_toInt32, hheight]
    omega
  have hbound : (img.height - 1).toInt32.toInt = 2147483647 := by
    have hpred : (img.height - 1).toNat = (4294967296 - 1 + img.height.toNat) % 4294967296 :=
      UInt32.toNat_sub img.height 1
    rw [toInt_toInt32, hpred, hheight]
    rfl
  rw [signedCircle, if_neg hneg, circleLoops, if_neg hge]
  exact forLe_eq_none n hbound

variable {s : State} {color : UInt32}

/-- **Both versions of `draw_circle` leave the same image** if the radius is negative or both
loops over the rows end: in an image of `2 ^ 31` rows that of the assembly does not, and in one
of more rows that of C does not if its bound is the largest `int32_t`. -/
theorem drawCircle_agrees_iff (himg : s.reg rdi = .ptr (.image .img) 0)
    (hx : (s.reg rsi).word? = some x.toUInt32) (hy : (s.reg rdx).word? = some y.toUInt32)
    (hr : (s.reg rcx).word? = some r.toUInt32) (hcolor : (s.reg r8).word? = some color)
    (hfits : CircleFits s.heap.img x y r) :
    AgreesFrom drawCircle s (fun n => Drawing.drawCircle n s.heap.img x y r color) ↔
      r < 0 ∨ s.heap.img.height.toNat < 2 ^ 31 ∨
        s.heap.img.height.toNat ≠ 2 ^ 31 ∧ y.toInt + r.toInt ≠ 2147483647 := by
  have hmatch := fun n => matches_drawCircle n himg hx hy hr hcolor
  by_cases hneg : r < 0
  · refine iff_of_true ⟨0, fun n _ => ?_⟩ (.inl hneg)
    have hrun := hmatch n
    rw [signedCircle, if_pos hneg] at hrun
    refine Runs.mono hrun ?_
    rintro - s' ⟨-, hheap⟩
    rw [hheap]
    exact if_pos hneg
  rw [or_iff_right hneg]
  have hpos : 0 ≤ r.toInt := by
    rw [Int32.lt_iff_toInt_lt, Int32.toInt_zero] at hneg
    omega
  by_cases hheight : s.heap.img.height.toNat = 2 ^ 31
  · refine iff_of_false ?_ (by omega)
    rintro ⟨limit, h⟩
    have hrun := hmatch limit
    rw [signedCircle_eq_none hpos hheight] at hrun
    obtain ⟨a, s', hs', -⟩ := h limit (le_refl _)
    exact absurd (hrun.symm.trans hs') (by simp)
  · obtain ⟨img, hrun, hshape, hpixel⟩ := exists_signedCircle hfits hpos hheight color
    have hends : RowsEnd s.heap.img y r ↔ s.heap.img.height.toNat < 2 ^ 31 ∨
        s.heap.img.height.toNat ≠ 2 ^ 31 ∧ y.toInt + r.toInt ≠ 2147483647 := by
      rw [RowsEnd, hfits.bottom.toInt_add]
      tauto
    rw [← hends]
    constructor
    · rintro ⟨limit, h⟩
      by_contra hnot
      obtain ⟨a, s', -, hs'⟩ := h limit (le_refl _)
      exact absurd ((drawCircle_eq_none hneg hnot limit color).symm.trans hs') (by simp)
    · intro hrows
      obtain ⟨img', ⟨limit, hrun'⟩, hshape', hpixel'⟩ :=
        exists_drawCircle (x := x) color hpos hrows
      have himg' : img' = img := by
        refine ext_pixel ⟨hshape'.1.trans hshape.1.symm, hshape'.2.trans hshape.2.symm⟩ ?_
        rw [hpixel, hpixel']
        refine touch_congr fun p v hv => ?_
        exact if_congr (hfits.circled_iff (contains_of_pixel hv) hpos) rfl rfl
      refine ⟨max limit (2 ^ 33), fun n hn => ?_⟩
      have hrun'' := hmatch n
      rw [hrun n (le_of_max_le_right hn)] at hrun''
      refine Runs.mono hrun'' ?_
      rintro - s' ⟨-, hheap⟩
      rw [hheap, Heap.img_setImage, ← himg']
      exact hrun' n (le_of_max_le_left hn)

/-- A circle around the only pixel of an image. -/
theorem drawCircle_agrees_pixel :
    let img : Image := ⟨1, 1, [0x000000FF], rfl, by decide⟩
    let s := entry ⟨img, img, ⟨0, 0, 0, 0⟩⟩ fun
      | rdi => .ptr (.image .img) 0
      | rcx => .word 1
      | r8 => .word 0xFF0000FF
      | _ => .word 0
    AgreesFrom drawCircle s (fun n => Drawing.drawCircle n img 0 0 1 0xFF0000FF) := by
  refine (drawCircle_agrees_iff rfl rfl rfl rfl rfl
    ⟨by decide, by decide, by decide, by decide, by decide, ?_⟩).mpr (.inr (.inl (by decide)))
  rintro ⟨p, q⟩ ⟨h0, h1, h2, h3⟩
  obtain rfl : p = 0 := Int.le_antisymm (Int.lt_add_one_iff.mp h1) h0
  obtain rfl : q = 0 := Int.le_antisymm (Int.lt_add_one_iff.mp h3) h2
  decide

/-- **In an image of `2 ^ 31` rows without columns** the assembly does not end and C does. -/
theorem not_always_drawCircle_agrees : ¬∀ (s : State) (x y r : Int32) (color : UInt32),
    s.reg rdi = .ptr (.image .img) 0 → (s.reg rsi).word? = some x.toUInt32 →
    (s.reg rdx).word? = some y.toUInt32 → (s.reg rcx).word? = some r.toUInt32 →
    (s.reg r8).word? = some color → CircleFits s.heap.img x y r →
    AgreesFrom drawCircle s fun n => Drawing.drawCircle n s.heap.img x y r color := by
  intro h
  let img : Image := ⟨0, 2147483648, [], rfl, by decide⟩
  let s := entry ⟨img, img, ⟨0, 0, 0, 0⟩⟩ fun
      | rdi => .ptr (.image .img) 0
      | _ => .word 0
  have hfits : CircleFits img 0 0 0 := ⟨by decide, by decide, by decide, by decide, by decide,
    fun p hp => absurd hp.2.1 (Int.not_lt.mpr hp.1)⟩
  obtain ⟨limit, hlimit⟩ := h s 0 0 0 0 rfl rfl rfl rfl rfl hfits
  have hrun := matches_drawCircle (s := s) (x := 0) (y := 0) (r := 0) limit rfl rfl rfl rfl
    (show (s.reg r8).word? = some 0 from rfl)
  rw [signedCircle_eq_none (by decide) (by decide)] at hrun
  obtain ⟨a, s', hs', -⟩ := hlimit limit (le_refl _)
  exact absurd (hrun.symm.trans hs') (by simp)

end Agreement

end Asm

end Drawing

end Csf
