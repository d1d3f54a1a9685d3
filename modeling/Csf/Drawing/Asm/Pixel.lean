import Csf.Drawing.Asm.Blend

/-!
# Pixels, in assembly

`draw_pixel` calls `compute_index` twice. After the first call it jumps on the sign flag, which
is what the last arithmetic instruction of `compute_index` has left there: it is never set, and
that a point is outside of the image is found out by the second call.
-/

namespace Csf

namespace Drawing

namespace Asm

open X86 X86.Operand X86.Reg

/-! ### The functions -/

/-- `.Lreturn_set_pixel` -/
def lReturnSetPixel : Code Unit := do
  addqRsp 16
  popq r10
  popq r11
  ret

/-- `set_pixel`, which restores `r10` and `r11` the wrong way around. -/
def setPixel : Code Unit := do
  pushq r10
  pushq r11
  subqRsp 16
  cmpl (imm 0) rsi
  if ← jl then lReturnSetPixel else
  movl (mem 0 rdi) r10
  movl (mem 4 rdi) r11
  imull r10 r11
  cmpl r11 rsi
  if ← jge then lReturnSetPixel else
  movq (mem 8 rdi) rcx
  movl rsi rax
  movslq rax rax
  movl rdx (scaled rcx rax)
  addqRsp 16
  popq r10
  popq r11
  ret

/-- `.Lreturn_empty` -/
def lReturnEmpty : Code Unit := do
  addqRsp 56
  popq rbp
  ret

/-- `draw_pixel` -/
def drawPixel : Code Unit := do
  pushq rbp
  movqRsp rbp
  subqRsp 56
  movq rdi (mem (-8) rbp)
  movl rsi (mem (-16) rbp)
  movl rdx (mem (-24) rbp)
  movl rcx (mem (-32) rbp)
  call computeIndex
  if ← js then lReturnEmpty else
  movq (mem (-8) rbp) rdi
  movl (mem (-16) rbp) rsi
  movl (mem (-24) rbp) rdx
  call computeIndex
  movl rax (mem (-40) rbp)
  movq (mem (-8) rbp) rdi
  clear r10
  movq (mem 8 rdi) r11
  movl (mem (-40) rbp) r10
  movslq r10 r10
  cmpq (-1) r10
  if ← je then lReturnEmpty else
  leaq (scaled r11 r10) r11
  movl (mem 0 r11) rsi
  movl rsi (mem (-48) rbp)
  movl (mem (-32) rbp) rdi
  movl (mem (-48) rbp) rsi
  call blendColors
  movq (mem (-8) rbp) rdi
  movl (mem (-40) rbp) rsi
  movl rax rdx
  call setPixel
  lReturnEmpty

/-! ### What they do -/

section Specs

variable {s : State} {k : Which} {x y index color : UInt32}

/-- The comparisons of signed numbers in `set_pixel` let through the indices of the pixels. -/
theorem signed_lt_iff (img : Image) (index : UInt32) : (¬index.toInt32 < 0 ∧
    index.toInt32 < img.height.toInt32 * img.width.toInt32) ↔ index.toNat < img.data.length := by
  have hsmall := img.small
  have hlt : index.toNat < 2 ^ 32 := index.toNat_lt
  have hsize : (img.height * img.width).toNat = img.width.toNat * img.height.toNat := by
    rw [UInt32.toNat_mul, Nat.mul_comm]
    omega
  rw [← UInt32.toInt32_mul, Int32.lt_iff_toInt_lt, Int32.lt_iff_toInt_lt, Ints.toInt_toInt32,
    Ints.toInt_toInt32, Int32.toInt_zero, hsize, img.length_data]
  omega

/-- What `set_pixel` does in C, where the numbers are unsigned. -/
theorem setPixel_eq (img : Image) (index color : UInt32) :
    Drawing.setPixel img index color =
      some (if index.toNat < img.data.length then img.set index.toNat color else img) := by
  have hsmall := img.small
  have hge : index ≥ img.width * img.height ↔ ¬index.toNat < img.data.length := by
    rw [ge_iff_le, UInt32.le_iff_toNat_le, UInt32.toNat_mul, img.length_data]
    omega
  rw [Drawing.setPixel, Image.store]
  by_cases hlt : index.toNat < img.data.length
  · rw [if_neg (mt hge.mp (not_not.mpr hlt)), if_pos hlt, if_pos hlt]
  · rw [if_pos (hge.mpr hlt), if_neg hlt]

/-- **`set_pixel`** does what the function of the same name in C does, for every index. -/
theorem call_setPixel (himg : s.reg rdi = .ptr (.image k) 0)
    (hindex : (s.reg rsi).word? = some index) (hcolor : (s.reg rdx).word? = some color) :
    Runs (call setPixel s) fun _ s' => Kept [rax, rcx, r10, r11] s s' ∧
      ∃ img, Drawing.setPixel (s.heap.image k) index color = some img ∧
        s'.heap = s.heap.setImage img k := by
  have hiff := signed_lt_iff (s.heap.image k) index
  rw [setPixel_eq]
  by_cases hin : index.toNat < (s.heap.image k).data.length
  · obtain ⟨hneg, hlt⟩ := hiff.mpr hin
    have hsmall : index.toNat < 2 ^ 31 := by
      rw [(s.heap.image k).length_data] at hin
      exact hin.trans (s.heap.image k).small
    simp [run_call, setPixel, ↓run_bind, himg, hindex, hcolor, hneg, hlt, subFlags, hin,
      Val.int_signExtend _ hsmall, store32_data _ _ _ _ hin, add_assoc]
    refine ⟨by simp, fun r hr => ?_, fun a ha => ?_⟩
    · simp [Function.update_apply] at hr ⊢
      simp [hr]
    · simp (disch := omega) [Function.update_of_ne]
  · have hcases : index.toInt32 < 0 ∨ ¬index.toInt32 < 0 ∧
        ¬index.toInt32 < (s.heap.image k).height.toInt32 * (s.heap.image k).width.toInt32 := by
      tauto
    rcases hcases with h | h
    all_goals
      simp [run_call, setPixel, ↓run_bind, himg, hindex, h, subFlags, hin, lReturnSetPixel,
        Heap.setImage_image, add_assoc]
      refine ⟨by simp, fun r hr => ?_, fun a ha => ?_⟩
      · simp [Function.update_apply] at hr ⊢
        simp [hr]
      · simp (disch := omega) [Function.update_of_ne]

/-- What `draw_pixel` does in C at a point of the image. -/
theorem drawPixel_of_inBounds {img : Image} {v : UInt32} (color : UInt32)
    (hin : Drawing.inBounds img x.toInt32 y.toInt32 = true)
    (hv : img.load (Drawing.computeIndex img x.toInt32 y.toInt32) = some v) :
    Drawing.drawPixel img x.toInt32 y.toInt32 color =
      Drawing.setPixel img (Drawing.computeIndex img x.toInt32 y.toInt32)
        (Drawing.blendColors color v) := by
  rw [Drawing.drawPixel, hin, Bool.not_true, if_neg Bool.false_ne_true]
  change (img.load _).bind _ = _
  rw [hv, Option.bind_some]

/-- What it does elsewhere. -/
theorem drawPixel_of_not_inBounds {img : Image} (color : UInt32)
    (hin : ¬Drawing.inBounds img x.toInt32 y.toInt32 = true) :
    Drawing.computeIndex img x.toInt32 y.toInt32 = 4294967295 ∧
      Drawing.drawPixel img x.toInt32 y.toInt32 color = some img := by
  rw [Drawing.computeIndex, Drawing.drawPixel, Bool.eq_false_iff.mpr hin]
  exact ⟨rfl, rfl⟩

/-- **`draw_pixel`** draws the image that the function of the same name in C draws. Below the
stack pointer it leaves the point, in the cells that it has kept it in. -/
theorem call_drawPixel (himg : s.reg rdi = .ptr (.image k) 0) (hx : (s.reg rsi).word? = some x)
    (hy : (s.reg rdx).word? = some y) (hcolor : (s.reg rcx).word? = some color) :
    Runs (call drawPixel s) fun _ s' =>
      Kept [rax, rcx, rdx, rsi, r8, r9, r10, r11] s s' ∧
        (∃ img, Drawing.drawPixel (s.heap.image k) x.toInt32 y.toInt32 color = some img ∧
          s'.heap = s.heap.setImage img k) ∧
        s'.stack (s.rsp + -32) = .word x ∧ s'.stack (s.rsp + -40) = .word y ∧
        s'.stack (s.rsp + -36) = s.stack (s.rsp + -36) := by
  rw [run_call, drawPixel]
  simp [↓run_bind, himg, hx, hy, hcolor, add_assoc]
  refine (call_computeIndex (k := k) (x := x) (y := y) (by simp [himg]) (by simp [hx])
    (by simp [hy])).andThen ?_
  rintro - s₂ ⟨⟨hrsp, hreg, hstack⟩, hheap, hrax, ⟨f, hflags, hsign⟩, -⟩
  simp at hrsp hreg hstack hheap hrax
  simp [↓run_bind, hflags, hsign, hreg, hstack, add_assoc]
  refine (call_computeIndex (k := k) (x := x) (y := y) (by simp) (by simp) (by simp)).andThen ?_
  rintro - s₃ ⟨⟨hrsp₃, hreg₃, hstack₃⟩, hheap₃, hrax₃, -, -⟩
  simp [hrsp] at hrsp₃ hreg₃ hstack₃ hheap₃ hrax₃
  rw [hheap] at hrax₃ hheap₃
  by_cases hin : Drawing.inBounds (s.heap.image k) x.toInt32 y.toInt32 = true
  · have hp := Image.inBounds_iff.mp hin
    obtain ⟨v, hv⟩ := Image.exists_pixel hp
    rw [← Image.load_computeIndex] at hv
    rw [drawPixel_of_inBounds color hin hv]
    rw [Image.load] at hv
    have hlt : (Drawing.computeIndex (s.heap.image k) x.toInt32 y.toInt32).toNat < 2 ^ 31 := by
      rw [Image.computeIndex_toNat hp]
      exact (Image.offset_lt hp).trans (s.heap.image k).small
    generalize Drawing.computeIndex (s.heap.image k) x.toInt32 y.toInt32 = index at *
    have hne : index.toUInt64.toInt64 ≠ -1 := by
      intro h
      have hint := congrArg Int64.toInt h
      rw [toInt_toUInt64, show (-1 : Int64).toInt = -1 from rfl] at hint
      omega
    simp [↓run_bind, hrax₃, hreg₃, hreg, hstack₃, hstack, hheap₃, Val.int_signExtend _ hlt, hne, hv,
      add_assoc]
    refine (call_blendColors color v (by simp) (by simp)).andThen ?_
    rintro - s₄ ⟨⟨hrsp₄, hreg₄, hstack₄⟩, hheap₄, hrax₄⟩
    simp [hrsp₃, hheap₃] at hrsp₄ hreg₄ hstack₄ hheap₄ hrax₄
    simp [hrax₄, hreg₄, hreg₃, hreg, hstack₄, hstack₃, hstack, add_assoc]
    refine (call_setPixel (k := k) (by simp) (by simp; rfl) (by simp; rfl)).andThen ?_
    rintro - s₅ ⟨⟨hrsp₅, hreg₅, hstack₅⟩, img, himg', hheap₅⟩
    simp [hrsp₄, hheap₄] at hrsp₅ hreg₅ hstack₅ hheap₅ himg'
    simp [himg', hrsp₅, hstack₅, hheap₅, hstack₄, hstack₃, hstack, lReturnEmpty, ↓run_bind,
      add_assoc]
    refine ⟨by simp, fun r hr => ?_, fun a ha => ?_⟩
    · simp at hr
      by_cases hrdi : r = rdi
      · simp [hrdi, hreg₅, himg]
      · simp [hr, hrdi, hreg₅, hreg₄, hreg₃, hreg, Function.update_apply]
        grind
    · simp (disch := omega) [hstack₅, hstack₄, hstack₃, hstack, Function.update_of_ne]
  · obtain ⟨hindex, hdraw⟩ := drawPixel_of_not_inBounds color hin
    have hminus : Int32.toInt64 4294967295 = -1 := by decide
    rw [hindex] at hrax₃
    simp [↓run_bind, hrax₃, hreg₃, hreg, hstack₃, hstack, hheap₃, hrsp₃, hminus, hdraw,
      lReturnEmpty, Heap.setImage_image, add_assoc]
    refine ⟨by simp, fun r hr => ?_, fun a ha => ?_⟩
    · simp at hr
      simp [hr, hreg₃, hreg, Function.update_apply]
      grind
    · simp (disch := omega) [hstack₃, hstack, Function.update_of_ne]

/-- **Both versions of `draw_pixel` leave the same image.** -/
theorem drawPixel_agrees {x y : Int32} (himg : s.reg rdi = .ptr (.image .img) 0)
    (hx : (s.reg rsi).word? = some x.toUInt32) (hy : (s.reg rdx).word? = some y.toUInt32)
    (hcolor : (s.reg rcx).word? = some color) :
    Agrees drawPixel s (Drawing.drawPixel s.heap.img x y color) := by
  refine (call_drawPixel himg hx hy hcolor).mono ?_
  rintro - s' ⟨-, ⟨img, hdraw, hheap⟩, -⟩
  rw [hheap]
  exact hdraw

/-- A pixel of 50% gray over a black one. -/
theorem drawPixel_agrees_gray :
    let img : Image := ⟨1, 1, [0x000000FF], rfl, by decide⟩
    let s := entry ⟨img, img, ⟨0, 0, 0, 0⟩⟩ fun
      | rdi => .ptr (.image .img) 0
      | rcx => .word 0x80808080
      | _ => .word 0
    Agrees drawPixel s (Drawing.drawPixel img 0 0 0x80808080) :=
  drawPixel_agrees rfl rfl rfl rfl

end Specs

end Asm

end Drawing

end Csf
