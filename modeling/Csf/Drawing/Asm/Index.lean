import Csf.Drawing.Image
import Csf.Lib.Assembly

/-!
# Bounds and indices, in assembly
-/

namespace Csf

namespace Drawing

namespace Asm

open X86 X86.Operand X86.Reg

/-- The images that a function works on: the one it draws on, and the one it draws from. -/
inductive Which where
  | img
  | map
  deriving DecidableEq

/-- The blocks of memory: images, their arrays of pixels, and a rectangle. -/
inductive Block where
  | image (k : Which)
  | data (k : Which)
  | rect
  deriving DecidableEq

/-- What is in memory. -/
structure Heap where
  img : Image
  map : Image
  rect : Rect

namespace Heap

/-- One of the images. -/
def image (h : Heap) : Which → Image
  | .img => h.img
  | .map => h.map

/-- Another image in its place. -/
def setImage (h : Heap) (img : Image) : Which → Heap
  | .img => { h with img := img }
  | .map => { h with map := img }

section Simp

variable (h : Heap) (img img' : Image) (k : Which)

theorem setImage_image : h.setImage (h.image k) k = h := by cases k <;> rfl

@[simp] theorem image_img : h.image .img = h.img := (rfl)

@[simp] theorem image_map : h.image .map = h.map := (rfl)

@[simp] theorem img_setImage : (h.setImage img .img).img = img := (rfl)

@[simp] theorem map_setImage : (h.setImage img .img).map = h.map := (rfl)

@[simp] theorem rect_setImage : (h.setImage img .img).rect = h.rect := (rfl)

@[simp] theorem setImage_img : h.setImage h.img .img = h := (rfl)

@[simp] theorem setImage_setImage :
    (h.setImage img .img).setImage img' .img = h.setImage img' .img := (rfl)

end Simp

end Heap

/-- The fields of `struct Image` and `struct Rect` at their offsets, and the pixels of an
image. -/
instance : Memory Block Heap where
  load32 h
    | .image k, 0 => some (h.image k).width
    | .image k, 4 => some (h.image k).height
    | .data k, off =>
        if 0 ≤ off ∧ off % 4 = 0 then (h.image k).data[(off / 4).toNat]? else none
    | .rect, 0 => some h.rect.x.toUInt32
    | .rect, 4 => some h.rect.y.toUInt32
    | .rect, 8 => some h.rect.width.toUInt32
    | .rect, 12 => some h.rect.height.toUInt32
    | _, _ => none
  load64 _
    | .image k, 8 => some (.ptr (.data k) 0)
    | _, _ => none
  store32 h
    | .data k, off, w =>
        if 0 ≤ off ∧ off % 4 = 0 ∧ (off / 4).toNat < (h.image k).data.length then
          some (h.setImage ((h.image k).set (off / 4).toNat w) k)
        else none
    | _, _, _ => none

abbrev State := X86.State Block Heap
abbrev Code := X86.Code Block Heap

/-- **A function leaves the image** that its version in C leaves. -/
def Agrees (f : Code Unit) (s : State) (img : Option Image) : Prop :=
  Runs (call f s) fun _ s' => img = some s'.heap.img

/-- **Both versions of a function end with the same image**, if the limits on their loops are
large enough. -/
def AgreesFrom (f : ℕ → Code Unit) (s : State) (img : ℕ → Option Image) : Prop :=
  ∃ limit, ∀ n ≥ limit, Agrees (f n) s (img n)

/-- For a function that always leaves the same image. -/
theorem agreesFrom_iff {f : ℕ → Code Unit} {s : State} {img img' : Image} {limit : ℕ}
    (h : ∀ n ≥ limit, Runs (call (f n) s) fun _ s' => s'.heap.img = img') :
    AgreesFrom f s (fun _ => some img) ↔ img = img' := by
  constructor
  · rintro ⟨limit', h'⟩
    obtain ⟨a, s₁, hrun, himg⟩ := h _ (le_max_left limit limit')
    obtain ⟨a', s₂, hrun', himg'⟩ := h' _ (le_max_right limit limit')
    cases hrun.symm.trans hrun'
    exact (Option.some.inj himg').trans himg
  · rintro rfl
    exact ⟨limit, fun n hn => (h n hn).mono fun _ _ himg => congrArg some himg.symm⟩

/-- A state that a function is called in. -/
def entry (h : Heap) (reg : Reg → Val Block) : State where
  reg := reg
  rsp := 0
  flags := none
  stack := fun _ => .word 0
  heap := h
  ip := .junk

section Memory

variable (h : Heap) (k : Which)

@[simp] theorem load32_width :
    Memory.load32 h (Block.image k) 0 = some (h.image k).width := (rfl)

@[simp] theorem load32_height :
    Memory.load32 h (Block.image k) 4 = some (h.image k).height := (rfl)

@[simp] theorem load32_x : Memory.load32 h Block.rect 0 = some h.rect.x.toUInt32 := (rfl)

@[simp] theorem load32_y : Memory.load32 h Block.rect 4 = some h.rect.y.toUInt32 := (rfl)

@[simp] theorem load32_rectWidth :
    Memory.load32 h Block.rect 8 = some h.rect.width.toUInt32 := (rfl)

@[simp] theorem load32_rectHeight :
    Memory.load32 h Block.rect 12 = some h.rect.height.toUInt32 := (rfl)

@[simp] theorem load64_data :
    Memory.load64 h (Block.image k) 8 = some (.ptr (Block.data k) 0) := (rfl)

variable (n : ℕ)

@[simp] theorem load32_data :
    Memory.load32 h (Block.data k) (4 * n) = (h.image k).data[n]? := by
  have hdiv : (4 * (n : ℤ) / 4).toNat = n := by omega
  change (if 0 ≤ 4 * (n : ℤ) ∧ 4 * (n : ℤ) % 4 = 0 then _ else none) = _
  rw [if_pos (by omega), hdiv]

theorem store32_data (w : UInt32) (hn : n < (h.image k).data.length) :
    Memory.store32 h (Block.data k) (4 * n) w = some (h.setImage ((h.image k).set n w) k) := by
  have hdiv : (4 * (n : ℤ) / 4).toNat = n := by omega
  change (if 0 ≤ 4 * (n : ℤ) ∧ 4 * (n : ℤ) % 4 = 0 ∧ _ < _ then _ else none) = _
  rw [if_pos (by omega), hdiv]

end Memory

/-! ### The functions -/

/-- `.Lfalse` -/
def lFalse : Code Unit := do
  addqRsp 16
  popq r13
  popq r12
  clear rax
  ret

/-- `in_bounds` -/
def inBounds : Code Unit := do
  pushq r12
  pushq r13
  subqRsp 16
  movl (mem 0 rdi) r12
  movl (mem 4 rdi) r13
  cmpl (imm 0) rdx
  if ← jl then lFalse else
  cmpl r13 rdx
  if ← jge then lFalse else
  cmpl (imm 0) rsi
  if ← jl then lFalse else
  cmpl r12 rsi
  if ← jge then lFalse else
  addqRsp 16
  popq r13
  popq r12
  movl (imm 1) rax
  ret

/-- `.Lreturn_neg1` -/
def lReturnNeg1 : Code Unit := do
  movl (imm (-1)) rax
  ret

/-- `compute_index` -/
def computeIndex : Code Unit := do
  subqRsp 8
  call inBounds
  addqRsp 8
  cmpl (imm 0) rax
  if ← je then lReturnNeg1 else
  movl (mem 0 rdi) rcx
  imull rcx rdx
  addl rsi rdx
  movl rdx rax
  ret

/-! ### What they do -/

section Specs

variable {s : State} {k : Which} {x y : UInt32}

/-- **`in_bounds`** says whether a point is one of the image. It writes to the stack, but not
far below the stack pointer; it leaves there what was in `r12`. -/
theorem call_inBounds (himg : s.reg rdi = .ptr (.image k) 0) (hx : (s.reg rsi).word? = some x)
    (hy : (s.reg rdx).word? = some y) :
    Runs (call inBounds s) fun _ s' => Kept [rax] s s' ∧ s'.heap = s.heap ∧
      s'.reg rax = .word (if Drawing.inBounds (s.heap.image k) x.toInt32 y.toInt32 then 1 else 0) ∧
      s'.stack (s.rsp + -16) = (s.reg r12).low ∧ ∀ a, a < s.rsp + -24 → s'.stack a = s.stack a := by
  -- where the four comparisons may lead
  have hcases : y.toInt32 < 0 ∨ ¬y.toInt32 < 0 ∧ ¬y.toInt32 < (s.heap.image k).height.toInt32 ∨
      ¬y.toInt32 < 0 ∧ y.toInt32 < (s.heap.image k).height.toInt32 ∧ x.toInt32 < 0 ∨
      ¬y.toInt32 < 0 ∧ y.toInt32 < (s.heap.image k).height.toInt32 ∧ ¬x.toInt32 < 0 ∧
        ¬x.toInt32 < (s.heap.image k).width.toInt32 ∨
      ¬y.toInt32 < 0 ∧ y.toInt32 < (s.heap.image k).height.toInt32 ∧ ¬x.toInt32 < 0 ∧
        x.toInt32 < (s.heap.image k).width.toInt32 := by tauto
  rcases hcases with h | h | h | h | h
  all_goals
    simp [run_call, inBounds, ↓run_bind, lFalse, himg, hx, hy, h, subFlags, add_assoc]
    refine ⟨⟨by simp, fun r hr => ?_, fun a ha => ?_⟩, ?_, fun a ha => ?_⟩
    · simp [Function.update_apply] at hr ⊢
      grind
    · simp (disch := omega) [Function.update_of_ne]
    · simp [Drawing.inBounds, h, ← Int32.not_lt]
    · simp (disch := omega) [Function.update_of_ne]

theorem computeIndex_eq {img : Image} (h : Drawing.inBounds img x.toInt32 y.toInt32 = true) :
    y * img.width + x = Drawing.computeIndex img x.toInt32 y.toInt32 := by
  rw [Drawing.computeIndex, h]
  rfl

/-- The index of a point is not negative as a signed number. -/
theorem computeIndex_nonneg {img : Image} (h : Drawing.inBounds img x.toInt32 y.toInt32 = true) :
    ¬(Drawing.computeIndex img x.toInt32 y.toInt32).toInt32 < 0 := by
  have hp := Image.inBounds_iff.mp h
  have hlt := Image.offset_lt hp
  have hsmall := img.small
  have hindex := Image.computeIndex_toNat hp
  rw [Int32.lt_iff_toInt_lt, Ints.toInt_toInt32, Int32.toInt_zero]
  omega

/-- **`compute_index`** returns the index of a point, with the sign flag clear. On the stack it
leaves what was in `r12`, where `in_bounds` has saved it, and in `rcx` the width of the image if
the point is one of it. -/
theorem call_computeIndex (himg : s.reg rdi = .ptr (.image k) 0)
    (hx : (s.reg rsi).word? = some x) (hy : (s.reg rdx).word? = some y) :
    Runs (call computeIndex s) fun _ s' => Kept [rax, rcx, rdx] s s' ∧ s'.heap = s.heap ∧
      s'.reg rax = .word (Drawing.computeIndex (s.heap.image k) x.toInt32 y.toInt32) ∧
      (∃ f, s'.flags = some f ∧ f.sign = false) ∧ s'.stack (s.rsp + -32) = (s.reg r12).low ∧
      s'.reg rcx = if Drawing.inBounds (s.heap.image k) x.toInt32 y.toInt32 then
        .word (s.heap.image k).width else s.reg rcx := by
  rw [run_call, computeIndex]
  simp only [↓run_bind, run_subqRsp, andThen_assoc, andThen_some]
  refine (call_inBounds (k := k) (x := x) (y := y) (by simpa) (by simpa) (by simpa)).andThen ?_
  rintro - s₂ ⟨⟨hrsp, hreg, hstack⟩, hheap, hrax, hr12, -⟩
  simp [add_assoc] at hrsp hreg hstack hheap hrax hr12
  by_cases hin : Drawing.inBounds (s.heap.image k) x.toInt32 y.toInt32 = true
  · simp [hin, hrsp, hreg, hstack, hheap, hrax, himg, hx, hy, add_assoc, subFlags, ↓run_bind]
    have hindex := computeIndex_eq hin
    refine ⟨⟨by simp, fun r hr => ?_, fun a ha => ?_⟩, by rw [hindex], ⟨_, rfl, ?_⟩, hr12⟩
    · simp [Function.update_apply] at hr ⊢
      simp [hr, hreg]
    · simp (disch := omega) [hstack, Function.update_of_ne]
    · dsimp only
      rw [hindex, decide_eq_false_iff_not]
      exact computeIndex_nonneg hin
  · simp [hin, hrsp, hstack, hheap, hrax, add_assoc, subFlags, ↓run_bind, lReturnNeg1]
    have hindex := Image.computeIndex_of_not_contains (mt Image.inBounds_iff.mpr hin)
    refine ⟨⟨by simp, fun r hr => ?_, fun a ha => ?_⟩, by rw [hindex], hr12, hreg rcx (by simp)⟩
    · simp [Function.update_apply] at hr ⊢
      simp [hr, hreg]
    · simp (disch := omega) [hstack, Function.update_of_ne]

end Specs

end Asm

end Drawing

end Csf
