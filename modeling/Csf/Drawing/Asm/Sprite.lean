import Csf.Drawing.Asm.Frame
import Csf.Drawing.Asm.Pixel
import Csf.Drawing.Sprite
import Csf.Lib.Lockstep

/-!
# Sprites, in assembly

`draw_sprite` keeps the pointer to the spritemap in `rcx` and the width of the sprite below the
stack pointer. Both are lost in a call of `compute_index`: the first if the point is one of the
spritemap, the second in any case. So when the loops come to a pixel that is to be drawn the
next instruction reads from where there is nothing (`Csf.Drawing.Asm.spriteWalk`), and as long as
they do not, nothing is drawn. Besides, the rows are counted up to the width of the sprite.
-/

namespace Csf

namespace Drawing

namespace Asm

open X86 X86.Operand X86.Reg
open Canvas Ints Drawing.Image

/-! ### The function -/

/-- `.Lnext_row` -/
def lNextRow : Code Bool := do
  incl r13
  pure true

/-- The body of `.Lrow_loop`, from the source coordinates on. -/
def spritePixel : Code Bool := do
  movl (top 8) r14
  addl r12 r14
  movl (top 12) r15
  addl r13 r15
  movq (top 0) rdi
  movl r14 rsi
  movl r15 rdx
  call inBounds
  cmpl (imm 0) rax
  if ← je then lNextRow else
  movq rcx rdi
  movl (mem 0 r8) rsi
  addl r12 rsi
  movl (mem 4 r8) rdx
  addl r13 rdx
  call computeIndex
  cmpl (imm (-1)) rax
  if ← je then lNextRow else
  movq (mem 8 rcx) rbx
  movl (scaled rbx rax) rbp
  movq rcx (top (-40))
  movq (top 0) rdi
  movl r14 rsi
  movl r15 rdx
  movl rbp rcx
  call drawPixel
  movq (top (-40)) rcx
  pure false

/-- `.Lrow_loop`, which is left to `.Lnext_col`. -/
def lRowLoop (n : ℕ) : Code Unit := loop n do
  cmpl (top (-32)) r13
  if ← jge then pure false else
  spritePixel

/-- `.Lcol_loop`, with `.Lnext_col`. -/
def lColLoop (n : ℕ) : Code Unit := loop n do
  cmpl (top (-32)) r12
  if ← jge then pure false else
  clear r13
  lRowLoop n
  incl r12
  pure true

/-- `.Ldone` -/
def lDone : Code Unit := lEnd

/-- `draw_sprite`, its loops limited to `n` rounds. -/
def drawSprite (n : ℕ) : Code Unit := do
  pushq rbp
  pushq rbx
  pushq r12
  pushq r13
  pushq r14
  pushq r15
  subqRsp 80
  movq rdi (top 0)
  movl rsi (top 8)
  movl rdx (top 12)
  movq rcx rdi
  movl (mem 0 r8) rsi
  movl (mem 4 r8) rdx
  call inBounds
  cmpl (imm 0) rax
  if ← je then lDone else
  addl (mem 8 r8) rsi
  addl (mem 12 r8) rdx
  call inBounds
  cmpl (imm 0) rax
  if ← je then lDone else
  movl (mem 8 r8) rax
  movl rax (top (-32))
  movl (mem 12 r8) rax
  movl rax (top (-24))
  clear r12
  lColLoop n
  lDone

/-! ### What it does, without the machine -/

/-- A round of the loop over the rows, with the row and the cell that the width is kept in. It
fails at a pixel that is to be drawn. -/
def walkRow (img spritemap : Image) (x y : Int32) (sprite : Rect) (col : Int32) :
    Int32 × Int32 → Option (Interaction.Round (Int32 × Int32) Int32)
  | (row, width) =>
    if row < width then
      if Drawing.inBounds img (x + col) (y + row) then
        if Drawing.inBounds spritemap (sprite.x + col) (sprite.y + row) then none
        else some (.again (row + 1, col))
      else some (.again (row + 1, width))
    else some (.leave width)

/-- A round of the loop over the columns. -/
def walkCol (n : ℕ) (img spritemap : Image) (x y : Int32) (sprite : Rect) :
    Int32 × Int32 → Option (Interaction.Round (Int32 × Int32) Unit)
  | (col, width) =>
    if col < width then
      (Interaction.loop (walkRow img spritemap x y sprite col) n (0, width)).map fun width =>
        .again (col + 1, width)
    else some (.leave ())

/-- The corners that are checked, and the loops. -/
def spriteWalk (n : ℕ) (img spritemap : Image) (x y : Int32) (sprite : Rect) : Option Unit :=
  if Drawing.inBounds spritemap sprite.x sprite.y ∧
      Drawing.inBounds spritemap (sprite.x + sprite.width) (sprite.y + sprite.height) then
    Interaction.loop (walkCol n img spritemap x y sprite) n (0, sprite.width)
  else some ()

/-! ### The loops -/

section Loops

variable {s : State} {x y row col width : Int32}

/-- What the loops change before they come to a pixel that is to be drawn. -/
abbrev spriteRegs : List Reg := [rax, rdx, rsi, rdi, r12, r13, r14, r15]

/-- **Where the loops find the arguments.** -/
structure SpriteArgs (s : State) (x y : Int32) : Prop where
  img : (s.stack s.rsp).join (s.stack (s.rsp + 4)) = .ptr (.image .img) 0
  x : s.stack (s.rsp + 8) = .word x.toUInt32
  y : s.stack (s.rsp + 12) = .word y.toUInt32
  map : s.reg rcx = .ptr (.image .map) 0
  sprite : s.reg r8 = .ptr .rect 0

/-- The loops leave the arguments where they are. -/
theorem SpriteArgs.of_kept {s' : State} (h : SpriteArgs s x y) (hk : Kept spriteRegs s s') :
    SpriteArgs s' x y where
  img := by simp [hk.rsp, hk.stack, h.img]
  x := by simp [hk.rsp, hk.stack, h.x]
  y := by simp [hk.rsp, hk.stack, h.y]
  map := by simp [hk.reg, h.map]
  sprite := by simp [hk.reg, h.sprite]

/-- **The counters and the cell of the width**, and that nothing is drawn. -/
structure Walks (s s' : State) (row col width : Int32) : Prop where
  kept : Kept spriteRegs s s'
  heap : s'.heap = s.heap
  row : s'.reg r13 = .word row.toUInt32
  col : s'.reg r12 = .word col.toUInt32
  width : s'.stack (s.rsp + -32) = .word width.toUInt32

theorem Walks.trans {s' s'' : State} {row' col' width' : Int32} (h : Walks s s' row col width)
    (h' : Walks s' s'' row' col' width') : Walks s s'' row' col' width' where
  kept := h.kept.again h'.kept
  heap := h'.heap.trans h.heap
  row := h'.row
  col := h'.col
  width := h.kept.rsp ▸ h'.width

theorem Walks.setFlags {s' : State} (h : Walks s s' row col width) (f : Option Flags) :
    Walks s (s'.setFlags f) row col width :=
  ⟨h.kept.setFlags f, h.heap, h.row, h.col, h.width⟩

/-- The same, from there on. -/
theorem Walks.here {s' : State} (h : Walks s s' row col width) : Walks s' s' row col width :=
  ⟨Kept.refl _ _, rfl, h.row, h.col, h.kept.rsp ▸ h.width⟩

/-- **One row** of a column. -/
theorem matches_spritePixel (hs : SpriteArgs s x y) (hw : Walks s s row col width)
    (hlt : row < width) :
    Matches (spritePixel s) (walkRow s.heap.img s.heap.map x y s.heap.rect col (row, width))
      (RoundsMatch (fun a t => Walks s t a.1 col a.2) fun _ _ => False) := by
  rw [spritePixel, walkRow, if_pos hlt]
  simp [↓run_bind, hs.x, hs.y, hs.img, hw.row, hw.col, ← Int32.toUInt32_add]
  refine Runs.matches (call_inBounds (k := .img) (x := (x + col).toUInt32)
    (y := (y + row).toUInt32) (by simp) (by simp) (by simp)) ?_
  rintro - s₂ ⟨⟨hrsp₂, hreg₂, hstack₂⟩, hheap₂, hrax₂, -, hbelow₂⟩
  simp at hrsp₂ hreg₂ hstack₂ hheap₂ hrax₂ hbelow₂
  cases hin : Drawing.inBounds s.heap.img (x + col) (y + row)
  · simp [↓run_bind, hrax₂, hin, subFlags, lNextRow, hreg₂, hw.row]
    refine ⟨rfl, ⟨hrsp₂, fun q hq => ?_, hstack₂⟩, hheap₂, rfl, ?_, ?_⟩
    · simp at hq
      simp [hq, hreg₂]
    · simp [hreg₂, hw.col]
    · exact (hbelow₂ _ (by omega)).trans hw.width
  simp [↓run_bind, hrax₂, hin, subFlags, hheap₂, hreg₂, hs.map, hs.sprite, hw.row, hw.col,
    ← Int32.toUInt32_add]
  refine Runs.matches (call_computeIndex (k := .map) (x := (s.heap.rect.x + col).toUInt32)
    (y := (s.heap.rect.y + row).toUInt32) (by simp) (by simp) (by simp)) ?_
  rintro - s₃ ⟨⟨hrsp₃, hreg₃, hstack₃⟩, hheap₃, hrax₃, -, hslot₃, hrcx₃⟩
  simp [hheap₂, hrsp₂] at hrsp₃ hreg₃ hstack₃ hheap₃ hrax₃ hslot₃ hrcx₃
  by_cases hsource : Drawing.inBounds s.heap.map (s.heap.rect.x + col) (s.heap.rect.y + row) = true
  · -- the pointer to the spritemap is gone
    rw [if_pos hsource] at hrcx₃
    simp [↓run_bind, hrax₃, hsource, hrcx₃, subFlags, computeIndex_ne (inBounds_iff.mp hsource)]
    rfl
  · -- and here the width
    rw [if_neg hsource] at hrcx₃
    rw [computeIndex_of_not_contains (mt inBounds_iff.mpr hsource)] at hrax₃
    simp [↓run_bind, hrax₃, hsource, subFlags, lNextRow, hreg₃, hreg₂, hw.row]
    refine ⟨rfl, ⟨hrsp₃, fun q hq => ?_, fun a ha => (hstack₃ a ha).trans (hstack₂ a ha)⟩,
      hheap₃, rfl, ?_, ?_⟩
    · simp at hq
      by_cases hqc : q = rcx
      · simp [hqc, hrcx₃, hreg₂]
      · simp [hq, hqc, hreg₃, hreg₂]
    · simp [hreg₃, hreg₂, hw.col]
    · simp [hslot₃, hreg₂, hw.col]

/-- **The loop over the rows.** -/
theorem matches_lRowLoop (n : ℕ) (hs : SpriteArgs s x y) (hw : Walks s s row col width) :
    Matches (lRowLoop n s)
      (Interaction.loop (walkRow s.heap.img s.heap.map x y s.heap.rect col) n (row, width))
      fun width' _ s' => ∃ row', Walks s s' row' col width' := by
  refine matches_loop (I := fun a t => Walks s t a.1 col a.2)
    (Q := fun width' t => ∃ row', Walks s t row' col width') ?_ hw
  rintro ⟨row, width⟩ t ht
  have hwidth := ht.kept.rsp ▸ ht.width
  by_cases hlt : row < width
  · simp [↓run_bind, hwidth, ht.row, subFlags, hlt]
    generalize ht' : t.setFlags _ = t'
    have hw' : Walks s t' row col width := ht' ▸ ht.setFlags _
    have hpixel := matches_spritePixel (hs.of_kept hw'.kept) hw'.here hlt
    rw [hw'.heap] at hpixel
    exact hpixel.mono fun _ _ _ hround => hround.mono (fun _ hI => hw'.trans hI)
      fun _ hfalse => hfalse.elim
  · simp [↓run_bind, hwidth, ht.row, subFlags, hlt, walkRow]
    exact ⟨rfl, row, ht.setFlags _⟩

/-- **The loop over the columns.** -/
theorem matches_lColLoop (n : ℕ) (col width : Int32) (hs : SpriteArgs s x y)
    (hcol : s.reg r12 = .word col.toUInt32)
    (hwidth : s.stack (s.rsp + -32) = .word width.toUInt32) :
    Matches (lColLoop n s)
      (Interaction.loop (walkCol n s.heap.img s.heap.map x y s.heap.rect) n (col, width))
      fun _ _ s' => Kept spriteRegs s s' ∧ s'.heap = s.heap := by
  refine matches_loop (I := fun a t => Kept spriteRegs s t ∧ t.heap = s.heap ∧
    t.reg r12 = .word a.1.toUInt32 ∧ t.stack (s.rsp + -32) = .word a.2.toUInt32) ?_
    ⟨Kept.refl _ _, rfl, hcol, hwidth⟩
  rintro ⟨col, width⟩ t ⟨hkept, hheap, hcol, hwidth⟩
  rw [← hkept.rsp] at hwidth
  by_cases hlt : col < width
  · simp [↓run_bind, hwidth, hcol, subFlags, hlt, walkCol]
    generalize ht' : (State.set32 _ r13 0).setFlags _ = t'
    have hwalk : Walks s t' 0 col width := by
      subst ht'
      exact ⟨((hkept.setFlags _).set (by simp) _).setFlags _, hheap, rfl, hcol,
        hkept.rsp ▸ hwidth⟩
    have hrows := matches_lRowLoop n (hs.of_kept hwalk.kept) hwalk.here
    rw [hwalk.heap] at hrows
    rw [Option.map_eq_bind]
    refine hrows.andThen ?_
    rintro width' - s' ⟨row', hw'⟩
    simp [hw'.col]
    exact ⟨rfl, ((hwalk.trans hw').kept.set (by simp) _).setFlags _, (hwalk.trans hw').heap, rfl,
      (hwalk.trans hw').width⟩
  · simp [↓run_bind, hwidth, hcol, subFlags, hlt, walkCol]
    exact ⟨rfl, hkept.setFlags _, hheap⟩

end Loops

/-! ### The whole function -/

section Specs

variable {s : State} {x y : Int32}

/-- **`draw_sprite`** ends if and only if the loops do, and then has drawn nothing. -/
theorem matches_drawSprite (n : ℕ) (himg : s.reg rdi = .ptr (.image .img) 0)
    (hx : (s.reg rsi).word? = some x.toUInt32) (hy : (s.reg rdx).word? = some y.toUInt32)
    (hmap : s.reg rcx = .ptr (.image .map) 0) (hsprite : s.reg r8 = .ptr .rect 0) :
    Matches (call (drawSprite n) s) (spriteWalk n s.heap.img s.heap.map x y s.heap.rect)
      fun _ _ s' => s'.heap = s.heap := by
  rw [run_call, drawSprite, spriteWalk]
  simp [↓run_bind, himg, hx, hy, hmap, hsprite, add_assoc]
  refine Runs.matches (call_inBounds (k := .map) (x := s.heap.rect.x.toUInt32)
    (y := s.heap.rect.y.toUInt32) (by simp) (by simp) (by simp)) ?_
  rintro - s₂ ⟨hkept₂, hheap₂, hrax₂, -⟩
  have hsaved : Saved s s₂ := by
    refine .of_kept ⟨by simp, fun q hq => ?_, fun a ha => ?_, ?_, ?_, ?_, ?_, ?_, ?_, ?_⟩
      hkept₂ (by simp)
    · simp at hq
      simp [hq]
    · simp (disch := omega) [Function.update_of_ne]
    all_goals simp [add_assoc]
  have hargs : SpriteArgs s₂ x y := by
    refine .of_kept ⟨?_, ?_, ?_, ?_, ?_⟩ (hkept₂.mono (by simp))
    all_goals simp [hmap, hsprite, add_assoc]
  have hreg₂ := hkept₂.reg
  simp at hheap₂ hrax₂ hreg₂
  cases hfirst : Drawing.inBounds s.heap.map s.heap.rect.x s.heap.rect.y
  · simp [hrax₂, hfirst, subFlags]
    refine (hsaved.of_kept ((Kept.refl [] _).setFlags _) (by simp)).runs_lEnd.mono ?_
    rintro - s' ⟨-, hheap⟩
    exact hheap.trans hheap₂
  simp [↓run_bind, hrax₂, hfirst, subFlags, hargs.sprite, hheap₂, hreg₂]
  refine Runs.matches (call_inBounds (k := .map)
    (x := (s.heap.rect.x + s.heap.rect.width).toUInt32)
    (y := (s.heap.rect.y + s.heap.rect.height).toUInt32) (by simp [hreg₂]) (by simp) (by simp)) ?_
  rintro - s₃ ⟨⟨hrsp₃, hreg₃, hstack₃⟩, hheap₃, hrax₃, -⟩
  simp at hrsp₃ hreg₃ hstack₃
  simp [hheap₂, -Int32.toUInt32_add] at hheap₃ hrax₃
  have hkept : Kept spriteRegs s₂ s₃ := by
    refine ⟨hrsp₃, fun q hq => ?_, hstack₃⟩
    simp at hq
    simp [hq, hreg₃]
  cases hlast : Drawing.inBounds s.heap.map (s.heap.rect.x + s.heap.rect.width)
    (s.heap.rect.y + s.heap.rect.height)
  · simp [hrax₃, hlast]
    refine (hsaved.of_kept (hkept.setFlags _) (by simp)).runs_lEnd.mono ?_
    rintro - s' ⟨-, hheap⟩
    exact hheap.trans hheap₃
  simp [↓run_bind, hrax₃, hlast, hreg₃, hargs.sprite, hheap₃]
  generalize ht : (State.set32 _ r12 0).setFlags _ = t
  have hkeptT : Kept spriteRegs s₂ t := by
    subst ht
    refine ⟨hrsp₃, fun q hq => ?_, fun a ha => ?_⟩
    · simp at hq
      simp [hq, hkept.reg]
    · simp (disch := omega) [hstack₃, Function.update_of_ne]
  have hheapT : t.heap = s.heap := by
    subst ht
    exact hheap₃
  have hloops := matches_lColLoop n 0 s.heap.rect.width
    (hargs.of_kept hkeptT) (by subst ht; rfl) (by subst ht; simp)
  rw [hheapT] at hloops
  refine hloops.runs ?_
  rintro - - s₄ ⟨hkept₄, hheap₄⟩
  refine (hsaved.of_kept (hkeptT.again hkept₄) (by simp)).runs_lEnd.mono ?_
  rintro - s' ⟨-, hheap⟩
  exact hheap.trans hheap₄

end Specs

/-! ### Where the loops end -/

section Walk

variable {img spritemap : Image} {x y : Int32} {sprite : Rect} {row col width : Int32}

/-- The corners that both versions check. -/
def Corners (spritemap : Image) (sprite : Rect) : Prop :=
  Drawing.inBounds spritemap sprite.x sprite.y = true ∧
    Drawing.inBounds spritemap (sprite.x + sprite.width) (sprite.y + sprite.height) = true

instance : Decidable (Corners spritemap sprite) := inferInstanceAs (Decidable (_ ∧ _))

/-- **The loops come to a pixel that is to be drawn**: the first point that is both in the image
and in the square that the loops go through, its sides being as long as the sprite is wide, is a
copy of a point that is in the spritemap. -/
def Meets (img : Image) (x y : Int32) (spritemap : Image) (sprite : Rect) : Prop :=
  img.Contains (max 0 x.toInt, max 0 y.toInt) ∧
    max 0 x.toInt - x.toInt < sprite.width.toInt ∧ max 0 y.toInt - y.toInt < sprite.width.toInt ∧
    sprite.y.toInt + (max 0 y.toInt - y.toInt) < spritemap.height.toNat

instance : Decidable (Meets img x y spritemap sprite) :=
  inferInstanceAs (Decidable (_ ∧ _ ∧ _ ∧ _))

/-- A sum that overflows is negative, and no coordinate of an image. -/
theorem inBounds_add_iff (hcol : 0 ≤ col.toInt) (hrow : 0 ≤ row.toInt) :
    Drawing.inBounds img (x + col) (y + row) = true ↔
      img.Contains (x.toInt + col.toInt, y.toInt + row.toInt) := by
  have hxadd := toInt_add x col
  have hyadd := toInt_add y row
  have hx := toInt_bounds x
  have hy := toInt_bounds y
  have hcol' := toInt_bounds col
  have hrow' := toInt_bounds row
  rw [inBounds_iff, Contains, Contains]
  constructor
  · rintro ⟨h0, h1, h2, h3⟩
    dsimp only at *
    omega
  · rintro ⟨h0, h1, h2, h3⟩
    have hwidth := img.width_lt (by omega)
    have hheight := img.height_lt (by omega)
    dsimp only at *
    omega

/-- A pixel that is to be drawn is not before the first one. -/
theorem meets_of_inBounds (hcol : 0 ≤ col.toInt ∧ col.toInt < sprite.width.toInt)
    (hrow : 0 ≤ row.toInt ∧ row.toInt < sprite.width.toInt)
    (himg : Drawing.inBounds img (x + col) (y + row) = true)
    (hmap : Drawing.inBounds spritemap (sprite.x + col) (sprite.y + row) = true) :
    Meets img x y spritemap sprite := by
  rw [inBounds_add_iff hcol.1 hrow.1] at himg hmap
  obtain ⟨h0, h1, h2, h3⟩ := himg
  obtain ⟨-, -, -, k3⟩ := hmap
  dsimp only at *
  exact ⟨⟨le_max_left _ _, by dsimp only; omega, le_max_left _ _, by dsimp only; omega⟩,
    by omega, by omega, by omega⟩

/-- **The loop over the rows ends** if no pixel is to be drawn. -/
theorem exists_walkRow {n : ℕ} (hmeets : ¬Meets img x y spritemap sprite)
    (hcol : 0 ≤ col.toInt ∧ col.toInt < sprite.width.toInt)
    (hwidth : width.toInt ≤ sprite.width.toInt) (hn : sprite.width.toInt.toNat < n) :
    ∃ width', Interaction.loop (walkRow img spritemap x y sprite col) n (0, width) = some width' ∧
      width'.toInt ≤ sprite.width.toInt := by
  refine Interaction.loop_total
    (I := fun a => 0 ≤ a.1.toInt ∧ a.2.toInt ≤ sprite.width.toInt)
    (μ := fun a => (sprite.width.toInt - a.1.toInt).toNat) ?_ ⟨le_refl _, hwidth⟩
    (by simpa using hn)
  rintro ⟨row, width⟩ ⟨hrow, hwidth⟩
  dsimp only at hrow hwidth
  rw [walkRow]
  by_cases hlt : row < width
  swap
  · exact .inl ⟨width, if_neg hlt, hwidth⟩
  rw [if_pos hlt]
  rw [Int32.lt_iff_toInt_lt] at hlt
  have hnext := toInt_succ (by have := toInt_bounds width; omega : row.toInt < 2147483647)
  refine .inr ?_
  by_cases himg : Drawing.inBounds img (x + col) (y + row) = true
  · have hmap : ¬Drawing.inBounds spritemap (sprite.x + col) (sprite.y + row) = true :=
      fun hmap => hmeets (meets_of_inBounds hcol ⟨hrow, by omega⟩ himg hmap)
    refine ⟨(row + 1, col), ?_, ⟨?_, ?_⟩, ?_⟩
    · rw [if_pos himg, if_neg hmap]
    all_goals
      dsimp only
      omega
  · refine ⟨(row + 1, width), if_neg himg, ⟨?_, hwidth⟩, ?_⟩
    all_goals
      dsimp only
      omega

/-- **All loops end** if no pixel is to be drawn. -/
theorem spriteWalk_eq_some {n : ℕ}
    (h : ¬(Corners spritemap sprite ∧ Meets img x y spritemap sprite))
    (hn : sprite.width.toInt.toNat < n) : spriteWalk n img spritemap x y sprite = some () := by
  rw [spriteWalk]
  split
  swap
  · rfl
  rename_i hcorners
  have hmeets : ¬Meets img x y spritemap sprite := fun hmeets => h ⟨hcorners, hmeets⟩
  obtain ⟨⟨⟩, hrun, -⟩ : ∃ r, Interaction.loop (walkCol n img spritemap x y sprite) n
      (0, sprite.width) = some r ∧ True := by
    refine Interaction.loop_total
      (I := fun a => 0 ≤ a.1.toInt ∧ a.2.toInt ≤ sprite.width.toInt)
      (μ := fun a => (sprite.width.toInt - a.1.toInt).toNat) ?_ ⟨le_refl _, le_refl _⟩
      (by simpa using hn)
    rintro ⟨col, width⟩ ⟨hcol, hwidth⟩
    dsimp only at hcol hwidth
    rw [walkCol]
    by_cases hlt : col < width
    swap
    · exact .inl ⟨(), if_neg hlt, trivial⟩
    rw [if_pos hlt]
    rw [Int32.lt_iff_toInt_lt] at hlt
    have hnext := toInt_succ (by have := toInt_bounds width; omega : col.toInt < 2147483647)
    obtain ⟨width', hrow, hwidth'⟩ := exists_walkRow hmeets ⟨hcol, by omega⟩ hwidth hn
    refine .inr ⟨(col + 1, width'), by rw [hrow]; rfl, ⟨?_, hwidth'⟩, ?_⟩
    all_goals
      dsimp only
      omega
  exact hrun

/-- How the loop over the rows is left. -/
theorem walkRow_eq_leave {a : Int32 × Int32} {width' : Int32}
    (h : walkRow img spritemap x y sprite col a = some (.leave width')) :
    ¬a.1 < a.2 ∧ width' = a.2 := by
  rw [walkRow] at h
  split at h
  · split at h
    · split at h <;> simp at h
    · simp at h
  · rename_i hlt
    exact ⟨hlt, (Interaction.Round.leave.inj (Option.some.inj h)).symm⟩

/-- Its rounds: what is drawn from outside of the spritemap is left out. -/
theorem walkRow_eq_again {a a' : Int32 × Int32}
    (h : walkRow img spritemap x y sprite col a = some (.again a')) :
    a.1 < a.2 ∧ a'.1 = a.1 + 1 ∧
      (Drawing.inBounds img (x + col) (y + a.1) = true →
        ¬Drawing.inBounds spritemap (sprite.x + col) (sprite.y + a.1) = true) ∧
      (¬Drawing.inBounds img (x + col) (y + a.1) = true → a'.2 = a.2) := by
  rw [walkRow] at h
  split at h
  · rename_i hlt
    split at h
    · rename_i himg
      split at h
      · simp at h
      · rename_i hmap
        cases h
        exact ⟨hlt, rfl, fun _ => hmap, fun h => absurd himg h⟩
    · rename_i himg
      cases h
      exact ⟨hlt, rfl, fun h => absurd h himg, fun _ => rfl⟩
  · simp at h

/-- A loop over rows left of the image ends with the width that it has begun with. -/
theorem eq_of_walkRow {n : ℕ} {width' : Int32} (hcol : 0 ≤ col.toInt)
    (hleft : x.toInt + col.toInt < 0)
    (hrun : Interaction.loop (walkRow img spritemap x y sprite col) n (0, width) = some width') :
    width' = width := by
  refine Interaction.loop_inv (Q := fun width' => width' = width)
    (I := fun a : Int32 × Int32 => 0 ≤ a.1.toInt ∧ a.2 = width)
    (fun a _ hI hround => (walkRow_eq_leave hround).2.trans hI.2) (fun a a' hI hround => ?_)
    ⟨le_refl _, rfl⟩ hrun
  obtain ⟨hrow, rfl⟩ := hI
  obtain ⟨hlt, hnext, -, hsame⟩ := walkRow_eq_again hround
  have hout : ¬Drawing.inBounds img (x + col) (y + a.1) = true := by
    rw [inBounds_add_iff hcol hrow]
    exact fun hin => absurd hin.1 (Int.not_le.mpr hleft)
  refine ⟨?_, hsame hout⟩
  rw [Int32.lt_iff_toInt_lt] at hlt
  have hbounds := toInt_bounds a.2
  rw [hnext, toInt_succ (by omega)]
  omega

/-- In the first column that is in the image the loop over the rows does not end. -/
theorem walkRow_ne_some (hcorners : Corners spritemap sprite)
    (hmeets : Meets img x y spritemap sprite) (hcol : col.toInt = max 0 x.toInt - x.toInt) (n : ℕ)
    (width' : Int32) :
    Interaction.loop (walkRow img spritemap x y sprite col) n (0, sprite.width) ≠ some width' := by
  obtain ⟨⟨hx0, hx1, hy0, hy1⟩, hw, hh, hmap⟩ := hmeets
  dsimp only at hx0 hx1 hy0 hy1
  obtain ⟨hfirst, hlast⟩ := hcorners
  rw [inBounds_iff] at hfirst hlast
  obtain ⟨hf0, -, hf2, -⟩ := hfirst
  obtain ⟨hl0, hl1, -, -⟩ := hlast
  have hadd := toInt_add sprite.x sprite.width
  have hsx := toInt_bounds sprite.x
  have hsw := toInt_bounds sprite.width
  dsimp only at hf0 hf2 hl0 hl1
  intro hrun
  refine Interaction.loop_inv (Q := fun _ => False)
    (I := fun a : Int32 × Int32 => 0 ≤ a.1.toInt ∧ a.1.toInt ≤ max 0 y.toInt - y.toInt ∧
      a.2 = sprite.width) (fun a _ hI hround => ?_) (fun a a' hI hround => ?_)
    ⟨le_refl _, by rw [Int32.toInt_zero]; omega, rfl⟩ hrun
  · obtain ⟨-, hle, hwidth⟩ := hI
    refine (walkRow_eq_leave hround).1 ?_
    rw [hwidth, Int32.lt_iff_toInt_lt]
    omega
  · obtain ⟨hrow, hle, hwidth⟩ := hI
    obtain ⟨hlt, hnext, hskip, hsame⟩ := walkRow_eq_again hround
    rw [inBounds_add_iff (by omega) hrow] at hskip hsame
    rw [inBounds_add_iff (by omega) hrow] at hskip
    have hne : a.1.toInt ≠ max 0 y.toInt - y.toInt := by
      intro heq
      refine hskip ⟨?_, ?_, ?_, ?_⟩ ⟨?_, ?_, ?_, ?_⟩
      all_goals
        dsimp only
        omega
    have hbounds := toInt_bounds a.2
    rw [Int32.lt_iff_toInt_lt] at hlt
    refine ⟨?_, ?_, (hsame fun hin => ?_).trans hwidth⟩
    · rw [hnext, toInt_succ (by omega)]
      omega
    · rw [hnext, toInt_succ (by omega)]
      omega
    · have hin := hin.2.2.1
      dsimp only at hin
      omega

/-- **They do not** if one is. -/
theorem spriteWalk_eq_none (hcorners : Corners spritemap sprite)
    (hmeets : Meets img x y spritemap sprite) (n : ℕ) :
    spriteWalk n img spritemap x y sprite = none := by
  refine (if_pos hcorners).trans (Option.eq_none_iff_forall_ne_some.mpr fun _ hrun => ?_)
  refine Interaction.loop_inv (Q := fun _ => False)
    (I := fun a : Int32 × Int32 => 0 ≤ a.1.toInt ∧ a.1.toInt ≤ max 0 x.toInt - x.toInt ∧
      a.2 = sprite.width) (fun a _ hI hround => ?_) (fun a a' hI hround => ?_)
    ⟨le_refl _, by rw [Int32.toInt_zero]; omega, rfl⟩ hrun
  · obtain ⟨-, hle, hwidth⟩ := hI
    have hlt : a.1 < a.2 := by
      rw [hwidth, Int32.lt_iff_toInt_lt]
      exact Int.lt_of_le_of_lt hle hmeets.2.1
    rw [walkCol, if_pos hlt, Option.map_eq_some_iff] at hround
    obtain ⟨_, -, hleave⟩ := hround
    exact absurd hleave (by simp)
  · obtain ⟨hcol, hle, hwidth⟩ := hI
    rw [walkCol] at hround
    split at hround
    swap
    · exact absurd hround (by simp)
    rename_i hlt
    obtain ⟨width', hrows, hagain⟩ := Option.map_eq_some_iff.mp hround
    cases hagain
    rw [hwidth] at hrows hlt
    have hne : a.1.toInt ≠ max 0 x.toInt - x.toInt :=
      fun heq => walkRow_ne_some hcorners hmeets heq n width' hrows
    have hbounds := toInt_bounds sprite.width
    rw [Int32.lt_iff_toInt_lt] at hlt
    refine ⟨?_, ?_, eq_of_walkRow hcol (by omega) hrows⟩
    all_goals
      rw [toInt_succ (by omega)]
      omega

end Walk

/-! ### Both versions -/

section Agreement

variable {s : State} {x y : Int32}

/-- **Both versions of `draw_sprite` leave the same image** if and only if the sprite does not
pass the check of its corners, or the loops of the assembly come to no pixel that is to be drawn
and nothing of the sprite would be seen. -/
theorem drawSprite_agrees_iff (himg : s.reg rdi = .ptr (.image .img) 0)
    (hx : (s.reg rsi).word? = some x.toUInt32) (hy : (s.reg rdx).word? = some y.toUInt32)
    (hmap : s.reg rcx = .ptr (.image .map) 0) (hsprite : s.reg r8 = .ptr .rect 0) :
    AgreesFrom drawSprite s (fun _ => Drawing.drawSprite s.heap.img x y s.heap.map s.heap.rect) ↔
      ¬Corners s.heap.map s.heap.rect ∨
      ¬Meets s.heap.img x y s.heap.map s.heap.rect ∧
        ∀ p v, s.heap.img.pixel p = some v → (s.heap.rect.movedTo x y).Covers p →
          s.heap.map.over (s.heap.rect.source x y p) v = v := by
  have hmatch := fun n => matches_drawSprite n himg hx hy hmap hsprite
  by_cases hfault : Corners s.heap.map s.heap.rect ∧ Meets s.heap.img x y s.heap.map s.heap.rect
  · -- the assembly reads from where there is nothing
    refine iff_of_false ?_ ?_
    · rintro ⟨limit, h⟩
      have hrun := hmatch limit
      rw [spriteWalk_eq_none hfault.1 hfault.2] at hrun
      obtain ⟨a, s', hs', -⟩ := h limit (le_refl _)
      exact absurd (hrun.symm.trans hs') (by simp)
    · rintro (h | h)
      · exact h hfault.1
      · exact h.1 hfault.2
  · have hsame : ∀ n ≥ s.heap.rect.width.toInt.toNat + 1,
        Runs (call (drawSprite n) s) fun _ s' => s'.heap.img = s.heap.img := by
      intro n hn
      have hrun := hmatch n
      rw [spriteWalk_eq_some hfault hn] at hrun
      exact Runs.mono hrun fun _ _ hheap => congrArg Heap.img hheap
    obtain ⟨img, hrun, hshape, hpixel⟩ :=
      exists_drawSprite s.heap.img x y s.heap.map s.heap.rect
    have hself : s.heap.img.pixel = touch (fun _ v => v) s.heap.img.pixel :=
      (touch_eq_self fun _ _ _ => rfl).symm
    rw [hrun, agreesFrom_iff hsame, eq_iff_of_touch hshape ⟨rfl, rfl⟩ hpixel hself]
    -- the corners are those of a sprite with pixels
    have hcorners : ∀ p, (s.heap.rect.movedTo x y).Covers p →
        (Corners s.heap.map s.heap.rect ↔ s.heap.rect.Inside s.heap.map ∧
          s.heap.rect.x.toInt + s.heap.rect.width.toInt < s.heap.map.width.toNat ∧
          s.heap.rect.y.toInt + s.heap.rect.height.toInt < s.heap.map.height.toNat) := by
      intro p hp
      obtain ⟨h0, h1, h2, h3⟩ := hp
      rw [Rect.movedTo] at h0 h1 h2 h3
      dsimp only at h0 h1 h2 h3
      exact corners_iff (by omega) (by omega)
    constructor
    · intro h
      refine or_iff_not_imp_left.mpr fun hpass => ?_
      rw [not_not] at hpass
      refine ⟨fun hmeets => hfault ⟨hpass, hmeets⟩, fun p v hv hp => ?_⟩
      have hsame := h p v hv
      rwa [if_pos ⟨(hcorners p hp).mp hpass, hp⟩] at hsame
    · intro h p v hv
      split
      · rename_i hp
        rcases h with h | h
        · exact absurd ((hcorners p hp.2).mpr hp.1) h
        · exact h.2 p v hv hp.2
      · rfl

/-- A sprite below the image. -/
theorem drawSprite_agrees_below :
    let img : Image := ⟨1, 1, [0x000000FF], rfl, by decide⟩
    let spritemap : Image := ⟨2, 2, [1, 2, 3, 4], rfl, by decide⟩
    let s := entry ⟨img, spritemap, ⟨0, 0, 1, 1⟩⟩ fun
      | rdi => .ptr (.image .img) 0
      | rdx => .word 1
      | rcx => .ptr (.image .map) 0
      | r8 => .ptr .rect 0
      | _ => .word 0
    AgreesFrom drawSprite s fun _ => Drawing.drawSprite img 0 1 spritemap ⟨0, 0, 1, 1⟩ := by
  refine (drawSprite_agrees_iff rfl rfl rfl rfl rfl).mpr (.inr ⟨by decide, ?_⟩)
  intro p v hv hp
  have hrow : p.2 < 1 := (contains_of_pixel hv).2.2.2
  exact absurd hp.2.2.1 (Int.not_le.mpr hrow)

/-- What the sums of `draw_sprite` in C may not exceed. -/
structure SpriteFits (x y : Int32) (sprite : Rect) : Prop where
  right : IsInt32 (sprite.x.toInt + sprite.width.toInt)
  bottom : IsInt32 (sprite.y.toInt + sprite.height.toInt)
  cols : ∀ col : ℤ, 0 ≤ col → col < sprite.width.toInt →
    IsInt32 (x.toInt + col) ∧ IsInt32 (sprite.x.toInt + col)
  rows : ∀ row : ℤ, 0 ≤ row → row < sprite.height.toInt →
    IsInt32 (y.toInt + row) ∧ IsInt32 (sprite.y.toInt + row)

/-- **A sprite that is higher than wide**, of which only the last row is in the image: the
assembly does not come so far. -/
theorem not_always_drawSprite_agrees : ¬∀ (s : State) (x y : Int32),
    s.reg rdi = .ptr (.image .img) 0 → (s.reg rsi).word? = some x.toUInt32 →
    (s.reg rdx).word? = some y.toUInt32 → s.reg rcx = .ptr (.image .map) 0 →
    s.reg r8 = .ptr .rect 0 → SpriteFits x y s.heap.rect →
    AgreesFrom drawSprite s
      fun _ => Drawing.drawSprite s.heap.img x y s.heap.map s.heap.rect := by
  intro h
  let img : Image := ⟨1, 1, [0x000000FF], rfl, by decide⟩
  let spritemap : Image := ⟨2, 3, [0, 0, 0xFF0000FF, 0, 0, 0], rfl, by decide⟩
  let s := entry ⟨img, spritemap, ⟨0, 0, 1, 2⟩⟩ fun
    | rdi => .ptr (.image .img) 0
    | rdx => .word (-1)
    | rcx => .ptr (.image .map) 0
    | r8 => .ptr .rect 0
    | _ => .word 0
  have hfits : SpriteFits 0 (-1) ⟨0, 0, 1, 2⟩ := by
    refine ⟨by decide, by decide, fun col h0 h1 => ?_, fun row h0 h1 => ?_⟩
    · obtain rfl : col = 0 := Int.le_antisymm (Int.lt_add_one_iff.mp h1) h0
      decide
    · have hrow : row = 0 ∨ row = 1 := by
        have h1 : row < 2 := h1
        omega
      rcases hrow with rfl | rfl <;> decide
  have hagrees := h s 0 (-1) rfl rfl rfl rfl rfl hfits
  have hsame : ∀ n ≥ 2, Runs (call (drawSprite n) s) fun _ s' => s'.heap.img = img := by
    intro n hn
    have hrun := matches_drawSprite (s := s) (x := 0) (y := -1) n rfl rfl rfl rfl rfl
    rw [spriteWalk_eq_some (by decide) hn] at hrun
    exact Runs.mono hrun fun _ _ hheap => congrArg Heap.img hheap
  have hred : (Drawing.drawSprite img 0 (-1) spritemap ⟨0, 0, 1, 2⟩).bind
      (fun img => img.pixel (0, 0)) = some 0xFF0000FF := by decide
  obtain ⟨img', hdraw, -⟩ := Option.bind_eq_some_iff.mp hred
  rw [show (fun _ : ℕ => Drawing.drawSprite s.heap.img 0 (-1) s.heap.map s.heap.rect) =
    fun _ => some img' from funext fun _ => hdraw, agreesFrom_iff hsame] at hagrees
  rw [hdraw, hagrees] at hred
  exact absurd hred (by decide)

end Agreement

end Asm

end Drawing

end Csf
