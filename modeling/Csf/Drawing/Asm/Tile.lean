import Csf.Drawing.Asm.Frame
import Csf.Drawing.Tile
import Csf.Lib.Lockstep

/-!
# Tiles, in assembly

`draw_tile` tests every pixel of the tile where the function in C works out beforehand what is
to be copied. Of the tilemap it checks two points: the last one of the tile, and the one whose
coordinates are the *size* of the tile. So a tile as wide or as high as the tilemap is not
copied.
-/

namespace Csf

namespace Drawing

namespace Asm

open X86 X86.Operand X86.Reg
open Canvas Ints Drawing.Image

/-! ### The function -/

/-- The body of `.Ltile_col_loop`, up to `.Lcol_advance`. -/
def tilePixel : Code Unit := do
  movl r11 rsi
  addl r15 rsi
  movl r10 rdx
  addl r14 rdx
  movq (top 0) rdi
  call inBounds
  cmpl (imm 0) rax
  if ← je then pure () else
  movl r15 rsi
  addl (mem 0 rbx) rsi
  movl r14 rdx
  addl (mem 4 rbx) rdx
  movq (top 8) rdi
  call computeIndex
  cmpl (imm (-1)) rax
  if ← je then pure () else
  movq (mem 8 rdi) r12
  movl (scaled r12 rax) r13
  movl r11 rsi
  addl r15 rsi
  movl r10 rdx
  addl r14 rdx
  movq (top 0) rdi
  call computeIndex
  cmpl (imm (-1)) rax
  if ← je then pure () else
  movq (mem 8 rdi) r12
  movl r13 (scaled r12 rax)

/-- `.Ltile_col_loop` -/
def lTileColLoop (n : ℕ) : Code Unit := loop n do
  cmpl (mem (-32) rbp) r15
  if ← jge then pure false else
  tilePixel
  incl r15
  pure true

/-- `.Ltile_row_loop` -/
def lTileRowLoop (n : ℕ) : Code Unit := loop n do
  cmpl (mem (-24) rbp) r14
  if ← jge then pure false else
  movl (imm 0) r15
  lTileColLoop n
  incl r14
  pure true

/-- `.Ltile_end_row_loop` -/
def lTileEndRowLoop : Code Unit := lEnd

/-- `draw_tile`, its loops limited to `n` rounds. -/
def drawTile (n : ℕ) : Code Unit := do
  pushq rbp
  pushq rbx
  pushq r12
  pushq r13
  pushq r14
  pushq r15
  movqRsp rbp
  subqRsp 80
  movq rdi (top 0)
  movq rcx (top 8)
  movq r8 rbx
  movl (imm 0) r14
  movl (imm 0) r15
  movl rdx r10
  movl rsi r11
  movl (mem 0 rbx) rsi
  movl (mem 4 rbx) rdx
  movl (mem 8 rbx) rsi
  movl rsi (mem (-32) rbp)
  movl (mem 12 rbx) rdx
  movl rdx (mem (-24) rbp)
  movq (top 8) rdi
  call inBounds
  cmpl (imm 0) rax
  if ← je then lTileEndRowLoop else
  movl (mem 0 rbx) rsi
  addl (mem 8 rbx) rsi
  decl rsi
  movl (mem 4 rbx) rdx
  addl (mem 12 rbx) rdx
  decl rdx
  movq (top 8) rdi
  call inBounds
  cmpl (imm 0) rax
  if ← je then lTileEndRowLoop else
  lTileRowLoop n
  lTileEndRowLoop

/-! ### One pixel -/

/-- One pixel of the tile, copied if it is in the image and there is one in the tilemap. -/
def copyTilePixel (x y : Int32) (tilemap : Image) (tile : Rect) (row col : Int32) (img : Image) :
    Option Image :=
  if Drawing.inBounds img (x + col) (y + row) then
    match tilemap.pixel ((col + tile.x).toInt, (row + tile.y).toInt) with
    | some color => img.store (Drawing.computeIndex img (x + col) (y + row)) color
    | none => some img
  else some img

section Pixel

variable {s : State} {x y row col : Int32}

/-- What the loops change. -/
abbrev tileRegs : List Reg := [rax, rcx, rdx, rsi, rdi, r12, r13, r14, r15]

/-- **Where the loops find the arguments**: the images and the size of the tile on the stack,
the rest in registers. -/
structure TileArgs (s : State) (x y : Int32) : Prop where
  img : (s.stack s.rsp).join (s.stack (s.rsp + 4)) = .ptr (.image .img) 0
  map : (s.stack (s.rsp + 8)).join (s.stack (s.rsp + 12)) = .ptr (.image .map) 0
  width : s.stack (s.rsp + 48) = .word s.heap.rect.width.toUInt32
  height : s.stack (s.rsp + 56) = .word s.heap.rect.height.toUInt32
  base : s.reg rbp = .frame (s.rsp + 80)
  tile : s.reg rbx = .ptr .rect 0
  x : s.reg r11 = .word x.toUInt32
  y : s.reg r10 = .word y.toUInt32

/-- The loops leave the arguments where they are. -/
theorem TileArgs.of_kept {s' : State} (h : TileArgs s x y) (hk : Kept tileRegs s s') (img : Image)
    (hheap : s'.heap = s.heap.setImage img .img) : TileArgs s' x y where
  img := by simp [hk.rsp, hk.stack, h.img]
  map := by simp [hk.rsp, hk.stack, h.map]
  width := by simp [hk.rsp, hk.stack, h.width, hheap]
  height := by simp [hk.rsp, hk.stack, h.height, hheap]
  base := by simp [hk.rsp, hk.reg, h.base]
  tile := by simp [hk.reg, h.tile]
  x := by simp [hk.reg, h.x]
  y := by simp [hk.reg, h.y]

/-- **One pixel of the tile** is copied like that. -/
theorem run_tilePixel (hs : TileArgs s x y) (hrow : s.reg r14 = .word row.toUInt32)
    (hcol : s.reg r15 = .word col.toUInt32) :
    Runs (tilePixel s) fun _ s' => Kept [rax, rcx, rdx, rsi, rdi, r12, r13] s s' ∧
      ∃ img, copyTilePixel x y s.heap.map s.heap.rect row col s.heap.img = some img ∧
        s'.heap = s.heap.setImage img .img := by
  rw [tilePixel, copyTilePixel, ← load_computeIndex]
  simp [↓run_bind, hs.x, hs.y, hrow, hcol, hs.img, ← Int32.toUInt32_add]
  refine (call_inBounds (k := .img) (x := (x + col).toUInt32) (y := (y + row).toUInt32) (by simp)
    (by simp) (by simp)).andThen ?_
  rintro - s₂ ⟨⟨hrsp₂, hreg₂, hstack₂⟩, hheap₂, hrax₂, -⟩
  simp at hrsp₂ hreg₂ hstack₂ hheap₂ hrax₂
  cases hin : Drawing.inBounds s.heap.img (x + col) (y + row)
  · simp [↓run_bind, hrax₂, hin, subFlags, hheap₂]
    refine ⟨hrsp₂, fun q hq => ?_, hstack₂⟩
    simp at hq
    simp [hq, hreg₂]
  have htarget := inBounds_iff.mp hin
  simp [↓run_bind, hrax₂, hin, subFlags, hheap₂, hreg₂, hstack₂, hrsp₂, hs.tile, hrow, hcol, hs.map,
    add_assoc, ← Int32.toUInt32_add]
  refine (call_computeIndex (k := .map) (x := (col + s.heap.rect.x).toUInt32)
    (y := (row + s.heap.rect.y).toUInt32) (by simp) (by simp) (by simp)).andThen ?_
  rintro - s₃ ⟨⟨hrsp₃, hreg₃, hstack₃⟩, hheap₃, hrax₃, -⟩
  simp [hheap₂, hrsp₂] at hrsp₃ hreg₃ hstack₃ hheap₃ hrax₃
  by_cases hsource : s.heap.map.Contains ((col + s.heap.rect.x).toInt, (row + s.heap.rect.y).toInt)
  swap
  · -- there is no pixel in the tilemap
    have hnone : s.heap.map.load (Drawing.computeIndex s.heap.map (col + s.heap.rect.x)
        (row + s.heap.rect.y)) = none := by rw [load_computeIndex, Image.pixel, if_neg hsource]
    rw [computeIndex_of_not_contains hsource] at hrax₃
    simp [↓run_bind, hrax₃, subFlags, hheap₃, hnone]
    refine ⟨hrsp₃, fun q hq => ?_, fun a ha => by simp [hstack₃, hstack₂, ha]⟩
    simp at hq
    simp [hq, hreg₃, hreg₂]
  have hne := computeIndex_ne hsource
  obtain ⟨color, hcolor⟩ := exists_pixel hsource
  rw [← load_computeIndex] at hcolor
  generalize Drawing.computeIndex s.heap.map (col + s.heap.rect.x) (row + s.heap.rect.y) = index
    at *
  have hdata := hcolor
  rw [Image.load] at hdata
  simp [↓run_bind, hrax₃, hne, hcolor, hdata, subFlags, hheap₃, hreg₃, hstack₃, hrsp₃, hreg₂,
    hstack₂, hs.x, hs.y, hs.img, hrow, hcol, ← Int32.toUInt32_add]
  refine (call_computeIndex (k := .img) (x := (x + col).toUInt32) (y := (y + row).toUInt32)
    (by simp) (by simp) (by simp)).andThen ?_
  rintro - s₄ ⟨⟨hrsp₄, hreg₄, hstack₄⟩, hheap₄, hrax₄, -⟩
  simp [hheap₃, hrsp₃] at hrsp₄ hreg₄ hstack₄ hheap₄ hrax₄
  have hlt : (Drawing.computeIndex s.heap.img (x + col) (y + row)).toNat <
      (s.heap.image .img).data.length := by
    rw [computeIndex_toNat htarget, Image.length_data]
    exact offset_lt htarget
  simp [↓run_bind, hrax₄, computeIndex_ne htarget, subFlags, hheap₄, hreg₄,
    store32_data _ _ _ _ hlt]
  refine ⟨⟨hrsp₄, fun q hq => ?_, fun a ha => by simp [hstack₄, hstack₃, hstack₂, ha]⟩, _,
    if_pos hlt, rfl⟩
  simp at hq
  simp [hq, hreg₄, hreg₃, hreg₂]

end Pixel

/-! ### The loops -/

section Loops

variable {s : State} {x y row : Int32}

/-- **The loop over the columns.** -/
theorem matches_lTileColLoop {n : ℕ} (row : Int32) (hn : s.heap.rect.width.toInt.toNat < n)
    (hs : TileArgs s x y) (hrow : s.reg r14 = .word row.toUInt32)
    (hcol : s.reg r15 = .word 0) :
    Matches (lTileColLoop n s)
      (forLt 0 s.heap.rect.width
        (fun col => copyTilePixel x y s.heap.map s.heap.rect row col) s.heap.img)
      fun img _ s' => Kept tileRegs s s' ∧ s'.reg r14 = .word row.toUInt32 ∧
        s'.heap = s.heap.setImage img .img := by
  refine matches_forLt (I := fun col img t => Kept tileRegs s t ∧ t.reg r14 = .word row.toUInt32 ∧
    t.reg r15 = .word col.toUInt32 ∧ t.heap = s.heap.setImage img .img) (by simpa using hn) ?_ ?_
    ⟨Kept.refl _ _, hrow, hcol, rfl⟩
  · rintro col img t hlt ⟨hkept, hrow, hcol, hheap⟩
    have ht := hs.of_kept hkept img hheap
    have hwidth := ht.width
    simp [hheap] at hwidth
    simp [↓run_bind, ht.base, hwidth, hcol, subFlags, hlt, add_assoc]
    refine Runs.matches (run_tilePixel (ht.of_kept ((Kept.refl _ t).setFlags _) t.heap.img
      (by simp)) (by simp [hrow]; rfl) (by simp [hcol]; rfl)) ?_
    rintro - t' ⟨hkept', img', hcopy, hheap'⟩
    simp [hheap] at hcopy hheap'
    simp [hcopy, hkept'.reg, hrow, hcol, hheap']
    have hmono := hkept'.mono (show _ ⊆ tileRegs by simp)
    exact ⟨(((hkept.setFlags _).again hmono).set (by simp) _).setFlags _, rfl⟩
  · rintro col img t hge ⟨hkept, hrow, hcol, hheap⟩
    have ht := hs.of_kept hkept img hheap
    have hwidth := ht.width
    simp [hheap] at hwidth
    simp [↓run_bind, ht.base, hwidth, hcol, subFlags, hge, add_assoc]
    exact ⟨hkept.setFlags _, hrow, hheap⟩

/-- **The loop over the rows.** -/
theorem matches_lTileRowLoop {n : ℕ} (hw : s.heap.rect.width.toInt.toNat < n)
    (hh : s.heap.rect.height.toInt.toNat < n) (hs : TileArgs s x y)
    (hrow : s.reg r14 = .word 0) :
    Matches (lTileRowLoop n s)
      (forLt 0 s.heap.rect.height (fun row => forLt 0 s.heap.rect.width
        (fun col => copyTilePixel x y s.heap.map s.heap.rect row col)) s.heap.img)
      fun img _ s' => Kept tileRegs s s' ∧ s'.heap = s.heap.setImage img .img := by
  refine matches_forLt (I := fun row img t => Kept tileRegs s t ∧ t.reg r14 = .word row.toUInt32 ∧
    t.heap = s.heap.setImage img .img) (by simpa using hh) ?_ ?_ ⟨Kept.refl _ _, hrow, rfl⟩
  · rintro row img t hlt ⟨hkept, hrow, hheap⟩
    have ht := hs.of_kept hkept img hheap
    have hheight := ht.height
    simp [hheap] at hheight
    simp [↓run_bind, ht.base, hheight, hrow, subFlags, hlt, add_assoc]
    have hcols := matches_lTileColLoop (n := n) (x := x) (y := y) row
      (s := (t.setFlags (some ⟨row.toUInt32 == s.heap.rect.height.toUInt32,
        row - s.heap.rect.height < 0, true⟩)).set32 r15 0) (by simpa [hheap] using hw)
      (ht.of_kept (((Kept.refl _ t).setFlags _).set (by simp) _) t.heap.img (by simp))
      (by simp [hrow]) (by simp)
    simp [hheap] at hcols
    refine hcols.runs ?_
    rintro img' - t' ⟨hkept', hrow', hheap'⟩
    simp [hrow', hheap']
    exact ⟨((((hkept.setFlags _).set (by simp) _).again hkept').set (by simp) _).setFlags _, rfl⟩
  · rintro row img t hge ⟨hkept, hrow, hheap⟩
    have ht := hs.of_kept hkept img hheap
    have hheight := ht.height
    simp [hheap] at hheight
    simp [↓run_bind, ht.base, hheight, hrow, subFlags, hge, add_assoc]
    exact ⟨hkept.setFlags _, hheap⟩

end Loops

/-! ### The whole function -/

/-- The corners that are checked, and the loops. -/
def checkedTile (img : Image) (x y : Int32) (tilemap : Image) (tile : Rect) : Option Image :=
  if Drawing.inBounds tilemap tile.width tile.height ∧
      Drawing.inBounds tilemap (tile.x + tile.width - 1) (tile.y + tile.height - 1) then
    forLt 0 tile.height (fun row => forLt 0 tile.width (fun col =>
      copyTilePixel x y tilemap tile row col)) img
  else some img

section Specs

variable {s : State} {x y : Int32}

/-- **`draw_tile`** goes as said, if the limit on its loops is larger than the tile. -/
theorem matches_drawTile {n : ℕ} (hw : s.heap.rect.width.toInt.toNat < n)
    (hh : s.heap.rect.height.toInt.toNat < n) (himg : s.reg rdi = .ptr (.image .img) 0)
    (hx : (s.reg rsi).word? = some x.toUInt32) (hy : (s.reg rdx).word? = some y.toUInt32)
    (hmap : s.reg rcx = .ptr (.image .map) 0) (htile : s.reg r8 = .ptr .rect 0) :
    Matches (call (drawTile n) s) (checkedTile s.heap.img x y s.heap.map s.heap.rect)
      fun img _ s' => Kept [rax, rcx, rdx, rsi, rdi, r10, r11] s s' ∧
        s'.heap = s.heap.setImage img .img := by
  rw [run_call, drawTile, checkedTile]
  simp [↓run_bind, himg, hx, hy, hmap, htile, add_assoc]
  refine Runs.matches (call_inBounds (k := .map) (x := s.heap.rect.width.toUInt32)
    (y := s.heap.rect.height.toUInt32) (by simp) (by simp) (by simp)) ?_
  rintro - s₂ ⟨hkept₂, hheap₂, hrax₂, -⟩
  have hsaved : Saved s s₂ := by
    refine .of_kept ⟨by simp, fun q hq => ?_, fun a ha => ?_, ?_, ?_, ?_, ?_, ?_, ?_, ?_⟩
      hkept₂ (by simp)
    · simp at hq
      simp [hq]
    · simp (disch := omega) [Function.update_of_ne]
    all_goals simp [add_assoc]
  have hargs : TileArgs s₂ x y := by
    refine .of_kept ⟨?_, ?_, ?_, ?_, ?_, ?_, ?_, ?_⟩ (hkept₂.mono (by simp)) s.heap.img ?_
    all_goals simp [hheap₂, add_assoc]
  simp at hheap₂ hrax₂
  cases hfirst : Drawing.inBounds s.heap.map s.heap.rect.width s.heap.rect.height
  · simp [hrax₂, hfirst, subFlags]
    refine (hsaved.of_kept ((Kept.refl [] _).setFlags _) (by simp)).runs_lEnd.mono ?_
    rintro - s' ⟨hkept, hheap⟩
    exact ⟨hkept, by simpa [hheap₂] using hheap⟩
  simp [↓run_bind, hrax₂, hfirst, subFlags, hargs.tile, hargs.map, hheap₂, add_assoc]
  refine Runs.matches (call_inBounds (k := .map)
    (x := (s.heap.rect.x + s.heap.rect.width - 1).toUInt32)
    (y := (s.heap.rect.y + s.heap.rect.height - 1).toUInt32) (by simp) (by simp; rfl)
    (by simp; rfl)) ?_
  rintro - s₃ ⟨⟨hrsp₃, hreg₃, hstack₃⟩, hheap₃, hrax₃, -⟩
  simp at hrsp₃ hreg₃ hstack₃
  simp [hheap₂, -Int32.toUInt32_sub, -Int32.toUInt32_add] at hheap₃ hrax₃
  have hkept : Kept tileRegs s₂ s₃ := by
    refine ⟨hrsp₃, fun q hq => ?_, hstack₃⟩
    simp at hq
    simp [hq, hreg₃]
  cases hlast : Drawing.inBounds s.heap.map (s.heap.rect.x + s.heap.rect.width - 1)
    (s.heap.rect.y + s.heap.rect.height - 1)
  · simp [hrax₃, hlast]
    refine (hsaved.of_kept (hkept.setFlags _) (by simp)).runs_lEnd.mono ?_
    rintro - s' ⟨hkept, hheap⟩
    exact ⟨hkept, by simpa [hheap₃] using hheap⟩
  simp [hrax₃, hlast]
  have hrow : s₂.reg r14 = .word 0 := by simp [hkept₂.reg]
  have hloops := matches_lTileRowLoop (n := n) (x := x) (y := y)
    (s := s₃.setFlags (some ⟨false, false, false⟩)) (by simpa [hheap₃] using hw)
    (by simpa [hheap₃] using hh)
    (hargs.of_kept (hkept.setFlags _) s.heap.img (by simp [hheap₃, hheap₂]))
    (by simp [hreg₃, hrow])
  simp [hheap₃] at hloops
  refine hloops.runs ?_
  rintro img - s₄ ⟨hkept₄, hheap₄⟩
  refine (hsaved.of_kept ((hkept.setFlags _).again hkept₄) (by simp)).runs_lEnd.mono ?_
  rintro - s' ⟨hkept, hheap⟩
  exact ⟨hkept, hheap.trans hheap₄⟩

end Specs

/-! ### Both versions -/

section Agreement

variable {img tilemap : Image} {tile : Rect} {x y : Int32}

/-- One pixel of a tile that lies inside the tilemap. -/
theorem exists_copyTilePixel (hin : tile.Inside tilemap) {row col : Int32}
    (hrow : 0 ≤ row.toInt ∧ row.toInt < tile.height.toInt)
    (hcol : 0 ≤ col.toInt ∧ col.toInt < tile.width.toInt) (img : Image) :
    ∃ img', copyTilePixel x y tilemap tile row col img = some img' ∧ SameShape img img' ∧
      img'.pixel = touch (fun p v => if p.2 - y.toInt = row.toInt ∧ p.1 - x.toInt = col.toInt then
        (tilemap.pixel (tile.source x y p)).getD v else v) img.pixel := by
  obtain ⟨hx0, -, hx, hy0, -, hy⟩ := hin
  have hwidth := tilemap.width_lt (by omega)
  have hheight := tilemap.height_lt (by omega)
  rw [copyTilePixel]
  cases hbounds : Drawing.inBounds img (x + col) (y + row)
  · -- outside of the image
    refine ⟨img, rfl, ⟨rfl, rfl⟩, (touch_eq_self fun p v hv => if_neg fun h => ?_).symm⟩
    have hp := contains_of_pixel hv
    rw [(eq_add_iff hp hcol.1 hrow.1).mpr h.symm, ← inBounds_iff, hbounds] at hp
    exact Bool.false_ne_true hp
  · have hsx : (col + tile.x).toInt = tile.x.toInt + col.toInt := by
      rw [toInt_add]
      omega
    have hsy : (row + tile.y).toInt = tile.y.toInt + row.toInt := by
      rw [toInt_add]
      omega
    have hsource : tilemap.Contains ((col + tile.x).toInt, (row + tile.y).toInt) := by
      rw [hsx, hsy]
      exact ⟨by omega, by omega, by omega, by omega⟩
    obtain ⟨color, hcolor⟩ := exists_pixel hsource
    obtain ⟨img', hstore, hshape, hpixel⟩ := exists_store (inBounds_iff.mp hbounds) color
    refine ⟨img', ?_, hshape, hpixel.trans (touch_congr fun p v hv => ?_)⟩
    · rw [hcolor]
      exact hstore
    · have hiff := eq_add_iff (x := x) (y := y) (contains_of_pixel hv) hcol.1 hrow.1
      rw [if_congr (hiff.trans and_comm) rfl rfl]
      split
      · rename_i hp
        rw [Rect.source, hp.1, hp.2, ← hsx, ← hsy, hcolor]
        rfl
      · rfl

/-- **What the assembly copies.** -/
theorem exists_checkedTile (hin : tile.Inside tilemap) (hw : 0 < tile.width.toInt)
    (hh : 0 < tile.height.toInt) (img : Image) (x y : Int32) :
    ∃ img', checkedTile img x y tilemap tile = some img' ∧ SameShape img img' ∧
      img'.pixel = touch (fun p v => if (tile.width.toInt < tilemap.width.toNat ∧
          tile.height.toInt < tilemap.height.toNat) ∧ (tile.movedTo x y).Covers p then
        (tilemap.pixel (tile.source x y p)).getD v else v) img.pixel := by
  have hcorner : Drawing.inBounds tilemap tile.width tile.height = true ↔
      tile.width.toInt < tilemap.width.toNat ∧ tile.height.toInt < tilemap.height.toNat := by
    rw [inBounds_iff, Contains]
    omega
  have hlast : Drawing.inBounds tilemap (tile.x + tile.width - 1) (tile.y + tile.height - 1) := by
    obtain ⟨hx0, -, hx, hy0, -, hy⟩ := hin
    have hwidth := tilemap.width_lt (by omega)
    have hheight := tilemap.height_lt (by omega)
    rw [inBounds_iff, Contains, toInt_sub, toInt_sub, toInt_add, toInt_add,
      show (1 : Int32).toInt = 1 from rfl]
    omega
  have hcovers : ∀ p : ℤ × ℤ, (tile.movedTo x y).Covers p ↔
      (0 ≤ p.2 - y.toInt ∧ p.2 - y.toInt < tile.height.toInt) ∧
        0 ≤ p.1 - x.toInt ∧ p.1 - x.toInt < tile.width.toInt := by
    intro p
    rw [Rect.Covers, Rect.movedTo]
    dsimp only
    omega
  rw [checkedTile]
  by_cases hsmall : tile.width.toInt < tilemap.width.toNat ∧
      tile.height.toInt < tilemap.height.toNat
  · obtain ⟨img', hrun, hshape, hpixel⟩ : ∃ img', forLt 0 tile.height (fun row =>
        forLt 0 tile.width (fun col => copyTilePixel x y tilemap tile row col)) img = some img' ∧
        SameShape img img' ∧ img'.pixel = touch (fun p v =>
          if (0 ≤ p.2 - y.toInt ∧ p.2 - y.toInt < tile.height.toInt) ∧
            0 ≤ p.1 - x.toInt ∧ p.1 - x.toInt < tile.width.toInt then
          (tilemap.pixel (tile.source x y p)).getD v else v) img.pixel := by
      refine forLt_forLt_touch (fun row col t hrow hcol (ht : SameShape img t) => ?_) ⟨rfl, rfl⟩
      obtain ⟨t', hrun, hshape, hpixel⟩ :=
        exists_copyTilePixel (x := x) (y := y) hin hrow hcol t
      exact ⟨t', hrun, ht.trans hshape, hpixel⟩
    refine ⟨img', (if_pos ⟨hcorner.mpr hsmall, hlast⟩).trans hrun, hshape,
      hpixel.trans (touch_congr fun p v _ => if_congr ?_ rfl rfl)⟩
    rw [hcovers, and_iff_right hsmall]
  · exact ⟨img, if_neg fun h => hsmall (hcorner.mp h.1), ⟨rfl, rfl⟩,
      (touch_eq_self fun p v _ => if_neg fun h => hsmall h.1).symm⟩

/-- What is seen of the tile is in the tilemap. -/
theorem contains_source (hin : tile.Inside tilemap) {p : ℤ × ℤ}
    (hp : (tile.movedTo x y).Covers p) : tilemap.Contains (tile.source x y p) := by
  obtain ⟨hx0, -, hx, hy0, -, hy⟩ := hin
  obtain ⟨h0, h1, h2, h3⟩ := hp
  rw [Rect.movedTo] at h0 h1 h2 h3
  dsimp only at h0 h1 h2 h3
  rw [Rect.source]
  exact ⟨by dsimp only; omega, by dsimp only; omega, by dsimp only; omega, by dsimp only; omega⟩

variable {s : State}

/-- **Both versions of `draw_tile` leave the same image** of a tile that lies inside the tilemap,
if and only if it is smaller than the tilemap in both directions, or nothing of it would be
seen. -/
theorem drawTile_agrees_iff (himg : s.reg rdi = .ptr (.image .img) 0)
    (hx : (s.reg rsi).word? = some x.toUInt32) (hy : (s.reg rdx).word? = some y.toUInt32)
    (hmap : s.reg rcx = .ptr (.image .map) 0) (htile : s.reg r8 = .ptr .rect 0)
    (hx0 : 0 ≤ x) (hy0 : 0 ≤ y) (hw : 0 < s.heap.rect.width) (hh : 0 < s.heap.rect.height)
    (hin : s.heap.rect.Inside s.heap.map) :
    AgreesFrom drawTile s
        (fun _ => Drawing.drawTile s.heap.img x y s.heap.map s.heap.rect) ↔
      (s.heap.rect.width.toInt < s.heap.map.width.toNat ∧
        s.heap.rect.height.toInt < s.heap.map.height.toNat) ∨
      ∀ p v, s.heap.img.pixel p = some v → (s.heap.rect.movedTo x y).Covers p →
        s.heap.map.pixel (s.heap.rect.source x y p) = some v := by
  rw [Int32.le_iff_toInt_le, Int32.toInt_zero] at hx0 hy0
  rw [Int32.lt_iff_toInt_lt, Int32.toInt_zero] at hw hh
  obtain ⟨img, hrun, hshape, hpixel⟩ := exists_checkedTile hin hw hh s.heap.img x y
  obtain ⟨img', hrun', hshape', hpixel'⟩ : CopiesTile s.heap.img x y s.heap.map s.heap.rect :=
    copiesTile_of_ends ⟨by omega, by omega⟩
  have hends : ∀ n ≥ max s.heap.rect.width.toInt.toNat s.heap.rect.height.toInt.toNat + 1,
      Runs (call (drawTile n) s) fun _ s' => s'.heap.img = img := by
    intro n hn
    have hmatch := matches_drawTile (n := n) (by omega) (by omega) himg hx hy hmap htile
    rw [hrun] at hmatch
    refine Runs.mono hmatch ?_
    rintro - s' ⟨-, hheap⟩
    rw [hheap]
    rfl
  rw [hrun', agreesFrom_iff hends, eq_iff_of_touch hshape' hshape hpixel' hpixel]
  constructor
  · intro h
    refine or_iff_not_imp_left.mpr fun hlarge p v hv hp => ?_
    have hsame := h p v hv
    obtain ⟨u, hu⟩ := exists_pixel (contains_source hin hp)
    rw [if_pos ⟨hin, hp⟩, if_neg fun h => hlarge h.1, hu, Option.getD_some] at hsame
    rw [hu, hsame]
  · rintro (h | h) p v hv
    · exact if_congr (by rw [and_iff_right hin, and_iff_right h]) rfl rfl
    · by_cases hp : (s.heap.rect.movedTo x y).Covers p
      · rw [h p v hv hp, Option.getD_some, ite_self, ite_self]
      · rw [if_neg fun h => hp h.2, if_neg fun h => hp h.2]

/-- A tile of one pixel out of a tilemap of two by two. -/
theorem drawTile_agrees_pixel :
    let img : Image := ⟨1, 1, [0x000000FF], rfl, by decide⟩
    let tilemap : Image := ⟨2, 2, [1, 2, 3, 4], rfl, by decide⟩
    let s := entry ⟨img, tilemap, ⟨1, 1, 1, 1⟩⟩ fun
      | rdi => .ptr (.image .img) 0
      | rcx => .ptr (.image .map) 0
      | r8 => .ptr .rect 0
      | _ => .word 0
    AgreesFrom drawTile s fun _ => Drawing.drawTile img 0 0 tilemap ⟨1, 1, 1, 1⟩ :=
  (drawTile_agrees_iff rfl rfl rfl rfl rfl (by decide) (by decide) (by decide) (by decide)
    (by decide)).mpr (.inl (by decide))

/-- **A tile that fills the tilemap** is copied by the function in C only: both have one
pixel. -/
theorem not_always_drawTile_agrees : ¬∀ (s : State) (x y : Int32),
    s.reg rdi = .ptr (.image .img) 0 → (s.reg rsi).word? = some x.toUInt32 →
    (s.reg rdx).word? = some y.toUInt32 → s.reg rcx = .ptr (.image .map) 0 →
    s.reg r8 = .ptr .rect 0 → 0 ≤ x → 0 ≤ y → IsInt32 (x.toInt + s.heap.rect.width.toInt) →
    IsInt32 (y.toInt + s.heap.rect.height.toInt) → 0 < s.heap.rect.width →
    0 < s.heap.rect.height → s.heap.rect.Inside s.heap.map →
    AgreesFrom drawTile s fun _ => Drawing.drawTile s.heap.img x y s.heap.map s.heap.rect := by
  intro h
  let img : Image := ⟨1, 1, [7], rfl, by decide⟩
  let tilemap : Image := ⟨1, 1, [9], rfl, by decide⟩
  let s := entry ⟨img, tilemap, ⟨0, 0, 1, 1⟩⟩ fun
    | rdi => .ptr (.image .img) 0
    | rcx => .ptr (.image .map) 0
    | r8 => .ptr .rect 0
    | _ => .word 0
  obtain ⟨limit, hlimit⟩ := h s 0 0 rfl rfl rfl rfl rfl (by decide) (by decide) (by decide)
    (by decide) (by decide) (by decide) (by decide)
  obtain ⟨a, s', hrun, himg⟩ := hlimit (max limit 2) (le_max_left _ _)
  have hmatch := matches_drawTile (s := s) (x := 0) (y := 0) (n := max limit 2)
    (lt_of_lt_of_le (by decide) (le_max_right limit 2))
    (lt_of_lt_of_le (by decide) (le_max_right limit 2)) rfl rfl rfl rfl rfl
  -- the assembly leaves the image as it was
  rw [show checkedTile s.heap.img 0 0 s.heap.map s.heap.rect = some img from by rfl, hrun] at hmatch
  have hsame : s'.heap.img = img := congrArg Heap.img (((matches_some _ _ _).mp hmatch).2)
  rw [hsame] at himg
  have hnine : (Drawing.drawTile img 0 0 tilemap ⟨0, 0, 1, 1⟩).bind (fun img => img.pixel (0, 0)) =
      some 9 := by decide
  rw [show Drawing.drawTile img 0 0 tilemap ⟨0, 0, 1, 1⟩ = some img from himg] at hnine
  exact absurd hnine (by decide)

end Agreement

end Asm

end Drawing

end Csf
