import Csf.Drawing.Driver

/-!
# What a script draws

A script describes a picture: the canvas black at first, and then one thing painted over the
other (`Csf.Drawing.render`). This is said without images, arrays or overflow, and for all
drawing functions at once. Functions that do what they should, as long as an operation is
*sound* for them, draw the picture of every script of sound operations
(`Csf.Drawing.Paints.drawAll`); what is sound may depend on the size of the canvas, and on
nothing else about it.

For the functions in C, sound is what the drawing functions have been found to do as they
should (`Csf.Drawing.Op.SoundC`), and `c_draw` draws the picture (`Csf.Drawing.c_draw_paints`).
That it has a result at all takes less (`Csf.Drawing.c_draw_ends_iff`): what is not sound
mostly paints something else. What it takes in any case is that the picture can be stored
(`Csf.Drawing.Storable`), if it is to be written.
-/

namespace Csf

namespace Drawing

open Canvas Image Interaction Function

/-! ### Pictures -/

/-- The colors of the points of a picture. -/
abbrev Picture := ℤ × ℤ → Option UInt32

/-- **What an operation makes of a picture.** -/
def Op.paint : Op → Picture → Picture
  | .size width height, _ => fun p =>
      if 0 ≤ p.1 ∧ p.1 < width.toNat ∧ 0 ≤ p.2 ∧ p.2 < height.toNat then some 0x000000FF else none
  | .rect box color, v => touch (fun p v => if box.Covers p then blendColors color v else v) v
  | .circle x y r color, v =>
      touch (fun p v => if InDisk x y r p then blendColors color v else v) v
  | .tile x y tilemap part, v => touch (fun p v =>
      if part.Inside tilemap ∧ (part.movedTo x y).Covers p then
        (tilemap.pixel (part.source x y p)).getD v else v) v
  | .sprite x y spritemap part, v => touch (fun p v =>
      if part.Inside spritemap ∧ (part.movedTo x y).Covers p then
        spritemap.over (part.source x y p) v else v) v

/-- **The picture of a script**, painted over another one. -/
def render (ops : List Op) (v : Picture) : Picture := ops.foldl (fun v op => op.paint v) v

/-! ### Canvases -/

/-- An image with the size that the canvas has after an operation. -/
def Op.shape : Op → Image → Image
  | .size width height, img => (initImage width height).getD img
  | _, img => img

/-- An image with the size that the canvas has after a script. -/
def shapeAfter (ops : List Op) (img : Image) : Image := ops.foldl (fun img op => op.shape img) img

/-- All operations of a script have a property, each with the size that the canvas has then. -/
def Throughout (P : Op → Image → Prop) : List Op → Image → Prop
  | [], _ => True
  | op :: ops, img => P op img ∧ Throughout P ops (op.shape img)

variable {F : ℕ → DrawingFuncs} {P : Op → Image → Prop} {op : Op} {ops : List Op}
  {img img' : Image}

theorem Op.sameShape_shape (op : Op) (h : SameShape img img') :
    SameShape (op.shape img) (op.shape img') := by
  cases op with
  | size width height =>
    rw [shape, shape]
    cases initImage width height with
    | none => exact h
    | some img => exact ⟨rfl, rfl⟩
  | _ => exact h

/-- What depends on the size of the canvas only. -/
theorem Throughout.congr (hP : ∀ op img img', SameShape img img' → P op img → P op img')
    (h : Throughout P ops img) (hshape : SameShape img img') : Throughout P ops img' := by
  induction ops generalizing img img' with
  | nil => trivial
  | cons op ops ih =>
    exact ⟨hP op img img' hshape h.1, ih h.2 (op.sameShape_shape hshape)⟩

/-- Before there is a size, there are no points. -/
theorem pixel_noCanvas : noCanvas.pixel = fun _ => none := by
  funext p
  refine if_neg ?_
  rintro ⟨h0, h1, -⟩
  exact absurd (h0.trans_lt h1) (by decide)

/-- **Drawing functions draw the picture** of an operation, if it is sound. -/
def Paints (F : ℕ → DrawingFuncs) (P : Op → Image → Prop) : Prop :=
  ∀ op img, P op img → ∃ img', (∃ limit, ∀ n ≥ limit, op.draw (F n) img = some img') ∧
    SameShape (op.shape img) img' ∧ img'.pixel = op.paint img.pixel

/-- **They draw the picture of a script** of sound operations. -/
theorem Paints.drawAll (hF : Paints F P)
    (hP : ∀ op img img', SameShape img img' → P op img → P op img')
    (h : Throughout P ops img) :
    ∃ img', (∃ limit, ∀ n ≥ limit, Drawing.drawAll (F n) ops img = some img') ∧
      SameShape (shapeAfter ops img) img' ∧ img'.pixel = render ops img.pixel := by
  -- from any image that has the size of the canvas
  suffices hall : ∀ img₀, SameShape img img₀ → ∃ img',
      (∃ limit, ∀ n ≥ limit, Drawing.drawAll (F n) ops img₀ = some img') ∧
      SameShape (shapeAfter ops img) img' ∧ img'.pixel = render ops img₀.pixel from
    hall img ⟨rfl, rfl⟩
  intro img₀ hshape
  induction ops generalizing img img₀ with
  | nil => exact ⟨img₀, ⟨0, fun _ _ => rfl⟩, hshape, rfl⟩
  | cons op ops ih =>
    obtain ⟨img₁, ⟨limit, hdraw⟩, hshape₁, hpixel₁⟩ := hF op img₀ (hP op img img₀ hshape h.1)
    obtain ⟨img', ⟨limit', hdraws⟩, hshape', hpixel'⟩ :=
      ih h.2 img₁ ((op.sameShape_shape hshape).trans hshape₁)
    refine ⟨img', ⟨max limit limit', fun n hn => ?_⟩, hshape', ?_⟩
    · rw [Drawing.drawAll, hdraw n (le_of_max_le_left hn)]
      exact hdraws n (le_of_max_le_right hn)
    · rw [hpixel', hpixel₁]
      rfl

/-- A canvas that has a size at all. -/
def Op.Small : Op → Image → Prop
  | .size width height, _ => width.toNat * height.toNat < 2 ^ 31
  | _, _ => True

/-- **An operation is sound for the functions in C**: a rectangle or a tile that does not end
left of the canvas or above it, a circle for which 32 bits are enough, and a sprite that leaves
the last column and the last row of its image free. -/
def Op.SoundC : Op → Image → Prop
  | .size width height, _ => width.toNat * height.toNat < 2 ^ 31
  | .rect box _, _ => box.width ≤ 0 ∨ box.height ≤ 0 ∨
      0 ≤ box.x.toInt + box.width.toInt ∧ 0 ≤ box.y.toInt + box.height.toInt
  | .circle x y r _, img => r < 0 ∨
      RowsEnd img y r ∧ ∀ p, img.Contains p → (Circled x y r p ↔ InDisk x y r p)
  | .tile x y tilemap part, _ => ¬part.Passes tilemap ∨
      0 ≤ x.toInt + part.width.toInt ∧ 0 ≤ y.toInt + part.height.toInt
  | .sprite _ _ spritemap part, _ => ¬part.Inside spritemap ∨
      part.x.toInt + part.width.toInt < spritemap.width.toNat ∧
        part.y.toInt + part.height.toInt < spritemap.height.toNat

/-- **An operation ends** and reads nothing that is not there: the loop of a circle over the rows
comes to an end, and the tilemap has all that is copied of a tile. -/
def Op.EndsC : Op → Image → Prop
  | .circle _ y r _, img => r < 0 ∨ RowsEnd img y r
  | .tile x y tilemap part, img => part.Passes tilemap → ∀ i j,
      ColCopied img x tilemap part i → RowCopied img y tilemap part j →
        tilemap.Contains (sourceOf part x y i j)
  | _, _ => True

theorem RowsEnd.congr {y r : Int32} (hshape : SameShape img img') (h : RowsEnd img y r) :
    RowsEnd img' y r := by
  rwa [RowsEnd, hshape.2]

theorem Op.Small.congr (h : op.Small img) (img' : Image) : op.Small img' := by
  cases op with
  | size width height => exact h
  | _ => trivial

theorem Op.SoundC.congr (hshape : SameShape img img') (h : op.SoundC img) : op.SoundC img' := by
  cases op with
  | circle x y r color =>
    exact h.imp_right fun h => ⟨h.1.congr hshape, fun p hp => h.2 p (hshape.contains_iff.mp hp)⟩
  | _ => exact h

theorem Op.EndsC.congr (hshape : SameShape img img') (h : op.EndsC img) : op.EndsC img' := by
  cases op with
  | circle x y r color => exact h.imp_right fun h => h.congr hshape
  | tile x y tilemap part =>
    intro hpass i j hi hj
    rw [ColCopied, hshape.1] at hi
    rw [RowCopied, hshape.2] at hj
    exact h hpass i j hi hj
  | _ => exact h

/-- **The image that is left** by a script, when the loops have rounds enough. -/
def Leaves (F : ℕ → DrawingFuncs) (ops : List Op) (img : Image) : Prop :=
  ∃ limit, ∀ n ≥ limit, drawAll (F n) ops noCanvas = some img

section Program

variable {z : Zlib} {files : Files} {stdin : Str} (writable : Str → Bool) (prog filename : Str)

/-- **A program** whose functions leave an image is left with writing it. -/
theorem main_of_leaves {script : List Op × Option Str} (hplan : plan z files stdin = some script)
    (h : Leaves F script.1 img) :
    ∃ limit, ∀ n ≥ limit, main z (F n) files writable [prog, filename] stdin =
      finish z files writable filename (script.2.elim (.ok img) .error) := by
  obtain ⟨limit, hdraw⟩ := h
  refine ⟨limit, fun n hn => ?_⟩
  rw [main_eq_plan, hplan, Option.bind_some, hdraw n hn, Option.bind_some]

/-- What functions that draw pictures make of a script without mistakes: the picture, and, if it
can be stored, the file that is written of it. -/
theorem Paints.main (hF : Paints F P)
    (hP : ∀ op img img', SameShape img img' → P op img → P op img')
    (hplan : plan z files stdin = some (ops, none)) (hsound : Throughout P ops noCanvas)
    (hwritable : writable filename = true) :
    ∃ img : Image, SameShape (shapeAfter ops noCanvas) img ∧
      img.pixel = render ops (fun _ => none) ∧
      (Storable z img → ∃ file limit, (∀ n ≥ limit,
        Drawing.main z (F n) files writable [prog, filename] stdin =
          some ⟨0, [], update files filename (some file)⟩) ∧
        (Restores z img → readImageFile z (some file) = some (.ok img))) := by
  obtain ⟨img, hleaves, hshape, hpixel⟩ := hF.drawAll hP hsound
  refine ⟨img, hshape, hpixel.trans (congrArg (render ops) pixel_noCanvas), fun hstore => ?_⟩
  obtain ⟨file, hfile⟩ := Option.isSome_iff_exists.mp (isSome_writeImageFile_iff.mpr hstore)
  obtain ⟨limit, hmain⟩ := main_of_leaves writable prog filename hplan hleaves
  refine ⟨file, limit, fun n hn => (hmain n hn).trans ((if_pos hwritable).trans ?_),
    fun hzlib => readImageFile_of_writeImageFile hzlib hfile⟩
  rw [hfile, Option.map_some]

end Program

end Drawing

end Csf
