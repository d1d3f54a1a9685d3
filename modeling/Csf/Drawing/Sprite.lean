import Csf.Drawing.Image

/-!
# Sprites

`draw_sprite` blends a rectangle of one image, the spritemap, into another one, a pixel at a
time, and leaves out what falls outside. Before it begins it checks the corners of the
rectangle, and takes for the last one the point that is just outside of it. So a sprite that
touches the last column or the last row of the spritemap is not drawn
(`Csf.Drawing.blendsSprite_iff`).
-/

namespace Csf

namespace Drawing

open Canvas Ints Image

/-- `draw_sprite`. The image and the spritemap are two objects: nothing that is drawn in the one
is read from the other. -/
def drawSprite (img : Image) (x y : Int32) (spritemap : Image) (sprite : Rect) : Option Image :=
  if !inBounds spritemap sprite.x sprite.y then some img
  else if !inBounds spritemap (sprite.x + sprite.width) (sprite.y + sprite.height) then some img
  else
    forLt 0 sprite.width (fun col => forLt 0 sprite.height (fun row img =>
      let outX := x + col
      let outY := y + row
      if !inBounds img outX outY then some img
      else do
        let index := computeIndex spritemap (sprite.x + col) (sprite.y + row)
        let color ← spritemap.load index
        drawPixel img outX outY color)) img

/-- The pixel at a point of an image, blended with a color. -/
def Image.over (map : Image) (q : ℤ × ℤ) (v : UInt32) : UInt32 :=
  match map.pixel q with
  | some color => blendColors color v
  | none => v

variable {img spritemap : Image} {sprite : Rect} {x y : Int32}

/-- The corners that `draw_sprite` checks are those of a sprite that leaves a column and a row
of the spritemap free. -/
theorem corners_iff (hw : 0 < sprite.width.toInt) (hh : 0 < sprite.height.toInt) :
    (inBounds spritemap sprite.x sprite.y = true ∧
        inBounds spritemap (sprite.x + sprite.width) (sprite.y + sprite.height) = true) ↔
      sprite.Inside spritemap ∧ sprite.x.toInt + sprite.width.toInt < spritemap.width.toNat ∧
        sprite.y.toInt + sprite.height.toInt < spritemap.height.toNat := by
  have hxadd := toInt_add sprite.x sprite.width
  have hyadd := toInt_add sprite.y sprite.height
  have hx := toInt_bounds sprite.x
  have hy := toInt_bounds sprite.y
  have hwb := toInt_bounds sprite.width
  have hhb := toInt_bounds sprite.height
  rw [inBounds_iff, inBounds_iff, Contains, Contains, Rect.Inside]
  constructor
  · rintro ⟨⟨h0, h1, h2, h3⟩, k0, k1, k2, k3⟩
    dsimp only at *
    omega
  · rintro ⟨⟨h0, h1, h2, h3, h4, h5⟩, k0, k1⟩
    have hwidth := spritemap.width_lt (by omega)
    have hheight := spritemap.height_lt (by omega)
    dsimp only
    omega

/-- **One pixel of the sprite.** -/
theorem exists_spritePixel (hin : sprite.Inside spritemap) {col row : Int32}
    (hcol : 0 ≤ col.toInt ∧ col.toInt < sprite.width.toInt)
    (hrow : 0 ≤ row.toInt ∧ row.toInt < sprite.height.toInt) (img : Image) :
    ∃ img', (if !inBounds img (x + col) (y + row) then some img
      else (spritemap.load (computeIndex spritemap (sprite.x + col) (sprite.y + row))).bind
        (drawPixel img (x + col) (y + row))) = some img' ∧ SameShape img img' ∧
      img'.pixel = touch (fun p v => if p.1 - x.toInt = col.toInt ∧ p.2 - y.toInt = row.toInt then
        spritemap.over (sprite.source x y p) v else v) img.pixel := by
  obtain ⟨hx0, -, hx, hy0, -, hy⟩ := hin
  have hwidth := spritemap.width_lt (by omega)
  have hheight := spritemap.height_lt (by omega)
  cases hbounds : inBounds img (x + col) (y + row)
  · -- outside of the image
    refine ⟨img, rfl, ⟨rfl, rfl⟩, (touch_eq_self fun p v hv => if_neg fun h => ?_).symm⟩
    have hp := contains_of_pixel hv
    rw [(eq_add_iff hp hcol.1 hrow.1).mpr h, ← inBounds_iff, hbounds] at hp
    exact Bool.false_ne_true hp
  · have hsx : (sprite.x + col).toInt = sprite.x.toInt + col.toInt := by
      rw [toInt_add]
      omega
    have hsy : (sprite.y + row).toInt = sprite.y.toInt + row.toInt := by
      rw [toInt_add]
      omega
    have hsource : spritemap.Contains ((sprite.x + col).toInt, (sprite.y + row).toInt) := by
      rw [hsx, hsy]
      exact ⟨by omega, by omega, by omega, by omega⟩
    obtain ⟨color, hcolor⟩ := exists_pixel hsource
    obtain ⟨img', hdraw, hshape, hpixel⟩ := exists_drawPixel img (x + col) (y + row) color
    refine ⟨img', ?_, hshape, hpixel.trans (touch_congr fun p v hv => ?_)⟩
    · rw [Bool.not_true, if_neg Bool.false_ne_true, load_computeIndex, hcolor]
      exact hdraw
    · have hiff := eq_add_iff (x := x) (y := y) (contains_of_pixel hv) hcol.1 hrow.1
      rw [if_congr hiff rfl rfl]
      split
      · rename_i hp
        rw [Image.over, Rect.source, hp.1, hp.2, ← hsx, ← hsy, hcolor]
      · rfl

/-- **What `draw_sprite` blends.** -/
theorem exists_drawSprite (img : Image) (x y : Int32) (spritemap : Image) (sprite : Rect) :
    ∃ img', drawSprite img x y spritemap sprite = some img' ∧ SameShape img img' ∧
      img'.pixel = touch (fun p v =>
        if (sprite.Inside spritemap ∧
            sprite.x.toInt + sprite.width.toInt < spritemap.width.toNat ∧
            sprite.y.toInt + sprite.height.toInt < spritemap.height.toNat) ∧
          (sprite.movedTo x y).Covers p then spritemap.over (sprite.source x y p) v else v)
        img.pixel := by
  have hcovers : ∀ p : ℤ × ℤ, (sprite.movedTo x y).Covers p ↔
      (0 ≤ p.1 - x.toInt ∧ p.1 - x.toInt < sprite.width.toInt) ∧
        0 ≤ p.2 - y.toInt ∧ p.2 - y.toInt < sprite.height.toInt := by
    intro p
    rw [Rect.Covers, Rect.movedTo]
    dsimp only
    omega
  by_cases hguard : inBounds spritemap sprite.x sprite.y = true ∧
      inBounds spritemap (sprite.x + sprite.width) (sprite.y + sprite.height) = true
  · obtain ⟨img', hrun, hshape, hpixel⟩ : ∃ img',
        forLt 0 sprite.width (fun col => forLt 0 sprite.height (fun row img =>
          if !inBounds img (x + col) (y + row) then some img
          else (spritemap.load (computeIndex spritemap (sprite.x + col) (sprite.y + row))).bind
            (drawPixel img (x + col) (y + row)))) img = some img' ∧ SameShape img img' ∧
        img'.pixel = touch (fun p v =>
          if (0 ≤ p.1 - x.toInt ∧ p.1 - x.toInt < sprite.width.toInt) ∧
            0 ≤ p.2 - y.toInt ∧ p.2 - y.toInt < sprite.height.toInt then
          spritemap.over (sprite.source x y p) v else v) img.pixel := by
      refine forLt_forLt_touch (fun col row t hcol hrow (ht : SameShape img t) => ?_) ⟨rfl, rfl⟩
      rw [Int32.toInt_zero] at hcol hrow
      have hin := (corners_iff (by omega) (by omega)).mp hguard
      obtain ⟨t', hrun, hshape, hpixel⟩ :=
        exists_spritePixel (x := x) (y := y) hin.1 hcol hrow t
      exact ⟨t', hrun, ht.trans hshape, hpixel⟩
    refine ⟨img', ?_, hshape, hpixel.trans (touch_congr fun p v _ => if_congr ?_ rfl rfl)⟩
    · rw [drawSprite, hguard.1, hguard.2]
      exact hrun
    · rw [hcovers]
      exact ⟨fun h => ⟨(corners_iff (by omega) (by omega)).mp hguard, h⟩, fun h => h.2⟩
  · refine ⟨img, ?_, ⟨rfl, rfl⟩, (touch_eq_self fun p v _ => if_neg ?_).symm⟩
    · rw [drawSprite]
      split
      · rfl
      split
      · rfl
      · rename_i h h'
        exact absurd ⟨by simpa using h, by simpa using h'⟩ hguard
    · rintro ⟨hin, hp⟩
      rw [hcovers] at hp
      exact hguard ((corners_iff (by omega) (by omega)).mpr hin)

/-- **`draw_sprite` blends the sprite** into the image if it lies inside the spritemap, and
changes nothing if it does not. -/
def BlendsSprite (img : Image) (x y : Int32) (spritemap : Image) (sprite : Rect) : Prop :=
  ∃ img', drawSprite img x y spritemap sprite = some img' ∧ SameShape img img' ∧
    img'.pixel = touch (fun p v =>
      if sprite.Inside spritemap ∧ (sprite.movedTo x y).Covers p then
        spritemap.over (sprite.source x y p) v else v) img.pixel

/-- **`draw_sprite` blends the sprite if and only if** it does not lie inside the spritemap at
all, or leaves its last column and its last row free, or would not be seen. -/
theorem blendsSprite_iff (img : Image) (x y : Int32) (spritemap : Image) (sprite : Rect) :
    BlendsSprite img x y spritemap sprite ↔
      ¬sprite.Inside spritemap ∨
      (sprite.x.toInt + sprite.width.toInt < spritemap.width.toNat ∧
        sprite.y.toInt + sprite.height.toInt < spritemap.height.toNat) ∨
      ∀ p v, img.pixel p = some v → (sprite.movedTo x y).Covers p →
        spritemap.over (sprite.source x y p) v = v := by
  obtain ⟨img', hrun, hshape, hpixel⟩ := exists_drawSprite img x y spritemap sprite
  constructor
  · rintro ⟨img'', hrun', -, hpixel'⟩
    obtain rfl := Option.some.inj (hrun.symm.trans hrun')
    by_cases hin : sprite.Inside spritemap
    · refine .inr (or_iff_not_imp_left.mpr fun hfree p v hv hp => ?_)
      have h := eq_of_touch_eq (hpixel.symm.trans hpixel') hv
      rw [if_neg fun h => hfree h.1.2, if_pos ⟨hin, hp⟩] at h
      exact h.symm
    · exact .inl hin
  · intro h
    refine ⟨img', hrun, hshape, hpixel.trans (touch_congr fun p v hv => ?_)⟩
    by_cases hp : sprite.Inside spritemap ∧ (sprite.movedTo x y).Covers p
    · rw [if_pos hp]
      rcases h with h | h | h
      · exact absurd hp.1 h
      · rw [if_pos ⟨⟨hp.1, h⟩, hp.2⟩]
      · rw [h p v hv hp.2, ite_self]
    · rw [if_neg hp, if_neg fun h => hp ⟨h.1.1, h.2⟩]

/-- **A sprite that fills the spritemap is not drawn**: both have one pixel. -/
theorem not_always_blendsSprite : ¬∀ img x y spritemap sprite,
    BlendsSprite img x y spritemap sprite := by
  intro h
  obtain ⟨img', hrun, -, hpixel⟩ := h ⟨1, 1, [0x000000FF], rfl, by decide⟩ 0 0
    ⟨1, 1, [0xFF0000FF], rfl, by decide⟩ ⟨0, 0, 1, 1⟩
  have hblack : (drawSprite ⟨1, 1, [0x000000FF], rfl, by decide⟩ 0 0
      ⟨1, 1, [0xFF0000FF], rfl, by decide⟩ ⟨0, 0, 1, 1⟩).bind
      (fun img => img.pixel (0, 0)) = some 0x000000FF := by decide
  rw [hrun, Option.bind_some, hpixel] at hblack
  exact absurd hblack (by decide)

end Drawing

end Csf
