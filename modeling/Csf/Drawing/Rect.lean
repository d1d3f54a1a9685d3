import Csf.Drawing.Image

/-!
# Rectangles

`draw_rect` brings the sides of the rectangle within the image and paints what is
between them. The comparison with the width of the image is one of unsigned numbers: a
right side at a negative coordinate counts as one far to the right, and is brought to
the right side of the image. Likewise below. So a rectangle that lies wholly to the left of
the image paints every column (`Csf.Drawing.Rect.Reaches`), and
`Csf.Drawing.paintsRect_iff` says when no harm is done.
-/

namespace Csf

namespace Drawing

open Canvas Ints Image

/-- `draw_rect` -/
def drawRect (img : Image) (rect : Rect) (color : UInt32) : Option Image :=
  if rect.width ≤ 0 ∨ rect.height ≤ 0 then some img
  else
    let minX := rect.x
    let minY := rect.y
    let maxX := rect.x + rect.width
    let maxY := rect.y + rect.height
    let minX := if minX < 0 then 0 else minX
    let minY := if minY < 0 then 0 else minY
    let maxX := if maxX.toUInt32 > img.width then img.width.toInt32 else maxX
    let maxY := if maxY.toUInt32 > img.height then img.height.toInt32 else maxY
    forLt minX maxX (fun col => forLt minY maxY (fun row img => drawPixel img col row color)) img

namespace Rect

variable (rect : Rect) (p : ℤ × ℤ)

/-- The points of an image that `draw_rect` paints: those of the rectangle, and all columns if
it ends to the left of the image, and all rows if it ends above it. -/
def Reaches : Prop :=
  (rect.x.toInt + rect.width.toInt < 0 ∨
      rect.x.toInt ≤ p.1 ∧ p.1 < rect.x.toInt + rect.width.toInt) ∧
    (rect.y.toInt + rect.height.toInt < 0 ∨
      rect.y.toInt ≤ p.2 ∧ p.2 < rect.y.toInt + rect.height.toInt)

instance : Decidable (rect.Reaches p) := inferInstanceAs (Decidable (_ ∧ _))

end Rect

variable {img : Image} {rect : Rect}

/-- A side of a rectangle, brought within an image of the given size. The lower one becomes
zero if it is negative; the upper one becomes the size if it is larger, and also if it is
negative. -/
theorem clamp_iff (a : Int32) {w : Int32} {size : UInt32} {i : ℤ} (hw : 0 < w.toInt)
    (hsize : size.toNat < 2 ^ 31) (h0 : 0 ≤ i) (hi : i < size.toNat) :
    ((if a < 0 then 0 else a : Int32).toInt ≤ i ∧
        i < (if (a + w).toUInt32 > size then size.toInt32 else a + w : Int32).toInt) ↔
      a.toInt + w.toInt < 0 ∨ a.toInt ≤ i ∧ i < a.toInt + w.toInt := by
  have ha := toInt_bounds a
  have hwb := toInt_bounds w
  have hadd := toInt_add a w
  have hsum := toNat_toUInt32 (a + w)
  have hs := toInt_toInt32 size
  rw [toInt_max_zero]
  split
  · rename_i h
    rw [gt_iff_lt, UInt32.lt_iff_toNat_lt] at h
    omega
  · rename_i h
    rw [gt_iff_lt, UInt32.lt_iff_toNat_lt] at h
    omega

/-- **What `draw_rect` paints.** -/
theorem exists_drawRect (img : Image) (color : UInt32) (hw : 0 < rect.width.toInt)
    (hh : 0 < rect.height.toInt) :
    ∃ img', drawRect img rect color = some img' ∧ SameShape img img' ∧
      img'.pixel = touch (fun p v => if rect.Reaches p then blendColors color v else v)
        img.pixel := by
  have hpos : ¬(rect.width ≤ 0 ∨ rect.height ≤ 0) := by
    rw [Int32.le_iff_toInt_le, Int32.le_iff_toInt_le, Int32.toInt_zero]
    omega
  rw [drawRect, if_neg hpos]
  dsimp only
  generalize hminX : (if rect.x < 0 then 0 else rect.x : Int32) = minX
  generalize hminY : (if rect.y < 0 then 0 else rect.y : Int32) = minY
  generalize hmaxX : (if (rect.x + rect.width).toUInt32 > img.width then img.width.toInt32
    else rect.x + rect.width : Int32) = maxX
  generalize hmaxY : (if (rect.y + rect.height).toUInt32 > img.height then img.height.toInt32
    else rect.y + rect.height : Int32) = maxY
  obtain ⟨img', hrun, hshape, hpixel⟩ : ∃ img',
      forLt minX maxX (fun col => forLt minY maxY (fun row s => drawPixel s col row color)) img =
        some img' ∧ SameShape img img' ∧
      img'.pixel = touch (fun p v => if (minX.toInt ≤ p.1 ∧ p.1 < maxX.toInt) ∧
        minY.toInt ≤ p.2 ∧ p.2 < maxY.toInt then blendColors color v else v) img.pixel := by
    refine forLt_forLt_touch (fun col row t _ _ (ht : SameShape img t) => ?_) ⟨rfl, rfl⟩
    obtain ⟨t', hrun, hshape, hpixel⟩ := exists_drawPixel t col row color
    refine ⟨t', hrun, ht.trans hshape, ?_⟩
    simpa only [Prod.ext_iff] using hpixel
  refine ⟨img', hrun, hshape, hpixel.trans (touch_congr fun p v hv => ?_)⟩
  obtain ⟨h0, h1, h2, h3⟩ := contains_of_pixel hv
  have hx := clamp_iff rect.x hw (img.width_lt (by omega)) h0 h1
  have hy := clamp_iff rect.y hh (img.height_lt (by omega)) h2 h3
  rw [hminX, hmaxX] at hx
  rw [hminY, hmaxY] at hy
  exact if_congr (and_congr hx hy) rfl rfl

/-- **`draw_rect` paints the rectangle**, each of its pixels once and no other one. -/
def PaintsRect (img : Image) (rect : Rect) (color : UInt32) : Prop :=
  ∃ img', drawRect img rect color = some img' ∧ SameShape img img' ∧
    img'.pixel = touch (fun p v => if rect.Covers p then blendColors color v else v) img.pixel

/-- A rectangle that ends left of the image or above it has no point of the image. -/
theorem not_covers {p : ℤ × ℤ} (hp : img.Contains p)
    (h : ¬(0 ≤ rect.x.toInt + rect.width.toInt ∧ 0 ≤ rect.y.toInt + rect.height.toInt)) :
    ¬rect.Covers p := by
  obtain ⟨h0, -, h2, -⟩ := hp
  rintro ⟨-, hx, -, hy⟩
  omega

/-- **`draw_rect` paints the rectangle if and only if** it is empty, or does not end left of
the image or above it, or the color leaves alone what is painted all the same. -/
theorem paintsRect_iff (img : Image) (rect : Rect) (color : UInt32) :
    PaintsRect img rect color ↔
      rect.width ≤ 0 ∨ rect.height ≤ 0 ∨
      (0 ≤ rect.x.toInt + rect.width.toInt ∧ 0 ≤ rect.y.toInt + rect.height.toInt) ∨
      ∀ p v, img.pixel p = some v → rect.Reaches p → blendColors color v = v := by
  rw [Int32.le_iff_toInt_le, Int32.le_iff_toInt_le, Int32.toInt_zero]
  by_cases hempty : rect.width.toInt ≤ 0 ∨ rect.height.toInt ≤ 0
  · -- nothing to paint
    have hdraw : drawRect img rect color = some img := by
      rw [drawRect, if_pos]
      rwa [Int32.le_iff_toInt_le, Int32.le_iff_toInt_le]
    refine iff_of_true ⟨img, hdraw, ⟨rfl, rfl⟩, (touch_eq_self fun p v _ => if_neg ?_).symm⟩ ?_
    · rintro ⟨hx, hx', hy, hy'⟩
      omega
    · rcases hempty with h | h
      · exact .inl h
      · exact .inr (.inl h)
  obtain ⟨img', hrun, hshape, hpixel⟩ := exists_drawRect img color
    (by omega : 0 < rect.width.toInt) (by omega : 0 < rect.height.toInt)
  have hiff : PaintsRect img rect color ↔ ∀ p v, img.pixel p = some v →
      (if rect.Reaches p then blendColors color v else v) =
        if rect.Covers p then blendColors color v else v := by
    constructor
    · rintro ⟨img'', hrun', -, hpixel'⟩ p v hv
      obtain rfl := Option.some.inj (hrun.symm.trans hrun')
      exact eq_of_touch_eq (hpixel.symm.trans hpixel') hv
    · intro h
      exact ⟨img', hrun, hshape, hpixel.trans (touch_congr h)⟩
  rw [hiff]
  by_cases hends : 0 ≤ rect.x.toInt + rect.width.toInt ∧ 0 ≤ rect.y.toInt + rect.height.toInt
  · refine iff_of_true (fun p v _ => if_congr ?_ rfl rfl) (.inr (.inr (.inl hends)))
    rw [Rect.Reaches, Rect.Covers]
    omega
  · constructor
    · intro h
      refine .inr (.inr (.inr fun p v hv hreach => ?_))
      have hp := h p v hv
      rwa [if_pos hreach, if_neg (not_covers (contains_of_pixel hv) hends)] at hp
    · intro h p v hv
      rw [if_neg (not_covers (contains_of_pixel hv) hends)]
      split
      · rename_i hreach
        have hblend : ∀ p v, img.pixel p = some v → rect.Reaches p → blendColors color v = v := by
          rcases h with h | h | h | h
          · exact absurd (.inl h) hempty
          · exact absurd (.inr h) hempty
          · exact absurd h hends
          · exact h
        exact hblend p v hv hreach
      · rfl

/-- **A rectangle left of the image is painted**: one pixel wide, two columns to the left of an
image that has one pixel. -/
theorem not_always_paintsRect : ¬∀ img rect color, PaintsRect img rect color := by
  intro h
  obtain ⟨img', hrun, -, hpixel⟩ := h ⟨1, 1, [0x000000FF], rfl, by decide⟩ ⟨-2, 0, 1, 1⟩ 0xFF0000FF
  have hred : (drawRect ⟨1, 1, [0x000000FF], rfl, by decide⟩ ⟨-2, 0, 1, 1⟩ 0xFF0000FF).bind
      (fun img => img.pixel (0, 0)) = some 0xFF0000FF := by decide
  rw [hrun, Option.bind_some, hpixel] at hred
  exact absurd hred (by decide)

end Drawing

end Csf
