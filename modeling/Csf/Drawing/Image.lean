import Csf.Lib.Canvas
import Csf.Lib.Ints

/-!
# Images

`struct Image`, `struct Rect` and the helper functions of `c_drawing_funcs.c`, up to
`draw_pixel`, through which all blended drawing goes.

The fields of an image are unsigned and coordinates are signed, so the helpers convert
between the two; `Int32` and `UInt32` do what the C types do, sums and products that
overflow being wrapped around. A function that reads or writes an array outside of its
bounds has no result.

What the functions do is said of the values at the points of the plane
(`Csf.Drawing.Image.pixel`): the index of a point in the array is a detail of this module.
-/

namespace Csf

namespace Drawing

open Canvas Ints

/-- `struct Image`. Its array has as many elements as it has pixels, and no image has as
many as there are numbers in an `int32_t`. -/
structure Image where
  width : UInt32
  height : UInt32
  data : List UInt32
  length_data : data.length = width.toNat * height.toNat
  small : width.toNat * height.toNat < 2 ^ 31

/-- `struct Rect` -/
structure Rect where
  x : Int32
  y : Int32
  width : Int32
  height : Int32

/-! ### Helper functions -/

/-- `in_bounds` -/
def inBounds (img : Image) (x y : Int32) : Bool :=
  let imgWidth := img.width.toInt32
  let imgHeight := img.height.toInt32
  if y < 0 ∨ y ≥ imgHeight ∨ x < 0 ∨ x ≥ imgWidth then false else true

/-- `compute_index` -/
def computeIndex (img : Image) (x y : Int32) : UInt32 :=
  if !inBounds img x y then (-1 : Int32).toUInt32
  else
    let imgWidth := img.width.toInt32
    let index := y * imgWidth + x
    index.toUInt32

/-- `get_r` -/
def getR (color : UInt32) : UInt8 := ((color >>> 24) &&& 0xFF).toUInt8

/-- `get_g` -/
def getG (color : UInt32) : UInt8 := ((color >>> 16) &&& 0xFF).toUInt8

/-- `get_b` -/
def getB (color : UInt32) : UInt8 := ((color >>> 8) &&& 0xFF).toUInt8

/-- `get_a` -/
def getA (color : UInt32) : UInt8 := (color &&& 0xFF).toUInt8

/-- `blend_components` -/
def blendComponents (fg bg alpha : UInt32) : UInt8 :=
  let result := (alpha * fg + bg * (255 - alpha)) / 255
  result.toUInt8

/-- `blend_colors` -/
def blendColors (fg bg : UInt32) : UInt32 :=
  let a := getA fg
  if a = 0 then bg
  else if a = 255 then
    (getR fg).toUInt32 <<< 24 ||| (getG fg).toUInt32 <<< 16 ||| (getB fg).toUInt32 <<< 8 ||| 255
  else
    let finalR := blendComponents (getR fg).toUInt32 (getR bg).toUInt32 a.toUInt32
    let finalG := blendComponents (getG fg).toUInt32 (getG bg).toUInt32 a.toUInt32
    let finalB := blendComponents (getB fg).toUInt32 (getB bg).toUInt32 a.toUInt32
    finalR.toUInt32 <<< 24 ||| finalG.toUInt32 <<< 16 ||| finalB.toUInt32 <<< 8 ||| 255

/-- `img->data[index]`, read. -/
def Image.load (img : Image) (index : UInt32) : Option UInt32 := img.data[index.toNat]?

/-- The image with another value at a place of its array. -/
def Image.set (img : Image) (i : ℕ) (color : UInt32) : Image :=
  { img with
    data := img.data.set i color
    length_data := List.length_set.trans img.length_data }

/-- `img->data[index] = color` -/
def Image.store (img : Image) (index : UInt32) (color : UInt32) : Option Image :=
  if index.toNat < img.data.length then some (img.set index.toNat color) else none

/-- `set_pixel` -/
def setPixel (img : Image) (index : UInt32) (color : UInt32) : Option Image :=
  if index ≥ img.width * img.height then some img else img.store index color

/-- `draw_pixel` -/
def drawPixel (img : Image) (x y : Int32) (color : UInt32) : Option Image :=
  if !inBounds img x y then some img
  else do
    let index := computeIndex img x y
    let finalColor := blendColors color (← img.load index)
    setPixel img index finalColor

/-! ### The pixels of an image -/

namespace Image

variable {img img' : Image} {p q : ℤ × ℤ} {x y : Int32}

/-- **A point of an image**, column first. -/
def Contains (img : Image) (p : ℤ × ℤ) : Prop :=
  0 ≤ p.1 ∧ p.1 < img.width.toNat ∧ 0 ≤ p.2 ∧ p.2 < img.height.toNat

instance (img : Image) (p : ℤ × ℤ) : Decidable (img.Contains p) :=
  inferInstanceAs (Decidable (_ ∧ _ ∧ _ ∧ _))

/-- Where the value at a point is in the array. -/
def offset (img : Image) (p : ℤ × ℤ) : ℕ := p.2.toNat * img.width.toNat + p.1.toNat

/-- **The value at a point** of an image. -/
def pixel (img : Image) (p : ℤ × ℤ) : Option UInt32 :=
  if img.Contains p then img.data[img.offset p]? else none

/-- Two images have the same points. -/
def SameShape (img img' : Image) : Prop := img'.width = img.width ∧ img'.height = img.height

theorem SameShape.trans {img'' : Image} (h : SameShape img img') (h' : SameShape img' img'') :
    SameShape img img'' := ⟨h'.1.trans h.1, h'.2.trans h.2⟩

theorem SameShape.contains_iff (h : SameShape img img') : img'.Contains p ↔ img.Contains p := by
  rw [Contains, Contains, h.1, h.2]

theorem SameShape.offset_eq (h : SameShape img img') : img'.offset p = img.offset p := by
  rw [offset, offset, h.1]

/-- A dimension is an `int32_t`, unless the other one is zero. -/
theorem width_lt (h : 0 < img.height.toNat) : img.width.toNat < 2 ^ 31 :=
  Nat.lt_of_le_of_lt (Nat.le_mul_of_pos_right _ h) img.small

theorem height_lt (h : 0 < img.width.toNat) : img.height.toNat < 2 ^ 31 :=
  Nat.lt_of_le_of_lt (Nat.le_mul_of_pos_left _ h) img.small

theorem offset_lt (h : img.Contains p) : img.offset p < img.width.toNat * img.height.toNat := by
  obtain ⟨h0, h1, h2, h3⟩ := h
  have hrow : p.2.toNat + 1 ≤ img.height.toNat := by omega
  calc img.offset p < (p.2.toNat + 1) * img.width.toNat := by
        rw [offset, Nat.add_mul, Nat.one_mul]
        omega
    _ ≤ img.height.toNat * img.width.toNat := Nat.mul_le_mul_right _ hrow
    _ = img.width.toNat * img.height.toNat := Nat.mul_comm _ _

/-- Different points have different places in the array. -/
theorem offset_inj (hp : img.Contains p) (hq : img.Contains q) :
    img.offset p = img.offset q ↔ p = q := by
  refine ⟨fun h => ?_, fun h => h ▸ rfl⟩
  obtain ⟨hp0, hp1, hp2, -⟩ := hp
  obtain ⟨hq0, hq1, hq2, -⟩ := hq
  have hw : 0 < img.width.toNat := by omega
  have hrow : ∀ r : ℤ × ℤ, 0 ≤ r.1 → r.1 < img.width.toNat →
      img.offset r / img.width.toNat = r.2.toNat := by
    intro r h0 h1
    rw [offset, Nat.mul_comm, Nat.mul_add_div hw, Nat.div_eq_of_lt (by omega), Nat.add_zero]
  have h2 : p.2.toNat = q.2.toNat := by rw [← hrow p hp0 hp1, ← hrow q hq0 hq1, h]
  rw [offset, offset, h2] at h
  exact Prod.ext (by omega) (by omega)

theorem pixel_of_contains (h : img.Contains p) : img.pixel p = img.data[img.offset p]? := if_pos h

theorem exists_pixel (h : img.Contains p) : ∃ v, img.pixel p = some v := by
  have hlt : img.offset p < img.data.length := by
    rw [img.length_data]
    exact offset_lt h
  exact ⟨_, (pixel_of_contains h).trans (List.getElem?_eq_getElem hlt)⟩

theorem contains_of_pixel {v : UInt32} (h : img.pixel p = some v) : img.Contains p := by
  by_contra hp
  rw [pixel, if_neg hp] at h
  exact absurd h (by simp)

/-- Every place in the array is that of a point. -/
theorem exists_offset_eq {i : ℕ} (h : i < img.data.length) :
    ∃ p, img.Contains p ∧ img.offset p = i := by
  rw [img.length_data] at h
  have hw : 0 < img.width.toNat := Nat.pos_of_mul_pos_right (Nat.zero_lt_of_lt h)
  have hrow : i / img.width.toNat < img.height.toNat := Nat.div_lt_of_lt_mul h
  have hcol : i % img.width.toNat < img.width.toNat := Nat.mod_lt i hw
  refine ⟨((i % img.width.toNat : ℕ), (i / img.width.toNat : ℕ)),
    ⟨Int.natCast_nonneg _, Int.ofNat_lt.mpr hcol, Int.natCast_nonneg _, Int.ofNat_lt.mpr hrow⟩, ?_⟩
  rw [offset, Int.toNat_natCast, Int.toNat_natCast, Nat.div_add_mod']

/-- **An image is its shape and its pixels.** -/
theorem ext_pixel (hshape : SameShape img img') (hpixel : img'.pixel = img.pixel) : img' = img := by
  have hlen : img'.data.length = img.data.length := by
    rw [img'.length_data, img.length_data, hshape.1, hshape.2]
  have hdata : img'.data = img.data := by
    refine List.ext_getElem? fun i => ?_
    rcases Nat.lt_or_ge i img.data.length with hi | hi
    · obtain ⟨p, hp, rfl⟩ := exists_offset_eq hi
      have hp' : img'.pixel p = img.pixel p := congrFun hpixel p
      rwa [pixel_of_contains hp, pixel_of_contains (hshape.contains_iff.mpr hp),
        hshape.offset_eq] at hp'
    · rw [List.getElem?_eq_none (hlen ▸ hi), List.getElem?_eq_none hi]
  cases img
  cases img'
  obtain ⟨rfl, rfl⟩ := hshape
  obtain rfl := hdata
  rfl

/-- Two images made out of one are the same if the same has been done to its pixels. -/
theorem eq_iff_of_touch {img₁ img₂ : Image} {f g : ℤ × ℤ → UInt32 → UInt32}
    (hshape₁ : SameShape img img₁) (hshape₂ : SameShape img img₂)
    (hpixel₁ : img₁.pixel = touch f img.pixel) (hpixel₂ : img₂.pixel = touch g img.pixel) :
    img₁ = img₂ ↔ ∀ p v, img.pixel p = some v → f p v = g p v := by
  constructor
  · rintro rfl p v hv
    exact eq_of_touch_eq (hpixel₁.symm.trans hpixel₂) hv
  · intro h
    refine ext_pixel ⟨hshape₁.1.trans hshape₂.1.symm, hshape₁.2.trans hshape₂.2.symm⟩ ?_
    rw [hpixel₁, hpixel₂, touch_congr h]

end Image

namespace Rect

/-- **The points of a rectangle.** -/
def Covers (rect : Rect) (p : ℤ × ℤ) : Prop :=
  rect.x.toInt ≤ p.1 ∧ p.1 < rect.x.toInt + rect.width.toInt ∧
    rect.y.toInt ≤ p.2 ∧ p.2 < rect.y.toInt + rect.height.toInt

instance (rect : Rect) (p : ℤ × ℤ) : Decidable (rect.Covers p) :=
  inferInstanceAs (Decidable (_ ∧ _ ∧ _ ∧ _))

/-- **A rectangle that lies wholly inside an image**; it may be empty. -/
def Inside (rect : Rect) (img : Image) : Prop :=
  0 ≤ rect.x.toInt ∧ 0 ≤ rect.width.toInt ∧
    rect.x.toInt + rect.width.toInt ≤ img.width.toNat ∧
  0 ≤ rect.y.toInt ∧ 0 ≤ rect.height.toInt ∧
    rect.y.toInt + rect.height.toInt ≤ img.height.toNat

instance (rect : Rect) (img : Image) : Decidable (rect.Inside img) :=
  inferInstanceAs (Decidable (_ ∧ _ ∧ _ ∧ _ ∧ _ ∧ _))

/-- A rectangle of the same size, elsewhere. -/
def movedTo (rect : Rect) (x y : Int32) : Rect := { rect with x := x, y := y }

/-- The point of a rectangle that a point is copied from when the rectangle is moved. -/
def source (rect : Rect) (x y : Int32) (p : ℤ × ℤ) : ℤ × ℤ :=
  (rect.x.toInt + (p.1 - x.toInt), rect.y.toInt + (p.2 - y.toInt))

end Rect

namespace Image

variable {img img' : Image} {p q : ℤ × ℤ} {x y : Int32}

/-! ### What the helper functions do to the pixels -/

/-- **The bounds check is that of the image**, also where a dimension does not fit an
`int32_t`: then the other one is zero. -/
theorem inBounds_iff : inBounds img x y = true ↔ img.Contains (x.toInt, y.toInt) := by
  have hw := toInt_toInt32 img.width
  have hh := toInt_toInt32 img.height
  have hw32 : img.width.toNat < 2 ^ 32 := img.width.toNat_lt
  have hh32 : img.height.toNat < 2 ^ 32 := img.height.toNat_lt
  rw [inBounds, Contains]
  simp only [ge_iff_le, Int32.lt_iff_toInt_lt, Int32.le_iff_toInt_le, Int32.toInt_zero]
  split
  · rename_i hout
    refine iff_of_false Bool.false_ne_true fun hin => ?_
    obtain ⟨h0, h1, h2, h3⟩ := hin
    have hwidth := img.width_lt (by omega)
    have hheight := img.height_lt (by omega)
    omega
  · rename_i hin
    refine iff_of_true rfl ?_
    have hx := toInt_bounds x
    have hy := toInt_bounds y
    omega

/-- A point of an image, told by its distance from another point. A sum that overflows is
negative, and no coordinate of an image. -/
theorem eq_add_iff (hp : img.Contains p) {col row : Int32} (hcol : 0 ≤ col.toInt)
    (hrow : 0 ≤ row.toInt) :
    p = ((x + col).toInt, (y + row).toInt) ↔
      p.1 - x.toInt = col.toInt ∧ p.2 - y.toInt = row.toInt := by
  obtain ⟨h0, h1, h2, h3⟩ := hp
  have hwidth := img.width_lt (by omega)
  have hheight := img.height_lt (by omega)
  have hxadd := toInt_add x col
  have hyadd := toInt_add y row
  have hx := toInt_bounds x
  have hy := toInt_bounds y
  have hcol' := toInt_bounds col
  have hrow' := toInt_bounds row
  rw [Prod.ext_iff]
  dsimp only
  omega

/-- **The index of a point** is its place in the array. -/
theorem computeIndex_toNat (h : img.Contains (x.toInt, y.toInt)) :
    (computeIndex img x y).toNat = img.offset (x.toInt, y.toInt) := by
  have hlt := offset_lt h
  have hsmall := img.small
  have hbounds : inBounds img x y = true := inBounds_iff.mpr h
  obtain ⟨h0, h1, h2, h3⟩ := h
  have hw : (img.width.toInt32).toInt = img.width.toNat := by
    have hle := img.width_lt (by omega)
    rw [toInt_toInt32]
    omega
  -- in exact integers, the product and the sum are what they should be
  have hexact : y.toInt * img.width.toNat + x.toInt = (img.offset (x.toInt, y.toInt) : ℤ) := by
    rw [offset, Nat.cast_add, Nat.cast_mul, Int.toNat_of_nonneg h0, Int.toNat_of_nonneg h2]
  have hindex : (y * img.width.toInt32 + x).toInt = img.offset (x.toInt, y.toInt) := by
    rw [Int32.toInt_add, Int32.toInt_mul, hw, Int.bmod_add_bmod, hexact, bmod_eq]
    omega
  have hnat := toNat_toUInt32 (y * img.width.toInt32 + x)
  rw [hindex] at hnat
  rw [computeIndex, hbounds]
  simp only [Bool.not_true, Bool.false_eq_true, if_false]
  omega

/-- The index of a point outside. -/
theorem computeIndex_of_not_contains (h : ¬img.Contains (x.toInt, y.toInt)) :
    computeIndex img x y = -1 := by
  rw [computeIndex, Bool.eq_false_iff.mpr (mt inBounds_iff.mp h)]
  rfl

/-- It is the index of no point. -/
theorem computeIndex_ne (h : img.Contains (x.toInt, y.toInt)) :
    computeIndex img x y ≠ -1 := by
  have hlt := (offset_lt h).trans img.small
  intro heq
  rw [← computeIndex_toNat h, heq] at hlt
  exact absurd hlt (by decide)

/-- **What is read at the index of a point**, and outside of the image there is nothing at
the index that is returned. -/
theorem load_computeIndex (img : Image) (x y : Int32) :
    img.load (computeIndex img x y) = img.pixel (x.toInt, y.toInt) := by
  by_cases h : img.Contains (x.toInt, y.toInt)
  · rw [load, computeIndex_toNat h, pixel_of_contains h]
  · have hindex := computeIndex_of_not_contains h
    have hlen : img.data.length ≤ (-1 : UInt32).toNat := by
      rw [img.length_data]
      exact Nat.le_of_lt (Nat.lt_of_lt_of_le img.small (by decide))
    rw [load, hindex, pixel, if_neg h]
    exact List.getElem?_eq_none hlen

theorem sameShape_set (img : Image) (i : ℕ) (color : UInt32) : SameShape img (img.set i color) :=
  ⟨rfl, rfl⟩

/-- A value set at the place of a point is the value at that point and at no other. -/
theorem pixel_set (hq : img.Contains q) (color : UInt32) :
    (img.set (img.offset q) color).pixel =
      touch (fun p v => if p = q then color else v) img.pixel := by
  have hshape := sameShape_set img (img.offset q) color
  funext p
  rw [touch_apply]
  by_cases hp : img.Contains p
  · obtain ⟨v, hv⟩ := exists_pixel hp
    have hlt : img.offset q < img.data.length := by
      rw [img.length_data]
      exact offset_lt hq
    rw [hv, pixel_of_contains (hshape.contains_iff.mpr hp), hshape.offset_eq, Option.map_some]
    rw [pixel_of_contains hp] at hv
    change (img.data.set (img.offset q) color)[img.offset p]? = _
    by_cases hpq : p = q
    · rw [if_pos hpq, hpq, List.getElem?_set_self hlt]
    · have hne : img.offset q ≠ img.offset p := fun h => hpq ((offset_inj hq hp).mp h).symm
      rw [if_neg hpq, List.getElem?_set_ne hne, hv]
  · rw [pixel, pixel, if_neg hp, if_neg (mt hshape.contains_iff.mp hp), Option.map_none]

/-- **A store at a point** changes the value there and no other. -/
theorem exists_store (h : img.Contains (x.toInt, y.toInt)) (color : UInt32) :
    ∃ img', img.store (computeIndex img x y) color = some img' ∧ SameShape img img' ∧
      img'.pixel = touch (fun p v => if p = (x.toInt, y.toInt) then color else v) img.pixel := by
  have hlt : (computeIndex img x y).toNat < img.data.length := by
    rw [computeIndex_toNat h, img.length_data]
    exact offset_lt h
  refine ⟨_, if_pos hlt, sameShape_set _ _ _, ?_⟩
  rw [computeIndex_toNat h, pixel_set h]

/-- `set_pixel` lets the index of a point through. -/
theorem setPixel_computeIndex (h : img.Contains (x.toInt, y.toInt)) (color : UInt32) :
    setPixel img (computeIndex img x y) color = img.store (computeIndex img x y) color := by
  have hlt := offset_lt h
  have hsmall := img.small
  refine if_neg ?_
  rw [ge_iff_le, UInt32.le_iff_toNat_le, computeIndex_toNat h, UInt32.toNat_mul]
  omega

/-- **`draw_pixel` blends one pixel**, if the point is one of the image. -/
theorem exists_drawPixel (img : Image) (x y : Int32) (color : UInt32) :
    ∃ img', drawPixel img x y color = some img' ∧ SameShape img img' ∧
      img'.pixel = touch (fun p v => if p = (x.toInt, y.toInt) then blendColors color v else v)
        img.pixel := by
  by_cases h : img.Contains (x.toInt, y.toInt)
  · have hbounds : inBounds img x y = true := inBounds_iff.mpr h
    obtain ⟨v, hv⟩ := exists_pixel h
    obtain ⟨img', hstore, hshape, hpixel⟩ := exists_store h (blendColors color v)
    refine ⟨img', ?_, hshape, hpixel.trans (touch_congr fun p w hw => ?_)⟩
    · rw [drawPixel, hbounds, Bool.not_true, if_neg Bool.false_ne_true]
      change (img.load (computeIndex img x y)).bind _ = _
      rw [load_computeIndex, hv, Option.bind_some, setPixel_computeIndex h, hstore]
    · by_cases hp : p = (x.toInt, y.toInt)
      · rw [hp, hv] at hw
        rw [if_pos hp, if_pos hp, Option.some.inj hw]
      · rw [if_neg hp, if_neg hp]
  · have hbounds : inBounds img x y = false :=
      Bool.eq_false_iff.mpr fun hin => h (inBounds_iff.mp hin)
    refine ⟨img, by rw [drawPixel, hbounds]; rfl, ⟨rfl, rfl⟩, (touch_eq_self fun p v hv => ?_).symm⟩
    refine if_neg fun hp : p = (x.toInt, y.toInt) => h ?_
    rw [← hp]
    exact contains_of_pixel hv

end Image

end Drawing

end Csf
