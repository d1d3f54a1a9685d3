import Csf.Drawing.Image

/-!
# Tiles

`draw_tile` copies a rectangle of one image, the tilemap, into another one. It works out
beforehand which part of the rectangle is to be copied, for the columns
(`Csf.Drawing.clip`, `Csf.Drawing.fit`, `Csf.Drawing.limit`) and for the rows alike, and then
copies it without looking at the bounds again.

A tile that ends left of the image has a negative width once the columns at negative
coordinates are taken off. The comparison with the width of the image takes it for a large
one, and the tile is given as many columns as the image has. They are copied from the right
of the tile, or from outside of the tilemap. `Csf.Drawing.copiesTile_iff` says when the
function does what it should.
-/

namespace Csf

namespace Drawing

open Canvas Ints Image

/-- What is left of a tile along one axis: how much of it is skipped, its size and its
position. -/
structure Clip where
  start : Int32
  size : Int32
  pos : Int32

/-- `if (x < 0) { start_col = -x; width -= start_col; x = 0; }`, and the same for the rows. -/
def clip (pos size : Int32) : Clip :=
  if pos < 0 then ⟨-pos, size - -pos, 0⟩ else ⟨0, size, pos⟩

/-- `if (x + width > img->width) width = img->width - x`, and the same for the rows. -/
def fit (c : Clip) (imgSize : UInt32) : Int32 :=
  if (c.pos + c.size).toUInt32 > imgSize then (imgSize - c.pos.toUInt32).toInt32 else c.size

/-- The size is brought down to what there is in the tilemap and in the image. -/
def limit (size pos tilePos : Int32) (imgSize mapSize : UInt32) : Int32 :=
  let tilemapMax := (mapSize - tilePos.toUInt32).toInt32
  let imgMax := (imgSize - pos.toUInt32).toInt32
  let size := if tilemapMax < size then tilemapMax else size
  if imgMax < size then imgMax else size

/-- The body of the loops: `img->data[index_img] = tilemap->data[index_tile]`. -/
def copyPixel (tilemap : Image) (tile : Rect) (cols rows : Clip) (col row : UInt64)
    (img : Image) : Option Image := do
  let indexImg := computeIndex img (toSize cols.pos + col).toUInt32.toInt32
    (toSize rows.pos + row).toUInt32.toInt32
  let indexTile := computeIndex tilemap (toSize (tile.x + cols.start) + col).toUInt32.toInt32
    (toSize (tile.y + rows.start) + row).toUInt32.toInt32
  img.store indexImg (← tilemap.load indexTile)

/-- `draw_tile`. The image and the tilemap are two objects: nothing that is stored in the one is
read from the other. -/
def drawTile (img : Image) (x y : Int32) (tilemap : Image) (tile : Rect) : Option Image :=
  if tile.x < 0 ∨ tile.y < 0 ∨ (tile.x + tile.width).toUInt32 > tilemap.width ∨
      (tile.y + tile.height).toUInt32 > tilemap.height then some img
  else
    let cols := clip x tile.width
    let rows := clip y tile.height
    let width := fit cols img.width
    let height := fit rows img.height
    if width ≤ 0 ∨ height ≤ 0 then some img
    else
      let width := limit width cols.pos tile.x img.width tilemap.width
      let height := limit height rows.pos tile.y img.height tilemap.height
      forSize width (fun col => forSize height (fun row =>
        copyPixel tilemap tile cols rows col row)) img

/-! ### One axis -/

section Axis

variable {pos size tilePos : Int32} {imgSize mapSize : UInt32}

theorem toInt_clip_pos (pos size : Int32) : (clip pos size).pos.toInt = max 0 pos.toInt := by
  rw [← toInt_max_zero, clip]
  split <;> rfl

theorem toInt_clip_start (pos size : Int32) :
    (clip pos size).start.toInt =
      (max (-pos.toInt) 0 + 2147483648) % 4294967296 - 2147483648 := by
  have hpos := toInt_bounds pos
  rw [clip]
  split
  · rename_i h
    rw [Int32.lt_iff_toInt_lt, Int32.toInt_zero] at h
    rw [toInt_neg, max_eq_left (by omega)]
  · rename_i h
    rw [Int32.lt_iff_toInt_lt, Int32.toInt_zero] at h
    rw [Int32.toInt_zero, max_eq_right (by omega)]
    rfl

/-- What is taken off the size is what is at negative coordinates. -/
theorem toInt_clip_size (pos size : Int32) :
    (clip pos size).size.toInt =
      (size.toInt - max (-pos.toInt) 0 + 2147483648) % 4294967296 - 2147483648 := by
  have hpos := toInt_bounds pos
  have hsize := toInt_bounds size
  rw [clip]
  split
  · rename_i h
    rw [Int32.lt_iff_toInt_lt, Int32.toInt_zero] at h
    rw [toInt_sub, toInt_neg]
    omega
  · rename_i h
    rw [Int32.lt_iff_toInt_lt, Int32.toInt_zero] at h
    dsimp only
    omega

/-- The distance from a position to the end of an image, as the code has it. -/
theorem toInt_rest (imgSize : UInt32) (pos : Int32) :
    (imgSize - pos.toUInt32).toInt32.toInt =
      ((imgSize.toNat : ℤ) - pos.toInt + 2147483648) % 4294967296 - 2147483648 := by
  have hpos := toNat_toUInt32 pos
  have hlt : pos.toUInt32.toNat < 2 ^ 32 := pos.toUInt32.toNat_lt
  rw [toInt_toInt32, UInt32.toNat_sub]
  omega

theorem toInt_fit (pos size : Int32) (imgSize : UInt32) :
    (fit (clip pos size) imgSize).toInt =
      if (imgSize.toNat : ℤ) < (pos.toInt + size.toInt) % 4294967296 then
        ((imgSize.toNat : ℤ) - max 0 pos.toInt + 2147483648) % 4294967296 - 2147483648
      else (size.toInt - max (-pos.toInt) 0 + 2147483648) % 4294967296 - 2147483648 := by
  have hsum := toNat_toUInt32 ((clip pos size).pos + (clip pos size).size)
  have hsize := toInt_clip_size pos size
  have hadd := toInt_add (clip pos size).pos (clip pos size).size
  have hclip := toInt_clip_pos pos size
  rw [fit, apply_ite Int32.toInt, toInt_rest, hclip, hsize]
  refine if_congr ?_ rfl rfl
  rw [gt_iff_lt, UInt32.lt_iff_toNat_lt]
  omega

/-- Nothing fits an image without columns, or without rows. -/
theorem pos_of_fit (h : 0 < (fit (clip pos size) imgSize).toInt) : 0 < imgSize.toNat := by
  have hpos := toInt_bounds pos
  have hsize := toInt_bounds size
  refine Nat.pos_of_ne_zero fun hzero => ?_
  rw [toInt_fit, hzero] at h
  split at h <;> omega

theorem toInt_limit (a pos tilePos : Int32) (imgSize mapSize : UInt32) :
    (limit a pos tilePos imgSize mapSize).toInt =
      min (((imgSize.toNat : ℤ) - pos.toInt + 2147483648) % 4294967296 - 2147483648)
        (min (((mapSize.toNat : ℤ) - tilePos.toInt + 2147483648) % 4294967296 - 2147483648)
          a.toInt) := by
  rw [← toInt_rest, ← toInt_rest, limit]
  simp only [Int32.lt_iff_toInt_lt]
  split <;> split <;> omega

/-- **What is copied along one axis**: the columns of the tile that are in the image, and
instead of none, where the tile ends left of the image, as many as there are from its first
one on in the tilemap. -/
def Copied (pos size tilePos : ℤ) (imgSize mapSize : ℕ) (i : ℤ) : Prop :=
  0 ≤ i ∧ i < imgSize - max pos 0 ∧
    if pos + size < 0 then
      pos + size ≠ -4294967296 ∧ (i < mapSize - tilePos ∨ mapSize < tilePos)
    else i < size - max (-pos) 0

theorem copied_zero {a b c : ℤ} {m n : ℕ} {i : ℤ} (h : Copied a b c m n i) :
    Copied a b c m n 0 := by
  obtain ⟨h0, h1, h2⟩ := h
  refine ⟨le_refl 0, by omega, ?_⟩
  split at h2 <;> split <;> omega

section Copied

variable (himg : imgSize.toNat < 2 ^ 31) (htile : 0 ≤ tilePos.toInt)
  (hguard : (tilePos.toInt + size.toInt) % 4294967296 ≤ mapSize.toNat)

include himg htile hguard

/-- Something is copied along an axis, as far as this axis is concerned. -/
theorem exists_copied_iff :
    (0 < (fit (clip pos size) imgSize).toInt ∧
        (limit (fit (clip pos size) imgSize) (clip pos size).pos tilePos imgSize mapSize).toInt ≠
          0) ↔
      Copied pos.toInt size.toInt tilePos.toInt imgSize.toNat mapSize.toNat 0 := by
  have hpos := toInt_bounds pos
  have hsize := toInt_bounds size
  have htile' := toInt_bounds tilePos
  have hmap : mapSize.toNat < 2 ^ 32 := mapSize.toNat_lt
  rw [toInt_limit, toInt_fit, toInt_clip_pos, Copied]
  split <;> split <;> omega

/-- The loop along an axis copies what is to be copied, if the tilemap has the first pixel of
it. -/
theorem copied_iff (hmap : mapSize.toNat < 2 ^ 31)
    (hfirst : tilePos.toInt + max (-pos.toInt) 0 < mapSize.toNat)
    (hfit : 0 < (fit (clip pos size) imgSize).toInt) (i : ℤ) :
    Copied pos.toInt size.toInt tilePos.toInt imgSize.toNat mapSize.toNat i ↔
      0 ≤ i ∧ i < (limit (fit (clip pos size) imgSize) (clip pos size).pos tilePos imgSize
        mapSize).toInt := by
  have hpos := toInt_bounds pos
  have hsize := toInt_bounds size
  have htile' := toInt_bounds tilePos
  rw [toInt_fit] at hfit
  rw [toInt_limit, toInt_fit, toInt_clip_pos, Copied]
  split at hfit <;> split <;> omega

end Copied

end Axis

/-! ### One pixel -/

section Pixel

variable {img tilemap : Image} {tile : Rect} {x y : Int32}

/-- Where the pixel with these offsets is copied from. -/
def sourceOf (tile : Rect) (x y : Int32) (i j : ℤ) : ℤ × ℤ :=
  (tile.x.toInt + max (-x.toInt) 0 + i, tile.y.toInt + max (-y.toInt) 0 + j)

/-- Where the pixel with these offsets is copied to. -/
def targetOf (x y : Int32) (i j : ℤ) : ℤ × ℤ := (max 0 x.toInt + i, max 0 y.toInt + j)

/-- An image has the same value at a point whose coordinates have been wrapped around. -/
theorem pixel_wrap (img : Image) {a b : ℤ} (ha : 0 ≤ a ∧ a < 4294967296)
    (hb : 0 ≤ b ∧ b < 4294967296) :
    img.pixel ((a + 2147483648) % 4294967296 - 2147483648,
      (b + 2147483648) % 4294967296 - 2147483648) = img.pixel (a, b) := by
  have hiff : img.Contains ((a + 2147483648) % 4294967296 - 2147483648,
      (b + 2147483648) % 4294967296 - 2147483648) ↔ img.Contains (a, b) := by
    rw [Contains, Contains]
    dsimp only
    constructor
    · rintro ⟨h0, h1, h2, h3⟩
      omega
    · rintro ⟨h0, h1, h2, h3⟩
      have hwidth := img.width_lt (by omega)
      have hheight := img.height_lt (by omega)
      omega
  by_cases h : img.Contains (a, b)
  · obtain ⟨h0, h1, h2, h3⟩ := id h
    dsimp only at h0 h1 h2 h3
    have hwidth := img.width_lt (by omega)
    have hheight := img.height_lt (by omega)
    congr 2 <;> omega
  · rw [pixel, pixel, if_neg h, if_neg (mt hiff.mp h)]

/-- What one round of the loops does. -/
theorem copyPixel_eq (hx : 0 ≤ tile.x.toInt) (hy : 0 ≤ tile.y.toInt) {i j : Int32}
    (hi : 0 ≤ i.toInt) (hj : 0 ≤ j.toInt)
    (hcol : tile.x.toInt + max (-x.toInt) 0 + i.toInt < 4294967296)
    (hrow : tile.y.toInt + max (-y.toInt) 0 + j.toInt < 4294967296) (img : Image) :
    copyPixel tilemap tile (clip x tile.width) (clip y tile.height) (toSize i) (toSize j) img =
      (tilemap.pixel (sourceOf tile x y i.toInt j.toInt)).bind
        (img.store (computeIndex img ((clip x tile.width).pos + i)
          ((clip y tile.height).pos + j))) := by
  have hsource : tilemap.load (computeIndex tilemap (tile.x + (clip x tile.width).start + i)
      (tile.y + (clip y tile.height).start + j)) =
        tilemap.pixel (sourceOf tile x y i.toInt j.toInt) := by
    rw [load_computeIndex, sourceOf, ← pixel_wrap tilemap ⟨by omega, hcol⟩ ⟨by omega, hrow⟩]
    congr 2
    · rw [toInt_add, toInt_add, toInt_clip_start]
      omega
    · rw [toInt_add, toInt_add, toInt_clip_start]
      omega
  rw [copyPixel, ← hsource]
  simp only [toInt32_add_toSize]
  rfl

end Pixel

/-! ### The whole tile -/

/-- The check at the beginning lets the tile pass. -/
def Rect.Passes (tile : Rect) (tilemap : Image) : Prop :=
  0 ≤ tile.x.toInt ∧ 0 ≤ tile.y.toInt ∧
    (tile.x.toInt + tile.width.toInt) % 4294967296 ≤ tilemap.width.toNat ∧
    (tile.y.toInt + tile.height.toInt) % 4294967296 ≤ tilemap.height.toNat

theorem passes_iff (tile : Rect) (tilemap : Image) :
    tile.Passes tilemap ↔ ¬(tile.x < 0 ∨ tile.y < 0 ∨
      (tile.x + tile.width).toUInt32 > tilemap.width ∨
      (tile.y + tile.height).toUInt32 > tilemap.height) := by
  have hx := toNat_toUInt32 (tile.x + tile.width)
  have hy := toNat_toUInt32 (tile.y + tile.height)
  rw [toInt_add] at hx hy
  simp only [Rect.Passes, Int32.lt_iff_toInt_lt, gt_iff_lt, UInt32.lt_iff_toNat_lt,
    Int32.toInt_zero]
  omega

section Whole

variable (img : Image) (x y : Int32) (tilemap : Image) (tile : Rect)

/-- A column of the tile is copied. -/
def ColCopied (i : ℤ) : Prop :=
  Copied x.toInt tile.width.toInt tile.x.toInt img.width.toNat tilemap.width.toNat i

/-- A row of the tile is copied. -/
def RowCopied (j : ℤ) : Prop :=
  Copied y.toInt tile.height.toInt tile.y.toInt img.height.toNat tilemap.height.toNat j

instance (i : ℤ) : Decidable (ColCopied img x tilemap tile i) :=
  inferInstanceAs (Decidable (_ ∧ _ ∧ _))

instance (j : ℤ) : Decidable (RowCopied img y tilemap tile j) :=
  inferInstanceAs (Decidable (_ ∧ _ ∧ _))

variable {img x y tilemap tile}

/-- Where no column or no row is copied, nothing happens. -/
theorem drawTile_eq_self (hpass : tile.Passes tilemap)
    (h : ¬(ColCopied img x tilemap tile 0 ∧ RowCopied img y tilemap tile 0)) :
    drawTile img x y tilemap tile = some img := by
  rw [drawTile, if_neg ((passes_iff tile tilemap).mp hpass)]
  simp only [Int32.le_iff_toInt_le, Int32.toInt_zero]
  split
  · rfl
  rename_i hfit
  have hwidth := img.width_lt
    (pos_of_fit (by omega : 0 < (fit (clip y tile.height) img.height).toInt))
  have hheight := img.height_lt
    (pos_of_fit (by omega : 0 < (fit (clip x tile.width) img.width).toInt))
  rw [ColCopied, RowCopied, ← exists_copied_iff hwidth hpass.1 hpass.2.2.1,
    ← exists_copied_iff hheight hpass.2.1 hpass.2.2.2] at h
  by_cases hcols : (limit (fit (clip x tile.width) img.width) (clip x tile.width).pos tile.x
      img.width tilemap.width).toInt = 0
  · exact forSize_zero hcols _ _
  · have hrows : (limit (fit (clip y tile.height) img.height) (clip y tile.height).pos tile.y
        img.height tilemap.height).toInt = 0 := by
      by_contra hrows
      exact h ⟨⟨by omega, hcols⟩, by omega, hrows⟩
    exact Interaction.forLoop_eq_self (fun k => forSize_zero hrows _ _) _

/-- The loops, where there is something to copy. -/
theorem drawTile_eq_loops (hwidth : img.width.toNat < 2 ^ 31)
    (hheight : img.height.toNat < 2 ^ 31) (hpass : tile.Passes tilemap)
    (hcol : ColCopied img x tilemap tile 0) (hrow : RowCopied img y tilemap tile 0) :
    ∃ n m : Int32, n.toInt ≠ 0 ∧ m.toInt ≠ 0 ∧
      drawTile img x y tilemap tile = forSize n (fun col => forSize m (fun row =>
        copyPixel tilemap tile (clip x tile.width) (clip y tile.height) col row)) img ∧
      (tilemap.Contains (sourceOf tile x y 0 0) →
        (∀ i, ColCopied img x tilemap tile i ↔ 0 ≤ i ∧ i < n.toInt) ∧
          ∀ j, RowCopied img y tilemap tile j ↔ 0 ≤ j ∧ j < m.toInt) := by
  obtain ⟨hfitX, hlimitX⟩ := (exists_copied_iff hwidth hpass.1 hpass.2.2.1).mpr hcol
  obtain ⟨hfitY, hlimitY⟩ := (exists_copied_iff hheight hpass.2.1 hpass.2.2.2).mpr hrow
  refine ⟨_, _, hlimitX, hlimitY, ?_, fun hfirst => ?_⟩
  · rw [drawTile, if_neg ((passes_iff tile tilemap).mp hpass)]
    refine if_neg ?_
    rw [Int32.le_iff_toInt_le, Int32.le_iff_toInt_le, Int32.toInt_zero]
    omega
  · obtain ⟨h0, h1, h2, h3⟩ := hfirst
    rw [sourceOf] at h0 h1 h2 h3
    dsimp only at h0 h1 h2 h3
    rw [Int.add_zero] at h1 h3
    exact ⟨copied_iff hwidth hpass.1 hpass.2.2.1 (tilemap.width_lt (by omega)) h1 hfitX,
      copied_iff hheight hpass.2.1 hpass.2.2.2 (tilemap.height_lt (by omega)) h3 hfitY⟩

/-- A round of the loops that has something to copy from. -/
theorem exists_copyPixel (hpass : tile.Passes tilemap) {i j : Int32}
    (hi : ColCopied img x tilemap tile i.toInt) (hj : RowCopied img y tilemap tile j.toInt)
    (hsource : tilemap.Contains (sourceOf tile x y i.toInt j.toInt)) {t : Image}
    (ht : SameShape img t) :
    ∃ t', copyPixel tilemap tile (clip x tile.width) (clip y tile.height) (toSize i) (toSize j) t =
        some t' ∧ SameShape img t' ∧
      t'.pixel = touch (fun p v =>
        if p.1 - max 0 x.toInt = i.toInt ∧ p.2 - max 0 y.toInt = j.toInt then
          (tilemap.pixel (tile.source x y p)).getD v else v) t.pixel := by
  obtain ⟨h0, h1, h2, h3⟩ := id hsource
  rw [sourceOf] at h0 h1 h2 h3
  dsimp only at h0 h1 h2 h3
  have hmapWidth := tilemap.width_lt (by omega)
  have hmapHeight := tilemap.height_lt (by omega)
  obtain ⟨hi0, hi1, -⟩ := id hi
  obtain ⟨hj0, hj1, -⟩ := id hj
  have hwidth := img.width_lt (by omega)
  have hheight := img.height_lt (by omega)
  have hx : ((clip x tile.width).pos + i).toInt = max 0 x.toInt + i.toInt := by
    rw [toInt_add, toInt_clip_pos]
    omega
  have hy : ((clip y tile.height).pos + j).toInt = max 0 y.toInt + j.toInt := by
    rw [toInt_add, toInt_clip_pos]
    omega
  have htarget : t.Contains (((clip x tile.width).pos + i).toInt,
      ((clip y tile.height).pos + j).toInt) := by
    rw [ht.contains_iff, hx, hy]
    exact ⟨by omega, by omega, by omega, by omega⟩
  obtain ⟨color, hcolor⟩ := exists_pixel hsource
  obtain ⟨t', hstore, hshape, hpixel⟩ := exists_store htarget color
  refine ⟨t', ?_, ht.trans hshape, hpixel.trans (touch_congr fun p v _ => ?_)⟩
  · rw [copyPixel_eq hpass.1 hpass.2.1 hi0 hj0 (by omega) (by omega), hcolor]
    exact hstore
  · rw [hx, hy]
    by_cases hp : p.1 - max 0 x.toInt = i.toInt ∧ p.2 - max 0 y.toInt = j.toInt
    · have hsrc : tile.source x y p = sourceOf tile x y i.toInt j.toInt := by
        rw [Rect.source, sourceOf]
        exact Prod.ext (by dsimp only; omega) (by dsimp only; omega)
      rw [if_pos hp, hsrc, hcolor, if_pos (Prod.ext (by dsimp only; omega) (by dsimp only; omega))]
      rfl
    · rw [if_neg hp, if_neg]
      rintro rfl
      exact hp ⟨by dsimp only; omega, by dsimp only; omega⟩

/-- **What `draw_tile` copies**, when the tilemap has all of it. -/
theorem exists_drawTile (hpass : tile.Passes tilemap)
    (hcol : ColCopied img x tilemap tile 0) (hrow : RowCopied img y tilemap tile 0)
    (hsource : ∀ i j, ColCopied img x tilemap tile i → RowCopied img y tilemap tile j →
      tilemap.Contains (sourceOf tile x y i j)) :
    ∃ img', drawTile img x y tilemap tile = some img' ∧ SameShape img img' ∧
      img'.pixel = touch (fun p v =>
        if ColCopied img x tilemap tile (p.1 - max 0 x.toInt) ∧
          RowCopied img y tilemap tile (p.2 - max 0 y.toInt) then
        (tilemap.pixel (tile.source x y p)).getD v else v) img.pixel := by
  have hwidth := img.width_lt (by have := hrow.1; have := hrow.2.1; omega)
  have hheight := img.height_lt (by have := hcol.1; have := hcol.2.1; omega)
  obtain ⟨n, m, -, -, hloops, hrange⟩ := drawTile_eq_loops hwidth hheight hpass hcol hrow
  obtain ⟨hn, hm⟩ := hrange (hsource 0 0 hcol hrow)
  have hnpos := ((hn 0).mp hcol).2
  have hmpos := ((hm 0).mp hrow).2
  obtain ⟨img', hrun, hshape, hpixel⟩ : ∃ img',
      forLt 0 n (fun i => forLt 0 m (fun j => copyPixel tilemap tile (clip x tile.width)
        (clip y tile.height) (toSize i) (toSize j))) img = some img' ∧ SameShape img img' ∧
      img'.pixel = touch (fun p v =>
        if (0 ≤ p.1 - max 0 x.toInt ∧ p.1 - max 0 x.toInt < n.toInt) ∧
          0 ≤ p.2 - max 0 y.toInt ∧ p.2 - max 0 y.toInt < m.toInt then
        (tilemap.pixel (tile.source x y p)).getD v else v) img.pixel := by
    refine forLt_forLt_touch (fun i j t hi hj (ht : SameShape img t) => ?_) ⟨rfl, rfl⟩
    have hi := (hn _).mpr hi
    have hj := (hm _).mpr hj
    exact exists_copyPixel hpass hi hj (hsource _ _ hi hj) ht
  refine ⟨img', ?_, hshape, hpixel.trans (touch_congr fun p v _ => if_congr ?_ rfl rfl)⟩
  · rw [hloops, forSize_eq_forLt (Int.le_of_lt hnpos)]
    simp only [forSize_eq_forLt (Int.le_of_lt hmpos)]
    exact hrun
  · rw [hn, hm]

/-- **It reads outside of the tilemap** when something is not there. -/
theorem drawTile_eq_none (hpass : tile.Passes tilemap) {i j : ℤ}
    (hi : ColCopied img x tilemap tile i) (hj : RowCopied img y tilemap tile j)
    (hsource : ¬tilemap.Contains (sourceOf tile x y i j)) :
    drawTile img x y tilemap tile = none := by
  have hx := toInt_bounds x
  have hy := toInt_bounds y
  have htx := toInt_bounds tile.x
  have hty := toInt_bounds tile.y
  obtain ⟨hi0, hi1, -⟩ := id hi
  obtain ⟨hj0, hj1, -⟩ := id hj
  have hwidth := img.width_lt (by omega)
  have hheight := img.height_lt (by omega)
  obtain ⟨n, m, hn, hm, hloops, hrange⟩ :=
    drawTile_eq_loops hwidth hheight hpass (copied_zero hi) (copied_zero hj)
  -- a round that reads outside of the tilemap fails whatever has been drawn
  have hround : ∀ a b : Int32, 0 ≤ a.toInt → 0 ≤ b.toInt →
      tile.x.toInt + max (-x.toInt) 0 + a.toInt < 4294967296 →
      tile.y.toInt + max (-y.toInt) 0 + b.toInt < 4294967296 →
      ¬tilemap.Contains (sourceOf tile x y a.toInt b.toInt) → ∀ t,
      copyPixel tilemap tile (clip x tile.width) (clip y tile.height) (toSize a) (toSize b) t =
        none := by
    intro a b ha hb hcol hrow hout t
    rw [copyPixel_eq hpass.1 hpass.2.1 ha hb hcol hrow, pixel, if_neg hout]
    rfl
  rw [hloops]
  by_cases hfirst : tilemap.Contains (sourceOf tile x y 0 0)
  · obtain ⟨hni, hmj⟩ := hrange hfirst
    have hin := (hni i).mp hi
    have hjm := (hmj j).mp hj
    have hnb := toInt_bounds n
    have hmb := toInt_bounds m
    obtain ⟨h0, h1, h2, h3⟩ := id hfirst
    rw [sourceOf] at h0 h1 h2 h3
    dsimp only at h0 h1 h2 h3
    have hmapWidth := tilemap.width_lt (by omega)
    have hmapHeight := tilemap.height_lt (by omega)
    have hi' : (Int32.ofInt i).toInt = i := Int32.toInt_ofInt_of_le (by omega) (by omega)
    have hj' : (Int32.ofInt j).toInt = j := Int32.toInt_ofInt_of_le (by omega) (by omega)
    rw [forSize_eq_forLt (by omega)]
    refine forLt_eq_none (i := Int32.ofInt i) (by rw [hi', Int32.toInt_zero]; omega) (by omega)
      (fun t => ?_) img
    rw [forSize_eq_forLt (by omega)]
    refine forLt_eq_none (i := Int32.ofInt j) (by rw [hj', Int32.toInt_zero]; omega) (by omega)
      (fun t => ?_) t
    exact hround _ _ (by omega) (by omega) (by omega) (by omega) (by rwa [hi', hj']) t
  · -- the very first round
    exact forSize_eq_none hn (forSize_eq_none hm (hround 0 0 (by decide) (by decide)
      (by rw [Int32.toInt_zero]; omega) (by rw [Int32.toInt_zero]; omega) hfirst)) img

/-- What is copied of a tile that does not end left of the image or above it is in the
tilemap. -/
theorem contains_sourceOf (hpass : tile.Passes tilemap)
    (hends : 0 ≤ x.toInt + tile.width.toInt ∧ 0 ≤ y.toInt + tile.height.toInt) {i j : ℤ}
    (hi : ColCopied img x tilemap tile i) (hj : RowCopied img y tilemap tile j) :
    tilemap.Contains (sourceOf tile x y i j) := by
  have hw := toInt_bounds tile.width
  have hh := toInt_bounds tile.height
  have htx := toInt_bounds tile.x
  have hty := toInt_bounds tile.y
  obtain ⟨hx, hy, hcols, hrows⟩ := hpass
  obtain ⟨hi0, hi1, hi2⟩ := hi
  obtain ⟨hj0, hj1, hj2⟩ := hj
  rw [if_neg (by omega)] at hi2 hj2
  rw [sourceOf]
  exact ⟨by dsimp only; omega, by dsimp only; omega, by dsimp only; omega, by dsimp only; omega⟩

/-- Of such a tile what is copied is what should be. -/
theorem copied_iff_covers (hpass : tile.Passes tilemap)
    (hends : 0 ≤ x.toInt + tile.width.toInt ∧ 0 ≤ y.toInt + tile.height.toInt) {p : ℤ × ℤ}
    (hp : img.Contains p) :
    (ColCopied img x tilemap tile (p.1 - max 0 x.toInt) ∧
        RowCopied img y tilemap tile (p.2 - max 0 y.toInt)) ↔
      tile.Inside tilemap ∧ (tile.movedTo x y).Covers p := by
  have hw := toInt_bounds tile.width
  have hh := toInt_bounds tile.height
  have htx := toInt_bounds tile.x
  have hty := toInt_bounds tile.y
  obtain ⟨hx, hy, hcols, hrows⟩ := hpass
  obtain ⟨h0, h1, h2, h3⟩ := hp
  rw [ColCopied, RowCopied, Copied, Copied, if_neg (by omega), if_neg (by omega), Rect.Inside,
    Rect.Covers, Rect.movedTo]
  dsimp only
  constructor
  · rintro ⟨⟨hi0, hi1, hi2⟩, hj0, hj1, hj2⟩
    omega
  · rintro ⟨⟨k0, k1, k2, k3, k4, k5⟩, l0, l1, l2, l3⟩
    omega

/-- A tile that ends left of the image or above it has no point there. -/
theorem not_movedTo_covers {p : ℤ × ℤ} (hp : img.Contains p)
    (hends : ¬(0 ≤ x.toInt + tile.width.toInt ∧ 0 ≤ y.toInt + tile.height.toInt)) :
    ¬(tile.movedTo x y).Covers p := by
  obtain ⟨h0, -, h2, -⟩ := hp
  rintro ⟨-, hx, -, hy⟩
  rw [Rect.movedTo] at hx hy
  dsimp only at hx hy
  omega

/-- **`draw_tile` copies the tile** into the image if it lies inside the tilemap, and changes
nothing if it does not. -/
def CopiesTile (img : Image) (x y : Int32) (tilemap : Image) (tile : Rect) : Prop :=
  ∃ img', drawTile img x y tilemap tile = some img' ∧ SameShape img img' ∧
    img'.pixel = touch (fun p v =>
      if tile.Inside tilemap ∧ (tile.movedTo x y).Covers p then
        (tilemap.pixel (tile.source x y p)).getD v else v) img.pixel

/-- The source of a target. -/
theorem source_targetOf (i j : ℤ) : tile.source x y (targetOf x y i j) = sourceOf tile x y i j := by
  rw [Rect.source, targetOf, sourceOf]
  exact Prod.ext (by dsimp only; omega) (by dsimp only; omega)

theorem contains_targetOf {i j : ℤ} (hi : ColCopied img x tilemap tile i)
    (hj : RowCopied img y tilemap tile j) : img.Contains (targetOf x y i j) := by
  obtain ⟨hi0, hi1, -⟩ := hi
  obtain ⟨hj0, hj1, -⟩ := hj
  rw [targetOf]
  exact ⟨by dsimp only; omega, by dsimp only; omega, by dsimp only; omega, by dsimp only; omega⟩

theorem targetOf_sub (p : ℤ × ℤ) :
    targetOf x y (p.1 - max 0 x.toInt) (p.2 - max 0 y.toInt) = p := by
  rw [targetOf]
  exact Prod.ext (by dsimp only; omega) (by dsimp only; omega)

/-- A tile that lies inside the tilemap passes the check. -/
theorem Rect.Inside.passes (h : tile.Inside tilemap) : tile.Passes tilemap := by
  have hw := toInt_bounds tile.width
  have hh := toInt_bounds tile.height
  have htx := toInt_bounds tile.x
  have hty := toInt_bounds tile.y
  obtain ⟨h0, h1, h2, h3, h4, h5⟩ := h
  exact ⟨h0, h3, by omega, by omega⟩

/-- Where nothing is copied, `draw_tile` does what it should if nothing should be copied. -/
theorem copiesTile_of_eq_self (hdraw : drawTile img x y tilemap tile = some img)
    (h : ∀ p, img.Contains p → ¬(tile.Inside tilemap ∧ (tile.movedTo x y).Covers p)) :
    CopiesTile img x y tilemap tile :=
  ⟨img, hdraw, ⟨rfl, rfl⟩,
    (touch_eq_self fun p _ hv => if_neg (h p (contains_of_pixel hv))).symm⟩

/-- A tile that does not pass the check does not lie inside the tilemap, and is not copied. -/
theorem copiesTile_of_not_passes (hpass : ¬tile.Passes tilemap) :
    CopiesTile img x y tilemap tile := by
  refine copiesTile_of_eq_self ?_ fun p _ hp => hpass hp.1.passes
  rw [drawTile, if_pos]
  rwa [passes_iff, not_not] at hpass

/-- **A tile that does not end left of the image or above it** is copied as it should be. -/
theorem copiesTile_of_ends
    (hends : 0 ≤ x.toInt + tile.width.toInt ∧ 0 ≤ y.toInt + tile.height.toInt) :
    CopiesTile img x y tilemap tile := by
  by_cases hpass : tile.Passes tilemap
  swap
  · exact copiesTile_of_not_passes hpass
  by_cases hsome : ColCopied img x tilemap tile 0 ∧ RowCopied img y tilemap tile 0
  · obtain ⟨img', hdraw, hshape, hpixel⟩ := exists_drawTile hpass hsome.1 hsome.2
      fun i j hi hj => contains_sourceOf hpass hends hi hj
    exact ⟨img', hdraw, hshape, hpixel.trans (touch_congr fun p v hv =>
      if_congr (copied_iff_covers hpass hends (contains_of_pixel hv)) rfl rfl)⟩
  · refine copiesTile_of_eq_self (drawTile_eq_self hpass hsome) fun p hp h => ?_
    obtain ⟨hi, hj⟩ := (copied_iff_covers hpass hends hp).mpr h
    exact hsome ⟨copied_zero hi, copied_zero hj⟩

/-- **`draw_tile` copies the tile if and only if** the tile does not pass the check at the
beginning, or does not end left of the image or above it, or all that is copied is in the
tilemap and the same as what it is copied over. -/
theorem copiesTile_iff (img : Image) (x y : Int32) (tilemap : Image) (tile : Rect) :
    CopiesTile img x y tilemap tile ↔
      ¬tile.Passes tilemap ∨
      (0 ≤ x.toInt + tile.width.toInt ∧ 0 ≤ y.toInt + tile.height.toInt) ∨
      ∀ i j, ColCopied img x tilemap tile i → RowCopied img y tilemap tile j →
        tilemap.pixel (sourceOf tile x y i j) = img.pixel (targetOf x y i j) := by
  by_cases hpass : tile.Passes tilemap
  swap
  · exact iff_of_true (copiesTile_of_not_passes hpass) (.inl hpass)
  by_cases hends : 0 ≤ x.toInt + tile.width.toInt ∧ 0 ≤ y.toInt + tile.height.toInt
  · exact iff_of_true (copiesTile_of_ends hends) (.inr (.inl hends))
  rw [or_iff_right (not_not.mpr hpass), or_iff_right hends]
  -- nothing should be copied
  have hnot : ∀ p, img.Contains p → ¬(tile.Inside tilemap ∧ (tile.movedTo x y).Covers p) :=
    fun p hp hc => not_movedTo_covers hp hends hc.2
  by_cases hsome : ColCopied img x tilemap tile 0 ∧ RowCopied img y tilemap tile 0
  swap
  · exact iff_of_true (copiesTile_of_eq_self (drawTile_eq_self hpass hsome) hnot)
      fun i j hi hj => absurd ⟨copied_zero hi, copied_zero hj⟩ hsome
  obtain ⟨hcol, hrow⟩ := hsome
  by_cases hsource : ∀ i j, ColCopied img x tilemap tile i → RowCopied img y tilemap tile j →
      tilemap.Contains (sourceOf tile x y i j)
  swap
  · -- something is read from outside of the tilemap
    push Not at hsource
    obtain ⟨i, j, hi, hj, hout⟩ := hsource
    refine iff_of_false ?_ fun h => ?_
    · rintro ⟨img', hdraw, -⟩
      rw [drawTile_eq_none hpass hi hj hout] at hdraw
      exact absurd hdraw (by simp)
    · obtain ⟨v, hv⟩ := exists_pixel (contains_targetOf hi hj)
      exact hout (contains_of_pixel ((h i j hi hj).trans hv))
  obtain ⟨img', hdraw, hshape, hpixel⟩ := exists_drawTile hpass hcol hrow hsource
  constructor
  · -- what is copied all the same must be what was there
    rintro ⟨img'', hdraw', -, hpixel'⟩ i j hi hj
    obtain rfl := Option.some.inj (hdraw.symm.trans hdraw')
    obtain ⟨v, hv⟩ := exists_pixel (contains_targetOf hi hj)
    obtain ⟨u, hu⟩ := exists_pixel (hsource i j hi hj)
    have hsub : (targetOf x y i j).1 - max 0 x.toInt = i ∧
        (targetOf x y i j).2 - max 0 y.toInt = j := by
      rw [targetOf]
      dsimp only
      omega
    have hp := eq_of_touch_eq (hpixel.symm.trans hpixel') hv
    rw [if_pos (by rw [hsub.1, hsub.2]; exact ⟨hi, hj⟩), if_neg (hnot _ (contains_of_pixel hv)),
      source_targetOf, hu, Option.getD_some] at hp
    rw [hu, hv, hp]
  · intro h
    refine ⟨img', hdraw, hshape, hpixel.trans (touch_congr fun p v hv => ?_)⟩
    rw [if_neg (hnot p (contains_of_pixel hv))]
    split
    · rename_i hcopied
      have hsame := h _ _ hcopied.1 hcopied.2
      rw [targetOf_sub, ← source_targetOf, targetOf_sub, hv] at hsame
      rw [hsame, Option.getD_some]
    · rfl

/-- **A tile left of the image is copied**: one pixel wide, two columns to the left of an image
that has one pixel, which becomes the third one of the tilemap. -/
theorem not_always_copiesTile : ¬∀ img x y tilemap tile, CopiesTile img x y tilemap tile := by
  intro h
  obtain ⟨img', hrun, -, hpixel⟩ :=
    h ⟨1, 1, [7], rfl, by decide⟩ (-2) 0 ⟨3, 1, [1, 2, 3], rfl, by decide⟩ ⟨0, 0, 1, 1⟩
  have hthird : (drawTile ⟨1, 1, [7], rfl, by decide⟩ (-2) 0 ⟨3, 1, [1, 2, 3], rfl, by decide⟩
      ⟨0, 0, 1, 1⟩).bind (fun img => img.pixel (0, 0)) = some 3 := by decide
  rw [hrun, Option.bind_some, hpixel] at hthird
  exact absurd hthird (by decide)

end Whole

end Drawing

end Csf
