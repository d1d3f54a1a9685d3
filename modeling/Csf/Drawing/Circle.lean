import Csf.Drawing.Image

/-!
# Circles

`draw_circle` goes through the bounding box of the circle, brought within the image, and
paints the pixels whose distance from the center is not larger than the radius. All of it is
done in 32 bits: the sides of the box, the squares and their sum are wrapped around where
they do not fit (`Csf.Drawing.Circled`). A radius of `46341` has a negative square, and its
disk no pixels.

The bounds of the two loops are included, so a loop up to the largest `int32_t` does not end;
only an image without columns can be that high. The disk is painted where nothing that
matters overflows (`Csf.Drawing.paintsDisk_bounds`); an upper bound of the box may overflow,
for it is then brought within the image like any other that is too large.
-/

namespace Csf

namespace Drawing

open Canvas Ints Image

/-- `draw_circle`, its loops limited to `n` tests of their conditions. -/
def drawCircle (n : ℕ) (img : Image) (x y r : Int32) (color : UInt32) : Option Image :=
  if r < 0 then some img
  else
    let xMin := x - r
    let xMax := x + r
    let yMin := y - r
    let yMax := y + r
    let yMin := if yMin < 0 then 0 else yMin
    let xMin := if xMin < 0 then 0 else xMin
    let yMax := if yMax.toUInt32 ≥ img.height then (img.height - 1).toInt32 else yMax
    let xMax := if xMax.toUInt32 ≥ img.width then (img.width - 1).toInt32 else xMax
    forLe n yMin yMax (fun i => forLe n xMin xMax (fun j img =>
      if !inBounds img j i then some img
      else
        let diffX := x - j
        let diffY := y - i
        if diffX * diffX + diffY * diffY ≤ r * r then drawPixel img j i color
        else some img)) img

/-- **The points of a disk.** -/
def InDisk (x y r : Int32) (p : ℤ × ℤ) : Prop :=
  0 ≤ r.toInt ∧ (x.toInt - p.1) ^ 2 + (y.toInt - p.2) ^ 2 ≤ r.toInt ^ 2

/-- **The points of the box around a disk.** An upper bound that is negative is taken for one
that is too large. -/
def InBox (x y r : Int32) (p : ℤ × ℤ) : Prop :=
  (x.toInt - r.toInt ≤ p.1 ∧ (p.1 ≤ x.toInt + r.toInt ∨ x.toInt + r.toInt < 0)) ∧
    y.toInt - r.toInt ≤ p.2 ∧ (p.2 ≤ y.toInt + r.toInt ∨ y.toInt + r.toInt < 0)

/-- The points of an image that `draw_circle` paints: those in the bounding box, and near
enough to the center, as far as 32 bits can tell. -/
def Circled (x y r : Int32) (p : ℤ × ℤ) : Prop :=
  ((x - r).toInt ≤ p.1 ∧ ((x + r).toInt < 0 ∨ p.1 ≤ (x + r).toInt)) ∧
    ((y - r).toInt ≤ p.2 ∧ ((y + r).toInt < 0 ∨ p.2 ≤ (y + r).toInt)) ∧
    ((x.toInt - p.1) ^ 2 + (y.toInt - p.2) ^ 2).bmod (2 ^ 32) ≤ (r.toInt ^ 2).bmod (2 ^ 32)

instance (x y r : Int32) (p : ℤ × ℤ) : Decidable (InDisk x y r p) :=
  inferInstanceAs (Decidable (_ ∧ _))

instance (x y r : Int32) (p : ℤ × ℤ) : Decidable (Circled x y r p) :=
  inferInstanceAs (Decidable (_ ∧ _))

/-- **The loop over the rows ends**: its bound is not the largest `int32_t`. -/
def RowsEnd (img : Image) (y r : Int32) : Prop :=
  img.height.toNat < 2 ^ 31 ∨
    (y + r).toInt ≠ 2147483647 ∧ (img.height.toNat ≠ 2 ^ 31 ∨ 0 ≤ (y + r).toInt)

/-- **What does not overflow** when a disk is painted: the lower bounds of the box, and the
squares that are compared for a pixel of the box. -/
structure DiskFits (img : Image) (x y r : Int32) : Prop where
  rows : RowsEnd img y r
  left : -2147483648 ≤ x.toInt - r.toInt
  top : -2147483648 ≤ y.toInt - r.toInt
  dist : ∀ p, img.Contains p → InBox x y r p →
    r.toInt ^ 2 < 2147483648 ∧ (x.toInt - p.1) ^ 2 + (y.toInt - p.2) ^ 2 < 2147483648

variable {img : Image} {x y r : Int32}

/-! ### The bounds of the loops -/

section Bounds

variable {size : UInt32} {a : Int32}

/-- The upper bound of a loop: the last row or column, if the box ends after it, or at a
negative one. -/
theorem toInt_upper (size : UInt32) (a : Int32) :
    (if a.toUInt32 ≥ size then (size - 1).toInt32 else a : Int32).toInt =
      if (size.toNat : ℤ) ≤ a.toInt % 4294967296 then
        ((size.toNat : ℤ) + 2147483647) % 4294967296 - 2147483648
      else a.toInt := by
  have ha := toNat_toUInt32 a
  have hsize : size.toNat < 2 ^ 32 := size.toNat_lt
  have hpred : (size - 1).toNat = (4294967296 - 1 + size.toNat) % 4294967296 :=
    UInt32.toNat_sub size 1
  rw [apply_ite Int32.toInt, toInt_toInt32, hpred]
  refine if_congr ?_ (by omega) rfl
  rw [ge_iff_le, UInt32.le_iff_toNat_le]
  omega

theorem upper_lt (h : size.toNat < 2 ^ 31) :
    (if a.toUInt32 ≥ size then (size - 1).toInt32 else a : Int32).toInt < 2147483647 := by
  have ha := toInt_bounds a
  rw [toInt_upper]
  split <;> omega

/-- The rows, or the columns, that a loop goes through. -/
theorem box_iff (h : size.toNat < 2 ^ 31) {b : Int32} {i : ℤ} (h0 : 0 ≤ i) (hi : i < size.toNat) :
    ((if b < 0 then 0 else b : Int32).toInt ≤ i ∧
        i < ((if a.toUInt32 ≥ size then (size - 1).toInt32 else a : Int32) + 1).toInt) ↔
      b.toInt ≤ i ∧ (a.toInt < 0 ∨ i ≤ a.toInt) := by
  have ha := toInt_bounds a
  rw [toInt_max_zero, toInt_add, toInt_upper, Int32.toInt_one]
  split <;> omega

end Bounds

/-- The loop over the rows is up to the largest `int32_t` only in an image that is too high,
and then never ends. -/
theorem upper_eq_iff (img : Image) (y r : Int32) :
    (if (y + r).toUInt32 ≥ img.height then (img.height - 1).toInt32 else y + r : Int32).toInt =
      2147483647 ↔ ¬RowsEnd img y r := by
  have hy := toInt_bounds (y + r)
  have hsize : img.height.toNat < 2 ^ 32 := img.height.toNat_lt
  rw [toInt_upper, RowsEnd]
  split <;> omega

/-! ### One pixel -/

/-- The test of the distance in 32 bits. -/
theorem dist_le_iff {i j : Int32} :
    (x - j) * (x - j) + (y - i) * (y - i) ≤ r * r ↔
      ((x.toInt - j.toInt) ^ 2 + (y.toInt - i.toInt) ^ 2).bmod (2 ^ 32) ≤
        (r.toInt ^ 2).bmod (2 ^ 32) := by
  rw [Int32.le_iff_toInt_le, Int32.toInt_add, Int32.toInt_mul, Int32.toInt_mul, Int32.toInt_mul,
    Int32.toInt_sub, Int32.toInt_sub]
  simp only [Int.bmod_add_bmod, Int.add_bmod_bmod, Int.mul_bmod_bmod, Int.bmod_mul_bmod, pow_two]

/-- The body of the loops. -/
def circlePixel (x y r : Int32) (color : UInt32) (i j : Int32) (img : Image) : Option Image :=
  if !inBounds img j i then some img
  else if (x - j) * (x - j) + (y - i) * (y - i) ≤ r * r then drawPixel img j i color
  else some img

/-- **One pixel of the box.** -/
theorem exists_circlePixel (img : Image) (x y r : Int32) (color : UInt32) (i j : Int32) :
    ∃ img', circlePixel x y r color i j img = some img' ∧ SameShape img img' ∧
      img'.pixel = touch (fun p v => if p.2 = i.toInt ∧ p.1 = j.toInt then
        (if ((x.toInt - p.1) ^ 2 + (y.toInt - p.2) ^ 2).bmod (2 ^ 32) ≤
          (r.toInt ^ 2).bmod (2 ^ 32) then blendColors color v else v) else v) img.pixel := by
  rw [circlePixel]
  cases hbounds : inBounds img j i
  · -- outside of the image
    refine ⟨img, rfl, ⟨rfl, rfl⟩, (touch_eq_self fun p v hv => if_neg fun h => ?_).symm⟩
    have hp := contains_of_pixel hv
    rw [show p = (j.toInt, i.toInt) from Prod.ext h.2 h.1, ← inBounds_iff, hbounds] at hp
    exact Bool.false_ne_true hp
  rw [Bool.not_true, if_neg Bool.false_ne_true]
  by_cases hdist : (x - j) * (x - j) + (y - i) * (y - i) ≤ r * r
  · obtain ⟨img', hdraw, hshape, hpixel⟩ := exists_drawPixel img j i color
    refine ⟨img', by rw [if_pos hdist, hdraw], hshape, hpixel.trans (touch_congr fun p v _ => ?_)⟩
    by_cases hp : p.2 = i.toInt ∧ p.1 = j.toInt
    · rw [if_pos (Prod.ext hp.2 hp.1), if_pos hp, hp.1, hp.2, if_pos (dist_le_iff.mp hdist)]
    · rw [if_neg hp, if_neg fun h => hp ⟨congrArg Prod.snd h, congrArg Prod.fst h⟩]
  · refine ⟨img, if_neg hdist, ⟨rfl, rfl⟩, (touch_eq_self fun p v _ => ?_).symm⟩
    by_cases hp : p.2 = i.toInt ∧ p.1 = j.toInt
    · rw [if_pos hp, hp.1, hp.2, if_neg (mt dist_le_iff.mpr hdist)]
    · exact if_neg hp

/-- The loops, up to the bounds that they are given. -/
def circleLoops (n : ℕ) (x y r : Int32) (color : UInt32) (xMin xMax yMin yMax : Int32)
    (img : Image) : Option Image :=
  forLe n yMin yMax (fun i => forLe n xMin xMax fun j img => circlePixel x y r color i j img) img

/-- **The pixels of a box.** -/
theorem exists_circleLoops {xMin xMax yMin yMax : Int32} (hx : xMax.toInt < 2147483647)
    (hy : yMax.toInt < 2147483647) (img : Image) (x y r : Int32) (color : UInt32) :
    ∃ img', (∀ n ≥ 2 ^ 33, circleLoops n x y r color xMin xMax yMin yMax img = some img') ∧
      SameShape img img' ∧ img'.pixel = touch (fun p v =>
        if (yMin.toInt ≤ p.2 ∧ p.2 < (yMax + 1).toInt) ∧
          xMin.toInt ≤ p.1 ∧ p.1 < (xMax + 1).toInt then
        (if ((x.toInt - p.1) ^ 2 + (y.toInt - p.2) ^ 2).bmod (2 ^ 32) ≤
          (r.toInt ^ 2).bmod (2 ^ 32) then blendColors color v else v) else v) img.pixel := by
  obtain ⟨img', hrun, hshape, hpixel⟩ : ∃ img',
      forLt yMin (yMax + 1) (fun i => forLt xMin (xMax + 1) (circlePixel x y r color i)) img =
        some img' ∧ SameShape img img' ∧ img'.pixel = touch (fun p v =>
          if (yMin.toInt ≤ p.2 ∧ p.2 < (yMax + 1).toInt) ∧
            xMin.toInt ≤ p.1 ∧ p.1 < (xMax + 1).toInt then
          (if ((x.toInt - p.1) ^ 2 + (y.toInt - p.2) ^ 2).bmod (2 ^ 32) ≤
            (r.toInt ^ 2).bmod (2 ^ 32) then blendColors color v else v) else v) img.pixel := by
    refine forLt_forLt_touch (fun i j t _ _ (ht : SameShape img t) => ?_) ⟨rfl, rfl⟩
    obtain ⟨t', hrun, hshape, hpixel⟩ := exists_circlePixel t x y r color i j
    exact ⟨t', hrun, ht.trans hshape, hpixel⟩
  refine ⟨img', fun n hn => ?_, hshape, hpixel⟩
  simp only [circleLoops, forLe_eq_forLt hx hn, forLe_eq_forLt hy hn]
  exact hrun

/-- Without rows there are no rounds. -/
theorem circleLoops_eq_self {xMin xMax yMin yMax : Int32} (h : yMax.toInt < yMin.toInt)
    {n : ℕ} (hn : 2 ^ 33 ≤ n) (img : Image) (x y r : Int32) (color : UInt32) :
    circleLoops n x y r color xMin xMax yMin yMax img = some img := by
  have hyMin := toInt_bounds yMin
  have hyBound : yMax.toInt < 2147483647 := by omega
  rw [circleLoops, forLe_eq_forLt hyBound hn]
  exact forLt_eq_self (by rw [toInt_succ hyBound]; omega) _ _

/-! ### The whole circle -/

/-- What the function does is known as soon as the limit on its loops is large enough. -/
def DrawsCircle (img : Image) (x y r : Int32) (color : UInt32) (img' : Image) : Prop :=
  ∃ limit, ∀ n ≥ limit, drawCircle n img x y r color = some img'

theorem DrawsCircle.unique {color : UInt32} {img₁ img₂ : Image}
    (h₁ : DrawsCircle img x y r color img₁) (h₂ : DrawsCircle img x y r color img₂) :
    img₁ = img₂ := by
  obtain ⟨n₁, h₁⟩ := h₁
  obtain ⟨n₂, h₂⟩ := h₂
  exact Option.some.inj ((h₁ _ (le_max_left n₁ n₂)).symm.trans (h₂ _ (le_max_right n₁ n₂)))

/-- **What `draw_circle` paints.** -/
theorem exists_drawCircle (color : UInt32) (hr : 0 ≤ r.toInt) (hends : RowsEnd img y r) :
    ∃ img', DrawsCircle img x y r color img' ∧ SameShape img img' ∧
      img'.pixel = touch (fun p v => if Circled x y r p then blendColors color v else v)
        img.pixel := by
  have hneg : ¬r < 0 := by
    rw [Int32.lt_iff_toInt_lt, Int32.toInt_zero]
    omega
  have hyMax := mt (upper_eq_iff img y r).mp (not_not_intro hends)
  have hyMin := toInt_max_zero (y - r)
  have hloops : ∀ n, drawCircle n img x y r color = circleLoops n x y r color
      (if x - r < 0 then 0 else x - r)
      (if (x + r).toUInt32 ≥ img.width then (img.width - 1).toInt32 else x + r)
      (if y - r < 0 then 0 else y - r)
      (if (y + r).toUInt32 ≥ img.height then (img.height - 1).toInt32 else y + r) img :=
    fun n => if_neg hneg
  simp only [DrawsCircle, hloops]
  -- the loops are run with these bounds, and only then it is said what they are
  generalize hxMin' : (if x - r < 0 then 0 else x - r : Int32) = xMin
  generalize hyMin' : (if y - r < 0 then 0 else y - r : Int32) = yMin at hyMin
  generalize hxMax' : (if (x + r).toUInt32 ≥ img.width then (img.width - 1).toInt32
    else x + r : Int32) = xMax
  generalize hyMax' : (if (y + r).toUInt32 ≥ img.height then (img.height - 1).toInt32
    else y + r : Int32) = yMax at hyMax
  have hyBound : yMax.toInt < 2147483647 := by
    have hbounds := toInt_bounds yMax
    omega
  rcases Nat.eq_zero_or_pos img.height.toNat with hh | hh
  · -- there are no rows
    have hzero : yMax.toInt = -1 := by
      have hmod := Int.emod_nonneg (y + r).toInt (by decide : (4294967296 : ℤ) ≠ 0)
      rw [← hyMax', toInt_upper, hh, if_pos (by simpa using hmod)]
      rfl
    refine ⟨img, ⟨2 ^ 33, fun n hn => circleLoops_eq_self (by omega) hn _ _ _ _ _⟩, ⟨rfl, rfl⟩,
      (touch_eq_self fun p v hv => ?_).symm⟩
    obtain ⟨-, -, h2, h3⟩ := contains_of_pixel hv
    omega
  · have hwidth := img.width_lt hh
    have hxBound : xMax.toInt < 2147483647 := hxMax' ▸ upper_lt hwidth
    obtain ⟨img', hrun, hshape, hpixel⟩ := exists_circleLoops hxBound hyBound img x y r color
    refine ⟨img', ⟨2 ^ 33, hrun⟩, hshape, hpixel.trans (touch_congr fun p v hv => ?_)⟩
    obtain ⟨h0, h1, h2, h3⟩ := contains_of_pixel hv
    have hx := box_iff (a := x + r) (b := x - r) hwidth h0 h1
    have hy := box_iff (a := y + r) (b := y - r) (img.height_lt (by omega)) h2 h3
    rw [hxMin', hxMax'] at hx
    rw [hyMin', hyMax'] at hy
    rw [← ite_and]
    refine if_congr ?_ rfl rfl
    rw [hx, hy, and_comm (a := (y - r).toInt ≤ p.2 ∧ _), and_assoc]
    exact Iff.rfl

/-- A loop over the rows that does not end. -/
theorem drawCircle_eq_none (hneg : ¬r < 0) (hends : ¬RowsEnd img y r) (n : ℕ) (color : UInt32) :
    drawCircle n img x y r color = none := by
  rw [drawCircle, if_neg hneg]
  exact forLe_eq_none n ((upper_eq_iff img y r).mpr hends)

/-- **`draw_circle` paints the disk**, each of its pixels once and no other one; a negative
radius is that of no disk. -/
def PaintsDisk (img : Image) (x y r : Int32) (color : UInt32) : Prop :=
  ∃ img', DrawsCircle img x y r color img' ∧ SameShape img img' ∧
    img'.pixel = touch (fun p v => if InDisk x y r p then blendColors color v else v) img.pixel

/-- The disk is painted if and only if the radius is negative, or the function ends and paints
the right ones of the pixels that the color changes. -/
theorem paintsDisk_iff (img : Image) (x y r : Int32) (color : UInt32) :
    PaintsDisk img x y r color ↔
      r < 0 ∨ RowsEnd img y r ∧ ∀ p v, img.pixel p = some v → blendColors color v ≠ v →
        (Circled x y r p ↔ InDisk x y r p) := by
  by_cases hneg : r < 0
  · refine iff_of_true ⟨img, ⟨0, fun n _ => if_pos hneg⟩, ⟨rfl, rfl⟩,
      (touch_eq_self fun p v _ => if_neg fun h => ?_).symm⟩ (.inl hneg)
    rw [Int32.lt_iff_toInt_lt, Int32.toInt_zero] at hneg
    exact absurd h.1 (by omega)
  rw [or_iff_right hneg]
  by_cases hends : RowsEnd img y r
  · rw [Int32.lt_iff_toInt_lt, Int32.toInt_zero] at hneg
    obtain ⟨img', hrun, hshape, hpixel⟩ := exists_drawCircle color (by omega) hends
    rw [and_iff_right hends]
    constructor
    · rintro ⟨img'', hrun', -, hpixel'⟩ p v hv hne
      obtain rfl := hrun.unique hrun'
      have h := eq_of_touch_eq (hpixel.symm.trans hpixel') hv
      by_cases hc : Circled x y r p <;> by_cases hd : InDisk x y r p
      · exact iff_of_true hc hd
      · rw [if_pos hc, if_neg hd] at h
        exact absurd h hne
      · rw [if_neg hc, if_pos hd] at h
        exact absurd h.symm hne
      · exact iff_of_false hc hd
    · intro h
      refine ⟨img', hrun, hshape, hpixel.trans (touch_congr fun p v hv => ?_)⟩
      by_cases hne : blendColors color v = v
      · rw [hne, ite_self, ite_self]
      · exact if_congr (h p v hv hne) rfl rfl
  · -- the loop over the rows does not end
    refine iff_of_false ?_ fun h => hends h.1
    rintro ⟨img', ⟨limit, hrun⟩, -, -⟩
    have hnone : drawCircle limit img x y r color = none := drawCircle_eq_none hneg hends _ _
    exact absurd (hnone.symm.trans (hrun limit (le_refl _))) (by simp)

/-! ### Where nothing overflows -/

section Bounds

variable {p : ℤ × ℤ}

/-- A disk is within its bounding box. -/
theorem inDisk_bounds (h : InDisk x y r p) : (x.toInt - r.toInt ≤ p.1 ∧ p.1 ≤ x.toInt + r.toInt) ∧
    y.toInt - r.toInt ≤ p.2 ∧ p.2 ≤ y.toInt + r.toInt := by
  obtain ⟨hr, hdist⟩ := h
  have hx : |x.toInt - p.1| ≤ r.toInt :=
    abs_le_of_sq_le_sq ((le_add_of_nonneg_right (sq_nonneg _)).trans hdist) hr
  have hy : |y.toInt - p.2| ≤ r.toInt :=
    abs_le_of_sq_le_sq ((le_add_of_nonneg_left (sq_nonneg _)).trans hdist) hr
  rw [abs_le] at hx hy
  omega

theorem inBox_of_inDisk (h : InDisk x y r p) : InBox x y r p := by
  obtain ⟨⟨hx, hx'⟩, hy, hy'⟩ := inDisk_bounds h
  exact ⟨⟨hx, .inl hx'⟩, hy, .inl hy'⟩

/-- One direction of the box: its upper bound may overflow. -/
theorem side_iff {c i : ℤ} {d e : Int32} (hlow : -2147483648 ≤ c - r.toInt)
    (hc : -2147483648 ≤ c ∧ c < 2147483648) (hr : 0 ≤ r.toInt)
    (hd : d.toInt = (c - r.toInt + 2147483648) % 4294967296 - 2147483648)
    (he : e.toInt = (c + r.toInt + 2147483648) % 4294967296 - 2147483648)
    (h0 : 0 ≤ i) (hi : i < 2147483648) :
    d.toInt ≤ i ∧ (e.toInt < 0 ∨ i ≤ e.toInt) ↔
      c - r.toInt ≤ i ∧ (i ≤ c + r.toInt ∨ c + r.toInt < 0) := by
  have hbounds := toInt_bounds r
  omega

/-- **The pixels that are painted**, if the lower bounds of the box do not overflow. -/
theorem circled_iff (hleft : -2147483648 ≤ x.toInt - r.toInt)
    (htop : -2147483648 ≤ y.toInt - r.toInt) (hr : 0 ≤ r.toInt) (hp : img.Contains p) :
    Circled x y r p ↔ InBox x y r p ∧
      ((x.toInt - p.1) ^ 2 + (y.toInt - p.2) ^ 2).bmod (2 ^ 32) ≤ (r.toInt ^ 2).bmod (2 ^ 32) := by
  obtain ⟨h0, h1, h2, h3⟩ := hp
  have hwidth := img.width_lt (by omega)
  have hheight := img.height_lt (by omega)
  rw [Circled, side_iff hleft (toInt_bounds x) hr (toInt_sub x r) (toInt_add x r) h0 (by omega),
    side_iff htop (toInt_bounds y) hr (toInt_sub y r) (toInt_add y r) h2 (by omega)]
  exact and_assoc.symm

/-- The test of the distance, if the squares are below `2 ^ 31`. -/
theorem DiskFits.circled_iff_inDisk (h : DiskFits img x y r) (hr : 0 ≤ r.toInt)
    (hp : img.Contains p) : Circled x y r p ↔ InDisk x y r p := by
  rw [circled_iff h.left h.top hr hp]
  have hrad := sq_nonneg r.toInt
  have hsq := add_nonneg (sq_nonneg (x.toInt - p.1)) (sq_nonneg (y.toInt - p.2))
  constructor
  · rintro ⟨hbox, hdist⟩
    obtain ⟨hradius, hsum⟩ := h.dist p hp hbox
    rw [bmod_eq, bmod_eq] at hdist
    exact ⟨hr, by omega⟩
  · intro hdisk
    have hbox := inBox_of_inDisk hdisk
    obtain ⟨hradius, hsum⟩ := h.dist p hp hbox
    have hdist := hdisk.2
    rw [bmod_eq, bmod_eq]
    exact ⟨hbox, by omega⟩

/-- The test of the distance, if the squares are below `2 ^ 32`: it is right if both are below
`2 ^ 31`, or none is. -/
theorem circled_iff_inDisk_iff (hleft : -2147483648 ≤ x.toInt - r.toInt)
    (htop : -2147483648 ≤ y.toInt - r.toInt) (hr : 0 ≤ r.toInt) (hp : img.Contains p)
    (hbox : InBox x y r p) (hradius : r.toInt ^ 2 < 4294967296)
    (hdist : (x.toInt - p.1) ^ 2 + (y.toInt - p.2) ^ 2 < 4294967296) :
    (Circled x y r p ↔ InDisk x y r p) ↔
      ((x.toInt - p.1) ^ 2 + (y.toInt - p.2) ^ 2 < 2147483648 ↔ r.toInt ^ 2 < 2147483648) := by
  rw [circled_iff hleft htop hr hp, and_iff_right hbox, InDisk, and_iff_right hr, bmod_eq, bmod_eq]
  have hrad := sq_nonneg r.toInt
  have hsq := add_nonneg (sq_nonneg (x.toInt - p.1)) (sq_nonneg (y.toInt - p.2))
  omega

end Bounds

/-- **`draw_circle` paints the disk** if the radius is negative or nothing that matters
overflows. If it does paint it, the loop over the rows ends, and wherever the squares are below
`2 ^ 32`, a pixel of the box that the color changes has its own below `2 ^ 31` exactly if the
radius has. -/
theorem paintsDisk_bounds (img : Image) (x y r : Int32) (color : UInt32) :
    (r < 0 ∨ DiskFits img x y r → PaintsDisk img x y r color) ∧
      (PaintsDisk img x y r color → r < 0 ∨ RowsEnd img y r ∧
        (-2147483648 ≤ x.toInt - r.toInt → -2147483648 ≤ y.toInt - r.toInt →
          r.toInt ^ 2 < 4294967296 → ∀ p v, img.pixel p = some v → blendColors color v ≠ v →
            InBox x y r p → (x.toInt - p.1) ^ 2 + (y.toInt - p.2) ^ 2 < 4294967296 →
              ((x.toInt - p.1) ^ 2 + (y.toInt - p.2) ^ 2 < 2147483648 ↔
                r.toInt ^ 2 < 2147483648))) := by
  have hneg : r < 0 ↔ r.toInt < 0 := by rw [Int32.lt_iff_toInt_lt, Int32.toInt_zero]
  rw [paintsDisk_iff]
  constructor
  · rintro (h | h)
    · exact .inl h
    · rcases Int.lt_or_le r.toInt 0 with hr | hr
      · exact .inl (hneg.mpr hr)
      · exact .inr ⟨h.rows, fun p v hv _ => h.circled_iff_inDisk hr (contains_of_pixel hv)⟩
  · rintro (h | ⟨hrows, hsame⟩)
    · exact .inl h
    rcases Int.lt_or_le r.toInt 0 with hr | hr
    · exact .inl (hneg.mpr hr)
    refine .inr ⟨hrows, fun hleft htop hradius p v hv hne hbox hdist => ?_⟩
    exact (circled_iff_inDisk_iff hleft htop hr (contains_of_pixel hv) hbox hradius hdist).mp
      (hsame p v hv hne)

/-- The disk of radius 1 around the only pixel of an image. -/
theorem paintsDisk_bounds_point :
    PaintsDisk ⟨1, 1, [0x000000FF], rfl, by decide⟩ 0 0 1 0xFF0000FF :=
  (paintsDisk_bounds _ _ _ _ _).1 (.inr
    { rows := .inl (by decide)
      left := by decide
      top := by decide
      dist := by
        rintro ⟨i, j⟩ ⟨h0, h1, h2, h3⟩ -
        obtain rfl : i = 0 := Int.le_antisymm (Int.lt_add_one_iff.mp h1) h0
        obtain rfl : j = 0 := Int.le_antisymm (Int.lt_add_one_iff.mp h3) h2
        decide })

/-- **A disk with a large radius is not painted**: around the only pixel of an image, with a
radius whose square is negative. -/
theorem not_always_paintsDisk : ¬∀ img x y r color, PaintsDisk img x y r color := by
  intro h
  obtain ⟨img', ⟨limit, hrun⟩, -, hpixel⟩ :=
    h ⟨1, 1, [0x000000FF], rfl, by decide⟩ 0 0 46341 0xFF0000FF
  have hblack : drawCircle (limit + 2) ⟨1, 1, [0x000000FF], rfl, by decide⟩ 0 0 46341 0xFF0000FF =
      some ⟨1, 1, [0x000000FF], rfl, by decide⟩ := rfl
  obtain rfl := Option.some.inj (hblack.symm.trans (hrun _ (Nat.le_add_right _ _)))
  exact absurd (congrFun hpixel (0, 0)) (by decide)

end Drawing

end Csf
