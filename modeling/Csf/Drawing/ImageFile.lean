import Csf.Drawing.Image
import Csf.Lib.Records

/-!
# Image files

`image.c`: how an image is created, read from a file and written to one. What is in a file is
known as far as `pnglite` tells it (`Csf.Drawing.Png`): the dimensions, what a pixel consists of,
and the bytes of all pixels, unless the file is damaged. How it finds this out is in
`Csf.Drawing.Pnglite`.

A file has the red component of a pixel first, and an image has it in the most significant byte,
which a little-endian processor puts last. So the bytes are swapped when a file is read, and
again when it is written; a file with the bytes that are written is read as the image
(`Csf.Drawing.readImage_ofImage`). The file that is written of an image, if it can be, is in
`Csf.Drawing.PngFile`.

An image of `2 ^ 31` pixels or more is outside of what is modelled, as everywhere.
-/

namespace Csf

namespace Drawing

open Interaction

/-! ### Pixels in memory -/

/-- `uint32_t` in memory. -/
def uint32 : Layout UInt32 UInt8 where
  size := 4
  size_pos := by decide
  Valid _ := True
  encode v := bytes 4 v.toNat
  decode s := .ofNat (littleEndian s)
  length_encode _ := length_bytes _ _
  decode_encode v _ := by
    have hlt : v.toNat < 256 ^ 4 := v.toNat_lt
    rw [littleEndian_bytes, Nat.mod_eq_of_lt hlt, UInt32.ofNat_toNat]
  valid_decode _ _ := trivial
  encode_decode s hs := by
    have hlt := littleEndian_lt s
    rw [hs] at hlt
    rw [UInt32.toNat_ofNat_of_lt' hlt, ← hs, bytes_littleEndian]

/-- `(r << 24) | (g << 16) | (b << 8) | a` -/
def rgba (r g b a : UInt8) : UInt32 :=
  r.toUInt32 <<< 24 ||| g.toUInt32 <<< 16 ||| b.toUInt32 <<< 8 ||| a.toUInt32

/-- `byteswap` -/
def byteswap (val : UInt32) : UInt32 :=
  let p := uint32.encode val
  rgba (p.getD 0 0) (p.getD 1 0) (p.getD 2 0) (p.getD 3 0)

/-- Shifted components do not meet. -/
theorem or_eq_add {a b k : ℕ} (hb : b < 2 ^ k) : 2 ^ k * a ||| b = 2 ^ k * a + b :=
  (Nat.two_pow_add_eq_or_of_lt hb a).symm

theorem toNat_shiftLeft_toUInt32 (b : UInt8) {k : UInt32} (hk : k.toNat ≤ 24) :
    (b.toUInt32 <<< k).toNat = 2 ^ k.toNat * b.toNat := by
  have hpow : 2 ^ k.toNat ≤ 2 ^ 24 := Nat.pow_le_pow_right (by decide) hk
  have hlt : 2 ^ k.toNat * b.toNat < 2 ^ 32 := by
    calc 2 ^ k.toNat * b.toNat ≤ 2 ^ 24 * b.toNat := Nat.mul_le_mul_right _ hpow
      _ < 2 ^ 24 * 2 ^ 8 := Nat.mul_lt_mul_of_pos_left b.toNat_lt (by decide)
  rw [UInt32.toNat_shiftLeft, UInt8.toNat_toUInt32, Nat.mod_eq_of_lt (by omega : k.toNat < 32),
    Nat.shiftLeft_eq, Nat.mul_comm, Nat.mod_eq_of_lt hlt]

/-- **The components are the bytes** of a pixel, the last one first. -/
theorem toNat_rgba (r g b a : UInt8) : (rgba r g b a).toNat = littleEndian [a, b, g, r] := by
  have hg := g.toNat_lt
  have hb := b.toNat_lt
  have ha := a.toNat_lt
  have hrg : 2 ^ 24 * r.toNat ||| 2 ^ 16 * g.toNat = 2 ^ 16 * (2 ^ 8 * r.toNat + g.toNat) := by
    rw [or_eq_add (by omega)]
    omega
  have hrgb : 2 ^ 16 * (2 ^ 8 * r.toNat + g.toNat) ||| 2 ^ 8 * b.toNat =
      2 ^ 8 * (2 ^ 16 * r.toNat + 2 ^ 8 * g.toNat + b.toNat) := by
    rw [or_eq_add (by omega)]
    omega
  rw [rgba, UInt32.toNat_or, UInt32.toNat_or, UInt32.toNat_or,
    toNat_shiftLeft_toUInt32 r (by decide), toNat_shiftLeft_toUInt32 g (by decide),
    toNat_shiftLeft_toUInt32 b (by decide), UInt8.toNat_toUInt32]
  change (2 ^ 24 * r.toNat ||| 2 ^ 16 * g.toNat) ||| 2 ^ 8 * b.toNat ||| a.toNat = _
  rw [hrg, hrgb, or_eq_add ha]
  simp only [littleEndian]
  omega

theorem encode_rgba (r g b a : UInt8) : uint32.encode (rgba r g b a) = [a, b, g, r] := by
  change bytes 4 (rgba r g b a).toNat = _
  rw [toNat_rgba]
  exact bytes_littleEndian [a, b, g, r]

/-- **Swapping the bytes** turns them around. -/
theorem encode_byteswap (val : UInt32) :
    uint32.encode (byteswap val) = (uint32.encode val).reverse := by
  rw [byteswap, encode_rgba]
  rfl

theorem byteswap_byteswap (val : UInt32) : byteswap (byteswap val) = val := by
  have henc : uint32.encode (byteswap (byteswap val)) = uint32.encode val := by
    rw [encode_byteswap, encode_byteswap, List.reverse_reverse]
  have hdec := congrArg uint32.decode henc
  rwa [uint32.decode_encode _ trivial, uint32.decode_encode _ trivial] at hdec

/-! ### Files -/

/-- What the pixels of a file consist of. -/
inductive ColorType where
  | greyscale
  | truecolor
  | indexed
  | greyscaleAlpha
  | truecolorAlpha
  | unknown
  deriving DecidableEq

/-- What functions of `pnglite` return if it is not `PNG_NO_ERROR`. -/
inductive PngResult where
  | done
  | fileError
  | headerError
  | eofError
  | crcError
  | zlibError
  | unknownFilter
  | notSupported
  deriving DecidableEq

/-- **A file that `pnglite` can open**, as far as it can read it. -/
structure Png where
  width : UInt32
  height : UInt32
  colorType : ColorType
  /-- The number of bytes of a pixel. -/
  bpp : ℕ
  /-- What `png_get_data` returns, if it comes from the file alone. -/
  data : Option (Except PngResult (List UInt8))
  length_data : ∀ d, data = some (.ok d) → d.length = width.toNat * height.toNat * bpp

/-- What the functions of `image.c` return when they do not succeed. -/
inductive ImageError where
  | couldNotOpen
  | notTruecolor
  | mallocFailed
  | couldNotWrite
  deriving DecidableEq

/-- `init_image`: all pixels are black. -/
def initImage (width height : UInt32) : Option Image :=
  if h : width.toNat * height.toNat < 2 ^ 31 then
    some ⟨width, height, List.replicate (width.toNat * height.toNat) 0x000000FF,
      List.length_replicate, h⟩
  else none

/-- The loop of `read_image` over pixels of three bytes. -/
def expand : List UInt8 → List UInt32
  | r :: g :: b :: rest => rgba r g b 255 :: expand rest
  | _ => []

theorem length_expand (n : ℕ) (d : List UInt8) (h : d.length = n * 3) : (expand d).length = n := by
  induction n generalizing d with
  | zero =>
    obtain rfl := List.length_eq_zero_iff.mp (h.trans (Nat.zero_mul 3))
    rfl
  | succ n ih =>
    match d with
    | [] => simp at h
    | [_] => simp at h; omega
    | [_, _] => simp at h; omega
    | r :: g :: b :: rest =>
      simp only [List.length_cons] at h
      rw [expand, List.length_cons, ih rest (by omega)]

/-- The loop of `read_image` over pixels of four bytes, which are in memory already. -/
def swapped (n : ℕ) (d : List UInt8) : List UInt32 := (uint32.records n d).map byteswap

/-- The pixels, of a file whose bytes are `d`. -/
def Png.pixels (png : Png) (d : List UInt8) : List UInt32 :=
  if png.bpp = 3 then expand d else swapped (png.width.toNat * png.height.toNat) d

theorem Png.length_pixels {png : Png} {d : List UInt8} (hd : png.data = some (.ok d)) :
    (png.pixels d).length = png.width.toNat * png.height.toNat := by
  have hlen := png.length_data d hd
  rw [pixels]
  split
  · next hbpp =>
    rw [hbpp] at hlen
    exact length_expand _ d hlen
  · rw [swapped, List.length_map, Layout.records, List.length_map, List.length_range]

/-- **`read_image`**, of a file that can be opened or of none. The bytes of the pixels have to fit
an array whose size is computed in 32 bits, if there are three to a pixel. -/
def readImage (file : Option Png) : Option (Except ImageError Image) :=
  match file with
  | none => some (.error .couldNotOpen)
  | some png =>
      if ¬(png.colorType = .truecolor ∧ png.bpp = 3) ∧
          ¬(png.colorType = .truecolorAlpha ∧ png.bpp = 4) then
        some (.error .notTruecolor)
      else if h : png.width.toNat * png.height.toNat < 2 ^ 31 ∧
          (png.bpp = 3 → png.width.toNat * png.height.toNat * 3 < 2 ^ 32) then
        match hd : png.data with
        | none => none
        -- the file is damaged
        | some (.error _) => some (.error .mallocFailed)
        | some (.ok d) =>
            some (.ok ⟨png.width, png.height, png.pixels d, Png.length_pixels hd, h.1⟩)
      else none

/-- The bytes that `write_image` asks to be written. -/
def dataToWrite (img : Image) : List UInt8 := (img.data.map byteswap).flatMap uint32.encode

theorem length_dataToWrite (img : Image) :
    (dataToWrite img).length = img.width.toNat * img.height.toNat * 4 := by
  rw [dataToWrite, uint32.length_flatMap_encode, List.length_map, img.length_data]
  rfl

/-- What is known of a file with these bytes. -/
def Png.ofImage (img : Image) : Png where
  width := img.width
  height := img.height
  colorType := .truecolorAlpha
  bpp := 4
  data := some (.ok (dataToWrite img))
  length_data := by
    rintro d ⟨⟩
    exact length_dataToWrite img

theorem swapped_dataToWrite (img : Image) :
    swapped (img.width.toNat * img.height.toNat) (dataToWrite img) = img.data := by
  have hread := uint32.records_store (l := img.data.map byteswap) (fun _ _ => trivial) []
  rw [List.append_nil, List.length_map, img.length_data] at hread
  rw [swapped, dataToWrite, hread, List.map_map]
  refine (List.map_congr_left fun v _ => byteswap_byteswap v).trans (List.map_id _)

/-- **An image is read** from the data of a file that has its size and its pixels. -/
theorem readImage_eq {png : Png} {d : List UInt8} {img : Image} (hd : png.data = some (.ok d))
    (hkind : png.colorType = .truecolor ∧ png.bpp = 3 ∨
      png.colorType = .truecolorAlpha ∧ png.bpp = 4)
    (hwidth : png.width = img.width) (hheight : png.height = img.height)
    (hraw : png.bpp = 3 → png.width.toNat * png.height.toNat * 3 < 2 ^ 32)
    (hpixels : png.pixels d = img.data) : readImage (some png) = some (.ok img) := by
  have hkind' : ¬(¬(png.colorType = .truecolor ∧ png.bpp = 3) ∧
      ¬(png.colorType = .truecolorAlpha ∧ png.bpp = 4)) := by
    rintro ⟨h₁, h₂⟩
    exact hkind.elim h₁ h₂
  have hsmall : png.width.toNat * png.height.toNat < 2 ^ 31 := by
    rw [hwidth, hheight]
    exact img.small
  rw [readImage]
  simp only [if_neg hkind', dif_pos (And.intro hsmall hraw)]
  split
  · next h => exact absurd (h.symm.trans hd) (by simp)
  · next h => exact absurd (h.symm.trans hd) (by simp)
  · next h =>
    cases h.symm.trans hd
    simp only [hwidth, hheight, hpixels]

/-- **What is asked to be written is what is read.** -/
theorem readImage_ofImage (img : Image) :
    readImage (some (.ofImage img)) = some (.ok img) := by
  have hbpp : ¬(Png.ofImage img).bpp = 3 := by
    change ¬4 = 3
    decide
  exact readImage_eq rfl (.inr ⟨rfl, rfl⟩) rfl rfl (fun h => absurd h hbpp)
    ((if_neg hbpp).trans (swapped_dataToWrite img))

end Drawing

end Csf
