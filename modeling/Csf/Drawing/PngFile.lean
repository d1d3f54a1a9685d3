import Csf.Drawing.Pnglite

/-!
# Images in PNG files

What `image.c` gets when it reads the bytes of a file with `pnglite`, and the bytes that it
writes. An image is read from every file that has its pixels, however its rows have been filtered
(`Csf.Drawing.readImageFile_eq`), and so from the one that has been written of it
(`Csf.Drawing.readImageFile_writeImageFile`).

Not every image can be written. The size of its data is computed in 32 bits, and the chunk is 4
bytes shorter than what is put into it, so that `compress` has to leave as many unused
(`Csf.Drawing.isSome_writeImageFile_iff`).
-/

namespace Csf

namespace Drawing

open Interaction

/-! ### Files that are opened -/

section Opening

variable {z : Zlib} {png : Header} {size : ℕ} {file rest d : List UInt8}

theorem length_of_getData (h : getData z png size file = some (.ok d)) : d.length = size := by
  obtain ⟨-, -, -, -, hsize⟩ := getData_eq_ok h
  exact hsize

/-- **What `pnglite` tells** of the bytes of a file. -/
def openFile (z : Zlib) (file : List UInt8) : Option (Except PngResult Png) :=
  match openRead z file with
  | none => none
  | some (.error result) => some (.error result)
  | some (.ok (png, rest)) =>
      let size := png.width.toNat * png.height.toNat * png.bpp.toNat
      some (.ok ⟨png.width, png.height, png.colorType, png.bpp.toNat, getData z png size rest,
        fun _ => length_of_getData⟩)

/-- **`read_image`**, of the bytes of a file or of none. -/
def readImageFile (z : Zlib) (file : Option (List UInt8)) : Option (Except ImageError Image) :=
  match file with
  | none => readImage none
  | some file => (openFile z file).bind fun opened => readImage opened.toOption

/-- The header that `png_write_ihdr` writes. -/
def ihdr (width height : UInt32) (depth colorType : UInt8) : List UInt8 :=
  [0x49, 0x48, 0x44, 0x52] ++
    (ul.encode width ++ (ul.encode height ++ [depth, colorType, 0, 0, 0]))

/-- `png_write_ihdr` -/
def writeIhdr (z : Zlib) (width height : UInt32) (depth colorType : UInt8) : List UInt8 :=
  let ihdr := ihdr width height depth colorType
  signature ++ (ul.encode 13 ++ (ihdr ++ ul.encode (z.crc32 0 ihdr)))

/-- **A header is read** as it has been written. -/
theorem openRead_writeIhdr (width height : UInt32) {depth colorType : UInt8}
    (htype : ColorType.ofCode colorType ≠ .indexed) (hdepth : depth = 8 ∨ depth = 16) :
    openRead z (writeIhdr z width height depth colorType ++ rest) =
      some (.ok (⟨width, height, depth, .ofCode colorType⟩, rest)) := by
  have hlen : (ihdr width height depth colorType).length = 17 := rfl
  have hdepth' : ¬(depth ≠ 8 ∧ depth ≠ 16) := by
    rintro ⟨h₁, h₂⟩
    exact hdepth.elim h₁ h₂
  have hwidth : ul.decode ((ihdr width height depth colorType).drop 4) = width :=
    ul.decode_encode width trivial
  have hheight : ul.decode ((ihdr width height depth colorType).drop 8) = height :=
    ul.decode_encode height trivial
  rw [openRead, writeIhdr]
  simp only [List.append_assoc]
  rw [if_neg (by simp [signature]), if_neg (by simp [signature])]
  change readIhdr z (ul.encode 13 ++ (ihdr width height depth colorType ++ _)) = _
  rw [readIhdr, next_ul]
  dsimp only
  rw [if_neg (by decide), if_neg (by rw [List.length_append]; omega), List.drop_left' hlen,
    List.take_left' hlen, next_ul]
  dsimp only
  rw [if_neg (not_not.mpr rfl), hwidth, hheight]
  change (if ColorType.ofCode colorType = .indexed then _ else if depth ≠ 8 ∧ depth ≠ 16 then _
    else if (0 : UInt8) ≠ 0 then _ else _) = _
  rw [if_neg htype, if_neg hdepth', if_neg (not_not.mpr rfl)]
  rfl

end Opening

/-! ### Streams -/

/-- **A stream inflates to these bytes**, which there is just room for, however it is cut into
pieces: each call takes all of its piece. -/
def Zlib.Inflates (z : Zlib) (availOut : UInt32) (stream out : List UInt8) : Prop :=
  ∀ pieces : List (List UInt8), (∀ piece ∈ pieces, piece ≠ []) → pieces.flatten = stream →
    ∃ zs, pieces.foldlM (pngInflate z) (z.inflateInit availOut) = .ok zs ∧ z.output zs = out

/-- What a chunk has of the stream. -/
def Chunk.piece : Chunk → Option (List UInt8)
  | data bytes _ => some bytes
  | other _ _ _ _ _ _ _ => none

/-- One stream inflates. -/
theorem inflates_ofStream (availOut : UInt32) (stream out : List UInt8) :
    (Zlib.ofStream stream out).Inflates availOut stream out := by
  rintro pieces - hflat
  suffices h : ∀ seen : List UInt8, seen ++ pieces.flatten = stream →
      pieces.foldlM (pngInflate (.ofStream stream out)) seen = .ok stream from
    ⟨stream, h [] hflat, if_pos rfl⟩
  clear hflat
  induction pieces with
  | nil =>
    rintro seen rfl
    rw [List.flatten_nil, List.append_nil]
    rfl
  | cons piece pieces ih =>
    intro seen hseen
    rw [List.flatten_cons, ← List.append_assoc] at hseen
    have hstep : pngInflate (.ofStream stream out) seen piece = .ok (seen ++ piece) := by
      have hprefix : seen ++ piece <+: stream := ⟨pieces.flatten, hseen⟩
      simp only [pngInflate, Zlib.ofStream, if_pos hprefix]
      rfl
    exact (congrArg (· >>= fun seen => pieces.foldlM (pngInflate (.ofStream stream out)) seen)
      hstep).trans (ih (seen ++ piece) hseen)

section Streams

variable {z : Zlib} {png : Header} {chunks : List Chunk} {lines : List (Filter × List UInt8)}

/-- **Only the pieces matter**, whatever chunks there are. -/
theorem inflate_chunks (png : Header) (zs : Option z.Stream) {s s' : z.Stream}
    (hzs : zs.getD (z.inflateInit png.datalen) = s)
    (h : (chunks.filterMap Chunk.piece).foldlM (pngInflate z) s = .ok s') :
    chunks.foldlM (Chunk.inflate z png) zs =
      .ok (if chunks.filterMap Chunk.piece = [] then zs else some s') := by
  induction chunks generalizing zs s with
  | nil => rfl
  | cons c chunks ih =>
    rw [List.foldlM_cons]
    cases c with
    | data bytes hlt =>
      change ((bytes :: chunks.filterMap Chunk.piece).foldlM (pngInflate z) s) = .ok s' at h
      rw [List.foldlM_cons] at h
      rw [Chunk.inflate, hzs]
      cases hinf : pngInflate z s bytes with
      | error e =>
        rw [hinf] at h
        cases h
      | ok s₁ =>
        rw [hinf] at h
        refine (ih (some s₁) rfl h).trans (congrArg Except.ok ?_)
        split
        · next hnil =>
          rw [hnil] at h
          cases h
          rfl
        · rfl
    | other type length body htype hdata hend hbody => exact ih zs hzs h

/-- **The data of an image is what its rows are**, when they come out of the stream. -/
theorem getData_of_inflates (hdepth : png.depth ≠ 16) (hpieces : ∀ c ∈ chunks, c.piece ≠ some [])
    (hne : (chunks.filterMap Chunk.piece).flatten ≠ [])
    (hstream : z.Inflates png.datalen (chunks.filterMap Chunk.piece).flatten
      (filteredLines png.bpp.toNat lines))
    (hlines : ∀ line ∈ lines, LineOk png.rowLength.toNat line.1 line.2.length)
    (hlen : (filteredLines png.bpp.toNat lines).length = png.datalen.toNat) (length : UInt32)
    (rest : List UInt8) :
    getData z png (lines.flatMap (·.2)).length
        (chunks.flatMap (Chunk.bytes z) ++ (ul.encode length ++ (iend ++ rest))) =
      some (.ok (lines.flatMap (·.2))) := by
  obtain ⟨s, hs, hout⟩ := hstream (chunks.filterMap Chunk.piece) (fun piece hpiece hnil => by
    obtain ⟨c, hc, hcp⟩ := List.mem_filterMap.mp hpiece
    exact hpieces c hc (hcp.trans (congrArg some hnil))) rfl
  have hchunks := inflate_chunks png none rfl hs
  rw [if_neg fun hnil => hne (by rw [hnil]; rfl)] at hchunks
  refine getData_bytes hdepth hchunks hlines hout ?_ length rest
  rw [← hlen, ← hout]
  rfl

end Streams

/-! ### Images that are read -/

theorem dataToWrite_eq (img : Image) : dataToWrite img = img.data.flatMap ul.encode := by
  rw [dataToWrite, List.flatMap_map]
  refine congrArg (fun f => img.data.flatMap f) (funext fun v => ?_)
  rw [encode_byteswap]
  exact (setUl_eq v).symm

/-- The three components are enough for an opaque pixel. -/
theorem expand_take {l : List UInt32} (h : ∀ v ∈ l, getA v = 255) :
    expand (l.flatMap fun v => (ul.encode v).take 3) = l := by
  induction l with
  | nil => rfl
  | cons v l ih =>
    obtain ⟨hv, hl⟩ := List.forall_mem_cons.mp h
    have ha : v.toUInt8 = getA v := by
      refine UInt8.toNat_inj.mp ?_
      rw [getA, UInt32.toNat_toUInt8, UInt32.toNat_toUInt8, UInt32.toNat_and,
        show (0xFF : UInt32).toNat = 2 ^ 8 - 1 from rfl, Nat.and_two_pow_sub_one_eq_mod,
        Nat.mod_mod]
    have hdec := rgba_setUl v
    rw [ha, hv] at hdec
    rw [List.flatMap_cons]
    change rgba (v >>> 24).toUInt8 (v >>> 16).toUInt8 (v >>> 8).toUInt8 255 ::
      expand (l.flatMap fun v => (ul.encode v).take 3) = _
    rw [hdec, ih hl]

/-- The number of bytes of a pixel. -/
def pixelSize (alpha : Bool) : ℕ := if alpha then 4 else 3

/-- The code for such pixels. -/
def typeCode (alpha : Bool) : UInt8 := if alpha then 6 else 2

/-- The header of an image. -/
def Image.header (img : Image) (alpha : Bool) : Header :=
  ⟨img.width, img.height, 8, .ofCode (typeCode alpha)⟩

theorem Image.bpp_header (img : Image) (alpha : Bool) :
    (img.header alpha).bpp.toNat = pixelSize alpha := by
  cases alpha
  · change ((3 : UInt8) * (8 / 8)).toNat = 3
    decide
  · change ((4 : UInt8) * (8 / 8)).toNat = 4
    decide

/-- All components of all pixels are what is written. -/
theorem rows_eq_dataToWrite (img : Image) :
    (img.data.flatMap fun v => (ul.encode v).take (pixelSize true)) = dataToWrite img :=
  (dataToWrite_eq img).symm

/-- **Chunks show an image** if its rows come out of their data, each filtered in one way or
another: with all components of the pixels, or without the last one if the image is opaque. -/
structure Shows (z : Zlib) (img : Image) (alpha : Bool) (chunks : List Chunk)
    (lines : List (Filter × List UInt8)) : Prop where
  piece_ne : ∀ c ∈ chunks, c.piece ≠ some []
  stream_ne : (chunks.filterMap Chunk.piece).flatten ≠ []
  inflates : z.Inflates (img.header alpha).datalen (chunks.filterMap Chunk.piece).flatten
    (filteredLines (pixelSize alpha) lines)
  lineOk : ∀ line ∈ lines, LineOk (img.width.toNat * pixelSize alpha) line.1 line.2.length
  length_lines : lines.length = img.height.toNat
  rows : lines.flatMap (·.2) = img.data.flatMap fun v => (ul.encode v).take (pixelSize alpha)
  getA_eq : alpha = false → ∀ v ∈ img.data, getA v = 255
  small : img.width.toNat * img.height.toNat * pixelSize alpha + img.height.toNat < 2 ^ 32

/-- A file with these chunks, and something after them. -/
def pngFile (z : Zlib) (img : Image) (alpha : Bool) (chunks : List Chunk) (length : UInt32)
    (rest : List UInt8) : List UInt8 :=
  writeIhdr z img.width img.height 8 (typeCode alpha) ++
    (chunks.flatMap (Chunk.bytes z) ++ (ul.encode length ++ (iend ++ rest)))

section Images

variable {z : Zlib} {img : Image} {alpha : Bool} {chunks : List Chunk}
  {lines : List (Filter × List UInt8)}

namespace Shows

/-- There are as many bytes in the rows as in the pixels. -/
theorem length_flatMap (h : Shows z img alpha chunks lines) :
    (lines.flatMap (·.2)).length = img.width.toNat * img.height.toNat * pixelSize alpha := by
  rw [length_rows h.lineOk, h.length_lines]
  ring

theorem toNat_datalen (h : Shows z img alpha chunks lines) :
    (img.header alpha).datalen.toNat =
      img.width.toNat * img.height.toNat * pixelSize alpha + img.height.toNat := by
  have hsmall := h.small
  rw [← img.bpp_header alpha] at hsmall ⊢
  exact Header.toNat_datalen hsmall

/-- The rows have the length that `pnglite` computes. -/
theorem lineOk_rowLength (h : Shows z img alpha chunks lines) {line : Filter × List UInt8}
    (hline : line ∈ lines) :
    LineOk (img.header alpha).rowLength.toNat line.1 line.2.length := by
  have hsmall := h.small
  have hpos : 0 < img.height.toNat := h.length_lines ▸ List.length_pos_of_mem hline
  have hle : img.width.toNat * pixelSize alpha ≤
      img.width.toNat * img.height.toNat * pixelSize alpha :=
    Nat.mul_le_mul_right _ (Nat.le_mul_of_pos_right _ hpos)
  have hlt : (img.header alpha).width.toNat * (img.header alpha).bpp.toNat < 2 ^ 32 := by
    rw [img.bpp_header alpha]
    change img.width.toNat * _ < _
    omega
  rw [Header.toNat_rowLength hlt, img.bpp_header alpha]
  exact h.lineOk line hline

/-- The data is what is shown of the pixels. -/
theorem getData_eq (h : Shows z img alpha chunks lines) (length : UInt32) (rest : List UInt8) :
    getData z (img.header alpha) (img.width.toNat * img.height.toNat * pixelSize alpha)
        (chunks.flatMap (Chunk.bytes z) ++ (ul.encode length ++ (iend ++ rest))) =
      some (.ok (img.data.flatMap fun v => (ul.encode v).take (pixelSize alpha))) := by
  have hbpp := img.bpp_header alpha
  have hdepth : (img.header alpha).depth ≠ 16 := by
    change (8 : UInt8) ≠ 16
    decide
  have hlen : (filteredLines (img.header alpha).bpp.toNat lines).length =
      (img.header alpha).datalen.toNat := by
    rw [length_filteredLines h.lineOk, ← length_rows h.lineOk, h.length_flatMap, h.length_lines,
      h.toNat_datalen]
  have hdata := getData_of_inflates hdepth h.piece_ne h.stream_ne
    (by rw [hbpp]; exact h.inflates) (fun line => h.lineOk_rowLength) hlen length rest
  rwa [h.length_flatMap, h.rows] at hdata

end Shows

/-- **What is known of a file** that shows an image. -/
theorem openFile_pngFile (h : Shows z img alpha chunks lines) (length : UInt32)
    (rest : List UInt8) :
    ∃ hlen, openFile z (pngFile z img alpha chunks length rest) = some (.ok
      ⟨img.width, img.height, .ofCode (typeCode alpha), pixelSize alpha,
        some (.ok (img.data.flatMap fun v => (ul.encode v).take (pixelSize alpha))), hlen⟩) := by
  have htype : ColorType.ofCode (typeCode alpha) ≠ .indexed := by cases alpha <;> decide
  refine ⟨fun d hd => ?_, ?_⟩
  · cases hd
    rw [← h.rows, h.length_flatMap]
  · rw [openFile, pngFile, openRead_writeIhdr img.width img.height htype (.inl rfl)]
    change some (Except.ok (Png.mk _ _ _ (img.header alpha).bpp.toNat (getData z (img.header alpha)
      (img.width.toNat * img.height.toNat * (img.header alpha).bpp.toNat) _) _)) = _
    simp only [img.bpp_header alpha, h.getData_eq]

/-- **An image is read from every file that shows it**, however its rows have been filtered and the
stream been cut, and whatever other chunks there are. -/
theorem readImageFile_eq (h : Shows z img alpha chunks lines) (length : UInt32)
    (rest : List UInt8) :
    readImageFile z (some (pngFile z img alpha chunks length rest)) = some (.ok img) := by
  obtain ⟨hlen, hopen⟩ := openFile_pngFile h length rest
  rw [readImageFile, hopen, Option.bind_some]
  have hsmall := h.small
  cases alpha with
  | false =>
    change _ * 3 + _ < 2 ^ 32 at hsmall
    refine readImage_eq rfl (.inl ⟨rfl, rfl⟩) rfl rfl (fun _ => ?_) (expand_take (h.getA_eq rfl))
    change img.width.toNat * img.height.toNat * 3 < 2 ^ 32
    omega
  | true =>
    have hbpp : ¬pixelSize true = 3 := by decide
    refine readImage_eq rfl (.inr ⟨rfl, rfl⟩) rfl rfl (fun h => absurd h hbpp)
      ((if_neg hbpp).trans ?_)
    exact (congrArg (swapped _) (rows_eq_dataToWrite img)).trans (swapped_dataToWrite img)

/-- An image of two rows, the second of which is filtered. -/
theorem readImageFile_eq_up :
    let img : Image := ⟨1, 2, [0x0A141EFF, 0x0B1621FF], rfl, by decide⟩
    readImageFile upZlib (some (pngFile upZlib img false upChunks 0 [])) = some (.ok img) := by
  intro img
  have hshows : Shows upZlib img false upChunks upLines := by
    constructor
    case piece_ne => decide
    case stream_ne => decide
    case inflates =>
      have hfiltered : filteredLines (pixelSize false) upLines = [0, 10, 20, 30, 2, 1, 2, 3] := by
        decide +kernel
      rw [hfiltered]
      exact inflates_ofStream _ _ _
    case lineOk =>
      intro line hline
      have hline : line = (.none, [10, 20, 30]) ∨ line = (.up, [11, 22, 33]) := by
        simpa [upLines] using hline
      rcases hline with rfl | rfl <;> exact ⟨rfl, .inr (by decide)⟩
    case length_lines => rfl
    case rows => decide +kernel
    case getA_eq =>
      rintro - v hv
      have hv : v = 0x0A141EFF ∨ v = 0x0B1621FF := by simpa [img] using hv
      rcases hv with rfl | rfl <;> decide
    case small => decide
  exact readImageFile_eq hshows 0 []

end Images

/-! ### Images that are written -/

/-- The first `h` rows of `n` bytes. -/
def rowsOf (h n : ℕ) (data : List UInt8) : List (List UInt8) :=
  (List.range h).map fun i => (data.drop (i * n)).take n

theorem flatten_rowsOf {h n : ℕ} {data : List UInt8} (hlen : data.length = h * n) :
    (rowsOf h n data).flatten = data := by
  induction h generalizing data with
  | zero => exact (List.eq_nil_of_length_eq_zero (hlen.trans (Nat.zero_mul n))).symm
  | succ h ih =>
    have hrest : rowsOf (h + 1) n data = data.take n :: rowsOf h n (data.drop n) := by
      rw [rowsOf, List.range_succ_eq_map, List.map_cons, List.map_map, Nat.zero_mul, List.drop_zero]
      refine congrArg _ (List.map_congr_left fun i _ => ?_)
      simp only [Function.comp_apply, List.drop_drop, Nat.succ_mul, Nat.add_comm]
    rw [Nat.succ_mul] at hlen
    rw [hrest, List.flatten_cons, ih (by rw [List.length_drop]; omega), List.take_append_drop]

theorem length_of_mem_rowsOf {h n : ℕ} {data row : List UInt8} (hlen : data.length = h * n)
    (hrow : row ∈ rowsOf h n data) : row.length = n := by
  obtain ⟨i, hi, rfl⟩ := List.mem_map.mp hrow
  have hle : i * n + n ≤ h * n := by
    rw [← Nat.succ_mul]
    exact Nat.mul_le_mul_right n (List.mem_range.mp hi)
  rw [List.length_take, List.length_drop]
  omega

section Writing

variable (z : Zlib)

/-- `png_write_idats`: the chunk with all data, and the last chunk. There has to be room for the
checksum behind what `compress` has written. -/
def writeIdats (png : Header) (data : List UInt8) : Option (List UInt8) :=
  let chunkSize : UInt32 := .ofNat (z.compressBound png.datalen.toNat)
  let written := z.compress chunkSize data
  if written.length + 8 ≤ (chunkSize + 4).toNat then
    let chunk := idat ++ written
    some (ul.encode (.ofNat written.length) ++ (chunk ++ ul.encode (z.crc32 0 chunk)) ++
      (ul.encode 0 ++ (iend ++ ul.encode (z.crc32 0 iend))))
  else none

/-- `png_set_data`: the file that is written. The sizes are computed in 32 bits. -/
def setData (width height : UInt32) (depth color : UInt8) (data : List UInt8) :
    Option (List UInt8) :=
  let png : Header := ⟨width, height, depth, .ofCode color⟩
  if width.toNat * height.toNat * png.bpp.toNat + height.toNat < 2 ^ 32 ∧
      width.toNat * height.toNat * png.bpp.toNat ≤ data.length then
    let filtered := (rowsOf height.toNat (width.toNat * png.bpp.toNat) data).flatMap (0 :: ·)
    (writeIdats z png filtered).map (writeIhdr z width height depth color ++ ·)
  else none

/-- **`write_image`**: the bytes that are written, if they can be written. -/
def writeImageFile (img : Image) : Option (List UInt8) :=
  setData z img.width img.height 8 (typeCode true) (dataToWrite img)

/-- The rows of an image that is written, which are not filtered. -/
def unfiltered (img : Image) : List (Filter × List UInt8) :=
  (rowsOf img.height.toNat (img.width.toNat * pixelSize true) (dataToWrite img)).map (.none, ·)

/-- The stream of an image that is written. -/
def streamOf (img : Image) : List UInt8 :=
  z.compress (.ofNat (z.compressBound (img.header true).datalen.toNat)) (rawLines (unfiltered img))

/-- **An image can be stored**: 32 bits are enough for the size of its data, and there is room for
its stream and the checksum. -/
structure Storable (img : Image) : Prop where
  small : img.width.toNat * img.height.toNat * 4 + img.height.toNat < 2 ^ 32
  room : (streamOf z img).length + 8 ≤
    ((.ofNat (z.compressBound (img.header true).datalen.toNat) : UInt32) + 4).toNat

/-- **`zlib` restores** what it has compressed of an image, and takes checksums piece by piece. -/
structure Restores (img : Image) : Prop where
  crc32_crc32 : ∀ c a b, z.crc32 (z.crc32 c a) b = z.crc32 c (a ++ b)
  stream_ne : streamOf z img ≠ []
  inflates : z.Inflates (img.header true).datalen (streamOf z img) (rawLines (unfiltered img))

end Writing

section Written

variable {z : Zlib} {img : Image}

/-- A row that is not filtered is as it is. -/
theorem filteredLines_unfiltered (stride : ℕ) (img : Image) :
    filteredLines stride (unfiltered img) = rawLines (unfiltered img) := by
  suffices h : ∀ prev (rows : List (List UInt8)), residualLines (Filter.expected stride) prev
      (rows.map (.none, ·)) = rows.map (.none, ·) from congrArg rawLines (h _ _)
  intro prev rows
  induction rows generalizing prev with
  | nil => rfl
  | cons row rows ih =>
    rw [List.map_cons, residualLines, ih]
    exact congrArg (fun r => (Filter.none, r) :: _) (residuals_zero row)

/-- **A file that is written shows the image**, in one chunk of data. -/
theorem shows_written (hsmall : img.width.toNat * img.height.toNat * 4 + img.height.toNat < 2 ^ 32)
    (hlt : (streamOf z img).length < 2 ^ 32) (hne : streamOf z img ≠ [])
    (hstream : z.Inflates (img.header true).datalen (streamOf z img) (rawLines (unfiltered img))) :
    Shows z img true [.data (streamOf z img) hlt] (unfiltered img) := by
  have hlen : (dataToWrite img).length =
      img.height.toNat * (img.width.toNat * pixelSize true) := by
    rw [length_dataToWrite]
    change _ = _ * (_ * 4)
    ring
  have hpiece : [Chunk.data (streamOf z img) hlt].filterMap Chunk.piece = [streamOf z img] := rfl
  have hflatten : [streamOf z img].flatten = streamOf z img := List.append_nil _
  constructor
  case piece_ne =>
    intro c hc hnil
    obtain rfl := List.mem_singleton.mp hc
    exact hne (Option.some.inj hnil)
  case stream_ne => rwa [hpiece, hflatten]
  case inflates => rwa [hpiece, hflatten, filteredLines_unfiltered]
  case lineOk =>
    intro line hline
    obtain ⟨row, hrow, rfl⟩ := List.mem_map.mp hline
    exact ⟨length_of_mem_rowsOf hlen hrow, .inl rfl⟩
  case length_lines => rw [unfiltered, List.length_map, rowsOf, List.length_map, List.length_range]
  case rows =>
    rw [rows_eq_dataToWrite, unfiltered, List.flatMap_map]
    exact List.flatMap_id.trans (flatten_rowsOf hlen)
  case getA_eq => exact fun h => absurd h (by decide)
  case small => exact hsmall

/-- The file is what `png_write_idats` makes of the rows, if 32 bits are enough. -/
theorem writeImageFile_eq_ite (z : Zlib) (img : Image) :
    writeImageFile z img =
      if img.width.toNat * img.height.toNat * 4 + img.height.toNat < 2 ^ 32 then
        (writeIdats z (img.header true) (rawLines (unfiltered img))).map
          (writeIhdr z img.width img.height 8 (typeCode true) ++ ·)
      else none := by
  have hbpp := img.bpp_header true
  have hlen : img.width.toNat * img.height.toNat * pixelSize true ≤ (dataToWrite img).length :=
    (length_dataToWrite img).ge
  have hrows : (rowsOf img.height.toNat (img.width.toNat * pixelSize true)
      (dataToWrite img)).flatMap (0 :: ·) = rawLines (unfiltered img) := by
    rw [rawLines, unfiltered, List.flatMap_map]
    rfl
  change (if img.width.toNat * img.height.toNat * (img.header true).bpp.toNat + _ < 2 ^ 32 ∧
    img.width.toNat * img.height.toNat * (img.header true).bpp.toNat ≤ _ then
      (writeIdats z (img.header true) ((rowsOf img.height.toNat
        (img.width.toNat * (img.header true).bpp.toNat) (dataToWrite img)).flatMap (0 :: ·))).map _
    else none) = _
  rw [hbpp, hrows]
  exact if_congr (and_iff_left hlen) rfl rfl

/-- **An image is written if and only if** it can be stored. -/
theorem isSome_writeImageFile_iff : (writeImageFile z img).isSome ↔ Storable z img := by
  rw [writeImageFile_eq_ite, writeIdats]
  change Option.isSome (if _ then (if (streamOf z img).length + 8 ≤ _ then _ else none).map _
    else none) = true ↔ _
  -- first the size that `png_set_data` computes, then the chunk of `png_write_idats`
  split
  · next hsmall =>
    split
    · next hroom => exact iff_of_true rfl ⟨hsmall, hroom⟩
    · next hroom => exact iff_of_false Bool.false_ne_true fun h => hroom h.room
  · next hsmall => exact iff_of_false Bool.false_ne_true fun h => hsmall h.small

/-- What is written is shorter than `2 ^ 32` bytes. -/
theorem Storable.length_lt (h : Storable z img) : (streamOf z img).length < 2 ^ 32 := by
  have hroom := h.room
  have hlt := ((.ofNat (z.compressBound (img.header true).datalen.toNat) : UInt32) + 4).toNat_lt
  omega

/-- **The bytes of a file that is written.** -/
theorem writeImageFile_eq (hcrc : ∀ c a b, z.crc32 (z.crc32 c a) b = z.crc32 c (a ++ b))
    (h : Storable z img) :
    writeImageFile z img = some (pngFile z img true [.data (streamOf z img) h.length_lt] 0
      (ul.encode (z.crc32 0 iend))) := by
  rw [writeImageFile_eq_ite, if_pos h.small, writeIdats]
  change (if (streamOf z img).length + 8 ≤ _ then _ else none).map _ = _
  rw [if_pos h.room, Option.map_some, pngFile]
  have hbytes : [Chunk.data (streamOf z img) h.length_lt].flatMap (Chunk.bytes z) =
      ul.encode (.ofNat (streamOf z img).length) ++
        (idat ++ (streamOf z img ++ ul.encode (z.crc32 0 (idat ++ streamOf z img)))) := by
    rw [List.flatMap_cons, List.flatMap_nil, List.append_nil, Chunk.bytes, hcrc]
  rw [hbytes]
  refine congrArg some (congrArg (writeIhdr z _ _ _ _ ++ ·) ?_)
  simp only [List.append_assoc]
  rfl

/-- **What `pnglite` tells of a file that has been written** is what it was asked to write. -/
theorem openFile_of_writeImageFile {file : List UInt8} (h : Restores z img)
    (hfile : writeImageFile z img = some file) :
    openFile z file = some (.ok (.ofImage img)) := by
  have hstore : Storable z img :=
    isSome_writeImageFile_iff.mp (Option.isSome_iff_exists.mpr ⟨file, hfile⟩)
  obtain ⟨hlen, hopen⟩ := openFile_pngFile
    (shows_written hstore.small hstore.length_lt h.stream_ne h.inflates) 0
    (ul.encode (z.crc32 0 iend))
  cases (writeImageFile_eq h.crc32_crc32 hstore).symm.trans hfile
  rw [hopen]
  simp only [rows_eq_dataToWrite]
  rfl

/-- **What has been written is what is read**, when `zlib` restores it. -/
theorem readImageFile_of_writeImageFile {file : List UInt8} (h : Restores z img)
    (hfile : writeImageFile z img = some file) : readImageFile z (some file) = some (.ok img) := by
  rw [readImageFile, openFile_of_writeImageFile h hfile]
  exact readImage_ofImage img

/-- **An image that can be stored is written** to a file of which `pnglite` tells what it was asked
to write, and from which `read_image` returns the image. -/
theorem readImageFile_writeImageFile (hstore : Storable z img) (hzlib : Restores z img) :
    ∃ file, writeImageFile z img = some file ∧
      openFile z file = some (.ok (.ofImage img)) ∧
      readImageFile z (some file) = some (.ok img) := by
  obtain ⟨file, hfile⟩ := Option.isSome_iff_exists.mp (isSome_writeImageFile_iff.mpr hstore)
  exact ⟨file, hfile, openFile_of_writeImageFile hzlib hfile,
    readImageFile_of_writeImageFile hzlib hfile⟩

/-- A black image with a red corner. -/
def corner : Image := ⟨2, 2, [0xFF, 0xFF, 0xFF, 0xFF0000FF], rfl, by decide⟩

/-- Its rows. -/
def cornerRows : List UInt8 :=
  [0, 0, 0, 0, 0xFF, 0, 0, 0, 0xFF, 0, 0, 0, 0, 0xFF, 0xFF, 0, 0, 0xFF]

/-- What they are compressed to. -/
def cornerStream : List UInt8 :=
  [0x78, 0x9C, 0x63, 0x60, 0x60, 0x60, 0xF8, 0x0F, 0xC5, 0x0C, 0xFF, 0x81, 0xE4, 0x7F, 0x00, 0x21,
    0xF0, 0x04, 0xFC]

/-- What is known of this stream. -/
def cornerZlib : Zlib := .ofStream cornerStream cornerRows

theorem rawLines_corner : rawLines (unfiltered corner) = cornerRows := by decide +kernel

theorem streamOf_corner : streamOf cornerZlib corner = cornerStream := by
  rw [streamOf, rawLines_corner]
  rfl

theorem storable_corner : Storable cornerZlib corner := by
  refine ⟨by decide, ?_⟩
  rw [streamOf_corner]
  decide +kernel

theorem restores_corner : Restores cornerZlib corner := by
  refine ⟨crcAfter_crcAfter, ?_, ?_⟩
  · rw [streamOf_corner]
    decide
  · rw [streamOf_corner, rawLines_corner]
    exact inflates_ofStream _ _ _

/-- It is written and read. -/
theorem readImageFile_writeImageFile_corner :
    ∃ file, writeImageFile cornerZlib corner = some file ∧
      openFile cornerZlib file = some (.ok (.ofImage corner)) ∧
      readImageFile cornerZlib (some file) = some (.ok corner) :=
  readImageFile_writeImageFile storable_corner restores_corner

end Written

end Drawing

end Csf
