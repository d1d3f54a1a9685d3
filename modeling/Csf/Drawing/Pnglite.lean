import Csf.Drawing.ImageFile
import Csf.Lib.Prediction

/-!
# PNG files

`pnglite.c`, as far as `image.c` uses it. A file is a signature, a header, and chunks, each of
them with its length, its type and a checksum. The data of the `IDAT` chunks is one stream for
`zlib`, and what comes out of it are the rows of the image, each *filtered*: a byte is told by how
far it is from what the bytes left of it and above it let expect.

Undoing a filter is an instance of `Csf.Lib.Prediction`, so that every choice of filters can be
read, and so can every way to cut the stream into chunks, with others in between
(`Csf.Drawing.getData_eq_ok_iff`).

`zlib` is not part of the repository. What the functions that are used do is a parameter
(`Csf.Drawing.Zlib`), and what they have to be good for is said where it matters. Left out are
memory that cannot be allocated, writes that fail, and samples of 16 bits, which `read_image` does
not ask for. Where a result depends on memory that has not been written to, there is none.
-/

namespace Csf

namespace Drawing

open Interaction

/-! ### Numbers -/

/-- What `set_ul` stores: the bytes of a number, the most significant one first. -/
def setUl (v : UInt32) : List UInt8 :=
  [(v >>> 24).toUInt8, (v >>> 16).toUInt8, (v >>> 8).toUInt8, v.toUInt8]

theorem setUl_eq (v : UInt32) : setUl v = (uint32.encode v).reverse := by
  have hbyte : ∀ k : UInt32, k.toNat < 32 →
      (v >>> k).toUInt8 = .ofNat (v.toNat / 2 ^ k.toNat) := fun k hk => by
    refine UInt8.toNat_inj.mp ?_
    rw [UInt32.toNat_toUInt8, UInt32.toNat_shiftRight, Nat.mod_eq_of_lt hk,
      Nat.shiftRight_eq_div_pow, UInt8.toNat_ofNat']
  have hlow : v.toUInt8 = .ofNat v.toNat := UInt8.toNat_inj.mp (by
    rw [UInt32.toNat_toUInt8, UInt8.toNat_ofNat'])
  rw [setUl, hbyte 24 (by decide), hbyte 16 (by decide), hbyte 8 (by decide), hlow]
  change _ = [UInt8.ofNat (v.toNat / 256 / 256 / 256), .ofNat (v.toNat / 256 / 256),
    .ofNat (v.toNat / 256), .ofNat v.toNat]
  simp only [Nat.div_div_eq_div_mul]
  rfl

theorem setUl_rgba (r g b a : UInt8) : setUl (rgba r g b a) = [r, g, b, a] := by
  rw [setUl_eq, encode_rgba]
  rfl

theorem setUl_getD {s : List UInt8} (hs : s.length = 4) :
    setUl (rgba (s.getD 0 0) (s.getD 1 0) (s.getD 2 0) (s.getD 3 0)) = s := by
  rw [setUl_rgba]
  refine List.ext_getElem hs.symm fun i hi _ => ?_
  have hi : i < 4 := hi
  interval_cases i <;> exact (List.getElem_eq_getD 0).symm

theorem rgba_setUl (v : UInt32) :
    rgba (v >>> 24).toUInt8 (v >>> 16).toUInt8 (v >>> 8).toUInt8 v.toUInt8 = v := by
  have henc : uint32.encode (rgba (v >>> 24).toUInt8 (v >>> 16).toUInt8 (v >>> 8).toUInt8
      v.toUInt8) = uint32.encode v := by
    rw [← List.reverse_inj, ← setUl_eq, setUl_rgba, ← setUl_eq, setUl]
  have hdec := congrArg uint32.decode henc
  rwa [uint32.decode_encode _ trivial, uint32.decode_encode _ trivial] at hdec

/-- `set_ul` and `get_ul`, which numbers are written and read with. -/
def ul : Layout UInt32 UInt8 :=
  { uint32 with
    encode := setUl
    decode := fun s => rgba (s.getD 0 0) (s.getD 1 0) (s.getD 2 0) (s.getD 3 0)
    length_encode := fun _ => rfl
    decode_encode := fun v _ => rgba_setUl v
    valid_decode := fun _ _ => trivial
    encode_decode := fun _ hs => setUl_getD hs }

/-! ### Filters -/

/-- The byte that is `stride` bytes left of number `i` in a row, if there is one. -/
def leftOf (stride : ℕ) (row : List UInt8) (i : ℕ) : UInt8 :=
  if stride ≤ i then row.getD (i - stride) 0 else 0

/-- `png_filter_sub` -/
def filterSub (stride : ℕ) (inp : List UInt8) : List UInt8 :=
  restore (fun out => leftOf stride out out.length) inp

/-- `png_filter_up` -/
def filterUp (inp : List UInt8) : Option (List UInt8) → List UInt8
  | some prevLine => restore (fun out => prevLine.getD out.length 0) inp
  | none => inp

/-- `png_filter_average` -/
def filterAverage (stride : ℕ) (inp : List UInt8) (prevLine : Option (List UInt8)) :
    List UInt8 :=
  restore (fun out =>
    let a := leftOf stride out out.length
    let b := prevLine.elim 0 (·.getD out.length 0)
    .ofNat ((a.toNat + b.toNat) / 2)) inp

/-- `png_paeth` -/
def paeth (a b c : UInt8) : UInt8 :=
  let p : ℤ := a.toNat + b.toNat - c.toNat
  let pa := |p - a.toNat|
  let pb := |p - b.toNat|
  let pc := |p - c.toNat|
  if pa ≤ pb ∧ pa ≤ pc then a else if pb ≤ pc then b else c

/-- `png_filter_paeth` -/
def filterPaeth (stride : ℕ) (inp : List UInt8) : Option (List UInt8) → List UInt8
  | some prevLine => restore (fun out =>
      let i := out.length
      paeth (leftOf stride out i) (prevLine.getD i 0) (leftOf stride prevLine i)) inp
  | none => restore (fun out => paeth (leftOf stride out out.length) 0 0) inp

/-- The `switch` of `png_unfilter`: a row, if its filter is known. -/
def unfilterLine (filter : UInt8) (stride : ℕ) (inp : List UInt8)
    (prevLine : Option (List UInt8)) : Option (List UInt8) :=
  match filter with
  | 0 => some inp
  | 1 => some (filterSub stride inp)
  | 2 => some (filterUp inp prevLine)
  | 3 => some (filterAverage stride inp prevLine)
  | 4 => some (filterPaeth stride inp prevLine)
  | _ => none

/-- The row that has been written last, if there is one. -/
def prevLine (rowLength : ℕ) (out : List UInt8) : Option (List UInt8) :=
  if out = [] then none else some (out.drop (out.length - rowLength))

/-- The loop of `png_unfilter`, when `out` has been written of the `size` bytes that there is room
for. The length of a row is an `int` for the filters. -/
def unfilterLoop (stride rowLength size : ℕ) (out : List UInt8) :
    List UInt8 → Option (Except PngResult (List UInt8))
  | [] => some (.ok out)
  | filter :: filtered =>
      match unfilterLine filter stride (filtered.take rowLength) (prevLine rowLength out) with
      | none => some (.error .unknownFilter)
      | some row =>
          if rowLength ≤ filtered.length ∧ out.length + rowLength ≤ size ∧
              (filter = 0 ∨ rowLength < 2 ^ 31) then
            unfilterLoop stride rowLength size (out ++ row) (filtered.drop rowLength)
          else none
  termination_by filtered => filtered.length
  decreasing_by
    rw [List.length_drop, List.length_cons]
    omega

/-- The filters of the format. -/
inductive Filter where
  | none
  | sub
  | up
  | average
  | paeth
  deriving DecidableEq

namespace Filter

/-- What stands before a row. -/
def code : Filter → UInt8
  | none => 0
  | sub => 1
  | up => 2
  | average => 3
  | paeth => 4

/-- **What is expected** after the bytes `seen` of a row below `prev`, the bytes of a pixel being
`stride` apart. -/
def expected (stride : ℕ) : Filter → List UInt8 → List UInt8 → UInt8
  | none, _, _ => 0
  | sub, _, seen => leftOf stride seen seen.length
  | up, prev, seen => prev.getD seen.length 0
  | average, prev, seen =>
      .ofNat (((leftOf stride seen seen.length).toNat + (prev.getD seen.length 0).toNat) / 2)
  | paeth, prev, seen =>
      Drawing.paeth (leftOf stride seen seen.length) (prev.getD seen.length 0)
        (leftOf stride prev seen.length)

end Filter

/-- There is nothing above the first row. -/
theorem leftOf_nil (stride i : ℕ) : leftOf stride [] i = 0 := by
  rw [leftOf, List.getD_nil, ite_self]

/-- **A known filter is undone.** -/
theorem unfilterLine_code (filter : Filter) (stride : ℕ) (inp : List UInt8)
    (prevLine : Option (List UInt8)) :
    unfilterLine filter.code stride inp prevLine =
      some (restore (filter.expected stride (prevLine.getD [])) inp) := by
  cases filter with
  | none => exact congrArg some (restore_zero inp).symm
  | sub => rfl
  | up =>
    cases prevLine with
    | none => exact congrArg some (restore_zero inp).symm
    | some prev => rfl
  | average => cases prevLine <;> rfl
  | paeth =>
    cases prevLine with
    | none =>
      refine congrArg some (congrArg (fun p => restore p inp) (funext fun out => ?_))
      rw [Filter.expected, Option.getD_none, leftOf_nil, List.getD_nil]
    | some prev => rfl

theorem unfilterLine_eq_some {filter : UInt8} {stride : ℕ} {inp row : List UInt8}
    {prevLine : Option (List UInt8)} (h : unfilterLine filter stride inp prevLine = some row) :
    ∃ f : Filter, filter = f.code ∧ row = restore (f.expected stride (prevLine.getD [])) inp := by
  obtain ⟨f, rfl⟩ : ∃ f : Filter, filter = f.code := by
    unfold unfilterLine at h
    split at h
    · exact ⟨.none, rfl⟩
    · exact ⟨.sub, rfl⟩
    · exact ⟨.up, rfl⟩
    · exact ⟨.average, rfl⟩
    · exact ⟨.paeth, rfl⟩
    · exact absurd h (by simp)
  rw [unfilterLine_code] at h
  exact ⟨f, rfl, (Option.some.inj h).symm⟩

theorem prevLine_append {n : ℕ} {out row : List UInt8} (hrow : row.length = n) :
    (prevLine n (out ++ row)).getD [] = row := by
  rw [prevLine]
  split
  · next hnil => exact (List.append_eq_nil_iff.mp hnil).2.symm
  · rw [Option.getD_some, List.length_append, hrow, Nat.add_sub_cancel, List.drop_left]

/-- Rows and their filters, as they are in a file. -/
def rawLines (lines : List (Filter × List UInt8)) : List UInt8 :=
  lines.flatMap fun line => line.1.code :: line.2

/-- A row has its length, and if it has to be filtered it is one that an `int` has. -/
def LineOk (n : ℕ) (filter : Filter) (length : ℕ) : Prop :=
  length = n ∧ (filter = .none ∨ n < 2 ^ 31)

section Unfilter

variable {stride n size : ℕ} {out out' filtered : List UInt8} {lines : List (Filter × List UInt8)}

theorem unfilterLoop_rawLines (hlines : ∀ line ∈ lines, LineOk n line.1 line.2.length)
    (hsize : out.length + lines.length * n ≤ size) :
    unfilterLoop stride n size out (rawLines lines) =
      some (.ok (out ++ (restoreLines (Filter.expected stride) ((prevLine n out).getD [])
        lines).flatMap (·.2))) := by
  induction lines generalizing out with
  | nil =>
    rw [rawLines, List.flatMap_nil, unfilterLoop, restoreLines, List.flatMap_nil, List.append_nil]
  | cons line lines ih =>
    obtain ⟨⟨hlen, hint⟩, hlines⟩ := List.forall_mem_cons.mp hlines
    rw [List.length_cons, Nat.succ_mul] at hsize
    have hcode : line.1.code = 0 ∨ n < 2 ^ 31 := hint.imp_left fun h => by rw [h]; rfl
    have hrow : (restore (line.1.expected stride ((prevLine n out).getD [])) line.2).length = n :=
      (length_restore _ _).trans hlen
    have hsplit : rawLines (line :: lines) = line.1.code :: (line.2 ++ rawLines lines) := rfl
    rw [hsplit, unfilterLoop, List.take_left' hlen, unfilterLine_code]
    dsimp only
    rw [if_pos ⟨by rw [List.length_append]; omega, by omega, hcode⟩, List.drop_left' hlen,
      ih hlines (by rw [List.length_append, hrow]; omega), restoreLines, List.flatMap_cons,
      prevLine_append hrow, List.append_assoc]

theorem rawLines_of_unfilterLoop
    (h : unfilterLoop stride n size out filtered = some (.ok out')) :
    ∃ lines : List (Filter × List UInt8), (∀ line ∈ lines, LineOk n line.1 line.2.length) ∧
      filtered = rawLines lines ∧
      out' = out ++ (restoreLines (Filter.expected stride) ((prevLine n out).getD [])
        lines).flatMap (·.2) := by
  fun_induction unfilterLoop stride n size out filtered with
  | case1 out =>
    cases h
    exact ⟨[], by simp, rfl, (List.append_nil _).symm⟩
  | case2 => cases h
  | case3 out filter filtered row hrow hok ih =>
    obtain ⟨lines, hlines, rfl', rfl⟩ := ih h
    obtain ⟨f, rfl, hrestore⟩ := unfilterLine_eq_some hrow
    have hlen : (filtered.take n).length = n := List.length_take_of_le hok.1
    have hn : row.length = n := by rw [hrestore, length_restore, hlen]
    refine ⟨(f, filtered.take n) :: lines, ?_, ?_, ?_⟩
    · refine List.forall_mem_cons.mpr ⟨⟨hlen, hok.2.2.imp_left fun h => ?_⟩, hlines⟩
      cases f <;> first | rfl | exact absurd h (by decide)
    · change _ = f.code :: (filtered.take n ++ rawLines lines)
      rw [← rfl', List.take_append_drop]
    · rw [restoreLines, List.flatMap_cons, ← hrestore, prevLine_append hn, List.append_assoc]
  | case4 => cases h

/-- **The rows of an image as they are filtered**, each with the filter that it has. -/
def filteredLines (stride : ℕ) (lines : List (Filter × List UInt8)) : List UInt8 :=
  rawLines (residualLines (Filter.expected stride) [] lines)

theorem length_rows (hlines : ∀ line ∈ lines, LineOk n line.1 line.2.length) :
    (lines.flatMap (·.2)).length = lines.length * n := by
  induction lines with
  | nil => exact (Nat.zero_mul n).symm
  | cons line lines ih =>
    obtain ⟨⟨hlen, -⟩, hlines⟩ := List.forall_mem_cons.mp hlines
    rw [List.flatMap_cons, List.length_append, ih hlines, hlen, List.length_cons, Nat.succ_mul,
      Nat.add_comm]

theorem length_filteredLines (hlines : ∀ line ∈ lines, LineOk n line.1 line.2.length) :
    (filteredLines stride lines).length = lines.length * n + lines.length := by
  have hraw := (forall_mem_residualLines (Filter.expected stride) []).mpr hlines
  have hcodes : ∀ l : List (Filter × List UInt8),
      (rawLines l).length = (l.flatMap (·.2)).length + l.length := fun l => by
    induction l with
    | nil => rfl
    | cons line l ih =>
      change (line.2 ++ rawLines l).length + 1 = _
      rw [List.flatMap_cons, List.length_append, List.length_append, ih, List.length_cons]
      omega
  rw [filteredLines, hcodes, length_rows hraw, length_residualLines]

/-- **Rows are unfiltered**, whatever their filters are. -/
theorem unfilterLoop_filteredLines (hlines : ∀ line ∈ lines, LineOk n line.1 line.2.length) :
    unfilterLoop stride n (lines.length * n) [] (filteredLines stride lines) =
      some (.ok (lines.flatMap (·.2))) := by
  have hraw := (forall_mem_residualLines (Filter.expected stride) []).mpr hlines
  rw [filteredLines, unfilterLoop_rawLines hraw (by rw [length_residualLines]; simp)]
  change some (Except.ok ([] ++ (restoreLines (Filter.expected stride) [] _).flatMap _)) = _
  rw [restoreLines_residualLines, List.nil_append]

end Unfilter

/-! ### The header -/

/-- **What `pnglite` uses of `zlib`.** -/
structure Zlib where
  /-- `crc32`, of bytes that come after those with this checksum. -/
  crc32 : UInt32 → List UInt8 → UInt32
  /-- `compressBound` -/
  compressBound : ℕ → ℕ
  /-- What `compress` writes, into this many bytes. -/
  compress : UInt32 → List UInt8 → List UInt8
  /-- A stream that is inflated. -/
  Stream : Type
  /-- `inflateInit`, when there is room for this many bytes. -/
  inflateInit : UInt32 → Stream
  /-- `inflate` of these bytes: those that are left, if the result is `Z_OK` or `Z_STREAM_END`. -/
  inflate : Stream → List UInt8 → Option (List UInt8 × Stream)
  /-- What has come out. -/
  output : Stream → List UInt8

/-- What is known of a file that has been opened. -/
structure Header where
  width : UInt32
  height : UInt32
  depth : UInt8
  colorType : ColorType
  deriving DecidableEq

/-- The codes of `pnglite.h`. -/
def ColorType.ofCode : UInt8 → ColorType
  | 0 => .greyscale
  | 2 => .truecolor
  | 3 => .indexed
  | 4 => .greyscaleAlpha
  | 6 => .truecolorAlpha
  | _ => .unknown

namespace Header

/-- `png_get_bpp`, as it is stored. `PNG_FILE_ERROR` is -1. -/
def bpp (png : Header) : UInt8 :=
  match png.colorType with
  | .greyscale | .indexed => 1 * (png.depth / 8)
  | .greyscaleAlpha => 2 * (png.depth / 8)
  | .truecolor => 3 * (png.depth / 8)
  | .truecolorAlpha => 4 * (png.depth / 8)
  | .unknown => 255

/-- The bytes of a row. -/
def rowLength (png : Header) : UInt32 := png.width * png.bpp.toUInt32

/-- `png_datalen`: the bytes of all rows and their filters. -/
def datalen (png : Header) : UInt32 := png.width * png.height * png.bpp.toUInt32 + png.height

/-- The sizes are right if 32 bits are enough for them. -/
theorem toNat_datalen {png : Header}
    (h : png.width.toNat * png.height.toNat * png.bpp.toNat + png.height.toNat < 2 ^ 32) :
    png.datalen.toNat =
      png.width.toNat * png.height.toNat * png.bpp.toNat + png.height.toNat := by
  rw [datalen, UInt32.toNat_add, UInt32.toNat_mul, UInt32.toNat_mul, UInt8.toNat_toUInt32,
    Nat.mod_mul_mod, Nat.mod_add_mod, Nat.mod_eq_of_lt h]

theorem toNat_rowLength {png : Header} (h : png.width.toNat * png.bpp.toNat < 2 ^ 32) :
    png.rowLength.toNat = png.width.toNat * png.bpp.toNat := by
  rw [rowLength, UInt32.toNat_mul, UInt8.toNat_toUInt32, Nat.mod_eq_of_lt h]

end Header

/-- The first bytes of a file. -/
def signature : List UInt8 := [0x89, 0x50, 0x4E, 0x47, 0x0D, 0x0A, 0x1A, 0x0A]

section Reading

variable (z : Zlib)

/-- `png_read_ihdr`: the header, and what comes after it. -/
def readIhdr (file : List UInt8) : Option (Except PngResult (Header × List UInt8)) :=
  match ul.next file with
  -- `length` is not initialized
  | none => none
  | some (length, file) =>
      if length ≠ 13 then some (.error .crcError)
      else if file.length < 17 then some (.error .eofError)
      else
        let ihdr := file.take 17
        match ul.next (file.drop 17) with
        -- `orig_crc` is not initialized
        | none => none
        | some (origCrc, file) =>
            if origCrc ≠ z.crc32 0 ihdr then some (.error .crcError)
            else
              let png : Header := ⟨ul.decode (ihdr.drop 4), ul.decode (ihdr.drop 8),
                ihdr.getD 12 0, .ofCode (ihdr.getD 13 0)⟩
              if png.colorType = .indexed then some (.error .notSupported)
              else if png.depth ≠ 8 ∧ png.depth ≠ 16 then some (.error .notSupported)
              else if ihdr.getD 16 0 ≠ 0 then some (.error .notSupported)
              else some (.ok (png, file))

/-- `png_open_read` -/
def openRead (file : List UInt8) : Option (Except PngResult (Header × List UInt8)) :=
  if file.length < 8 then some (.error .eofError)
  else if file.take 8 ≠ signature then some (.error .headerError)
  else readIhdr z (file.drop 8)

/-! ### Chunks -/

/-- `"IDAT"` -/
def idat : List UInt8 := [0x49, 0x44, 0x41, 0x54]

/-- `"IEND"` -/
def iend : List UInt8 := [0x49, 0x45, 0x4E, 0x44]

/-- What is left of the file, and what has become of the data. -/
structure Reader where
  file : List UInt8
  /-- There is none before the first `IDAT` chunk. -/
  zs : Option z.Stream

/-- `png_inflate` -/
def pngInflate (zs : z.Stream) (data : List UInt8) : Except PngResult z.Stream :=
  match z.inflate zs data with
  | none => .error .zlibError
  | some (availIn, zs) => if availIn.isEmpty then .ok zs else .error .zlibError

/-- `png_read_idat` -/
def readIdat (zs : z.Stream) (length : UInt32) (file : List UInt8) :
    Option (Except PngResult (Reader z)) :=
  if file.length < length.toNat then some (.error .fileError)
  else
    let readbuf := file.take length.toNat
    match ul.next (file.drop length.toNat) with
    -- `orig_crc` is not initialized
    | none => none
    | some (origCrc, file) =>
        if origCrc ≠ z.crc32 (z.crc32 0 idat) readbuf then some (.error .crcError)
        else some ((pngInflate z zs readbuf).map fun zs => ⟨file, some zs⟩)

/-- `png_process_chunk` -/
def processChunk (png : Header) (r : Reader z) : Option (Except PngResult (Reader z)) :=
  match ul.next r.file with
  | none => some (.error .fileError)
  | some (length, file) =>
      if file.length < 4 then some (.error .fileError)
      else
        let type := file.take 4
        let file := file.drop 4
        if type = idat then readIdat z (r.zs.getD (z.inflateInit png.datalen)) length file
        else if type = iend then some (.error .done)
        -- the sum is one of 32 bits, and one may go on beyond the end of a file
        else some (.ok ⟨file.drop (length + 4).toNat, r.zs⟩)

section Processing

variable {z} {png : Header} {file rest : List UInt8} {zs : Option z.Stream}
  {r r' : Reader z}

theorem next_ul (v : UInt32) (rest : List UInt8) : ul.next (ul.encode v ++ rest) = some (v, rest) :=
  ul.next_encode trivial rest

/-- How a chunk begins. -/
theorem processChunk_eq {type : List UInt8} (length : UInt32) (htype : type.length = 4) :
    processChunk z png ⟨ul.encode length ++ (type ++ rest), zs⟩ =
      if type = idat then readIdat z (zs.getD (z.inflateInit png.datalen)) length rest
      else if type = iend then some (.error .done)
      else some (.ok ⟨rest.drop (length + 4).toNat, zs⟩) := by
  rw [processChunk]
  simp only [next_ul]
  rw [if_neg (by rw [List.length_append]; omega), List.take_left' htype, List.drop_left' htype]

/-- The file ends, or a chunk begins. -/
theorem processChunk_cases (png : Header) (r : Reader z) :
    processChunk z png r = some (.error .fileError) ∨
      ∃ length type file, type.length = 4 ∧ r.file = ul.encode length ++ (type ++ file) ∧
        processChunk z png r =
          if type = idat then readIdat z (r.zs.getD (z.inflateInit png.datalen)) length file
          else if type = iend then some (.error .done)
          else some (.ok ⟨file.drop (length + 4).toNat, r.zs⟩) := by
  cases hnext : ul.next r.file with
  | none =>
    rw [processChunk, hnext]
    exact .inl rfl
  | some next =>
    by_cases hlt : next.2.length < 4
    · rw [processChunk, hnext]
      exact .inl (if_pos hlt)
    · have htype : (next.2.take 4).length = 4 := List.length_take_of_le (not_lt.mp hlt)
      have hfile : r.file = ul.encode next.1 ++ (next.2.take 4 ++ next.2.drop 4) := by
        rw [List.take_append_drop]
        exact ul.eq_of_next hnext
      have heq : processChunk z png
          ⟨ul.encode next.1 ++ (next.2.take 4 ++ next.2.drop 4), r.zs⟩ = _ :=
        processChunk_eq next.1 htype
      rw [← hfile] at heq
      exact .inr ⟨next.1, next.2.take 4, next.2.drop 4, htype, hfile, heq⟩

theorem readIdat_eq_ok {s : z.Stream} {length : UInt32}
    (h : readIdat z s length file = some (.ok r)) :
    ∃ bytes s', length = .ofNat bytes.length ∧ bytes.length < 2 ^ 32 ∧
      file = bytes ++ (ul.encode (z.crc32 (z.crc32 0 idat) bytes) ++ r.file) ∧
      pngInflate z s bytes = .ok s' ∧ r.zs = some s' := by
  unfold readIdat at h
  split at h
  · cases h
  · next hle =>
    have hlen := List.length_take_of_le (not_lt.mp hle)
    dsimp only at h
    split at h
    · cases h
    · next origCrc rest hnext =>
      split at h
      · cases h
      · next hcrc =>
        refine ⟨file.take length.toNat, ?_⟩
        rw [hlen]
        cases hinf : pngInflate z s (file.take length.toNat) with
        | error e => rw [hinf] at h; cases h
        | ok s' =>
          rw [hinf] at h
          cases h
          refine ⟨s', UInt32.ofNat_toNat.symm, length.toNat_lt, ?_, rfl, rfl⟩
          rw [← not_not.mp hcrc, ← ul.eq_of_next hnext, List.take_append_drop]

theorem length_of_processChunk (h : processChunk z png r = some (.ok r')) :
    r'.file.length < r.file.length := by
  obtain hfail | ⟨length, type, file, htype, hfile, heq⟩ := processChunk_cases png r
  · rw [hfail] at h
    cases h
  rw [heq] at h
  rw [hfile, List.length_append, List.length_append, htype]
  split at h
  · obtain ⟨bytes, -, -, -, rfl, -, -⟩ := readIdat_eq_ok h
    rw [List.length_append, List.length_append]
    omega
  · split at h
    · cases h
    · cases h
      rw [List.length_drop]
      omega

end Processing

/-- The loop of `png_get_data`: what ends it, and what has become of the data. -/
def readChunks (png : Header) (r : Reader z) : Option (PngResult × Option z.Stream) :=
  match _h : processChunk z png r with
  | none => none
  | some (.error result) => some (result, r.zs)
  | some (.ok r') => readChunks png r'
  termination_by r.file.length
  decreasing_by exact length_of_processChunk _h

/-- **`png_get_data`**, into a buffer of `size` bytes. All that is unfiltered has to have come out
of the stream, and all of the buffer is written. -/
def getData (png : Header) (size : ℕ) (file : List UInt8) :
    Option (Except PngResult (List UInt8)) :=
  -- samples of 16 bits are left out
  if png.depth = 16 then none
  else
    match readChunks z png ⟨file, none⟩ with
    | none => none
    | some (.done, zs) =>
        let pngData := zs.elim [] z.output
        match unfilterLoop png.bpp.toNat png.rowLength.toNat size [] pngData with
        | some (.ok data) =>
            if pngData.length = zs.elim 0 (fun _ => png.datalen.toNat) ∧ data.length = size then
              some (.ok data)
            else none
        | result => result
    | some (result, _) => some (.error result)

end Reading

/-! ### What is accepted -/

/-- **A chunk** that is not the last one. Of a chunk that is skipped, four bytes more than its
length. -/
inductive Chunk where
  | data (bytes : List UInt8) (h : bytes.length < 2 ^ 32)
  | other (type : List UInt8) (length : UInt32) (body : List UInt8) (htype : type.length = 4)
      (hdata : type ≠ idat) (hend : type ≠ iend) (hbody : body.length = (length + 4).toNat)

namespace Chunk

variable (z : Zlib)

/-- How it is in a file. -/
def bytes : Chunk → List UInt8
  | data bytes _ => ul.encode (.ofNat bytes.length) ++
      (idat ++ (bytes ++ ul.encode (z.crc32 (z.crc32 0 idat) bytes)))
  | other type length body _ _ _ _ => ul.encode length ++ (type ++ body)

/-- What becomes of the data. -/
def inflate (png : Header) (zs : Option z.Stream) : Chunk → Except PngResult (Option z.Stream)
  | data bytes _ => (pngInflate z (zs.getD (z.inflateInit png.datalen)) bytes).map some
  | other _ _ _ _ _ _ _ => .ok zs

end Chunk

section Accepted

variable {z : Zlib} {png : Header} {file rest : List UInt8} {zs zs' : Option z.Stream}
  {r r' : Reader z}

/-- **A chunk is processed.** -/
theorem processChunk_bytes (c : Chunk) :
    processChunk z png ⟨c.bytes z ++ rest, zs⟩ =
      some ((c.inflate z png zs).map fun zs => ⟨rest, zs⟩) := by
  cases c with
  | data bytes h =>
    have hlen : (UInt32.ofNat bytes.length).toNat = bytes.length := UInt32.toNat_ofNat_of_lt' h
    rw [Chunk.bytes, List.append_assoc, List.append_assoc, List.append_assoc,
      processChunk_eq _ rfl, if_pos rfl, readIdat, hlen, if_neg (by rw [List.length_append]; omega),
      List.take_left, List.drop_left, next_ul]
    dsimp only
    rw [if_neg (not_not.mpr rfl), Chunk.inflate]
    cases pngInflate z (zs.getD (z.inflateInit png.datalen)) bytes <;> rfl
  | other type length body htype hdata hend hbody =>
    rw [Chunk.bytes, List.append_assoc, List.append_assoc, processChunk_eq _ htype, if_neg hdata,
      if_neg hend, ← hbody, List.drop_left]
    rfl

/-- **What has been processed is a chunk**, unless it was the end of the file. -/
theorem exists_chunk (h : processChunk z png r = some (.ok r')) (hne : r'.file ≠ []) :
    ∃ c : Chunk, r.file = c.bytes z ++ r'.file ∧ c.inflate z png r.zs = .ok r'.zs := by
  obtain hfail | ⟨length, type, file, htype, hfile, heq⟩ := processChunk_cases png r
  · rw [hfail] at h
    cases h
  rw [heq] at h
  split at h
  · next hdata =>
    obtain ⟨bytes, s', rfl, hlt, rfl, hinf, hzs⟩ := readIdat_eq_ok h
    refine ⟨.data bytes hlt, ?_, ?_⟩
    · rw [hfile, hdata, Chunk.bytes, List.append_assoc, List.append_assoc, List.append_assoc]
    · rw [Chunk.inflate, hinf, hzs]
      rfl
  · next hdata =>
    split at h
    · cases h
    · next hend =>
      cases h
      have hlt : (length + 4).toNat < file.length := by
        rw [← not_le]
        exact fun hle => hne (List.drop_eq_nil_of_le hle)
      refine ⟨.other type length (file.take (length + 4).toNat) htype hdata hend
        (List.length_take_of_le hlt.le), ?_, rfl⟩
      rw [hfile, Chunk.bytes, List.append_assoc, List.append_assoc, List.take_append_drop]

theorem processChunk_iend (length : UInt32) :
    processChunk z png ⟨ul.encode length ++ (iend ++ rest), zs⟩ = some (.error .done) := by
  rw [processChunk_eq _ rfl, if_neg (by decide), if_pos rfl]

theorem exists_iend (h : processChunk z png r = some (.error .done)) :
    ∃ length rest, r.file = ul.encode length ++ (iend ++ rest) := by
  obtain hfail | ⟨length, type, file, htype, hfile, heq⟩ := processChunk_cases png r
  · rw [hfail] at h
    cases h
  rw [heq] at h
  split at h
  · unfold readIdat pngInflate at h
    grind [Except.map]
  · split at h
    · next hend => exact ⟨length, file, by rw [hfile, hend]⟩
    · cases h

theorem readChunks_of_error {result : PngResult}
    (h : processChunk z png r = some (.error result)) :
    readChunks z png r = some (result, r.zs) := by
  rw [readChunks]
  split
  · next hrun => exact absurd (h.symm.trans hrun) (by simp)
  · next hrun =>
    cases h.symm.trans hrun
    rfl
  · next hrun => exact absurd (h.symm.trans hrun) (by simp)

theorem readChunks_of_ok (h : processChunk z png r = some (.ok r')) :
    readChunks z png r = readChunks z png r' := by
  rw [readChunks]
  split
  · next hrun => exact absurd (h.symm.trans hrun) (by simp)
  · next hrun => exact absurd (h.symm.trans hrun) (by simp)
  · next hrun =>
    cases h.symm.trans hrun
    rfl

/-- **All chunks up to the last one** are processed. -/
theorem readChunks_bytes {chunks : List Chunk} {length : UInt32}
    (h : chunks.foldlM (Chunk.inflate z png) zs = .ok zs') :
    readChunks z png ⟨chunks.flatMap (Chunk.bytes z) ++ (ul.encode length ++ (iend ++ rest)), zs⟩ =
      some (.done, zs') := by
  induction chunks generalizing zs with
  | nil =>
    cases h
    exact readChunks_of_error (processChunk_iend length)
  | cons c chunks ih =>
    rw [List.foldlM_cons] at h
    cases hinf : c.inflate z png zs with
    | error e =>
      rw [hinf] at h
      cases h
    | ok s =>
      rw [hinf] at h
      rw [List.flatMap_cons, List.append_assoc]
      refine (readChunks_of_ok ?_).trans (ih h)
      rw [processChunk_bytes, hinf]
      rfl

theorem exists_chunks (h : readChunks z png r = some (.done, zs)) :
    ∃ (chunks : List Chunk) (length : UInt32) (rest : List UInt8),
      r.file = chunks.flatMap (Chunk.bytes z) ++ (ul.encode length ++ (iend ++ rest)) ∧
      chunks.foldlM (Chunk.inflate z png) r.zs = .ok zs := by
  fun_induction readChunks z png r with
  | case1 => cases h
  | case2 r result hrun =>
    cases h
    obtain ⟨length, rest, hfile⟩ := exists_iend hrun
    exact ⟨[], length, rest, hfile, rfl⟩
  | case3 r r' hrun ih =>
    obtain ⟨chunks, length, rest, hfile, hchunks⟩ := ih h
    have hne : r'.file ≠ [] := by
      rw [hfile]
      simp [iend]
    obtain ⟨c, hc, hinf⟩ := exists_chunk hrun hne
    refine ⟨c :: chunks, length, rest, ?_, ?_⟩
    · rw [hc, hfile, List.flatMap_cons, List.append_assoc]
    · rw [List.foldlM_cons, hinf]
      exact hchunks

end Accepted

section Data

variable {z : Zlib} {png : Header} {size : ℕ} {file d : List UInt8}

/-- **The data is what the rows are** that come out of the stream. -/
theorem getData_bytes (hdepth : png.depth ≠ 16) {chunks : List Chunk} {zs : Option z.Stream}
    {lines : List (Filter × List UInt8)}
    (hchunks : chunks.foldlM (Chunk.inflate z png) none = .ok zs)
    (hlines : ∀ line ∈ lines, LineOk png.rowLength.toNat line.1 line.2.length)
    (hout : zs.elim [] z.output = filteredLines png.bpp.toNat lines)
    (hlen : (zs.elim [] z.output).length = zs.elim 0 (fun _ => png.datalen.toNat))
    (length : UInt32) (rest : List UInt8) :
    getData z png (lines.flatMap (·.2)).length
        (chunks.flatMap (Chunk.bytes z) ++ (ul.encode length ++ (iend ++ rest))) =
      some (.ok (lines.flatMap (·.2))) := by
  rw [getData, if_neg hdepth, readChunks_bytes hchunks]
  dsimp only
  rw [hout, length_rows hlines, unfilterLoop_filteredLines hlines]
  dsimp only
  rw [← hout, if_pos ⟨hlen, length_rows hlines⟩]

/-- What it takes to return data. -/
theorem getData_eq_ok (h : getData z png size file = some (.ok d)) :
    ∃ zs, readChunks z png ⟨file, none⟩ = some (.done, zs) ∧
      unfilterLoop png.bpp.toNat png.rowLength.toNat size [] (zs.elim [] z.output) =
        some (.ok d) ∧
      (zs.elim [] z.output).length = zs.elim 0 (fun _ => png.datalen.toNat) ∧ d.length = size := by
  unfold getData at h
  split at h
  · cases h
  · split at h
    · cases h
    · next zs hrun =>
      dsimp only at h
      split at h
      · next data hdata =>
        split at h
        · next hlen =>
          cases h
          exact ⟨zs, hrun, hdata, hlen.1, hlen.2⟩
        · cases h
      · next hne => exact absurd h (hne d)
    · cases h

/-- One bit of a checksum. -/
def crcBit (c : UInt32) : UInt32 :=
  if c &&& 1 = 1 then (0xEDB88320 : UInt32) ^^^ (c >>> 1) else c >>> 1

/-- The checksum that `zlib` has, of bytes that come after those with the checksum `c`. -/
def crcAfter (c : UInt32) (bytes : List UInt8) : UInt32 :=
  bytes.foldl (fun c b => crcBit^[8] (c ^^^ b.toUInt32)) (c ^^^ 0xFFFFFFFF) ^^^ 0xFFFFFFFF

/-- **Checksums are taken piece by piece.** -/
theorem crcAfter_crcAfter (c : UInt32) (a b : List UInt8) :
    crcAfter (crcAfter c a) b = crcAfter c (a ++ b) := by
  rw [crcAfter, crcAfter, crcAfter, List.foldl_append, UInt32.xor_assoc, UInt32.xor_self,
    UInt32.xor_zero]

/-- What `zlib` does with one stream: of all others nothing is known. -/
def Zlib.ofStream (stream out : List UInt8) : Zlib where
  crc32 := crcAfter
  compressBound n := n + n / 2 ^ 12 + n / 2 ^ 14 + n / 2 ^ 25 + 13
  compress _ source := if source = out then stream else []
  -- what has been taken of it
  Stream := List UInt8
  inflateInit _ := []
  inflate seen data := if seen ++ data <+: stream then some ([], seen ++ data) else none
  output seen := if seen = stream then out else []

/-- **What `png_get_data` accepts**: chunks up to one that is the last, the checksums of those with
data being right. From their data the rows have to come out, whatever their filters are; and the
bytes of the rows are what it returns. -/
theorem getData_eq_ok_iff (hdepth : png.depth ≠ 16) :
    getData z png size file = some (.ok d) ↔
      ∃ (chunks : List Chunk) (length : UInt32) (rest : List UInt8) (zs : Option z.Stream)
        (lines : List (Filter × List UInt8)),
        file = chunks.flatMap (Chunk.bytes z) ++ (ul.encode length ++ (iend ++ rest)) ∧
        chunks.foldlM (Chunk.inflate z png) none = .ok zs ∧
        (∀ line ∈ lines, LineOk png.rowLength.toNat line.1 line.2.length) ∧
        zs.elim [] z.output = filteredLines png.bpp.toNat lines ∧
        (zs.elim [] z.output).length = zs.elim 0 (fun _ => png.datalen.toNat) ∧
        d = lines.flatMap (·.2) ∧ d.length = size := by
  constructor
  · intro h
    obtain ⟨zs, hrun, hdata, hlen, hsize⟩ := getData_eq_ok h
    obtain ⟨chunks, length, rest, hfile, hchunks⟩ := exists_chunks hrun
    obtain ⟨raw, hraw, hout, rfl⟩ := rawLines_of_unfilterLoop hdata
    refine ⟨chunks, length, rest, zs, restoreLines (Filter.expected png.bpp.toNat) [] raw,
      hfile, hchunks, (forall_mem_restoreLines _ _).mpr hraw, ?_, hlen, rfl, hsize⟩
    rw [filteredLines, residualLines_restoreLines]
    exact hout
  · rintro ⟨chunks, length, rest, zs, lines, rfl, hchunks, hlines, hout, hlen, rfl, rfl⟩
    exact getData_bytes hdepth hchunks hlines hout hlen length rest

/-- Two rows, the second of which is filtered, in two chunks, with a comment in between. -/
def upChunks : List Chunk :=
  [.data [0x78, 0x9C, 0x63, 0xE0, 0x12] (by decide),
    .other [0x74, 0x45, 0x58, 0x74] 2 [0x61, 0x00, 0x90, 0xC5, 0x84, 0x6A] (by decide) (by decide)
      (by decide) (by decide),
    .data [0x91, 0x63, 0x62, 0x64, 0x62, 0x06, 0x00, 0x01, 0x6E, 0x00, 0x45] (by decide)]

/-- The rows. -/
def upLines : List (Filter × List UInt8) := [(.none, [10, 20, 30]), (.up, [11, 22, 33])]

/-- What is known of the stream. -/
def upZlib : Zlib :=
  .ofStream [0x78, 0x9C, 0x63, 0xE0, 0x12, 0x91, 0x63, 0x62, 0x64, 0x62, 0x06, 0x00, 0x01, 0x6E,
    0x00, 0x45] [0, 10, 20, 30, 2, 1, 2, 3]

/-- The bytes of both rows. -/
theorem getData_eq_ok_iff_up :
    getData upZlib ⟨1, 2, 8, .truecolor⟩ 6
      (upChunks.flatMap (Chunk.bytes upZlib) ++ (ul.encode 0 ++ (iend ++ []))) =
        some (.ok [10, 20, 30, 11, 22, 33]) := by
  refine (getData_eq_ok_iff (by decide)).mpr ⟨upChunks, 0, [], some _, upLines, rfl, rfl,
    fun line hline => ?_, ?_, rfl, rfl, rfl⟩
  · have hline : line = (.none, [10, 20, 30]) ∨ line = (.up, [11, 22, 33]) := by
      simpa [upLines] using hline
    rcases hline with rfl | rfl <;> exact ⟨rfl, .inr (by decide)⟩
  · decide +kernel

end Data

end Drawing

end Csf
