import Csf.Drawing.Circle
import Csf.Drawing.PngFile
import Csf.Drawing.Rect
import Csf.Drawing.Sprite
import Csf.Drawing.Tile
import Csf.Lib.Strings

/-!
# The driver

`main` of `c_driver.c` reads commands, one letter each with numbers after it, and calls the
drawing functions. It is the same for `c_draw` and `asm_draw`, which have these functions from
different files (`Csf.Drawing.DrawingFuncs`).

What is asked of the functions does not depend on what they have done: a script is a list of
drawing operations (`Csf.Drawing.Op`), which ends with the input or with an error
(`Csf.Drawing.plan`), and the program draws them one after the other
(`Csf.Drawing.main_eq_plan`). The letters are all that begins a command, so a line may have
several of them.

Images are read from the bytes of files, and the canvas is written as such, by `pnglite`
(`Csf.Drawing.PngFile`) and whatever `zlib` there is.
-/

namespace Csf

namespace Drawing

open Interaction Function

/-! ### `scanf` -/

/-- What reads from the standard input, and may fail. -/
abbrev Scan := StateT Str Option

/-- The sign in front of a number: whether it is a minus. -/
def scanSign (s : Str) : Bool × Str :=
  match s.dropWhile isspace with
  | '-' :: rest => (true, rest)
  | '+' :: rest => (false, rest)
  | rest => (false, rest)

/-- The digits of a number. There has to be one. -/
def scanDigits (isDigit : Char → Bool) (s : Str) : Option (Str × Str) :=
  let digits := s.takeWhile isDigit
  if digits.isEmpty then none else some (digits, s.dropWhile isDigit)

/-- `%d`: the number that `strtol` makes of it, in 32 bits. -/
def scanInt : Scan Int32 := fun s => do
  let (negative, s) := scanSign s
  let (digits, s) ← scanDigits Char.isDigit s
  let n : ℤ := digitsVal digits
  return (.ofInt (if negative then max (-n) (-2 ^ 63) else min n (2 ^ 63 - 1)), s)

/-- The number that `strtoul` makes of its sign and its digits, in 32 bits. -/
def unsignedOf (negative : Bool) (n : ℕ) : UInt32 :=
  if n ≥ 2 ^ 64 then .ofNat (2 ^ 64 - 1) else if negative then -.ofNat n else .ofNat n

/-- `%u` -/
def scanUInt : Scan UInt32 := fun s => do
  let (negative, s) := scanSign s
  let (digits, s) ← scanDigits Char.isDigit s
  return (unsignedOf negative (digitsVal digits), s)

/-- `0x` in front of a hexadecimal number. -/
def skipPrefix : Str → Str
  | '0' :: x :: rest => if x == 'x' || x == 'X' then rest else '0' :: x :: rest
  | s => s

/-- `%x` -/
def scanHex : Scan UInt32 := fun s => do
  let (negative, s) := scanSign s
  let (digits, s) ← scanDigits isxdigit (skipPrefix s)
  return (unsignedOf negative (xdigitsVal digits), s)

/-- `%255s` -/
def scanWord : Scan Str := fun s =>
  let rest := s.dropWhile isspace
  let word := (rest.takeWhile (!isspace ·)).take 255
  if word.isEmpty then none else some (word, rest.drop word.length)

/-! ### Commands -/

/-- `drawing_funcs.h` -/
structure DrawingFuncs where
  drawRect : Image → Rect → UInt32 → Option Image
  drawCircle : Image → Int32 → Int32 → Int32 → UInt32 → Option Image
  drawTile : Image → Int32 → Int32 → Image → Rect → Option Image
  drawSprite : Image → Int32 → Int32 → Image → Rect → Option Image

deriving instance DecidableEq for Image, Rect

/-- What is done to the canvas. -/
inductive Op where
  | size (width height : UInt32)
  | rect (box : Rect) (color : UInt32)
  | circle (x y r : Int32) (color : UInt32)
  | tile (x y : Int32) (tilemap : Image) (part : Rect)
  | sprite (x y : Int32) (spritemap : Image) (part : Rect)
  deriving DecidableEq

/-- The call that does it. -/
def Op.draw (F : DrawingFuncs) : Op → Image → Option Image
  | .size width height, _ => initImage width height
  | .rect box color, img => F.drawRect img box color
  | .circle x y r color, img => F.drawCircle img x y r color
  | .tile x y tilemap part, img => F.drawTile img x y tilemap part
  | .sprite x y spritemap part, img => F.drawSprite img x y spritemap part

/-- The variables of `main` that decide what is a valid command: whether `canvas` has data, and
`loaded_images`. -/
structure Loaded where
  sized : Bool
  images : ℕ → Option Image

/-- `loaded_images[n]`, if `n` is the number of a slot and something has been loaded there. -/
def Loaded.image (c : Loaded) (n : Int32) : Option Image :=
  if n < 0 ∨ n ≥ 8 then none else c.images n.toInt.toNat

/-- The files that there are, and their bytes. -/
abbrev Files := Str → Option (List UInt8)

/-- `scanf`, and the error if not all could be read. -/
def scan {α : Type} (f : Scan α) (msg : String) (input : Str) : Except Str (α × Str) :=
  match f input with
  | none => .error msg.toList
  | some result => .ok result

/-- The arguments of `S`. -/
def scanSize : Scan (UInt32 × UInt32) := do return (← scanUInt, ← scanUInt)

/-- Four numbers that are a `struct Rect`. -/
def scanRect : Scan Rect := do return ⟨← scanInt, ← scanInt, ← scanInt, ← scanInt⟩

/-- The arguments of `R`. -/
def scanBox : Scan (Rect × UInt32) := do return (← scanRect, ← scanHex)

/-- The arguments of `C`. -/
def scanCircle : Scan (Int32 × Int32 × Int32 × UInt32) := do
  return (← scanInt, ← scanInt, ← scanInt, ← scanHex)

/-- The arguments of `T` and `P`. -/
def scanPart : Scan (Int32 × Rect × Int32 × Int32) := do
  return (← scanInt, ← scanRect, ← scanInt, ← scanInt)

/-- The check that there is a canvas. -/
def needSize (c : Loaded) : Except Str Unit :=
  if c.sized then .ok ()
  else .error "Error: image size must be specified before drawing operations\n".toList

/-- The check that there is an image. -/
def needImage (c : Loaded) (n : Int32) : Except Str Image :=
  match c.image n with
  | none => .error "Error: invalid image number\n".toList
  | some img => .ok img

/-- The arguments of `L`: the number of a slot that is free, and the name of a file. -/
def scanLoad (c : Loaded) (input : Str) : Except Str ((Int32 × Str) × Str) := do
  let (n, input) ← scan scanInt "Error: invalid image number\n" input
  let (filename, input) ← scan scanWord "Error: error reading image filename\n" input
  if n < 0 ∨ n ≥ 8 ∨ (c.images n.toInt.toNat).isSome then
    .error "Error: invalid image number\n".toList
  else return ((n, filename), input)

/-- **A command**: what is to be drawn, if anything, and the rest of the input. The file of an
image may be one that `read_image` has no result for. -/
def command (z : Zlib) (files : Files) (c : Loaded) (cmd : Char) (input : Str) :
    Option (Except Str (Option Op × Loaded × Str)) :=
  match cmd with
  | 'S' => some do
      let ((width, height), input) ← scan scanSize "Error: invalid C command\n" input
      return (some (.size width height), { c with sized := true }, input)
  | 'R' => some do
      needSize c
      let ((rect, color), input) ← scan scanBox "Error: invalid rectangle\n" input
      return (some (.rect rect color), c, input)
  | 'C' => some do
      needSize c
      let ((x, y, r, color), input) ← scan scanCircle "Error: invalid circle\n" input
      return (some (.circle x y r color), c, input)
  | 'L' =>
      match scanLoad c input with
      | .error msg => some (.error msg)
      | .ok ((n, filename), input) => (readImageFile z (files filename)).map fun
          | .error _ => .error "Error: could not read image\n".toList
          | .ok img => .ok (none, { c with
              images := update c.images n.toInt.toNat (some img) }, input)
  | 'T' => some do
      let ((n, rect, x, y), input) ← scan scanPart "Error: invalid T command\n" input
      let tilemap ← needImage c n
      return (some (.tile x y tilemap rect), c, input)
  | 'P' => some do
      let ((n, rect, x, y), input) ← scan scanPart "Error: invalid P command\n" input
      let spritemap ← needImage c n
      return (some (.sprite x y spritemap rect), c, input)
  | _ => some (.error "Error: unrecognized command\n".toList)

/-! ### `main` -/

/-- `canvas` before there is a size. -/
def noCanvas : Image := ⟨0, 0, [], rfl, by decide⟩

/-- The loop of `main`, with at most `n` rounds: the canvas or the message in the end. -/
def runCommands (z : Zlib) (F : DrawingFuncs) (files : Files) :
    ℕ → Loaded → Image → Str → Option (Except Str Image)
  | 0, _, canvas, _ => some (.ok canvas)
  | n + 1, c, canvas, input =>
      match readChar input with
      | none => some (.ok canvas)
      | some (cmd, input) =>
          match command z files c cmd input with
          | none => none
          | some (.error msg) => some (.error msg)
          | some (.ok (none, c, input)) => runCommands z F files n c canvas input
          | some (.ok (some op, c, input)) =>
              (op.draw F canvas).bind fun canvas => runCommands z F files n c canvas input

/-- How the program has ended. -/
structure Output where
  status : ℕ
  stderr : Str
  files : Files

/-- What comes after the loop: the canvas is written, if the file can be opened. There is no result
if the canvas cannot be stored: more is written to memory than there is room for. -/
def finish (z : Zlib) (files : Files) (writable : Str → Bool) (filename : Str) :
    Except Str Image → Option Output
  | .error msg => some ⟨1, msg, files⟩
  | .ok canvas =>
      if writable filename then
        (writeImageFile z canvas).map fun file => ⟨0, [], update files filename (some file)⟩
      else some ⟨1, "Error: could not write image\n".toList, files⟩

/-- **`main` of `c_driver.c`**. There are not more rounds than characters. -/
def main (z : Zlib) (F : DrawingFuncs) (files : Files) (writable : Str → Bool) (argv : List Str)
    (stdin : Str) : Option Output :=
  match argv with
  | [_, filename] =>
      (runCommands z F files (stdin.length + 1) ⟨false, fun _ => none⟩ noCanvas stdin).bind
        (finish z files writable filename)
  | _ => some ⟨1, "Error: invalid command line arguments\n".toList, files⟩

/-! ### The operations of a script -/

/-- The operations that the loop of `main` comes to, and the message it ends with, if any. -/
def planFrom (z : Zlib) (files : Files) : ℕ → Loaded → Str → Option (List Op × Option Str)
  | 0, _, _ => some ([], none)
  | n + 1, c, input =>
      match readChar input with
      | none => some ([], none)
      | some (cmd, input) =>
          match command z files c cmd input with
          | none => none
          | some (.error msg) => some ([], some msg)
          | some (.ok (none, c, input)) => planFrom z files n c input
          | some (.ok (some op, c, input)) =>
              (planFrom z files n c input).map fun ops => (op :: ops.1, ops.2)

/-- **The operations of a script**, as far as it is valid, and the message about what is not. -/
def plan (z : Zlib) (files : Files) (stdin : Str) : Option (List Op × Option Str) :=
  planFrom z files (stdin.length + 1) ⟨false, fun _ => none⟩ stdin

/-- One operation after the other. -/
def drawAll (F : DrawingFuncs) : List Op → Image → Option Image
  | [], img => some img
  | op :: ops, img => (op.draw F img).bind (drawAll F ops)

/-- **The loop draws** what is planned. -/
theorem runCommands_eq (z : Zlib) (F : DrawingFuncs) (files : Files) (n : ℕ) (c : Loaded)
    (canvas : Image) (input : Str) :
    runCommands z F files n c canvas input = (planFrom z files n c input).bind fun ops =>
      (drawAll F ops.1 canvas).map fun canvas => ops.2.elim (.ok canvas) .error := by
  induction n generalizing c canvas input with
  | zero => rfl
  | succ n ih =>
    rw [runCommands, planFrom]
    cases readChar input with
    | none => rfl
    | some read =>
      obtain ⟨cmd, input⟩ := read
      dsimp only
      split
      · rfl
      · rfl
      · exact ih _ _ _
      · next op c' rest hcmd =>
        simp only [ih]
        cases hdraw : op.draw F canvas <;> cases planFrom z files n c' rest <;>
          simp [drawAll, hdraw]

/-- **The program draws** what is planned, and is done. -/
theorem main_eq_plan (z : Zlib) (F : DrawingFuncs) (files : Files) (writable : Str → Bool)
    (prog filename stdin : Str) :
    main z F files writable [prog, filename] stdin = (plan z files stdin).bind fun ops =>
      (drawAll F ops.1 noCanvas).bind fun canvas =>
        finish z files writable filename (ops.2.elim (.ok canvas) .error) := by
  rw [main, runCommands_eq, plan]
  cases planFrom z files (stdin.length + 1) ⟨false, fun _ => none⟩ stdin with
  | none => rfl
  | some ops => exact Option.bind_map

/-- What reads does not write. -/
def Shrinks {α : Type} (f : Scan α) : Prop :=
  ∀ s a rest, f s = some (a, rest) → rest.length ≤ s.length

theorem Shrinks.bind {α β : Type} {f : Scan α} {g : α → Scan β} (hf : Shrinks f)
    (hg : ∀ a, Shrinks (g a)) : Shrinks (f >>= g) := by
  intro s b rest h
  obtain ⟨⟨a, s'⟩, hfs, hgs⟩ := Option.bind_eq_some_iff.mp h
  exact (hg a s' b rest hgs).trans (hf s a s' hfs)

theorem Shrinks.pure {α : Type} (a : α) : Shrinks (pure a : Scan α) := by
  intro s b rest h
  cases h
  exact le_rfl

theorem length_scanSign (s : Str) : (scanSign s).2.length ≤ s.length := by
  have hle := List.length_dropWhile_le isspace s
  rw [scanSign]
  split
  · next rest heq =>
    rw [heq] at hle
    exact (Nat.le_succ _).trans hle
  · next rest heq =>
    rw [heq] at hle
    exact (Nat.le_succ _).trans hle
  · exact hle

theorem length_scanDigits {isDigit : Char → Bool} {s digits rest : Str}
    (h : scanDigits isDigit s = some (digits, rest)) : rest.length ≤ s.length := by
  obtain ⟨-, h⟩ := Option.ite_none_left_eq_some.mp h
  cases h
  exact List.length_dropWhile_le _ _

theorem shrinks_scanInt : Shrinks scanInt := by
  intro s n rest h
  obtain ⟨⟨digits, rest'⟩, hdigits, h⟩ := Option.bind_eq_some_iff.mp h
  cases h
  exact (length_scanDigits hdigits).trans (length_scanSign s)

theorem shrinks_scanUInt : Shrinks scanUInt := by
  intro s n rest h
  obtain ⟨⟨digits, rest'⟩, hdigits, h⟩ := Option.bind_eq_some_iff.mp h
  cases h
  exact (length_scanDigits hdigits).trans (length_scanSign s)

theorem length_skipPrefix (s : Str) : (skipPrefix s).length ≤ s.length := by
  unfold skipPrefix
  split
  · split
    · exact (Nat.le_succ _).trans (Nat.le_succ _)
    · exact le_rfl
  · exact le_rfl

theorem shrinks_scanHex : Shrinks scanHex := by
  intro s n rest h
  obtain ⟨⟨digits, rest'⟩, hdigits, h⟩ := Option.bind_eq_some_iff.mp h
  cases h
  exact (length_scanDigits hdigits).trans ((length_skipPrefix _).trans (length_scanSign s))

theorem shrinks_scanWord : Shrinks scanWord := by
  intro s word rest h
  obtain ⟨-, h⟩ := Option.ite_none_left_eq_some.mp h
  cases h
  rw [List.length_drop]
  exact (Nat.sub_le _ _).trans (List.length_dropWhile_le isspace s)

theorem shrinks_scanSize : Shrinks scanSize :=
  .bind shrinks_scanUInt fun _ => .bind shrinks_scanUInt fun _ => .pure _

theorem shrinks_scanRect : Shrinks scanRect :=
  .bind shrinks_scanInt fun _ => .bind shrinks_scanInt fun _ => .bind shrinks_scanInt fun _ =>
    .bind shrinks_scanInt fun _ => .pure _

theorem shrinks_scanBox : Shrinks scanBox :=
  .bind shrinks_scanRect fun _ => .bind shrinks_scanHex fun _ => .pure _

theorem shrinks_scanCircle : Shrinks scanCircle :=
  .bind shrinks_scanInt fun _ => .bind shrinks_scanInt fun _ => .bind shrinks_scanInt fun _ =>
    .bind shrinks_scanHex fun _ => .pure _

theorem shrinks_scanPart : Shrinks scanPart :=
  .bind shrinks_scanInt fun _ => .bind shrinks_scanRect fun _ => .bind shrinks_scanInt fun _ =>
    .bind shrinks_scanInt fun _ => .pure _

theorem length_scan {α : Type} {f : Scan α} (hf : Shrinks f) {msg : String} {input rest : Str}
    {a : α} (h : scan f msg input = .ok (a, rest)) : rest.length ≤ input.length := by
  rw [scan] at h
  split at h
  · cases h
  · next result hread =>
    cases h
    exact hf _ _ _ hread

/-- What comes after a step that has succeeded. -/
theorem bind_eq_ok {α β : Type} {x : Except Str α} {g : α → Except Str β} {b : β}
    (h : (x >>= g) = .ok b) : ∃ a, x = .ok a ∧ g a = .ok b := by
  cases x with
  | error msg => cases h
  | ok a => exact ⟨a, rfl, h⟩

theorem length_scanLoad {c : Loaded} {input rest : Str} {load : Int32 × Str}
    (h : scanLoad c input = .ok (load, rest)) : rest.length ≤ input.length := by
  obtain ⟨⟨n, rest₁⟩, hn, h⟩ := bind_eq_ok h
  obtain ⟨⟨filename, rest₂⟩, hname, h⟩ := bind_eq_ok h
  dsimp only at h
  split at h
  · cases h
  · cases h
    exact (length_scan shrinks_scanWord hname).trans (length_scan shrinks_scanInt hn)

/-- **A command** does not lengthen the input. -/
theorem length_command {z : Zlib} {files : Files} {c c' : Loaded} {cmd : Char} {input rest : Str}
    {op : Option Op} (h : command z files c cmd input = some (.ok (op, c', rest))) :
    rest.length ≤ input.length := by
  unfold command at h
  split at h
  · obtain ⟨_, hscan, h⟩ := bind_eq_ok (Option.some.inj h)
    cases h
    exact length_scan shrinks_scanSize hscan
  · obtain ⟨-, -, h⟩ := bind_eq_ok (Option.some.inj h)
    obtain ⟨_, hscan, h⟩ := bind_eq_ok h
    cases h
    exact length_scan shrinks_scanBox hscan
  · obtain ⟨-, -, h⟩ := bind_eq_ok (Option.some.inj h)
    obtain ⟨_, hscan, h⟩ := bind_eq_ok h
    cases h
    exact length_scan shrinks_scanCircle hscan
  · split at h
    · cases Option.some.inj h
    · next hscan =>
      obtain ⟨read, -, hread⟩ := Option.map_eq_some_iff.mp h
      cases read with
      | error e => cases hread
      | ok img =>
        cases hread
        exact length_scanLoad hscan
  · obtain ⟨_, hscan, h⟩ := bind_eq_ok (Option.some.inj h)
    obtain ⟨_, -, h⟩ := bind_eq_ok h
    cases h
    exact length_scan shrinks_scanPart hscan
  · obtain ⟨_, hscan, h⟩ := bind_eq_ok (Option.some.inj h)
    obtain ⟨_, -, h⟩ := bind_eq_ok h
    cases h
    exact length_scan shrinks_scanPart hscan
  · cases Option.some.inj h

/-- **More rounds than characters** are enough. -/
theorem planFrom_eq {z : Zlib} {files : Files} {m n : ℕ} {c : Loaded} {input : Str}
    (hm : input.length < m) (hn : input.length < n) :
    planFrom z files m c input = planFrom z files n c input := by
  induction m generalizing n c input with
  | zero => exact absurd hm (Nat.not_lt_zero _)
  | succ m ih =>
    obtain ⟨n, rfl⟩ := Nat.exists_eq_add_of_lt (Nat.zero_lt_of_lt hn)
    rw [Nat.zero_add] at hn ⊢
    rw [planFrom, planFrom]
    cases hread : readChar input with
    | none => rfl
    | some read =>
      obtain ⟨cmd, rest⟩ := read
      have hlt := length_of_readChar hread
      dsimp only
      split
      · rfl
      · rfl
      · next c' rest' hcmd =>
        have hle := length_command hcmd
        exact ih (by omega) (by omega)
      · next op c' rest' hcmd =>
        have hle := length_command hcmd
        rw [ih (by omega) (by omega : rest'.length < n)]

end Drawing

end Csf
