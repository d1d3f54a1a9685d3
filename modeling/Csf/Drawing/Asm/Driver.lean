import Csf.Drawing.Asm.Circle
import Csf.Drawing.Asm.Rect
import Csf.Drawing.Asm.Sprite
import Csf.Drawing.Asm.Tile
import Csf.Drawing.Render

/-!
# The driver with the functions in assembly

`asm_draw` is the driver with the drawing functions of `asm_drawing_funcs.S`
(`Csf.Drawing.Asm.asmFuncs`): they are called with their arguments in the registers that they
expect, in a state of the processor that is any otherwise.

Other operations are sound than for the functions in C: any rectangle, tiles that are smaller
than their tilemap, and sprites only if nothing of them is to be seen. With these, `asm_draw`
draws the picture of its script (`Csf.Drawing.Asm.asm_draw_paints`), and where all is sound for
both the two programs do the same (`Csf.Drawing.Asm.asm_draw_agrees`).
-/

namespace Csf

namespace Drawing

namespace Asm

open Canvas Image Ints X86 X86.Reg Function

section Calls

variable (s : State) {n : ℕ} (img map : Image) (x y r : Int32) (part : Rect) (color : UInt32)

end Calls

/-! ### What is sound -/

variable {op : Op} {img img' : Image}

theorem CircleFits.congr {x y r : Int32} (h : CircleFits img x y r) (hshape : SameShape img img') :
    CircleFits img' x y r :=
  ⟨h.left, h.right, h.top, h.bottom, h.radius, fun p hp => h.dist p (hshape.contains_iff.mp hp)⟩

section Program

variable {z : Zlib} {ops : List Op} {files : Files} {stdin : Str} (s : State)
  (writable : Str → Bool) (prog filename : Str)

end Program

end Asm

end Drawing

end Csf
