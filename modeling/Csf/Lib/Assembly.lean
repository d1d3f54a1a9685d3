import Csf.Lib.Ints

/-!
# A fragment of x86-64

What instructions do, as functions on the state of the machine. A piece of code is a
`X86.Code`, a program in a state monad that may have no result: an instruction that reads
what is not there, or that tests flags that are not known, has none. So a piece of code is
written as the assembler has it, an instruction a line, source operand first.

Memory is in blocks: a pointer is a block and an offset into it, and what is in the blocks is
left to whoever uses this library (`X86.Memory`). The stack is apart from them. Its cells
have four bytes each, and accesses are at multiples of four bytes from each other.

A function that is called finds the address to return to on the stack; that `ret` finds it
there as well is checked (`X86.call`).
-/

namespace X86

/-- The general registers, but for the stack pointer. The lower half of `rax` is `eax`, and
likewise. -/
inductive Reg where
  | rax | rbx | rcx | rdx | rsi | rdi | rbp | r8 | r9 | r10 | r11 | r12 | r13 | r14 | r15
  deriving DecidableEq

/-- What a register may hold. -/
inductive Val (B : Type) where
  /-- A number. -/
  | int (n : UInt64)
  /-- A pointer into a block. -/
  | ptr (b : B) (off : ℤ)
  /-- A pointer into the stack. -/
  | frame (a : ℤ)
  /-- The address to return to, for a call made with the stack pointer `a`. -/
  | code (a : ℤ)
  /-- What is left of a value when a part of it has been overwritten. -/
  | junk
  deriving DecidableEq

/-- What four bytes of the stack may hold: a number, or a half of another value. -/
inductive Cell (B : Type) where
  | word (w : UInt32)
  | low (v : Val B)
  | high (v : Val B)
  deriving DecidableEq

/-- What a jump may ask: whether the result was zero, its sign, and whether it would be
negative if it had not been wrapped around. -/
structure Flags where
  zero : Bool
  sign : Bool
  less : Bool

/-- The memory apart from the stack: contents `H` of blocks `B`. -/
class Memory (B H : Type) where
  load32 : H → B → ℤ → Option UInt32
  load64 : H → B → ℤ → Option (Val B)
  store32 : H → B → ℤ → UInt32 → Option H

/-- The state of the machine. -/
structure State (B H : Type) where
  reg : Reg → Val B
  rsp : ℤ
  flags : Option Flags
  stack : ℤ → Cell B
  heap : H
  /-- Where the last `ret` has gone. -/
  ip : Val B

/-- A piece of code. -/
abbrev Code (B H α : Type) := StateT (State B H) Option α

/-- Operands: `$n`, `%r`, `off(%r)`, `off(%rsp)` and `(%r, %i, 4)`. -/
inductive Operand where
  | imm (n : UInt32)
  | reg (r : Reg)
  | mem (off : ℤ) (r : Reg)
  | top (off : ℤ)
  | scaled (r i : Reg)

instance : Coe Reg Operand := ⟨Operand.reg⟩

section Values

variable {B : Type}

/-- The lower half of a value. -/
def Val.low : Val B → Cell B
  | .int n => .word n.toUInt32
  | v => .low v

/-- The upper half of a value. -/
def Val.high : Val B → Cell B
  | .int n => .word (n >>> 32).toUInt32
  | v => .high v

/-- The value with these halves. -/
def Cell.join [DecidableEq B] : Cell B → Cell B → Val B
  | .word l, .word h => .int (UInt64.ofNat (2 ^ 32 * h.toNat + l.toNat))
  | .low v, .high v' => if v = v' then v else .junk
  | _, _ => .junk

/-- A value is that of its halves. -/
@[simp] theorem Cell.join_halves [DecidableEq B] (v : Val B) : v.low.join v.high = v := by
  cases v with
  | int n =>
    have hlow : n.toUInt32.toNat = n.toNat % 2 ^ 32 := UInt64.toNat_toUInt32 n
    have hhigh : (n >>> 32).toUInt32.toNat = n.toNat / 2 ^ 32 % 2 ^ 32 := by
      rw [UInt64.toNat_toUInt32, UInt64.toNat_shiftRight]
      exact congrArg (· % 2 ^ 32) (Nat.shiftRight_eq_div_pow _ _)
    have hlt : n.toNat < 2 ^ 64 := n.toNat_lt
    refine congrArg Val.int (UInt64.toNat_inj.mp ?_)
    rw [UInt64.toNat_ofNat', hlow, hhigh]
    omega
  | _ => simp [Val.low, Val.high, Cell.join]

/-- The number in the lower half of a value, if it is one. -/
def Val.word? : Val B → Option UInt32
  | .int n => some n.toUInt32
  | _ => none

/-- The number in a value, if it is one. -/
def Val.int? : Val B → Option UInt64
  | .int n => some n
  | _ => none

/-- A number of 32 bits, the upper half being zero. -/
def Val.word (w : UInt32) : Val B := .int w.toUInt64

/-- A pointer moved by `off` bytes. -/
def Val.shift (off : ℤ) : Val B → Option (Val B)
  | .ptr b o => some (.ptr b (o + off))
  | .frame a => some (.frame (a + off))
  | _ => none

/-- A pointer moved by as many times four bytes as another value says. -/
def Val.index (v : Val B) : Val B → Option (Val B)
  | .int n => v.shift (4 * n.toInt64.toInt)
  | _ => none

/-- The number in a cell, if it is one. -/
def Cell.word? : Cell B → Option UInt32
  | .word w => some w
  | _ => none

section Simp

variable (n : UInt64) (w : UInt32) (b : B) (o off a : ℤ) (v : Val B)

@[simp] theorem Val.word?_word : (.word w : Val B).word? = some w :=
  congrArg some (UInt32.toUInt32_toUInt64 w)

@[simp] theorem Val.low_word : (.word w : Val B).low = .word w :=
  congrArg Cell.word (UInt32.toUInt32_toUInt64 w)

@[simp] theorem Cell.join_word [DecidableEq B] :
    (Cell.word w).join (.word w : Val B).high = .word w := by
  rw [← Val.low_word, Cell.join_halves]

@[simp] theorem Val.int?_int : (.int n : Val B).int? = some n := (rfl)

@[simp] theorem Val.int?_word : (.word w : Val B).int? = some w.toUInt64 := (rfl)

@[simp] theorem Val.shift_ptr : (.ptr b o : Val B).shift off = some (.ptr b (o + off)) := (rfl)

@[simp] theorem Val.shift_frame : (.frame a : Val B).shift off = some (.frame (a + off)) := (rfl)

@[simp] theorem Val.shift_word : (.word w : Val B).shift off = none := (rfl)

/-- A number of 32 bits is not negative as one of 64 bits. -/
theorem toInt_toUInt64 : w.toUInt64.toInt64.toInt = w.toNat := by
  have hlt : w.toNat < 2 ^ 32 := w.toNat_lt
  change (w.toUInt64.toBitVec).toInt = _
  rw [BitVec.toInt_eq_toNat_of_lt]
  · simp
  · simp
    omega

@[simp] theorem Val.index_word : v.index (.word w) = v.shift (4 * w.toNat) := by
  rw [Val.word, Val.index, toInt_toUInt64]

/-- A number that is not negative as a signed one, extended to 64 bits. -/
theorem Val.int_signExtend (hw : w.toNat < 2 ^ 31) :
    (.int w.toInt32.toInt64.toUInt64 : Val B) = .word w := by
  refine congrArg Val.int (UInt64.toNat_inj.mp ?_)
  have hsize : ((Ints.toSize w.toInt32).toNat : ℤ) = w.toNat := by
    rw [Ints.toNat_toSize, Ints.toInt_toInt32]
    omega
  rw [UInt32.toNat_toUInt64]
  exact Int.natCast_inj.mp hsize

@[simp] theorem Cell.word?_word : (.word w : Cell B).word? = some w := (rfl)

end Simp

end Values

/-! ### The state of the machine -/

namespace State

variable {B H : Type} (s : State B H)

/-- Another value in a register. -/
@[simps] def set (r : Reg) (v : Val B) : State B H := { s with reg := Function.update s.reg r v }

/-- Another cell on the stack. -/
@[simps] def poke (a : ℤ) (c : Cell B) : State B H :=
  { s with stack := Function.update s.stack a c }

/-- Another stack pointer. -/
@[simps] def setRsp (a : ℤ) : State B H := { s with rsp := a }

/-- Another address that the last `ret` has gone to. -/
@[simps] def setIp (v : Val B) : State B H := { s with ip := v }

/-- Other flags; without any, nothing may be asked of them. -/
@[simps] def setFlags (f : Option Flags) : State B H := { s with flags := f }

/-- Other contents of the memory. -/
@[simps] def setHeap (h : H) : State B H := { s with heap := h }

/-- A 32-bit number in a register, the upper half of which becomes zero. -/
abbrev set32 (r : Reg) (w : UInt32) : State B H := s.set r (.word w)

/-- Eight bytes on the stack, written. -/
@[simps] def poke64 (a : ℤ) (v : Val B) : State B H :=
  { s with stack := Function.update (Function.update s.stack a v.low) (a + 4) v.high }

/-- Eight bytes on the stack, read. -/
@[simp] def peek64 [DecidableEq B] (a : ℤ) : Val B := (s.stack a).join (s.stack (a + 4))

/-- A value pushed on the stack. -/
@[simps] def push (v : Val B) : State B H :=
  { s with
    rsp := s.rsp + -8
    stack := Function.update (Function.update s.stack (s.rsp + -8) v.low) (s.rsp + -8 + 4) v.high }

/-- The address of an operand in memory. -/
def address : Operand → Option (Val B)
  | .mem off r => (s.reg r).shift off
  | .top off => some (.frame (s.rsp + off))
  | .scaled r i => (s.reg r).index (s.reg i)
  | _ => none

/-- Eight bytes of memory, written; the code writes none outside of the stack. -/
def store64 (v : Val B) : Val B → Option (State B H)
  | .frame a => some (s.poke64 a v)
  | _ => none

/-- The 64 bits of an operand, written. -/
def write64 (v : Val B) : Operand → Option (State B H)
  | .imm _ => none
  | .reg r => some (s.set r v)
  | op => (s.address op).bind (s.store64 v)

section Memory

variable [Memory B H]

/-- Four bytes of memory, read. -/
def load32 : Val B → Option UInt32
  | .ptr b o => Memory.load32 s.heap b o
  | .frame a => (s.stack a).word?
  | _ => none

/-- Four bytes of memory, written. -/
def store32 (w : UInt32) : Val B → Option (State B H)
  | .ptr b o => (Memory.store32 s.heap b o w).map s.setHeap
  | .frame a => some (s.poke a (.word w))
  | _ => none

/-- The 32 bits of an operand. -/
def read32 : Operand → Option UInt32
  | .imm n => some n
  | .reg r => (s.reg r).word?
  | op => (s.address op).bind s.load32

/-- The 32 bits of an operand, written. -/
def write32 (w : UInt32) : Operand → Option (State B H)
  | .imm _ => none
  | .reg r => some (s.set32 r w)
  | op => (s.address op).bind (s.store32 w)

variable [DecidableEq B]

/-- Eight bytes of memory, read. -/
def load64 : Val B → Option (Val B)
  | .ptr b o => Memory.load64 s.heap b o
  | .frame a => some (s.peek64 a)
  | _ => none

/-- The 64 bits of an operand. -/
def read64 : Operand → Option (Val B)
  | .imm n => some (.int n.toInt32.toInt64.toUInt64)
  | .reg r => some (s.reg r)
  | op => (s.address op).bind s.load64

end Memory

/-! ### Operands, read and written -/

section Operands

variable {s : State B H} {n w : UInt32} {r i : Reg} {b : B} {a o off : ℤ} {v : Val B}

@[simp] theorem address_mem : s.address (.mem off r) = (s.reg r).shift off := (rfl)

@[simp] theorem address_scaled : s.address (.scaled r i) = (s.reg r).index (s.reg i) := (rfl)

@[simp] theorem store64_frame : s.store64 v (.frame a) = some (s.poke64 a v) := (rfl)

@[simp] theorem write64_reg : s.write64 v (.reg r) = some (s.set r v) := (rfl)

@[simp] theorem write64_mem :
    s.write64 v (.mem off r) = ((s.reg r).shift off).bind (s.store64 v) := (rfl)

@[simp] theorem write64_top : s.write64 v (.top off) = some (s.poke64 (s.rsp + off) v) := (rfl)

variable [Memory B H]

@[simp] theorem load32_ptr : s.load32 (.ptr b o) = Memory.load32 s.heap b o := (rfl)

@[simp] theorem load32_frame : s.load32 (.frame a) = (s.stack a).word? := (rfl)

@[simp] theorem store32_ptr :
    s.store32 w (.ptr b o) = (Memory.store32 s.heap b o w).map s.setHeap := (rfl)

@[simp] theorem store32_frame : s.store32 w (.frame a) = some (s.poke a (.word w)) := (rfl)

@[simp] theorem read32_imm : s.read32 (.imm n) = some n := (rfl)

@[simp] theorem read32_reg : s.read32 (.reg r) = (s.reg r).word? := (rfl)

@[simp] theorem read32_mem : s.read32 (.mem off r) = ((s.reg r).shift off).bind s.load32 := (rfl)

@[simp] theorem read32_top : s.read32 (.top off) = (s.stack (s.rsp + off)).word? := (rfl)

@[simp] theorem read32_scaled :
    s.read32 (.scaled r i) = ((s.reg r).index (s.reg i)).bind s.load32 := (rfl)

@[simp] theorem write32_reg : s.write32 w (.reg r) = some (s.set32 r w) := (rfl)

@[simp] theorem write32_mem :
    s.write32 w (.mem off r) = ((s.reg r).shift off).bind (s.store32 w) := (rfl)

@[simp] theorem write32_top :
    s.write32 w (.top off) = some (s.poke (s.rsp + off) (.word w)) := (rfl)

@[simp] theorem write32_scaled :
    s.write32 w (.scaled r i) = ((s.reg r).index (s.reg i)).bind (s.store32 w) := (rfl)

variable [DecidableEq B]

@[simp] theorem load64_ptr : s.load64 (.ptr b o) = Memory.load64 s.heap b o := (rfl)

@[simp] theorem load64_frame : s.load64 (.frame a) = some (s.peek64 a) := (rfl)

@[simp] theorem read64_reg : s.read64 (.reg r) = some (s.reg r) := (rfl)

@[simp] theorem read64_mem : s.read64 (.mem off r) = ((s.reg r).shift off).bind s.load64 := (rfl)

@[simp] theorem read64_top : s.read64 (.top off) = some (s.peek64 (s.rsp + off)) := (rfl)

end Operands

end State

/-! ### Instructions -/

section Instructions

variable {B H : Type} [DecidableEq B] [Memory B H]

/-- `movl src, dst` -/
def movl (src dst : Operand) : Code B H Unit := fun s =>
  (s.read32 src).bind fun w => (s.write32 w dst).map fun s' => ((), s')

/-- `movq src, dst` -/
def movq (src dst : Operand) : Code B H Unit := fun s =>
  (s.read64 src).bind fun v => (s.write64 v dst).map fun s' => ((), s')

/-- An instruction that computes the 32 bits of a register anew. -/
def alu (f : UInt32 → UInt32 → UInt32) (flags : UInt32 → UInt32 → Option Flags) (src : Operand)
    (dst : Reg) : Code B H Unit := fun s =>
  (s.read32 src).bind fun w => (s.reg dst).word?.map fun d =>
    ((), (s.set32 dst (f d w)).setFlags (flags d w))

/-- The flags after an addition. -/
def addFlags (d w : UInt32) : Option Flags :=
  some ⟨d + w == 0, (d + w).toInt32 < 0, d.toInt32.toInt + w.toInt32.toInt < 0⟩

/-- The flags after a subtraction, or a comparison. -/
def subFlags (d w : UInt32) : Option Flags :=
  some ⟨d == w, (d - w).toInt32 < 0, d.toInt32 < w.toInt32⟩

/-- Flags that nothing asks for. -/
def noFlags (_ _ : UInt32) : Option Flags := none

/-- `addl src, dst` -/
abbrev addl : Operand → Reg → Code B H Unit := alu (· + ·) addFlags

/-- `subl src, dst` -/
abbrev subl : Operand → Reg → Code B H Unit := alu (· - ·) subFlags

/-- `imull src, dst` -/
abbrev imull : Operand → Reg → Code B H Unit := alu (· * ·) noFlags

/-- `andl src, dst` -/
abbrev andl : Operand → Reg → Code B H Unit := alu (· &&& ·) noFlags

/-- `orl src, dst` -/
abbrev orl : Operand → Reg → Code B H Unit := alu (· ||| ·) noFlags

/-- `shll src, dst` -/
abbrev shll : Operand → Reg → Code B H Unit := alu (· <<< ·) noFlags

/-- `shrl src, dst` -/
abbrev shrl : Operand → Reg → Code B H Unit := alu (· >>> ·) noFlags

/-- `incl dst` -/
abbrev incl : Reg → Code B H Unit := alu (· + ·) noFlags (.imm 1)

/-- `decl dst` -/
abbrev decl : Reg → Code B H Unit := alu (· - ·) noFlags (.imm 1)

/-- `xorl r, r` and `xorq r, r`, which make a register zero whatever it holds. -/
def clear (r : Reg) : Code B H Unit := fun s => some ((), (s.set32 r 0).setFlags none)

/-- The number with the halves `h` and `l`, divided by `d`: the quotient, which has to fit, and
the remainder. -/
def divide (h l d : UInt32) : Option (UInt32 × UInt32) :=
  let n := 2 ^ 32 * h.toNat + l.toNat
  if d = 0 ∨ 2 ^ 32 ≤ n / d.toNat then none
  else some (.ofNat (n / d.toNat), .ofNat (n % d.toNat))

/-- A number of 32 bits can be divided by any other one. -/
@[simp] theorem divide_zero (l : UInt32) {d : UInt32} (hd : d ≠ 0) :
    divide 0 l d = some (l / d, l % d) := by
  have hpos : 0 < d.toNat := by
    refine Nat.pos_of_ne_zero fun h => hd (UInt32.toNat_inj.mp ?_)
    rw [h]
    rfl
  have hl : l.toNat < 2 ^ 32 := l.toNat_lt
  have hn : 2 ^ 32 * (0 : UInt32).toNat + l.toNat = l.toNat := by
    rw [UInt32.toNat_zero, Nat.mul_zero, Nat.zero_add]
  have hquot : l.toNat / d.toNat < 2 ^ 32 := Nat.lt_of_le_of_lt (Nat.div_le_self _ _) hl
  have hrem : l.toNat % d.toNat < 2 ^ 32 := Nat.lt_of_le_of_lt (Nat.mod_le _ _) hl
  rw [divide, hn, if_neg (not_or.mpr ⟨hd, Nat.not_le.mpr hquot⟩)]
  refine congrArg some (Prod.ext (UInt32.toNat_inj.mp ?_) (UInt32.toNat_inj.mp ?_))
  · rw [UInt32.toNat_ofNat', UInt32.toNat_div, Nat.mod_eq_of_lt hquot]
  · rw [UInt32.toNat_ofNat', UInt32.toNat_mod, Nat.mod_eq_of_lt hrem]

/-- `divl src`: `edx:eax`, divided. -/
def divl (src : Reg) : Code B H Unit := fun s =>
  (s.reg src).word?.bind fun d => (s.reg .rdx).word?.bind fun h => (s.reg .rax).word?.bind fun l =>
    (divide h l d).map fun qr => ((), ((s.set32 .rax qr.1).set32 .rdx qr.2).setFlags none)

/-- `movzbl src, dst` -/
def movzbl (src dst : Reg) : Code B H Unit := fun s =>
  (s.reg src).word?.map fun w => ((), s.set32 dst w.toUInt8.toUInt32)

/-- `movslq src, dst` -/
def movslq (src dst : Reg) : Code B H Unit := fun s =>
  (s.reg src).word?.map fun w => ((), s.set dst (.int w.toInt32.toInt64.toUInt64))

/-- `leaq src, dst` -/
def leaq (src : Operand) (dst : Reg) : Code B H Unit := fun s =>
  (s.address src).map fun v => ((), s.set dst v)

/-- `cmpl src, dst` -/
def cmpl (src dst : Operand) : Code B H Unit := fun s =>
  (s.read32 src).bind fun w => (s.read32 dst).map fun d => ((), s.setFlags (subFlags d w))

/-- `cmpb n, dst` -/
def cmpb (n : UInt8) (dst : Reg) : Code B H Unit := fun s =>
  (s.reg dst).word?.map fun w => ((), s.setFlags (some ⟨w.toUInt8 == n,
    (w.toUInt8 - n).toInt8 < 0, w.toUInt8.toInt8 < n.toInt8⟩))

/-- `cmpq n, dst` -/
def cmpq (n : Int64) (dst : Reg) : Code B H Unit := fun s =>
  (s.reg dst).int?.map fun m =>
    ((), s.setFlags (some ⟨m.toInt64 == n, m.toInt64 - n < 0, m.toInt64 < n⟩))

/-- `addq n, %rsp` -/
def addqRsp (n : ℤ) : Code B H Unit := fun s => some ((), (s.setRsp (s.rsp + n)).setFlags none)

/-- `subq n, %rsp` -/
def subqRsp (n : ℤ) : Code B H Unit := fun s => some ((), (s.setRsp (s.rsp + -n)).setFlags none)

/-- `movq %rsp, dst` -/
def movqRsp (dst : Reg) : Code B H Unit := fun s => some ((), s.set dst (.frame s.rsp))

/-- `pushq r` -/
def pushq (r : Reg) : Code B H Unit := fun s => some ((), s.push (s.reg r))

/-- `popq r` -/
def popq (r : Reg) : Code B H Unit := fun s =>
  some ((), (s.set r (s.peek64 s.rsp)).setRsp (s.rsp + 8))

/-- `ret` -/
def ret : Code B H Unit := fun s =>
  some ((), (s.setIp (s.peek64 s.rsp)).setRsp (s.rsp + 8))

/-- `call f`: nothing is known of a function that returns elsewhere. -/
def call (f : Code B H Unit) : Code B H Unit := fun s =>
  (f (s.push (.code s.rsp))).bind fun (_, s') =>
    if s'.ip = .code s.rsp then some ((), s') else none

/-- A conditional jump. -/
def jump (c : Flags → Bool) : Code B H Bool := fun s => s.flags.map fun f => (c f, s)

/-- `je` -/
abbrev je : Code B H Bool := jump fun f => f.zero

/-- `js` -/
abbrev js : Code B H Bool := jump fun f => f.sign

/-- `jl` -/
abbrev jl : Code B H Bool := jump fun f => f.less

/-- `jge` -/
abbrev jge : Code B H Bool := jump fun f => !f.less

/-- `jle` -/
abbrev jle : Code B H Bool := jump fun f => f.zero || f.less

/-- `jg` -/
abbrev jg : Code B H Bool := jump fun f => !(f.zero || f.less)

end Instructions

/-! ### Running code -/

section Run

variable {B H : Type} {α β : Type}

/-- What comes after a piece of code that has run. -/
def andThen (r : Option (α × State B H)) (f : α → Code B H β) : Option (β × State B H) :=
  r.bind fun p => f p.1 p.2

/-- What comes after is not looked at before its time. -/
@[congr] theorem andThen_congr {r r' : Option (α × State B H)} {f : α → Code B H β} (h : r = r') :
    andThen r f = andThen r' f := by rw [h]

/-- **A piece of code ends**, with a value and in a state that satisfy `Q`. -/
def Runs (r : Option (α × State B H)) (Q : α → State B H → Prop) : Prop :=
  ∃ a s, r = some (a, s) ∧ Q a s

variable (s : State B H)

@[simp] theorem andThen_some (a : α) (f : α → Code B H β) : andThen (some (a, s)) f = f a s := (rfl)

@[simp] theorem andThen_assoc {γ : Type} (r : Option (α × State B H)) (f : α → Code B H β)
    (g : β → Code B H γ) :
    andThen (andThen r f) g = andThen r fun a s => andThen (f a s) g := Option.bind_assoc r _ _

@[simp] theorem runs_some (a : α) (Q : α → State B H → Prop) : Runs (some (a, s)) Q ↔ Q a s := by
  constructor
  · rintro ⟨a', s', h, hQ⟩
    cases h
    exact hQ
  · exact fun h => ⟨a, s, rfl, h⟩

/-- **The rule of sequencing.** -/
theorem Runs.andThen {r : Option (α × State B H)} {f : α → Code B H β}
    {Q : α → State B H → Prop} {R : β → State B H → Prop} (h : Runs r Q)
    (hf : ∀ a s, Q a s → Runs (f a s) R) : Runs (andThen r f) R := by
  obtain ⟨a, s, rfl, hQ⟩ := h
  exact hf a s hQ

/-- **The rule of consequence.** -/
theorem Runs.mono {r : Option (α × State B H)} {Q R : α → State B H → Prop} (h : Runs r Q)
    (hQR : ∀ a s, Q a s → R a s) : Runs r R := by
  obtain ⟨a, s, hr, hQ⟩ := h
  exact ⟨a, s, hr, hQR a s hQ⟩

theorem run_bind (c : Code B H α) (f : α → Code B H β) : (c >>= f) s = andThen (c s) f := (rfl)

@[simp] theorem run_pure (a : α) : (pure a : Code B H α) s = some (a, s) := (rfl)

@[simp] theorem run_map (f : α → β) (c : Code B H α) :
    (f <$> c) s = andThen (c s) fun a s' => some (f a, s') := by
  rw [map_eq_pure_bind]
  exact run_bind s c _

@[simp] theorem run_ite (p : Prop) [Decidable p] (c c' : Code B H α) :
    (if p then c else c') s = if p then c s else c' s := ite_apply p c c' s

variable (src dst : Operand) (r r' : Reg) (n : ℤ) (g : UInt32 → UInt32 → UInt32)
  (fl : UInt32 → UInt32 → Option Flags)

@[simp] theorem run_clear : (clear r : Code B H Unit) s =
    some ((), (s.set32 r 0).setFlags none) := (rfl)

@[simp] theorem run_movzbl : movzbl r r' s =
    (s.reg r).word?.map fun w => ((), s.set32 r' w.toUInt8.toUInt32) := (rfl)

@[simp] theorem run_movslq : movslq r r' s =
    (s.reg r).word?.map fun w => ((), s.set r' (.int w.toInt32.toInt64.toUInt64)) := (rfl)

@[simp] theorem run_divl : (divl r : Code B H Unit) s =
    (s.reg r).word?.bind fun d => (s.reg .rdx).word?.bind fun h =>
      (s.reg .rax).word?.bind fun l => (divide h l d).map fun qr =>
        ((), ((s.set32 .rax qr.1).set32 .rdx qr.2).setFlags none) := (rfl)

@[simp] theorem run_cmpb (m : UInt8) : (cmpb m r : Code B H Unit) s =
    (s.reg r).word?.map fun w => ((), s.setFlags (some ⟨w.toUInt8 == m,
      (w.toUInt8 - m).toInt8 < 0, w.toUInt8.toInt8 < m.toInt8⟩)) := (rfl)

@[simp] theorem run_cmpq (m : Int64) : (cmpq m r : Code B H Unit) s =
    (s.reg r).int?.map fun n =>
      ((), s.setFlags (some ⟨n.toInt64 == m, n.toInt64 - m < 0, n.toInt64 < m⟩)) := (rfl)

@[simp] theorem run_leaq : leaq src r s = (s.address src).map fun v => ((), s.set r v) := (rfl)

@[simp] theorem run_addqRsp : (addqRsp n : Code B H Unit) s =
    some ((), (s.setRsp (s.rsp + n)).setFlags none) := (rfl)

@[simp] theorem run_subqRsp : (subqRsp n : Code B H Unit) s =
    some ((), (s.setRsp (s.rsp + -n)).setFlags none) := (rfl)

@[simp] theorem run_movqRsp : (movqRsp r : Code B H Unit) s = some ((), s.set r (.frame s.rsp)) :=
  (rfl)

@[simp] theorem run_pushq : (pushq r : Code B H Unit) s = some ((), s.push (s.reg r)) := (rfl)

@[simp] theorem run_jump (c : Flags → Bool) : (jump c : Code B H Bool) s =
    s.flags.map fun f => (c f, s) := (rfl)

section Stack

variable [DecidableEq B]

@[simp] theorem run_popq : (popq r : Code B H Unit) s =
    some ((), (s.set r (s.peek64 s.rsp)).setRsp (s.rsp + 8)) := (rfl)

@[simp] theorem run_ret : (ret : Code B H Unit) s =
    some ((), (s.setIp (s.peek64 s.rsp)).setRsp (s.rsp + 8)) := (rfl)

theorem run_call (f : Code B H Unit) : call f s =
    andThen (f (s.push (.code s.rsp))) fun _ s' =>
      if s'.ip = .code s.rsp then some ((), s') else none := (rfl)

end Stack

section Memory

variable [Memory B H]

@[simp] theorem run_alu : alu g fl src r s =
    (s.read32 src).bind fun w => (s.reg r).word?.map fun d =>
      ((), (s.set32 r (g d w)).setFlags (fl d w)) := (rfl)

@[simp] theorem run_movl : movl src dst s =
    (s.read32 src).bind fun w => (s.write32 w dst).map fun s' => ((), s') := (rfl)

@[simp] theorem run_cmpl : cmpl src dst s =
    (s.read32 src).bind fun w =>
      (s.read32 dst).map fun d => ((), s.setFlags (subFlags d w)) := (rfl)

@[simp] theorem run_movq [DecidableEq B] : movq src dst s =
    (s.read64 src).bind fun v => (s.write64 v dst).map fun s' => ((), s') := (rfl)

end Memory

end Run

/-- **What a function leaves alone** that keeps to the calling convention: the stack, and all
but some registers. -/
structure Kept {B H : Type} (changed : List Reg) (s s' : State B H) : Prop where
  rsp : s'.rsp = s.rsp
  reg : ∀ r, r ∉ changed → s'.reg r = s.reg r
  stack : ∀ a, s.rsp ≤ a → s'.stack a = s.stack a

namespace Kept

variable {B H : Type} {c c' : List Reg} {s s' s'' : State B H}

theorem refl (c : List Reg) (s : State B H) : Kept c s s := ⟨rfl, fun _ _ => rfl, fun _ _ => rfl⟩

theorem trans (h : Kept c s s') (h' : Kept c' s' s'') : Kept (c ++ c') s s'' where
  rsp := h'.rsp.trans h.rsp
  reg r hr := by
    rw [List.mem_append, not_or] at hr
    exact (h'.reg r hr.2).trans (h.reg r hr.1)
  stack a ha := (h'.stack a (h.rsp ▸ ha)).trans (h.stack a ha)

theorem mono (h : Kept c s s') (hc : c ⊆ c') : Kept c' s s' :=
  ⟨h.rsp, fun r hr => h.reg r fun hmem => hr (hc hmem), h.stack⟩

theorem again (h : Kept c s s') (h' : Kept c s' s'') : Kept c s s'' :=
  (h.trans h').mono (List.append_subset.mpr ⟨List.Subset.refl c, List.Subset.refl c⟩)

theorem set (h : Kept c s s') {r : Reg} (hr : r ∈ c) (v : Val B) : Kept c s (s'.set r v) where
  rsp := h.rsp
  reg q hq := by
    have hne : q ≠ r := fun heq => hq (heq ▸ hr)
    rw [State.set_reg, Function.update_of_ne hne, h.reg q hq]
  stack := h.stack

theorem setFlags (h : Kept c s s') (f : Option Flags) : Kept c s (s'.setFlags f) :=
  ⟨h.rsp, h.reg, h.stack⟩

end Kept

end X86
