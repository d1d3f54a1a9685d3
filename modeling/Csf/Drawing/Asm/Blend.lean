import Csf.Drawing.Asm.Index

/-!
# Blending, in assembly
-/

namespace Csf

namespace Drawing

namespace Asm

open X86 X86.Operand X86.Reg

/-! ### The components of a color -/

/-- `get_r`, `get_g` and `get_b`, which differ in by how much they shift. -/
def getComponent (shift : UInt32) : Code Unit := do
  movl rdi rax
  shrl (imm shift) rax
  andl (imm 0xFF) rax
  ret

/-- `get_r` -/
def getR : Code Unit := getComponent 24

/-- `get_g` -/
def getG : Code Unit := getComponent 16

/-- `get_b` -/
def getB : Code Unit := getComponent 8

/-- `get_a` -/
def getA : Code Unit := do
  movl rdi rax
  andl (imm 0xFF) rax
  ret

/-- `blend_components` -/
def blendComponents : Code Unit := do
  pushq r8
  pushq r9
  pushq r10
  pushq rcx
  pushq rdx
  subqRsp 48
  movl rdi r8
  movl rsi r9
  movl rdx r10
  movl (imm 255) rax
  subl r10 rax
  imull r9 rax
  imull r10 r8
  addl r8 rax
  clear rdx
  movl (imm 255) rcx
  divl rcx
  addqRsp 48
  popq rdx
  popq rcx
  popq r10
  popq r9
  popq r8
  ret

/-- A component of a color. -/
def componentOf (color shift : UInt32) : UInt32 := (color >>> shift) &&& 0xFF

/-- Two components, blended. -/
def blendOf (fg bg alpha : UInt32) : UInt32 := (alpha * fg + bg * (255 - alpha)) / 255

section Components

variable {s : State} {color fg bg alpha w : UInt32}

/-- A number below 256 is not changed when only its lowest byte is taken. -/
theorem toUInt32_toUInt8 (h : w.toNat < 256) : w.toUInt8.toUInt32 = w := by
  refine UInt32.toNat_inj.mp ?_
  rw [UInt8.toNat_toUInt32, UInt32.toNat_toUInt8]
  exact Nat.mod_eq_of_lt h

theorem and_lt (w : UInt32) : (w &&& 0xFF).toNat < 256 := by
  rw [UInt32.toNat_and]
  exact Nat.lt_succ_of_le Nat.and_le_right

theorem componentOf_lt (color shift : UInt32) : (componentOf color shift).toNat < 256 := and_lt _

/-- The average of two components is one. -/
theorem blendOf_lt (hfg : fg.toNat < 256) (hbg : bg.toNat < 256) (halpha : alpha.toNat < 256) :
    (blendOf fg bg alpha).toNat < 256 := by
  have hsub : (255 - alpha).toNat = 255 - alpha.toNat := by
    rw [UInt32.toNat_sub_of_le]
    · rfl
    · rw [UInt32.le_iff_toNat_le]
      exact Nat.le_of_lt_succ halpha
  have hle : alpha.toNat * fg.toNat + bg.toNat * (255 - alpha.toNat) ≤ 255 * 255 := by
    calc alpha.toNat * fg.toNat + bg.toNat * (255 - alpha.toNat)
        ≤ alpha.toNat * 255 + 255 * (255 - alpha.toNat) :=
          Nat.add_le_add (Nat.mul_le_mul_left _ (Nat.le_of_lt_succ hfg))
            (Nat.mul_le_mul_right _ (Nat.le_of_lt_succ hbg))
      _ = 255 * 255 := by omega
  have hsum : (alpha * fg + bg * (255 - alpha)).toNat ≤ 255 * 255 := by
    rw [UInt32.toNat_add, UInt32.toNat_mul, UInt32.toNat_mul, hsub, Nat.add_mod_mod,
      Nat.mod_add_mod]
    exact (Nat.mod_le _ _).trans hle
  rw [blendOf, UInt32.toNat_div]
  exact Nat.lt_succ_of_le (Nat.div_le_of_le_mul hsum)

/-- What a color is drawn as when nothing shines through it. -/
theorem blendColors_full (h : Drawing.getA fg = 255) :
    Drawing.blendColors fg bg = componentOf fg 24 <<< 24 ||| componentOf fg 16 <<< 16 |||
      componentOf fg 8 <<< 8 ||| 255 := by
  rw [Drawing.blendColors, h, if_neg (by decide), if_pos rfl, Drawing.getR, Drawing.getG,
    Drawing.getB, toUInt32_toUInt8 (and_lt _), toUInt32_toUInt8 (and_lt _),
    toUInt32_toUInt8 (and_lt _)]
  rfl

/-- What a color is drawn as that something shines through. -/
theorem blendColors_mixed (halphalt : alpha.toNat < 256) (h : Drawing.getA fg = alpha.toUInt8)
    (hzero : alpha.toUInt8 ≠ 0) (hfull : alpha.toUInt8 ≠ 255) :
    Drawing.blendColors fg bg =
      blendOf (componentOf fg 24) (componentOf bg 24) alpha <<< 24 |||
      blendOf (componentOf fg 16) (componentOf bg 16) alpha <<< 16 |||
      blendOf (componentOf fg 8) (componentOf bg 8) alpha <<< 8 ||| 255 := by
  have hblend : ∀ i : UInt32, (Drawing.blendComponents ((fg >>> i) &&& 0xFF).toUInt8.toUInt32
      ((bg >>> i) &&& 0xFF).toUInt8.toUInt32 alpha.toUInt8.toUInt32).toUInt32 =
      blendOf (componentOf fg i) (componentOf bg i) alpha := by
    intro i
    rw [toUInt32_toUInt8 (and_lt _), toUInt32_toUInt8 (and_lt _), toUInt32_toUInt8 halphalt]
    exact toUInt32_toUInt8 (blendOf_lt (and_lt _) (and_lt _) halphalt)
  rw [Drawing.blendColors, h, if_neg hzero, if_neg hfull]
  simp only [Drawing.getR, Drawing.getG, Drawing.getB, hblend]

theorem call_getComponent (shift color : UInt32)
    (hcolor : (s.reg rdi).word? = some color) :
    Runs (call (getComponent shift) s) fun _ s' => Kept [rax] s s' ∧ s'.heap = s.heap ∧
      s'.reg rax = .word (componentOf color shift) := by
  rw [run_call, getComponent]
  simp [↓run_bind, hcolor, add_assoc]
  refine ⟨⟨by simp, fun r hr => ?_, fun a ha => ?_⟩, rfl⟩
  · simp [Function.update_apply] at hr ⊢
    simp [hr]
  · simp (disch := omega) [Function.update_of_ne]

theorem call_getA (color : UInt32) (hcolor : (s.reg rdi).word? = some color) :
    Runs (call getA s) fun _ s' => Kept [rax] s s' ∧ s'.heap = s.heap ∧
      s'.reg rax = .word (color &&& 0xFF) := by
  rw [run_call, getA]
  simp [↓run_bind, hcolor, add_assoc]
  refine ⟨by simp, fun r hr => ?_, fun a ha => ?_⟩
  · simp [Function.update_apply] at hr ⊢
    simp [hr]
  · simp (disch := omega) [Function.update_of_ne]

theorem call_blendComponents (fg bg alpha : UInt32) (hfg : (s.reg rdi).word? = some fg)
    (hbg : (s.reg rsi).word? = some bg) (halpha : (s.reg rdx).word? = some alpha) :
    Runs (call blendComponents s) fun _ s' => Kept [rax] s s' ∧ s'.heap = s.heap ∧
      s'.reg rax = .word (blendOf fg bg alpha) := by
  rw [run_call, blendComponents]
  simp [↓run_bind, hfg, hbg, halpha, add_assoc]
  refine ⟨⟨by simp, fun r hr => ?_, fun a ha => ?_⟩, ?_⟩
  · simp [Function.update_apply] at hr ⊢
    grind
  · simp (disch := omega) [Function.update_of_ne]
  · rw [blendOf, UInt32.add_comm, UInt32.mul_comm fg, UInt32.mul_comm bg]

end Components

/-! ### Two colors -/

/-- A component of a color, brought into a register: `movl src, %edi`, the call, and the result
moved to `dst`. -/
def component (get : Code Unit) (mov : Reg → Reg → Code Unit) (src dst : Reg) : Code Unit := do
  movl src rdi
  call get
  mov rax dst

/-- A component of the foreground in a register, blended with that of the background. -/
def blendInto (get : Code Unit) (mov : Reg → Reg → Code Unit) (dst : Reg) : Code Unit := do
  component get mov r12 r11
  movl dst rdi
  movl r11 rsi
  movl rcx rdx
  call blendComponents
  mov rax dst

/-- `movl` between registers. -/
def movlReg (src dst : Reg) : Code Unit := movl src dst

/-- `.Lreturn_bg` -/
def lReturnBg : Code Unit := do
  movl r12 rax
  addqRsp 16
  popq r12
  popq rbx
  ret

/-- `.Lreturn_fg_full` -/
def lReturnFgFull : Code Unit := do
  component getR movzbl rbx rcx
  shll (imm 24) rcx
  component getG movzbl rbx rdx
  shll (imm 16) rdx
  orl rdx rcx
  component getB movzbl rbx rdx
  shll (imm 8) rdx
  orl rdx rcx
  orl (imm 255) rcx
  movl rcx rax
  addqRsp 16
  popq r12
  popq rbx
  ret

/-- The components of both colors, blended in `%r8d`, `%r9d` and `%r10d`. -/
def blendEach : Code Unit := do
  component getR movzbl rbx r8
  component getG movlReg rbx r9
  component getB movzbl rbx r10
  blendInto getR movzbl r8
  blendInto getG movlReg r9
  blendInto getB movzbl r10

/-- `blend_colors` -/
def blendColors : Code Unit := do
  pushq rbx
  pushq r12
  subqRsp 16
  movl rdi rbx
  movl rsi r12
  call getA
  movzbl rax rcx
  cmpb 0 rax
  if ← je then lReturnBg else
  cmpb 255 rax
  if ← je then lReturnFgFull else
  blendEach
  movl (imm 255) rax
  shll (imm 8) r10
  orl r10 rax
  shll (imm 16) r9
  orl r9 rax
  shll (imm 24) r8
  orl r8 rax
  addqRsp 16
  popq r12
  popq rbx
  ret

section Colors

variable {s : State} {color fg bg alpha : UInt32}

/-- What moves a number below 256 from one register to another: `movl` and `movzbl`. -/
structure Moves (mov : Reg → Reg → Code Unit) : Prop where
  run : ∀ (s : State) (r r' : Reg) (w : UInt32), s.reg r = .word w → w.toNat < 256 →
    mov r r' s = some ((), s.set32 r' w)

theorem moves_movlReg : Moves movlReg := ⟨fun s r r' w hw _ => by simp [movlReg, hw]⟩

theorem moves_movzbl : Moves movzbl := ⟨fun s r r' w hw hlt => by
  rw [run_movzbl, hw, Val.word?_word, Option.map_some, toUInt32_toUInt8 hlt]⟩

theorem run_component {shift : UInt32} {mov : Reg → Reg → Code Unit} (hmov : Moves mov)
    {src dst : Reg} (color : UInt32) (hsrc : (s.reg src).word? = some color) :
    Runs (component (getComponent shift) mov src dst s) fun _ s' =>
      Kept [rax, rdi, dst] s s' ∧ s'.heap = s.heap ∧
        s'.reg dst = .word (componentOf color shift) := by
  rw [component]
  simp only [↓run_bind, run_movl, State.read32_reg, hsrc, Option.bind_some, State.write32_reg,
    Option.map_some, andThen_some]
  refine (call_getComponent shift color (by simp)).andThen ?_
  rintro - s₂ ⟨⟨hrsp, hreg, hstack⟩, hheap, hrax⟩
  simp at hrsp hreg hstack hheap
  rw [hmov.run _ _ _ _ hrax (componentOf_lt _ _), runs_some]
  refine ⟨⟨by simp [hrsp], fun r hr => ?_, fun a ha => ?_⟩, by simp [hheap], by simp⟩
  · simp at hr
    simp [hr, hreg]
  · simp [hstack a ha]

/-- **One component of the blended color**, in the register that the component of the
foreground was in. -/
theorem run_blendInto {shift : UInt32} {mov : Reg → Reg → Code Unit} (hmov : Moves mov)
    {dst : Reg} (hdst : dst ∉ [rax, rdi, rsi, rdx, r11]) (bg fg alpha : UInt32)
    (hbg : (s.reg r12).word? = some bg)
    (hfg : s.reg dst = .word fg) (halpha : s.reg rcx = .word alpha) (hfglt : fg.toNat < 256)
    (halphalt : alpha.toNat < 256) :
    Runs (blendInto (getComponent shift) mov dst s) fun _ s' =>
      Kept [rax, rdi, rsi, rdx, r11, dst] s s' ∧ s'.heap = s.heap ∧
        s'.reg dst = .word (blendOf fg (componentOf bg shift) alpha) := by
  simp only [List.mem_cons, List.not_mem_nil, or_false, not_or] at hdst
  obtain ⟨hrax, hrdi, hrsi, hrdx, hr11⟩ := hdst
  rw [blendInto]
  simp only [↓run_bind]
  refine (run_component hmov bg hbg).andThen ?_
  rintro - s₂ ⟨⟨hrsp, hreg, hstack⟩, hheap, hback⟩
  simp at hreg
  simp [↓run_bind, hreg, hback, hfg, halpha, hrax, hrdi, hr11]
  refine (call_blendComponents fg (componentOf bg shift) alpha (by simp) (by simp)
    (by simp)).andThen ?_
  rintro - s₃ ⟨⟨hrsp', hreg', hstack'⟩, hheap', hblend⟩
  simp at hrsp' hreg' hstack' hheap'
  rw [hmov.run _ _ _ _ hblend (blendOf_lt hfglt (componentOf_lt _ _) halphalt), runs_some]
  refine ⟨⟨by simp [hrsp', hrsp], fun r hr => ?_, fun a ha => ?_⟩, by simp [hheap', hheap], by simp⟩
  · simp at hr
    simp [hr, hreg', hreg]
  · simp [hstack' a (by rwa [hrsp]), hstack a ha]

theorem or_reverse (w₁ w₂ w₃ w₄ : UInt32) :
    w₁ ||| w₂ ||| w₃ ||| w₄ = w₄ ||| w₃ ||| w₂ ||| w₁ := by ac_rfl

theorem run_blendEach (fg bg alpha : UInt32) (hfg : s.reg rbx = .word fg)
    (hbg : s.reg r12 = .word bg) (halpha : s.reg rcx = .word alpha) (halphalt : alpha.toNat < 256) :
    Runs (blendEach s) fun _ s' =>
      Kept [rax, rdx, rsi, rdi, r8, r9, r10, r11] s s' ∧ s'.heap = s.heap ∧
        s'.reg r8 = .word (blendOf (componentOf fg 24) (componentOf bg 24) alpha) ∧
        s'.reg r9 = .word (blendOf (componentOf fg 16) (componentOf bg 16) alpha) ∧
        s'.reg r10 = .word (blendOf (componentOf fg 8) (componentOf bg 8) alpha) := by
  rw [blendEach, run_bind]
  refine (run_component moves_movzbl fg (by simp [hfg])).andThen ?_
  rintro - s₂ ⟨hkept₂, hheap₂, hfg₂⟩
  rw [run_bind]
  refine (run_component moves_movlReg fg (by simp [hkept₂.reg, hfg])).andThen ?_
  rintro - s₃ ⟨hkept₃, hheap₃, hfg₃⟩
  have hkept := hkept₂.trans hkept₃
  rw [run_bind]
  refine (run_component moves_movzbl fg (by simp [hkept.reg, hfg])).andThen ?_
  rintro - s₄ ⟨hkept₄, hheap₄, hfg₄⟩
  replace hkept := hkept.trans hkept₄
  rw [run_bind]
  refine (run_blendInto moves_movzbl (by simp) bg (componentOf fg 24) alpha
    (by simp [hkept.reg, hbg]) (by simp [hkept₄.reg, hkept₃.reg, hfg₂])
    (by simp [hkept.reg, halpha]) (componentOf_lt _ _) halphalt).andThen ?_
  rintro - s₅ ⟨hkept₅, hheap₅, hr⟩
  replace hkept := hkept.trans hkept₅
  rw [run_bind]
  refine (run_blendInto moves_movlReg (by simp) bg (componentOf fg 16) alpha
    (by simp [hkept.reg, hbg]) (by simp [hkept₅.reg, hkept₄.reg, hfg₃])
    (by simp [hkept.reg, halpha]) (componentOf_lt _ _) halphalt).andThen ?_
  rintro - s₆ ⟨hkept₆, hheap₆, hg⟩
  replace hkept := hkept.trans hkept₆
  refine (run_blendInto moves_movzbl (by simp) bg (componentOf fg 8) alpha
    (by simp [hkept.reg, hbg]) (by simp [hkept₆.reg, hkept₅.reg, hfg₄])
    (by simp [hkept.reg, halpha]) (componentOf_lt _ _) halphalt).mono ?_
  rintro - s₇ ⟨hkept₇, hheap₇, hb⟩
  exact ⟨(hkept.trans hkept₇).mono (by simp),
    by rw [hheap₇, hheap₆, hheap₅, hheap₄, hheap₃, hheap₂],
    by simp [hkept₇.reg, hkept₆.reg, hr], by simp [hkept₇.reg, hg], hb⟩

/-- **`blend_colors`** returns what the function of the same name in C returns. -/
theorem call_blendColors (fg bg : UInt32) (hfg : (s.reg rdi).word? = some fg)
    (hbg : (s.reg rsi).word? = some bg) :
    Runs (call blendColors s) fun _ s' =>
      Kept [rax, rcx, rdx, rsi, rdi, r8, r9, r10, r11] s s' ∧ s'.heap = s.heap ∧
        s'.reg rax = .word (Drawing.blendColors fg bg) := by
  rw [run_call, blendColors]
  simp [↓run_bind, hfg, hbg, add_assoc]
  refine (call_getA fg (by simp [hfg])).andThen ?_
  rintro - s₂ ⟨⟨hrsp, hreg, hstack⟩, hheap, hrax⟩
  simp [add_assoc] at hrsp hreg hstack hheap
  obtain ⟨alpha, halpha⟩ : ∃ alpha, fg &&& 0xFF = alpha := ⟨_, rfl⟩
  have halphalt : alpha.toNat < 256 := halpha ▸ and_lt fg
  have hself : alpha % 256 = alpha := by simpa using toUInt32_toUInt8 halphalt
  have hgetA : Drawing.getA fg = alpha.toUInt8 := congrArg UInt32.toUInt8 halpha
  rw [halpha] at hrax
  by_cases hzero : alpha.toUInt8 = 0
  · simp [hrax, hzero, ↓run_bind, lReturnBg, hrsp, hreg, hstack, hheap, add_assoc]
    refine ⟨⟨by simp, fun r hr => ?_, fun a ha => ?_⟩, ?_⟩
    · simp at hr
      simp [hr, hreg, Function.update_apply]
      grind
    · simp (disch := omega) [hstack, Function.update_of_ne]
    · rw [Drawing.blendColors, hgetA, if_pos hzero]
  by_cases hfull : alpha.toUInt8 = 255
  · simp [hrax, hfull, ↓run_bind, lReturnFgFull]
    refine (run_component moves_movzbl fg (by simp [hreg])).andThen ?_
    rintro - s₃ ⟨⟨hrsp₃, hreg₃, hstack₃⟩, hheap₃, hr⟩
    simp [hrsp, hheap] at hrsp₃ hreg₃ hstack₃ hheap₃
    simp [hr]
    refine (run_component moves_movzbl fg (by simp [hreg₃, hreg])).andThen ?_
    rintro - s₄ ⟨⟨hrsp₄, hreg₄, hstack₄⟩, hheap₄, hg⟩
    simp [hrsp₃, hheap₃] at hrsp₄ hreg₄ hstack₄ hheap₄
    simp [hreg₄, hg]
    refine (run_component moves_movzbl fg (by simp [hreg₄, hreg₃, hreg])).andThen ?_
    rintro - s₅ ⟨⟨hrsp₅, hreg₅, hstack₅⟩, hheap₅, hb⟩
    simp [hrsp₄, hheap₄] at hrsp₅ hreg₅ hstack₅ hheap₅
    simp [hreg₅, hb, hrsp₅, hstack₅, hheap₅, hstack₄, hstack₃, hstack, add_assoc]
    refine ⟨⟨by simp, fun r hr => ?_, fun a ha => ?_⟩, ?_⟩
    · simp at hr
      simp [hr, hreg₅, hreg₄, hreg₃, hreg, Function.update_apply]
      grind
    · simp (disch := omega) [hstack₅, hstack₄, hstack₃, hstack, Function.update_of_ne]
    · rw [blendColors_full (hgetA.trans hfull)]
  simp [hrax, hself, hzero, hfull, ↓run_bind]
  refine (run_blendEach fg bg alpha (by simp [hreg]) (by simp [hreg])
    (by simp) halphalt).andThen ?_
  rintro - s₃ ⟨⟨hrsp₃, hreg₃, hstack₃⟩, hheap₃, hr, hg, hb⟩
  simp [hrsp, hheap] at hrsp₃ hreg₃ hstack₃ hheap₃
  simp [hr, hg, hb, hrsp₃, hstack₃, hheap₃, hstack, add_assoc]
  refine ⟨⟨by simp, fun r hr => ?_, fun a ha => ?_⟩, congrArg Val.word ?_⟩
  · simp at hr
    simp [hr, hreg₃, hreg, Function.update_apply]
    grind
  · simp (disch := omega) [hstack₃, hstack, Function.update_of_ne]
  · rw [blendColors_mixed halphalt hgetA hzero hfull]
    exact or_reverse _ _ _ _

end Colors

end Asm

end Drawing

end Csf
