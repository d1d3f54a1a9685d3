import Csf.Drawing.Asm.Index

/-!
# Stack frames

`draw_tile` and `draw_sprite` save the same registers in the same order, reserve 80 bytes below
them and restore them in the end.
-/

namespace Csf

namespace Drawing

namespace Asm

open X86 X86.Reg

/-- `.Ltile_end_row_loop` and `.Ldone` -/
def lEnd : Code Unit := do
  addqRsp 80
  popq r15
  popq r14
  popq r13
  popq r12
  popq rbx
  popq rbp
  ret

/-- What may be changed once the registers have been saved. -/
abbrev frameRegs : List Reg := [rax, rbx, rcx, rdx, rsi, rdi, rbp, r10, r11, r12, r13, r14, r15]

/-- **What a function has saved** of the state `s₀` that it was called in. -/
structure Saved (s₀ s : State) : Prop where
  rsp : s.rsp = s₀.rsp + -136
  reg : ∀ r, r ∉ frameRegs → s.reg r = s₀.reg r
  above : ∀ a, s₀.rsp ≤ a → s.stack a = s₀.stack a
  ip : (s.stack (s₀.rsp + -8)).join (s.stack (s₀.rsp + -4)) = .code s₀.rsp
  rbp : (s.stack (s₀.rsp + -16)).join (s.stack (s₀.rsp + -12)) = s₀.reg rbp
  rbx : (s.stack (s₀.rsp + -24)).join (s.stack (s₀.rsp + -20)) = s₀.reg rbx
  r12 : (s.stack (s₀.rsp + -32)).join (s.stack (s₀.rsp + -28)) = s₀.reg r12
  r13 : (s.stack (s₀.rsp + -40)).join (s.stack (s₀.rsp + -36)) = s₀.reg r13
  r14 : (s.stack (s₀.rsp + -48)).join (s.stack (s₀.rsp + -44)) = s₀.reg r14
  r15 : (s.stack (s₀.rsp + -56)).join (s.stack (s₀.rsp + -52)) = s₀.reg r15

namespace Saved

variable {s₀ s s' : State} {c : List Reg}

theorem of_kept (h : Saved s₀ s) (hk : Kept c s s') (hc : c ⊆ frameRegs) : Saved s₀ s' := by
  have hstack : ∀ a, s₀.rsp + -136 ≤ a → s'.stack a = s.stack a := by simpa [h.rsp] using hk.stack
  refine ⟨hk.rsp.trans h.rsp, fun r hr => ?_, fun a ha => ?_, ?_, ?_, ?_, ?_, ?_, ?_, ?_⟩
  · exact (hk.reg r fun hmem => hr (hc hmem)).trans (h.reg r hr)
  · exact (hstack a (by omega)).trans (h.above a ha)
  all_goals simp (disch := omega) [hstack, h.ip, h.rbp, h.rbx, h.r12, h.r13, h.r14, h.r15]

/-- **It restores what it has saved**, and returns. -/
theorem runs_lEnd (h : Saved s₀ s) :
    Runs (andThen (lEnd s) fun _ s' => if s'.ip = .code s₀.rsp then some ((), s') else none)
      fun _ s' => Kept [rax, rcx, rdx, rsi, rdi, r10, r11] s₀ s' ∧ s'.heap = s.heap := by
  simp [lEnd, ↓run_bind, h.rsp, h.ip, h.rbp, h.rbx, h.r12, h.r13, h.r14, h.r15, add_assoc]
  refine ⟨by simp, fun q hq => ?_, h.above⟩
  have hreg := h.reg q
  simp at hq hreg
  simp [Function.update_apply]
  grind

end Saved

end Asm

end Drawing

end Csf
