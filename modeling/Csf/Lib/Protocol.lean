import Csf.Lib.Program

/-!
# Protocols: what a program may call, and when

A *protocol* is a discipline on calls that one program can be checked against
without knowing anything of the others: a private ghost value, a condition on it
under which each call may be made (`Interaction.Protocol.pre`), the answers the
program has to be ready for (`Interaction.Protocol.may`), and what the ghost
becomes (`Interaction.Protocol.after`).

Checking a program is then a recursion on its tree, `Interaction.Protocol.wp`:
at every call the condition holds, and for every possible answer the rest obeys.
It is a weakest precondition, and it has the rules of one – sequencing
(`Interaction.Protocol.wp_bind`), consequence (`Interaction.Protocol.wp_mono`) and
conjunction (`Interaction.Protocol.wp_and`).
-/

namespace Interaction

/-- A discipline on calls, over a ghost value of type `G`. -/
structure Protocol (C : Type) (R : C → Type) (G : Type) where
  /-- The ghost values at which the call may be made. -/
  pre : C → G → Prop
  /-- The answers the call may get. -/
  may : (c : C) → G → R c → Prop
  /-- The ghost value once the call is answered. -/
  after : (c : C) → G → R c → G

namespace Protocol

variable {C : Type} {R : C → Type} {α β G : Type} (P : Protocol C R G)

/-- **The program obeys the protocol from the ghost value `g`**, and ends in a
value satisfying `Q`. -/
def wp : Program C R α → (G → α → Prop) → G → Prop
  | .ret a, Q, g => Q g a
  | .call c k, Q, g => P.pre c g ∧ ∀ r, P.may c g r → wp (k r) Q (P.after c g r)

@[simp] theorem wp_ret (a : α) (Q : G → α → Prop) (g : G) :
    P.wp (.ret a) Q g ↔ Q g a := Iff.rfl

@[simp] theorem wp_call (c : C) (k : R c → Program C R α) (Q : G → α → Prop) (g : G) :
    P.wp (.call c k) Q g ↔
      P.pre c g ∧ ∀ r, P.may c g r → P.wp (k r) Q (P.after c g r) := Iff.rfl

/-- **Sequencing**: a program obeys when its first half obeys and ends where the
second half obeys. -/
@[simp] theorem wp_bind (p : Program C R α) (f : α → Program C R β) (Q : G → β → Prop) (g : G) :
    P.wp (p.bind f) Q g ↔ P.wp p (fun g' a => P.wp (f a) Q g') g := by
  induction p generalizing g with
  | ret a => rfl
  | call c k ih => simp only [Program.call_bind, wp_call, ih]

/-- **Consequence**: the postcondition may be weakened. -/
theorem wp_mono {p : Program C R α} {Q Q' : G → α → Prop} {g : G}
    (h : P.wp p Q g) (hQ : ∀ g' a, Q g' a → Q' g' a) : P.wp p Q' g := by
  induction p generalizing g with
  | ret a => exact hQ g a h
  | call c k ih => exact ⟨h.1, fun r hr => ih r (h.2 r hr)⟩

/-- **Conjunction**: what is shown of a program in two goes holds together. -/
theorem wp_and {p : Program C R α} {Q Q' : G → α → Prop} {g : G} (h : P.wp p Q g)
    (h' : P.wp p Q' g) : P.wp p (fun g' a => Q g' a ∧ Q' g' a) g := by
  induction p generalizing g with
  | ret a => exact ⟨h, h'⟩
  | call c k ih => exact ⟨h.1, fun r hr => ih r (h.2 r hr) (h'.2 r hr)⟩

end Protocol

end Interaction
