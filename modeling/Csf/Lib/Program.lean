import Mathlib

/-!
# Programs that make calls

A program that runs beside others on a shared state is opaque between two of its
calls: what it does there touches nothing but its own locals. So a program is a
tree – `Interaction.Program` – whose inner nodes are the *calls* it makes, with
one branch per result a call can have, and whose leaves are the values it ends
with (`Interaction.Program.Ends`). Nothing is said here about what a call does; that
is the business of whoever runs the tree, alone (`Interaction.Program.exec`) or
interleaved with others (`Csf.Lib.Pool`).
-/

namespace Interaction

/-- A program over calls `C`, the call `c` being answered by a value of `R c`:
finished with a value, or at a call, with what to do for each answer. -/
inductive Program (C : Type) (R : C → Type) (α : Type) where
  /-- The program has ended with the value `a`. -/
  | ret (a : α) : Program C R α
  /-- The program is at the call `c` and goes on with its answer. -/
  | call (c : C) (k : R c → Program C R α) : Program C R α

namespace Program

variable {C : Type} {R : C → Type} {α β γ S : Type}

/-- Run a program, then another on the value it ended with. -/
def bind : Program C R α → (α → Program C R β) → Program C R β
  | ret a, f => f a
  | call c k, f => call c fun r => (k r).bind f

@[simp] theorem ret_bind (a : α) (f : α → Program C R β) : (ret a).bind f = f a := rfl

@[simp] theorem call_bind (c : C) (k : R c → Program C R α) (f : α → Program C R β) :
    (call c k).bind f = call c fun r => (k r).bind f := rfl

@[simp] theorem bind_assoc (p : Program C R α) (f : α → Program C R β) (g : β → Program C R γ) :
    (p.bind f).bind g = p.bind fun a => (f a).bind g := by
  induction p with
  | ret a => rfl
  | call c k ih => simp only [call_bind, ih]

/-- **A program running alone**: every call is answered by `run`, which may
leave it without an answer – the program is then stuck, and so is the run. -/
def exec (run : (c : C) → S → Option (R c × S)) : Program C R α → S → Option (α × S)
  | ret a, s => some (a, s)
  | call c k, s => (run c s).bind fun rs => (k rs.1).exec run rs.2

variable (run : (c : C) → S → Option (R c × S))

@[simp] theorem exec_ret (a : α) (s : S) :
    (ret a : Program C R α).exec run s = some (a, s) := rfl

@[simp] theorem exec_call (c : C) (k : R c → Program C R α) (s : S) :
    (call c k).exec run s = (run c s).bind fun rs => (k rs.1).exec run rs.2 := rfl

@[simp] theorem exec_bind (p : Program C R α) (f : α → Program C R β) (s : S) :
    (p.bind f).exec run s = (p.exec run s).bind fun as => (f as.1).exec run as.2 := by
  induction p generalizing s with
  | ret a => rfl
  | call c k ih =>
    rw [call_bind, exec_call, exec_call]
    cases run c s with
    | none => rfl
    | some rs => exact ih rs.1 rs.2

/-- **The values a program may end with**, whatever its calls are answered by. -/
def Ends : Program C R α → α → Prop
  | ret a, b => a = b
  | call _ k, b => ∃ r, (k r).Ends b

@[simp] theorem ends_ret (a b : α) : (ret a : Program C R α).Ends b ↔ a = b := Iff.rfl

@[simp] theorem ends_call (c : C) (k : R c → Program C R α) (b : α) :
    (call c k).Ends b ↔ ∃ r, (k r).Ends b := Iff.rfl

@[simp] theorem ends_bind (p : Program C R α) (f : α → Program C R β) (b : β) :
    (p.bind f).Ends b ↔ ∃ a, p.Ends a ∧ (f a).Ends b := by
  induction p with
  | ret a => simp
  | call c k ih =>
    simp only [call_bind, ends_call, ih]
    exact ⟨fun ⟨r, a, h⟩ => ⟨a, ⟨r, h.1⟩, h.2⟩, fun ⟨a, ⟨r, h⟩, h'⟩ => ⟨r, a, h, h'⟩⟩

end Program

end Interaction
