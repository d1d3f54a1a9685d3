import Mathlib

/-!
# Expressions and machines with a stack

A machine with a stack is made to evaluate an expression by sending it the literals and
the operations one by one, every operation after the two expressions it is applied to
(`Interaction.Expr.code`).

What the machine is does not matter. It need only keep a relation between its states and
the values that are meant to be on the stack, when it is sent a literal and when it is sent
an operation: then it has the value of the expression on top of what was there before
(`Interaction.Expr.exists_steps_code`). The values may be restricted to those the machine
can handle, the intermediate ones included (`Interaction.Expr.Every`).
-/

namespace Interaction

variable {σ α ν ο : Type}

/-! ### Steps -/

/-- **One step for each of a list of inputs.** -/
def Steps (step : σ → α → σ → Prop) : σ → List α → σ → Prop
  | s, [], s' => s = s'
  | s, a :: as, s' => ∃ m, step s a m ∧ Steps step m as s'

theorem Steps.single {step : σ → α → σ → Prop} {s s' : σ} {a : α} (h : step s a s') :
    Steps step s [a] s' := ⟨s', h, rfl⟩

/-- The steps for two lists, one after the other. -/
theorem Steps.append {step : σ → α → σ → Prop} {s m s' : σ} {as bs : List α}
    (h : Steps step s as m) (h' : Steps step m bs s') : Steps step s (as ++ bs) s' := by
  induction as generalizing s with
  | nil =>
    obtain rfl := h
    exact h'
  | cons a as ih =>
    obtain ⟨s₁, hstep, hrest⟩ := h
    exact ⟨s₁, hstep, ih hrest⟩

/-! ### Expressions -/

/-- **An expression**: a literal, or an operation on two expressions. -/
inductive Expr (ν ο : Type) where
  /-- The value `v`. -/
  | lit (v : ν) : Expr ν ο
  /-- The operation `op` on the values of two expressions. -/
  | node (op : ο) (left right : Expr ν ο) : Expr ν ο

/-- What a machine with a stack can be sent. -/
inductive Instr (ν ο : Type) where
  /-- A value to be pushed. -/
  | push (v : ν) : Instr ν ο
  /-- An operation on the two values on top. -/
  | apply (op : ο) : Instr ν ο

namespace Expr

/-- The value of an expression, `f op` being what the operation `op` does. -/
def eval (f : ο → ν → ν → ν) : Expr ν ο → ν
  | lit v => v
  | node op left right => f op (left.eval f) (right.eval f)

/-- The values of an expression and of all its parts satisfy `p`. -/
def Every (f : ο → ν → ν → ν) (p : ν → Prop) : Expr ν ο → Prop
  | lit v => p v
  | node op left right =>
      left.Every f p ∧ right.Every f p ∧ p (f op (left.eval f) (right.eval f))

/-- **The expression in the order in which a stack evaluates it.** -/
def code : Expr ν ο → List (Instr ν ο)
  | lit v => [.push v]
  | node op left right => left.code ++ right.code ++ [.apply op]

theorem Every.eval {f : ο → ν → ν → ν} {p : ν → Prop} {e : Expr ν ο} (h : e.Every f p) :
    p (e.eval f) := by
  cases e with
  | lit v => exact h
  | node op left right => exact h.2.2

/-- **A machine that keeps `R` for a literal and for an operation evaluates
expressions.** -/
theorem exists_steps_code {f : ο → ν → ν → ν} {p : ν → Prop} {step : σ → Instr ν ο → σ → Prop}
    {R : σ → List ν → Prop}
    (hpush : ∀ s stack v, p v → R s stack → ∃ s', step s (.push v) s' ∧ R s' (v :: stack))
    (happly : ∀ s stack op a b, p a → p b → p (f op a b) → R s (b :: a :: stack) →
      ∃ s', step s (.apply op) s' ∧ R s' (f op a b :: stack))
    {e : Expr ν ο} (he : e.Every f p) {s : σ} {stack : List ν} (h : R s stack) :
    ∃ s', Steps step s e.code s' ∧ R s' (e.eval f :: stack) := by
  induction e generalizing s stack with
  | lit v =>
    obtain ⟨s', hstep, hR⟩ := hpush s stack v he h
    exact ⟨s', .single hstep, hR⟩
  | node op left right ihl ihr =>
    obtain ⟨hleft, hright, hvalue⟩ := he
    obtain ⟨s₁, hsteps₁, hR₁⟩ := ihl hleft h
    -- the value of the left operand is below the one of the right operand
    obtain ⟨s₂, hsteps₂, hR₂⟩ := ihr hright hR₁
    obtain ⟨s', hstep, hR⟩ := happly s₂ stack op _ _ hleft.eval hright.eval hvalue hR₂
    exact ⟨s', (hsteps₁.append hsteps₂).append (.single hstep), hR⟩

end Expr

end Interaction
