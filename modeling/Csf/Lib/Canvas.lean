import Csf.Lib.Ints

/-!
# Painting over a picture

A picture has a value at some of the points of a plane, and painting over it changes
these values and no others (`Canvas.touch`).

Programs paint in loops, and every round of such a loop has its own part of the picture:
the points whose key is the number of the round. So the rounds do not get into each
other's way, and the loop paints every point of its range once
(`Canvas.forLoop_touch`). A loop over the rows inside a loop over the columns is the rule
used twice.
-/

namespace Canvas

open Interaction Ints

variable {P V σ : Type}

/-- Every value of a picture changed, in a way that may depend on the point. -/
def touch (g : P → V → V) (v : P → Option V) : P → Option V := fun p => (v p).map (g p)

theorem touch_apply (g : P → V → V) (v : P → Option V) (p : P) :
    touch g v p = (v p).map (g p) := rfl

/-- Painting that changes nothing. -/
theorem touch_eq_self {g : P → V → V} {v : P → Option V} (h : ∀ p x, v p = some x → g p x = x) :
    touch g v = v := by
  funext p
  rw [touch_apply]
  cases hv : v p with
  | none => rfl
  | some x => rw [Option.map_some, h p x hv]

/-- Painting over what has been painted. -/
theorem touch_touch (f g : P → V → V) (v : P → Option V) :
    touch f (touch g v) = touch (fun p x => f p (g p x)) v := by
  funext p
  rw [touch_apply, touch_apply, touch_apply, Option.map_map]
  rfl

/-- Painting depends on what is done to the values that are there. -/
theorem touch_congr {f g : P → V → V} {v : P → Option V}
    (h : ∀ p x, v p = some x → f p x = g p x) : touch f v = touch g v := by
  funext p
  rw [touch_apply, touch_apply]
  cases hv : v p with
  | none => rfl
  | some x => rw [Option.map_some, Option.map_some, h p x hv]

/-- What has been painted tells what was done to the values that were there. -/
theorem eq_of_touch_eq {f g : P → V → V} {v : P → Option V} (h : touch f v = touch g v) {p : P}
    {x : V} (hx : v p = some x) : f p x = g p x := by
  have hp := congrFun h p
  rw [touch_apply, touch_apply, hx] at hp
  exact Option.some.inj hp

/-- **A loop that paints**: if round `k` paints the points of key `lo + k`, the loop paints
those whose key is in its range, each of them once. -/
theorem forLoop_touch {I : σ → Prop} {view : σ → P → Option V} {key : P → ℤ} {lo : ℤ}
    {g : P → V → V} {body : ℕ → σ → Option σ} {n : ℕ} {s : σ}
    (hbody : ∀ k s, k < n → I s → ∃ s', body k s = some s' ∧ I s' ∧
      view s' = touch (fun p x => if key p = lo + k then g p x else x) (view s)) (hs : I s) :
    ∃ s', forLoop body n s = some s' ∧ I s' ∧
      view s' = touch (fun p x => if lo ≤ key p ∧ key p < lo + n then g p x else x) (view s) := by
  -- After the rounds below `k`, the points with keys below `lo + k` have been painted.
  refine forLoop_inv
    (I := fun k s' => I s' ∧ view s' =
      touch (fun p x => if lo ≤ key p ∧ key p < lo + k then g p x else x) (view s))
    (fun k s' hk h => ?_) ⟨hs, (touch_eq_self fun p x _ => if_neg (by omega)).symm⟩
  obtain ⟨t, ht, hI, hview⟩ := hbody k s' hk h.1
  refine ⟨t, ht, hI, ?_⟩
  rw [hview, h.2, touch_touch]
  refine touch_congr fun p x _ => ?_
  by_cases hkey : key p = lo + k
  · rw [if_pos hkey, if_neg (by omega), if_pos (by omega)]
  · rw [if_neg hkey]
    exact if_congr (by omega) rfl rfl

/-- The rule for a `for` loop of C. -/
theorem forLt_touch {I : σ → Prop} {view : σ → P → Option V} {key : P → ℤ} {lo hi : Int32}
    {g : P → V → V} {body : Int32 → σ → Option σ} {s : σ}
    (hbody : ∀ i s, lo.toInt ≤ i.toInt → i.toInt < hi.toInt → I s → ∃ s', body i s = some s' ∧
      I s' ∧ view s' = touch (fun p x => if key p = i.toInt then g p x else x) (view s))
    (hs : I s) :
    ∃ s', forLt lo hi body s = some s' ∧ I s' ∧
      view s' = touch (fun p x => if lo.toInt ≤ key p ∧ key p < hi.toInt then g p x else x)
        (view s) := by
  have hloop : ∃ s', forLt lo hi body s = some s' ∧ I s' ∧
      view s' = touch (fun p x => if lo.toInt ≤ key p ∧
        key p < lo.toInt + (hi.toInt - lo.toInt).toNat then g p x else x) (view s) := by
    refine forLoop_touch (fun k t hk hI => ?_) hs
    have hi := toInt_counter hk
    rw [← hi]
    exact hbody _ t (by omega) (by omega) hI
  obtain ⟨s', hrun, hI, hview⟩ := hloop
  refine ⟨s', hrun, hI, hview.trans (touch_congr fun p x _ => if_congr ?_ rfl rfl)⟩
  omega

/-- **A loop inside a loop**: every round of the inner one paints the points with its two
counters, so the two paint a rectangle. -/
theorem forLt_forLt_touch {I : σ → Prop} {view : σ → P → Option V} {key key' : P → ℤ}
    {lo hi lo' hi' : Int32} {g : P → V → V} {body : Int32 → Int32 → σ → Option σ} {s : σ}
    (hbody : ∀ i j s, lo.toInt ≤ i.toInt ∧ i.toInt < hi.toInt →
      lo'.toInt ≤ j.toInt ∧ j.toInt < hi'.toInt → I s → ∃ s', body i j s = some s' ∧ I s' ∧
        view s' = touch (fun p x => if key p = i.toInt ∧ key' p = j.toInt then g p x else x)
          (view s))
    (hs : I s) :
    ∃ s', forLt lo hi (fun i => forLt lo' hi' (body i)) s = some s' ∧ I s' ∧
      view s' = touch (fun p x => if (lo.toInt ≤ key p ∧ key p < hi.toInt) ∧
        lo'.toInt ≤ key' p ∧ key' p < hi'.toInt then g p x else x) (view s) := by
  have hinner : ∀ i s, lo.toInt ≤ i.toInt → i.toInt < hi.toInt → I s →
      ∃ s', forLt lo' hi' (body i) s = some s' ∧ I s' ∧ view s' = touch (fun p x =>
        if key p = i.toInt then (if lo'.toInt ≤ key' p ∧ key' p < hi'.toInt then g p x else x)
        else x) (view s) := by
    intro i s hlo hhi hs
    obtain ⟨s', hrun, hs', hview⟩ : ∃ s', forLt lo' hi' (body i) s = some s' ∧ I s' ∧
        view s' = touch (fun p x => if lo'.toInt ≤ key' p ∧ key' p < hi'.toInt then
          (if key p = i.toInt then g p x else x) else x) (view s) := by
      refine forLt_touch (fun j t hlo' hhi' ht => ?_) hs
      obtain ⟨t', ht', hI, hview⟩ := hbody i j t ⟨hlo, hhi⟩ ⟨hlo', hhi'⟩ ht
      refine ⟨t', ht', hI, hview.trans (touch_congr fun p x _ => ?_)⟩
      rw [if_congr and_comm rfl rfl, ite_and]
    refine ⟨s', hrun, hs', hview.trans (touch_congr fun p x _ => ?_)⟩
    rw [← ite_and, ← ite_and, if_congr and_comm rfl rfl]
  obtain ⟨s', hrun, hs', hview⟩ := forLt_touch hinner hs
  exact ⟨s', hrun, hs', hview.trans (touch_congr fun p x _ => (ite_and ..).symm)⟩

end Canvas
