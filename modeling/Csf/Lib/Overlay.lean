import Mathlib

/-!
# Laying one ordered map over another

Inserting all pairs of one map into another, in key order, the way a loop over a
`std::map` does. What is found in the result is what the map on top has, and
below it what was there before (`Interaction.getElem?_overlay`).
-/

namespace Interaction

variable {κ β : Type} {cmp : κ → κ → Ordering}

/-- Insert every pair of `top` into `base`, in key order. -/
def overlay [Std.TransCmp cmp] (base top : Std.ExtTreeMap κ β cmp) : Std.ExtTreeMap κ β cmp :=
  top.toList.foldl (fun m p => m.insert p.1 p.2) base

variable [Std.TransCmp cmp] [Std.LawfulEqCmp cmp]

/-- Inserting pairs with distinct keys leaves what the last of them says, and
below them what was there. -/
theorem getElem?_foldl_insert (l : List (κ × β)) (hl : l.Pairwise fun a b => ¬cmp a.1 b.1 = .eq)
    (m : Std.ExtTreeMap κ β cmp) (k : κ) (o : Option β) (ho : ∀ v, (k, v) ∈ l ↔ o = some v) :
    (l.foldl (fun m p => m.insert p.1 p.2) m)[k]? = o.or m[k]? := by
  induction l generalizing m o with
  | nil =>
    have : o = none := Option.eq_none_iff_forall_ne_some.mpr fun v hv => by
      simpa using (ho v).mpr hv
    simp [this]
  | cons p l ih =>
    obtain ⟨hp, hl⟩ := List.pairwise_cons.mp hl
    rw [List.foldl_cons]
    by_cases hk : cmp p.1 k = .eq
    · -- the key is that of the pair inserted first, so no later pair has it
      have hkp : p.1 = k := Std.LawfulEqCmp.eq_of_compare hk
      have ho' : o = some p.2 := (ho p.2).mp (by simp [← hkp])
      rw [ih hl _ none fun v => ?_, ho']
      · rw [Option.none_or, Std.ExtTreeMap.getElem?_insert, if_pos hk, Option.some_or]
      · refine ⟨fun hv => ?_, fun hv => absurd hv (by simp)⟩
        exact absurd hk (hp (k, v) hv)
    · rw [ih hl _ o fun v => ?_]
      · rw [Std.ExtTreeMap.getElem?_insert, if_neg hk]
      · rw [← ho v, List.mem_cons]
        refine (or_iff_right fun hv => hk ?_).symm
        rw [← hv]
        exact Std.ReflCmp.compare_self

/-- **An overlay reads through**: the map on top first, then the one below. -/
@[simp] theorem getElem?_overlay (base top : Std.ExtTreeMap κ β cmp) (k : κ) :
    (overlay base top)[k]? = top[k]?.or base[k]? :=
  getElem?_foldl_insert _ Std.ExtTreeMap.distinct_keys_toList _ _ _ fun _ =>
    Std.ExtTreeMap.mem_toList_iff_getElem?_eq_some

end Interaction
