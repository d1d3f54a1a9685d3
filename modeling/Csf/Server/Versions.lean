import Csf.Lib.Versions
import Csf.Server.Table

/-!
# A table is a map that can be rolled back

The two maps of a table are the two versions of `Interaction.Versions`, one laid over
the other: a key has in the draft what `m_temp_data` has for it, and what `m_data` has
if `m_temp_data` has nothing (`Csf.Server.Table.view`). Its methods do to these versions
what they should (`Csf.Server.Table.view_run`), so what can be seen of a table follows
from the calls made on it (`Csf.Server.Table.actsAsVersions`).
-/

namespace Csf

namespace Server

open Interaction

namespace Table

variable {β : Type}

/-- The methods of a table that change it. -/
def step (t : Table β) : Edit Str β → Table β
  | .assign key value => t.set key value
  | .commit => t.commitChanges
  | .rollback => t.rollbackChanges

/-- A sequence of calls on a table. -/
def run (t : Table β) (edits : List (Edit Str β)) : Table β := edits.foldl step t

/-- The versions a table keeps. -/
def view (t : Table β) : Versions Str β where
  draft key := t.tempData[key]?.or t.data[key]?
  committed key := t.data[key]?

/-- What can be seen of a table: for every key whether it is there, and what `get`
returns or throws. -/
def observed (t : Table β) (key : Str) : Bool × Except Exn β := (t.hasKey key, t.get key)

/-- **A method does to a table what its operation does to the versions.** -/
theorem view_step (t : Table β) (e : Edit Str β) : (t.step e).view = t.view.step e := by
  cases e with
  | assign key value =>
    refine congrArg (fun draft => (⟨draft, t.view.committed⟩ : Versions Str β)) (funext fun k => ?_)
    change (t.tempData.insert key value)[k]?.or t.data[k]? = Function.update t.view.draft _ _ k
    rw [Std.ExtTreeMap.getElem?_insert, Function.update_apply]
    by_cases hk : k = key
    · rw [if_pos (by rw [hk]; exact Std.ReflCmp.compare_self), if_pos hk, Option.some_or]
    · rw [if_neg fun hc => hk (Std.LawfulEqCmp.eq_of_compare hc).symm, if_neg hk]
      rfl
  | commit =>
    simp [step, view, commitChanges, Versions.step]
  | rollback =>
    simp [step, view, rollbackChanges, Versions.step]

/-- **A table goes through the versions that the calls on it make.** -/
theorem view_run (t : Table β) (edits : List (Edit Str β)) :
    (t.run edits).view = t.view.run edits := by
  induction edits generalizing t with
  | nil => rfl
  | cons e edits ih =>
    rw [Versions.run_cons, ← view_step]
    exact ih (t.step e)

theorem view_empty : ({} : Table β).view = Versions.empty := by
  simp [view, Versions.empty]

/-- **What can be seen of a table is its draft.** -/
theorem observed_eq (t : Table β) (key : Str) :
    t.observed key = match t.view.draft key with
      | some v => (true, .ok v)
      | none => (false, .error (.operationException ("Key not found: ".toList ++ key))) := by
  simp only [observed, hasKey, get, view, Std.ExtTreeMap.contains_eq_isSome_getElem?]
  cases t.tempData[key]? with
  | some v => rfl
  | none => cases t.data[key]? <;> rfl

/-- Two tables with the same draft look the same. -/
theorem observed_congr {t t' : Table β} (h : t.view.draft = t'.view.draft) :
    t.observed = t'.observed := by
  funext key
  rw [observed_eq, observed_eq, h]

/-- A new table after a sequence of calls. -/
abbrev after (edits : List (Edit Str β)) : Table β := ({} : Table β).run edits

theorem draft_after (edits : List (Edit Str β)) :
    (after edits).view.draft = (Versions.empty.run edits).draft := by
  rw [view_run, view_empty]

/-- A key of a new table that has been worked on has a value if and only if the last
`set` that is not undone gave it that. -/
theorem has_iff (edits : List (Edit Str β)) (key : Str) (v : β) :
    ((after edits).hasKey key = true ∧ (after edits).get key = .ok v) ↔
      LastAssigned edits key v := by
  have hseen := observed_eq (after edits) key
  rw [draft_after] at hseen
  rw [← Versions.draft_run_empty_eq_some]
  cases hdraft : (Versions.empty.run edits).draft key with
  | some w =>
    rw [hdraft] at hseen
    obtain ⟨hkey, hget⟩ := Prod.mk.inj hseen
    rw [hkey, hget]
    simp
  | none =>
    rw [hdraft] at hseen
    rw [(Prod.mk.inj hseen).1]
    simp

/-- A key of a new table that has been worked on is missing if and only if no `set` that
is not undone gave it a value. -/
theorem misses_iff (edits : List (Edit Str β)) (key : Str) :
    ((after edits).hasKey key = false ∧
      ∃ what, (after edits).get key = .error (.operationException what)) ↔
        ¬∃ v, LastAssigned edits key v := by
  simp only [← has_iff]
  have hseen := observed_eq (after edits) key
  cases hdraft : (after edits).view.draft key with
  | some w =>
    rw [hdraft] at hseen
    obtain ⟨hkey, hget⟩ := Prod.mk.inj hseen
    rw [hkey, hget]
    simp
  | none =>
    rw [hdraft] at hseen
    obtain ⟨hkey, hget⟩ := Prod.mk.inj hseen
    rw [hkey, hget]
    simp

/-- **What a table that has been new should look like after a sequence of calls.** -/
structure ActsAsVersions (edits : List (Edit Str β)) : Prop where
  /-- A key has a value if the last `set` that is not undone gave it that, and only then. -/
  has : ∀ key v, ((after edits).hasKey key = true ∧ (after edits).get key = .ok v) ↔
    LastAssigned edits key v
  /-- It is missing if there is no such `set`, and only then. -/
  misses : ∀ key, ((after edits).hasKey key = false ∧
    ∃ what, (after edits).get key = .error (.operationException what)) ↔
      ¬∃ v, LastAssigned edits key v
  /-- A commit does not change what is seen. -/
  commit : (after edits).commitChanges.observed = (after edits).observed
  /-- A rollback makes the table look as it did just after the last commit. -/
  rollback : ∀ before rest, edits = before ++ rest → Versions.Settled before → .commit ∉ rest →
    (after edits).rollbackChanges.observed = (after before).observed

/-- **A table is a map that can be rolled back**, for every sequence of calls. -/
theorem actsAsVersions (edits : List (Edit Str β)) : ActsAsVersions edits where
  has := has_iff edits
  misses := misses_iff edits
  commit := by
    have hstep : (after edits).commitChanges.view = (after edits).view.step .commit :=
      view_step (after edits) .commit
    refine observed_congr ?_
    rw [hstep]
    rfl
  rollback := by
    rintro before rest rfl hbefore hrest
    have hstep := view_step (after (before ++ rest)) .rollback
    refine observed_congr ((congrArg Versions.draft hstep).trans ?_)
    rw [view_run, view_empty, draft_after, Versions.draft_rollback hbefore hrest]

end Table

end Server

end Csf
