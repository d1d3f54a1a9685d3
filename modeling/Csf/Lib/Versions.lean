import Mathlib

/-!
# Maps that can be rolled back

A map with a *draft*: assignments go to the draft, a commit makes it the version to
come back to, and a rollback comes back to that version
(`Interaction.Versions.step`).

What a history of such operations leaves under a key can be read off the history
alone, from the key's last assignment that no rollback has undone
(`Interaction.LastAssigned`). Reading a history from its end is what makes the two
agree: an assignment counts for something only if what *follows* it neither undoes it
nor assigns the key again (`Interaction.Versions.draft_run`).
-/

namespace Interaction

variable {κ β : Type}

/-- The operations on a map that can be rolled back. -/
inductive Edit (κ β : Type) where
  /-- Assign a value to a key. -/
  | assign (k : κ) (v : β) : Edit κ β
  /-- Make the draft the version to come back to. -/
  | commit : Edit κ β
  /-- Come back to the version committed last. -/
  | rollback : Edit κ β

/-! ### Reading a history -/

/-- **An assignment is undone by what follows it**: there is a rollback, with no commit
before it. -/
def Undoes (after : List (Edit κ β)) : Prop :=
  ∃ before rest, after = before ++ .rollback :: rest ∧ .commit ∉ before

/-- **The last assignment to the key that is not undone** is one of this value: those
that come after it are undone all. -/
def LastAssigned (edits : List (Edit κ β)) (k : κ) (v : β) : Prop :=
  ∃ before after, edits = before ++ .assign k v :: after ∧ ¬Undoes after ∧
    ∀ between w rest, after = between ++ .assign k w :: rest → Undoes rest

theorem not_undoes_nil : ¬Undoes ([] : List (Edit κ β)) := by
  rintro ⟨before, rest, h, -⟩
  exact absurd h (by simp)

theorem undoes_rollback (edits : List (Edit κ β)) : Undoes (.rollback :: edits) :=
  ⟨[], edits, rfl, by simp⟩

theorem not_undoes_commit (edits : List (Edit κ β)) : ¬Undoes (.commit :: edits) := by
  rintro ⟨_ | ⟨e, before⟩, rest, h, hbefore⟩
  · exact absurd (List.cons.inj h).1 (by simp)
  · exact hbefore ((List.cons.inj h).1 ▸ List.mem_cons_self)

theorem undoes_assign {k : κ} {v : β} {edits : List (Edit κ β)} :
    Undoes (.assign k v :: edits) ↔ Undoes edits := by
  constructor
  · rintro ⟨_ | ⟨e, before⟩, rest, h, hbefore⟩
    · exact absurd (List.cons.inj h).1 (by simp)
    · exact ⟨before, rest, (List.cons.inj h).2, fun hm => hbefore (List.mem_cons_of_mem e hm)⟩
  · rintro ⟨before, rest, rfl, hbefore⟩
    exact ⟨.assign k v :: before, rest, rfl, by simpa using hbefore⟩

/-- The last assignment of the rest of a history is the last one of the history. -/
theorem LastAssigned.cons {edits : List (Edit κ β)} {k : κ} {v : β} (h : LastAssigned edits k v)
    (e : Edit κ β) : LastAssigned (e :: edits) k v := by
  obtain ⟨before, after, rfl, hnot, hlater⟩ := h
  exact ⟨e :: before, after, rfl, hnot, hlater⟩

/-- Of the assignments to a key that are not undone one is the last. -/
theorem exists_lastAssigned {edits before rest : List (Edit κ β)} {k : κ} {w : β}
    (h : edits = before ++ .assign k w :: rest) (hnot : ¬Undoes rest) :
    ∃ v, LastAssigned edits k v := by
  induction edits generalizing before w rest with
  | nil => exact absurd h (by simp)
  | cons e edits ih =>
    rcases before with _ | ⟨e', before⟩
    · obtain ⟨rfl, rfl⟩ := List.cons.inj h
      by_cases hlast : ∃ v, LastAssigned edits k v
      · obtain ⟨v, hv⟩ := hlast
        exact ⟨v, hv.cons _⟩
      · refine ⟨w, [], edits, rfl, hnot, fun between w' rest' h' => ?_⟩
        by_contra hrest
        exact hlast (ih h' hrest)
    · obtain ⟨v, hv⟩ := ih (List.cons.inj h).2 hnot
      exact ⟨v, hv.cons e⟩

/-- **The last assignment of a history that begins with `e`** is the last one of the
rest – or it is `e`, if the rest has none and does not undo it. -/
theorem lastAssigned_cons {e : Edit κ β} {edits : List (Edit κ β)} {k : κ} {v : β} :
    LastAssigned (e :: edits) k v ↔ LastAssigned edits k v ∨
      e = .assign k v ∧ ¬Undoes edits ∧ ¬∃ w, LastAssigned edits k w := by
  constructor
  · rintro ⟨_ | ⟨e', before⟩, after, h, hnot, hlater⟩
    · obtain ⟨rfl, rfl⟩ := List.cons.inj h
      refine Or.inr ⟨rfl, hnot, ?_⟩
      rintro ⟨w, between, rest, rfl, hrest, -⟩
      exact hrest (hlater between w rest rfl)
    · obtain ⟨-, rfl⟩ := List.cons.inj h
      exact Or.inl ⟨before, after, rfl, hnot, hlater⟩
  · rintro (h | ⟨rfl, hnot, hnone⟩)
    · exact h.cons e
    · refine ⟨[], edits, rfl, hnot, fun between w rest h => ?_⟩
      by_contra hrest
      exact hnone (exists_lastAssigned h hrest)

theorem not_lastAssigned_nil (k : κ) (v : β) : ¬LastAssigned [] k v := by
  rintro ⟨before, after, h, -⟩
  exact absurd h (by simp)

/-! ### The map -/

/-- **A map that can be rolled back**: what its keys have in the draft, and what they
have in the version committed last. -/
structure Versions (κ β : Type) where
  /-- The draft. -/
  draft : κ → Option β
  /-- The version committed last. -/
  committed : κ → Option β

namespace Versions

/-- The map without keys. -/
def empty : Versions κ β := ⟨fun _ => none, fun _ => none⟩

variable [DecidableEq κ]

/-- **One operation.** -/
def step (m : Versions κ β) : Edit κ β → Versions κ β
  | .assign k v => { m with draft := Function.update m.draft k (some v) }
  | .commit => { m with committed := m.draft }
  | .rollback => { m with draft := m.committed }

/-- A history of operations. -/
def run (m : Versions κ β) (edits : List (Edit κ β)) : Versions κ β := edits.foldl step m

@[simp] theorem run_nil (m : Versions κ β) : m.run [] = m := rfl

@[simp] theorem run_cons (m : Versions κ β) (e : Edit κ β) (edits : List (Edit κ β)) :
    m.run (e :: edits) = (m.step e).run edits := rfl

theorem run_append (m : Versions κ β) (edits edits' : List (Edit κ β)) :
    m.run (edits ++ edits') = (m.run edits).run edits' := List.foldl_append

/-- **What a history leaves in the draft**: the last assignment that is not undone, and
for a key that has none what the draft had before – or the version committed before, if
the history undoes what was there. -/
theorem draft_run (m : Versions κ β) (edits : List (Edit κ β)) (k : κ) :
    (∀ v, LastAssigned edits k v → (m.run edits).draft k = some v) ∧
      ((¬∃ v, LastAssigned edits k v) →
        (Undoes edits → (m.run edits).draft k = m.committed k) ∧
        (¬Undoes edits → (m.run edits).draft k = m.draft k)) := by
  induction edits generalizing m with
  | nil =>
    refine ⟨fun v h => absurd h (not_lastAssigned_nil k v), fun _ => ⟨fun h => ?_, fun _ => rfl⟩⟩
    exact absurd h not_undoes_nil
  | cons e edits ih =>
    obtain ⟨hsome, hnone⟩ := ih (m.step e)
    rw [run_cons]
    constructor
    · intro v hv
      rcases lastAssigned_cons.mp hv with hv | ⟨rfl, hnot, hv⟩
      · exact hsome v hv
      · rw [(hnone hv).2 hnot]
        exact Function.update_self ..
    · intro hv
      have hrest : ¬∃ v, LastAssigned edits k v := fun ⟨v, h⟩ => hv ⟨v, h.cons e⟩
      cases e with
      | commit =>
        refine ⟨fun h => absurd h (not_undoes_commit edits), fun _ => ?_⟩
        by_cases hund : Undoes edits
        · exact (hnone hrest).1 hund
        · exact (hnone hrest).2 hund
      | rollback =>
        refine ⟨fun _ => ?_, fun h => absurd (undoes_rollback edits) h⟩
        by_cases hund : Undoes edits
        · exact (hnone hrest).1 hund
        · exact (hnone hrest).2 hund
      | assign k' v' =>
        rw [undoes_assign]
        refine ⟨(hnone hrest).1, fun hnot => ((hnone hrest).2 hnot).trans ?_⟩
        refine Function.update_of_ne ?_ _ _
        rintro rfl
        exact hv ⟨v', lastAssigned_cons.mpr (Or.inr ⟨rfl, hnot, hrest⟩)⟩

/-- **A map that has begun empty has under a key the value of its last assignment that
is not undone.** -/
theorem draft_run_empty_eq_some {edits : List (Edit κ β)} {k : κ} {v : β} :
    (empty.run edits).draft k = some v ↔ LastAssigned edits k v := by
  obtain ⟨hsome, hnone⟩ := draft_run empty edits k
  by_cases hlast : ∃ w, LastAssigned edits k w
  · obtain ⟨w, hw⟩ := hlast
    refine ⟨fun h => ?_, hsome v⟩
    rwa [Option.some.inj (h.symm.trans (hsome w hw))]
  · have hdraft : (empty.run edits).draft k = none := by
      by_cases hund : Undoes edits
      · exact (hnone hlast).1 hund
      · exact (hnone hlast).2 hund
    rw [hdraft]
    exact iff_of_false nofun fun h => hlast ⟨v, h⟩

/-- The version committed last stays the same up to the next commit. -/
theorem committed_run {edits : List (Edit κ β)} (h : .commit ∉ edits) (m : Versions κ β) :
    (m.run edits).committed = m.committed := by
  induction edits generalizing m with
  | nil => rfl
  | cons e edits ih =>
    obtain ⟨he, hedits⟩ := not_or.mp (mt List.mem_cons.mpr h)
    rw [run_cons, ih hedits]
    cases e with
    | commit => exact absurd rfl he
    | _ => rfl

/-- A history at whose end there is nothing that could be rolled back: it is empty, or
ends with a commit. -/
def Settled (edits : List (Edit κ β)) : Prop :=
  edits = [] ∨ ∃ before, edits = before ++ [.commit]

/-- **A rollback comes back to the draft just after the last commit.** -/
theorem draft_rollback {edits edits' : List (Edit κ β)} (h : Settled edits)
    (h' : .commit ∉ edits') :
    ((empty.run (edits ++ edits')).step .rollback).draft = (empty.run edits).draft := by
  have hsame : (empty.run edits).committed = (empty.run edits).draft := by
    rcases h with rfl | ⟨before, rfl⟩
    · rfl
    · rw [run_append]
      rfl
  rw [run_append]
  exact (committed_run h' _).trans hsame

end Versions

end Interaction
