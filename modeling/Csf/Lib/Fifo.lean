import Mathlib

/-!
# First in, first out

A cache of a fixed capacity that forgets the key that came in first, as a queue of keys,
the oldest first (`Interaction.fifoAccess`).

Programs keep the queue in an array of that capacity. While there is room the keys are
put one after the other into the free slots; when there is none left, the oldest key is
overwritten, and the index of the oldest goes on by one and wraps around. The age of a
key is nowhere: it is the distance from that index. `Interaction.Ring` is the relation
between the array and the queue, and `Interaction.Ring.push` and
`Interaction.Ring.replace` are the two ways of putting a key in.
-/

namespace Interaction

variable {κ : Type}

/-- **One access of a first-in-first-out cache.** A key that is there stays where it is;
one that is not is put at the end if it is to be filled in, after the oldest is dropped
when the cache is full. -/
def fifoAccess [DecidableEq κ] (capacity : ℕ) (fill : Bool) (queue : List κ) (k : κ) : List κ :=
  if k ∈ queue then queue
  else if fill then (if queue.length < capacity then queue else queue.tail) ++ [k]
  else queue

/-- Renaming the keys changes nothing. -/
theorem fifoAccess_map [DecidableEq κ] {κ' : Type} [DecidableEq κ'] {f : κ → κ'}
    (hf : f.Injective) (capacity : ℕ) (fill : Bool) (queue : List κ) (k : κ) :
    fifoAccess capacity fill (queue.map f) (f k) = (fifoAccess capacity fill queue k).map f := by
  simp only [fifoAccess, List.mem_map_of_injective hf, List.length_map]
  split_ifs
  · rfl
  · rw [List.map_append, List.map_singleton]
  · rw [List.map_append, List.map_tail, List.map_singleton]
  · rfl

/-! ### Queues in slots -/

/-- **A queue in the slots of an array**: the slots are filled from the left, and read
from the index `first` on, around the end, they are the queue. Before the array is full
nothing has been overwritten. -/
structure Ring (capacity : ℕ) (slots : List (Option κ)) (first : ℕ) (queue : List κ) : Prop where
  /-- What the slots hold, from the left, and how that is the queue. -/
  filled : ∃ keys : List κ, keys.length ≤ capacity ∧
    slots = keys.map some ++ List.replicate (capacity - keys.length) none ∧
      queue = keys.rotate first
  /-- The index of the oldest key is one of the array. -/
  first_lt : first < capacity
  /-- It is the first one until something is overwritten. -/
  first_eq : queue.length < capacity → first = 0

namespace Ring

variable {capacity first : ℕ} {slots : List (Option κ)} {queue : List κ} {k : κ}

/-- Free slots hold the empty queue. -/
theorem empty (h : 0 < capacity) : Ring capacity (List.replicate capacity (none : Option κ)) 0 [] :=
  ⟨⟨[], Nat.zero_le _, rfl, rfl⟩, h, fun _ => rfl⟩

theorem length_slots (h : Ring capacity slots first queue) : slots.length = capacity := by
  obtain ⟨keys, hle, rfl, -⟩ := h.filled
  rw [List.length_append, List.length_map, List.length_replicate, Nat.add_sub_cancel' hle]

theorem length_le (h : Ring capacity slots first queue) : queue.length ≤ capacity := by
  obtain ⟨keys, hle, -, rfl⟩ := h.filled
  rwa [List.length_rotate]

/-- The keys of the queue are those of the slots. -/
theorem mem_iff (h : Ring capacity slots first queue) : k ∈ queue ↔ some k ∈ slots := by
  obtain ⟨keys, -, rfl, rfl⟩ := h.filled
  simp

/-- **The first free slot** is the one after the keys, as long as there is room. -/
theorem findIdx?_isNone (h : Ring capacity slots first queue) :
    slots.findIdx? Option.isNone =
      if queue.length < capacity then some queue.length else none := by
  obtain ⟨keys, hle, rfl, rfl⟩ := h.filled
  have hkeys : (keys.map some).findIdx? Option.isNone = none :=
    List.findIdx?_eq_none_iff.mpr fun x hx => by
      obtain ⟨k, -, rfl⟩ := List.mem_map.mp hx
      rfl
  rw [List.findIdx?_append, hkeys, List.length_map, List.length_rotate]
  split
  · next hlt =>
    obtain ⟨n, hn⟩ : ∃ n, capacity - keys.length = n + 1 := ⟨capacity - keys.length - 1, by omega⟩
    rw [hn, List.replicate_succ, List.findIdx?_cons]
    simp
  · next hfull =>
    rw [Nat.sub_eq_zero_of_le (not_lt.mp hfull)]
    rfl

/-- **A key is put into the first free slot** when there is room: it comes last. -/
theorem push (h : Ring capacity slots first queue) (hroom : queue.length < capacity) (k : κ) :
    Ring capacity (slots.set queue.length (some k)) first (queue ++ [k]) := by
  obtain rfl := h.first_eq hroom
  obtain ⟨keys, hle, rfl, hqueue⟩ := h.filled
  obtain rfl : queue = keys := by rw [hqueue, List.rotate_zero]
  obtain ⟨n, hn⟩ : ∃ n, capacity - queue.length = n + 1 :=
    ⟨capacity - queue.length - 1, by omega⟩
  refine ⟨⟨queue ++ [k], ?_, ?_, (List.rotate_zero _).symm⟩, h.first_lt, fun _ => rfl⟩
  · rw [List.length_append, List.length_singleton]
    omega
  · have hn' : capacity - (queue ++ [k]).length = n := by
      rw [List.length_append, List.length_singleton]
      omega
    rw [List.set_append_right _ _ (by rw [List.length_map]), List.length_map, Nat.sub_self, hn,
      hn', List.replicate_succ, List.set_cons_zero, List.map_append, List.append_assoc]
    rfl

/-- Overwriting the element at an index and going on from the next one is dropping the
head of the list that begins at the index, and adding to its end. -/
theorem rotate_set {keys : List κ} (h : first < keys.length) (k : κ) :
    (keys.set first k).rotate (first + 1) = (keys.rotate first).tail ++ [k] := by
  obtain ⟨before, x, later, rfl, rfl⟩ : ∃ before x later, keys = before ++ x :: later ∧
      before.length = first :=
    ⟨keys.take first, keys[first], keys.drop (first + 1), by simp, by
      rw [List.length_take, Nat.min_eq_left h.le]⟩
  have hset : (before ++ x :: later).set before.length k = (before ++ [k]) ++ later := by simp
  have hlen : before.length + 1 = (before ++ [k]).length := by simp
  rw [hset, hlen, List.rotate_append_length_eq, List.rotate_append_length_eq, List.cons_append,
    List.tail_cons, List.append_assoc]

/-- **A key overwrites the oldest one** when there is no room: that is dropped, and the
new one comes last. -/
theorem replace (h : Ring capacity slots first queue) (hfull : ¬queue.length < capacity) (k : κ) :
    Ring capacity (slots.set first (some k)) ((first + 1) % capacity) (queue.tail ++ [k]) := by
  have hpos : 0 < capacity := (Nat.zero_le first).trans_lt h.first_lt
  obtain ⟨keys, hle, rfl, rfl⟩ := h.filled
  rw [List.length_rotate] at hfull
  obtain rfl : keys.length = capacity := le_antisymm hle (not_lt.mp hfull)
  refine ⟨⟨keys.set first k, by rw [List.length_set], ?_, ?_⟩, Nat.mod_lt _ hpos, fun hlt => ?_⟩
  · simp
  · rw [← rotate_set h.first_lt, ← List.rotate_mod (keys.set first k) (first + 1),
      List.length_set]
  · rw [List.length_append, List.length_tail, List.length_rotate, List.length_singleton] at hlt
    omega

end Ring

end Interaction
