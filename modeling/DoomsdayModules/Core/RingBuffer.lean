import Mathlib.Tactic

/-!
# Ring buffers

A queue of bounded capacity in an array of slots, with the index of the first
element, the index of the first free slot and the number of elements kept
beside it.  The ring holds a list; pushing appends to it and popping removes
its head, and slots outside the list do not matter.
-/

namespace DoomsdayModules.RingBuffer

structure RingBuf (α : Type*) where
  slots : ℕ → α
  head : ℕ
  tail : ℕ
  count : ℕ

variable {α : Type*} {capacity : ℕ} {ring : RingBuf α} {xs : List α}

/-- The ring holds the list, in order from its head. -/
structure Holds (capacity : ℕ) (ring : RingBuf α) (xs : List α) : Prop where
  head_lt : ring.head < capacity
  count_eq : ring.count = xs.length
  count_le : ring.count ≤ capacity
  tail_eq : ring.tail = (ring.head + ring.count) % capacity
  slot_eq : ∀ i (hi : i < xs.length), ring.slots ((ring.head + i) % capacity) = xs[i]

def push (capacity : ℕ) (ring : RingBuf α) (x : α) : RingBuf α where
  slots := fun i => if i = ring.tail then x else ring.slots i
  head := ring.head
  tail := (ring.tail + 1) % capacity
  count := ring.count + 1

def pop (capacity : ℕ) (ring : RingBuf α) : RingBuf α where
  slots := ring.slots
  head := (ring.head + 1) % capacity
  tail := ring.tail
  count := ring.count - 1

/-- Offsets below the capacity name different slots. -/
theorem index_injective {head i j : ℕ} (hi : i < capacity) (hj : j < capacity)
    (hsame : (head + i) % capacity = (head + j) % capacity) : i = j := by
  have hmod : i ≡ j [MOD capacity] := Nat.ModEq.add_left_cancel' head hsame
  rwa [Nat.ModEq, Nat.mod_eq_of_lt hi, Nat.mod_eq_of_lt hj] at hmod

theorem Holds.tail_lt (hholds : Holds capacity ring xs) : ring.tail < capacity := by
  rw [hholds.tail_eq]
  exact Nat.mod_lt _ (Nat.zero_lt_of_lt hholds.head_lt)

theorem Holds.nil (hpos : 0 < capacity) (slots : ℕ → α) : Holds capacity ⟨slots, 0, 0, 0⟩ [] where
  head_lt := hpos
  count_eq := rfl
  count_le := Nat.zero_le _
  tail_eq := (Nat.zero_mod _).symm
  slot_eq := fun i hi => absurd hi (Nat.not_lt_zero i)

theorem Holds.push (hholds : Holds capacity ring xs) (hroom : ring.count < capacity) (x : α) :
    Holds capacity (push capacity ring x) (xs ++ [x]) where
  head_lt := hholds.head_lt
  count_eq := by
    rw [List.length_append, List.length_singleton, ← hholds.count_eq]
    rfl
  count_le := hroom
  tail_eq := by
    show (ring.tail + 1) % capacity = (ring.head + (ring.count + 1)) % capacity
    rw [hholds.tail_eq, Nat.mod_add_mod, Nat.add_assoc]
  slot_eq := by
    intro i hi
    have hcount := hholds.count_eq
    rw [List.length_append, List.length_singleton] at hi
    show (if (ring.head + i) % capacity = ring.tail then x
      else ring.slots ((ring.head + i) % capacity)) = (xs ++ [x])[i]
    by_cases hlast : i = xs.length
    · subst hlast
      rw [if_pos (by rw [hholds.tail_eq, hcount]), List.getElem_concat_length rfl]
    · have hold : i < xs.length := by omega
      have hother : (ring.head + i) % capacity ≠ ring.tail := by
        intro hsame
        rw [hholds.tail_eq] at hsame
        have := index_injective (by omega) (by omega) hsame
        omega
      rw [if_neg hother, hholds.slot_eq i hold, List.getElem_append_left hold]

theorem Holds.front {x : α} (hholds : Holds capacity ring (x :: xs)) : ring.slots ring.head = x := by
  have hslot := hholds.slot_eq 0 (by simp)
  rwa [Nat.add_zero, Nat.mod_eq_of_lt hholds.head_lt] at hslot

theorem Holds.pop {x : α} (hholds : Holds capacity ring (x :: xs)) :
    Holds capacity (pop capacity ring) xs where
  head_lt := Nat.mod_lt _ (Nat.zero_lt_of_lt hholds.head_lt)
  count_eq := by
    show ring.count - 1 = xs.length
    rw [hholds.count_eq, List.length_cons, Nat.add_sub_cancel]
  count_le := (Nat.sub_le _ _).trans hholds.count_le
  tail_eq := by
    show ring.tail = ((ring.head + 1) % capacity + (ring.count - 1)) % capacity
    have hcount := hholds.count_eq
    rw [List.length_cons] at hcount
    rw [hholds.tail_eq, Nat.mod_add_mod]
    congr 1
    omega
  slot_eq := by
    intro i hi
    show ring.slots (((ring.head + 1) % capacity + i) % capacity) = xs[i]
    have hslot := hholds.slot_eq (i + 1) (by simpa using hi)
    rw [List.getElem_cons_succ] at hslot
    rw [Nat.mod_add_mod, Nat.add_assoc, Nat.add_comm 1 i]
    exact hslot

/-- The list a ring holds, read off its slots. -/
theorem Holds.eq_map (hholds : Holds capacity ring xs) :
    xs = (List.range ring.count).map fun i => ring.slots ((ring.head + i) % capacity) := by
  apply List.ext_getElem
  · simp [hholds.count_eq]
  intro i hi _
  rw [List.getElem_map, List.getElem_range, hholds.slot_eq i hi]

/-- An empty ring holds nothing, a ring with elements its front and the rest. -/
theorem Holds.exists_cons (hholds : Holds capacity ring xs) (hcount : ring.count ≠ 0) :
    ∃ x rest, xs = x :: rest := by
  cases xs with
  | nil => exact absurd hholds.count_eq hcount
  | cons x rest => exact ⟨x, rest, rfl⟩

end DoomsdayModules.RingBuffer
