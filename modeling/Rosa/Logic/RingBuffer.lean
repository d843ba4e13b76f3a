import Mathlib.Data.List.DropRight
import Mathlib.Tactic

/-!
# Ring buffers

A buffer of fixed capacity that is written at a position which wraps around, with the number of
slots that have been written. `Holds` relates it to the list of everything that was ever written :
going back from the position one meets that list from its end. What the buffer shows is then the
end of the list, oldest entry first.
-/

namespace Rosa

/-- `count` slots have been written and `next` is written next. -/
structure RingBuffer (α : Type) (capacity : Nat) where
  slots : Nat → α
  count : Nat := 0
  next : Nat := 0

namespace RingBuffer

variable {α : Type} {capacity : Nat}

/-- Write one entry, over the oldest one if there is no room. -/
def push (r : RingBuffer α capacity) (a : α) : RingBuffer α capacity where
  slots := Function.update r.slots r.next a
  count := if r.count < capacity then r.count + 1 else r.count
  next := (r.next + 1) % capacity

/-- Write one entry to all slots. -/
def fill (_ : RingBuffer α capacity) (a : α) : RingBuffer α capacity where
  slots _ := a
  count := capacity
  next := 0

/-- The entries, oldest first. -/
def entries (r : RingBuffer α capacity) : List α :=
  (List.range r.count).map fun i =>
    r.slots (((r.next + capacity - r.count) % capacity + i) % capacity)

/-- The buffer after `written` was written to it. -/
structure Holds (r : RingBuffer α capacity) (written : List α) : Prop where
  next : r.next < capacity
  count : r.count = min written.length capacity
  recent : ∀ k < r.count,
    written.reverse[k]? = some (r.slots ((r.next + (capacity - 1 - k)) % capacity))

/-- A position that is past the end by less than the capacity. -/
theorem mod_wrap {x c : Nat} (h : x < 2 * c) : x % c = if x < c then x else x - c := by
  split
  · next hlt => exact Nat.mod_eq_of_lt hlt
  · rw [Nat.mod_eq_sub_mod (by omega), Nat.mod_eq_of_lt (by omega)]

variable {r : RingBuffer α capacity} {written : List α}

theorem Holds.empty {slots : Nat → α} (h : 0 < capacity) :
    (⟨slots, 0, 0⟩ : RingBuffer α capacity).Holds [] :=
  ⟨h, by simp, by simp⟩

theorem Holds.push (h : r.Holds written) (a : α) : (r.push a).Holds (written ++ [a]) where
  next := Nat.mod_lt _ (Nat.zero_lt_of_lt h.next)
  count := by
    have hcount := h.count
    simp only [RingBuffer.push, List.length_append, List.length_singleton]
    split <;> omega
  recent := by
    intro k hk
    have hnext := h.next
    have hcount := h.count
    rw [List.reverse_append, List.reverse_singleton, List.singleton_append]
    simp only [RingBuffer.push] at hk ⊢
    have hpos : (r.next + 1) % capacity < capacity := Nat.mod_lt _ (by omega)
    have hwrap := mod_wrap (show r.next + 1 < 2 * capacity by omega)
    have hk' : k < capacity := by split at hk <;> omega
    cases k with
    | zero =>
      -- the entry just written is the one before the new position
      have hslot : ((r.next + 1) % capacity + (capacity - 1 - 0)) % capacity = r.next := by
        rw [mod_wrap (by omega)]
        split at hwrap <;> split <;> omega
      rw [hslot, Function.update_self, List.getElem?_cons_zero]
    | succ k =>
      have hslot : ((r.next + 1) % capacity + (capacity - 1 - (k + 1))) % capacity =
          (r.next + (capacity - 1 - k)) % capacity := by
        have hback := mod_wrap (show r.next + (capacity - 1 - k) < 2 * capacity by omega)
        rw [mod_wrap (by omega)]
        split at hwrap <;> split at hback <;> split <;> omega
      have hother : (r.next + (capacity - 1 - k)) % capacity ≠ r.next := by
        rw [mod_wrap (by omega)]
        split <;> omega
      rw [hslot, Function.update_of_ne hother, List.getElem?_cons_succ]
      exact h.recent k (by split at hk <;> omega)

/-- Writing entries one after the other. -/
theorem Holds.foldl_push : ∀ (more : List α) {r : RingBuffer α capacity} {written : List α},
    r.Holds written → (more.foldl RingBuffer.push r).Holds (written ++ more)
  | [], _, _, h => by simpa using h
  | a :: more, _, _, h => by
    have := Holds.foldl_push more (h.push a)
    rwa [List.append_assoc, List.singleton_append] at this

/-- Filling the buffer is writing the entry at least as often as there are slots. -/
theorem Holds.fill (h : r.Holds written) {a : α} {times : Nat} (htimes : capacity ≤ times) :
    (r.fill a).Holds (written ++ List.replicate times a) where
  next := Nat.zero_lt_of_lt h.next
  count := by
    simp only [RingBuffer.fill, List.length_append, List.length_replicate]
    omega
  recent := by
    intro k hk
    replace hk : k < capacity := hk
    rw [List.reverse_append, List.reverse_replicate,
      List.getElem?_append_left (by rw [List.length_replicate]; omega),
      List.getElem?_replicate_of_lt (by omega)]
    rfl

/-- The buffer shows the last entries written, oldest first. -/
theorem Holds.entries_eq (h : r.Holds written) : r.entries = written.rtake capacity := by
  have hcount := h.count
  have hnext := h.next
  refine List.ext_getElem? fun i => ?_
  rw [List.rtake.eq_1, List.getElem?_drop]
  by_cases hi : i < r.count
  · have hslot : ((r.next + capacity - r.count) % capacity + i) % capacity =
        (r.next + (capacity - 1 - (r.count - 1 - i))) % capacity := by
      rw [Nat.mod_add_mod]
      congr 1
      omega
    have hrecent := h.recent (r.count - 1 - i) (by omega)
    rw [List.getElem?_reverse (by omega)] at hrecent
    rw [entries, List.getElem?_map, List.getElem?_range hi, Option.map_some, hslot, ← hrecent]
    congr 1
    omega
  · rw [List.getElem?_eq_none (by simpa [entries] using hi), List.getElem?_eq_none (by omega)]

end RingBuffer

end Rosa
