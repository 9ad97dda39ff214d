import Mathlib.Data.List.Basic
import Mathlib.Logic.Function.Basic

/-!
# Queues in a ring of slots

One index says where the next item is taken, and another one where the next item is put.  The ring
is empty where they are equal, so one of the slots is always left free.
-/

namespace OpenNfm.Program

/-- A queue in a ring of slots, between the places of the next pop and of the next push. -/
structure RingQueue (α : Type) where
  slots : Nat → α
  pop : Nat
  push : Nat

namespace RingQueue

variable {α : Type}

/-- An item goes behind the last one. -/
def put (size : Nat) (queue : RingQueue α) (item : α) : RingQueue α where
  slots := Function.update queue.slots queue.push item
  pop := queue.pop
  push := (queue.push + 1) % size

/-- The first item is taken. -/
def drop (size : Nat) (queue : RingQueue α) : RingQueue α :=
  { queue with pop := (queue.pop + 1) % size }

/-- The items are in the slots between the two indices. -/
structure Holds (size : Nat) (queue : RingQueue α) (items : List α) : Prop where
  few : items.length < size
  inRing : queue.pop < size
  atEnd : queue.push = (queue.pop + items.length) % size
  inSlots : ∀ i < items.length, items[i]? = some (queue.slots ((queue.pop + i) % size))

variable {size : Nat} {queue : RingQueue α} {item : α} {items rest : List α}

theorem holds_nil (positive : 0 < size) (slots : Nat → α) : Holds size ⟨slots, 0, 0⟩ [] where
  few := positive
  inRing := positive
  atEnd := (Nat.zero_mod size).symm
  inSlots i isItem := absurd isItem (Nat.not_lt_zero i)

/-- Slots at different distances are different. -/
theorem slot_ne {start i j : Nat} (inRing : start < size) (isLess : i < j) (inSize : j < size) :
    (start + i) % size ≠ (start + j) % size := by
  intro same
  have wrapped : ∀ k < size, (start + k) % size = if start + k < size then start + k
      else start + k - size := by
    intro k inSize'
    split
    · rename_i below
      exact Nat.mod_eq_of_lt below
    · rename_i above
      rw [Nat.mod_eq_sub_mod (Nat.not_lt.mp above), Nat.mod_eq_of_lt]
      omega
  rw [wrapped i (Nat.lt_trans isLess inSize), wrapped j inSize] at same
  split at same <;> split at same <;> omega

theorem put_slots_same : (queue.put size item).slots queue.push = item :=
  Function.update_self _ _ _

theorem put_slots_other {i : Nat} (different : i ≠ queue.push) :
    (queue.put size item).slots i = queue.slots i :=
  Function.update_of_ne different _ _

namespace Holds

theorem isEmpty_iff (holds : Holds size queue items) : queue.pop = queue.push ↔ items = [] := by
  constructor
  · intro same
    by_contra notEmpty
    have positive := List.length_pos_iff.mpr notEmpty
    refine slot_ne holds.inRing positive holds.few ?_
    rw [Nat.add_zero, Nat.mod_eq_of_lt holds.inRing, ← holds.atEnd]
    exact same
  · rintro rfl
    rw [holds.atEnd, List.length_nil, Nat.add_zero, Nat.mod_eq_of_lt holds.inRing]

theorem first (holds : Holds size queue (item :: rest)) : queue.slots queue.pop = item := by
  have here := holds.inSlots 0 (Nat.zero_lt_succ _)
  rw [Nat.add_zero, Nat.mod_eq_of_lt holds.inRing] at here
  exact (Option.some.inj here).symm

/-- The ring does not look empty behind a new item. -/
theorem put_ne (holds : Holds size queue items) (room : items.length + 1 < size) (item : α) :
    (queue.put size item).push ≠ (queue.put size item).pop := by
  have apart := slot_ne holds.inRing (Nat.zero_lt_succ items.length) room
  rw [Nat.add_zero, Nat.mod_eq_of_lt holds.inRing] at apart
  have next : (queue.put size item).push = (queue.pop + (items.length + 1)) % size := by
    rw [put, holds.atEnd, Nat.mod_add_mod, Nat.add_assoc]
  rw [next]
  exact apart.symm

theorem put (holds : Holds size queue items) (room : items.length + 1 < size) (item : α) :
    Holds size (queue.put size item) (items ++ [item]) where
  few := by
    rw [List.length_append, List.length_singleton]
    exact room
  inRing := holds.inRing
  atEnd := by
    rw [List.length_append, List.length_singleton, RingQueue.put, holds.atEnd, Nat.mod_add_mod,
      Nat.add_assoc]
  inSlots i isItem := by
    rw [List.length_append, List.length_singleton] at isItem
    rcases Nat.lt_succ_iff_lt_or_eq.mp isItem with earlier | rfl
    · have different : (queue.pop + i) % size ≠ queue.push := by
        rw [holds.atEnd]
        exact slot_ne holds.inRing earlier holds.few
      rw [List.getElem?_append_left earlier, holds.inSlots i earlier]
      exact congrArg some (put_slots_other different).symm
    · have last : (queue.put size item).slots ((queue.pop + items.length) % size) = item := by
        rw [← holds.atEnd]
        exact put_slots_same
      rw [List.getElem?_append_right (Nat.le_refl _), Nat.sub_self]
      exact congrArg some last.symm

theorem drop (holds : Holds size queue (item :: rest)) : Holds size (queue.drop size) rest where
  few := Nat.lt_of_succ_lt holds.few
  inRing := Nat.mod_lt _ (Nat.lt_of_le_of_lt (Nat.zero_le _) holds.inRing)
  atEnd := by
    rw [RingQueue.drop, holds.atEnd, Nat.mod_add_mod, List.length_cons, Nat.add_right_comm,
      Nat.add_assoc]
  inSlots i isItem := by
    have here := holds.inSlots (i + 1) (Nat.succ_lt_succ isItem)
    rw [List.getElem?_cons_succ] at here
    rw [here, RingQueue.drop, Nat.mod_add_mod, Nat.add_right_comm, Nat.add_assoc]

end Holds

end RingQueue

end OpenNfm.Program
