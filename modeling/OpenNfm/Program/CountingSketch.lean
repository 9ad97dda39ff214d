import Mathlib.Logic.Function.Basic
import Mathlib.Order.Nat

/-!
# Counting sketches

A table of saturating counters is shared by many keys: a key raises all slots that its hash
functions name, and from time to time every counter is halved.  Slots of different keys
collide, and one key may name a slot twice.  The exact counters have one counter for each
key and go through the same steps.  The sketch covers them: no slot of a key is below its
exact counter.
-/

namespace OpenNfm.Program

section CountingSketch

variable {Key Slot : Type} [DecidableEq Key] [DecidableEq Slot]

/-! ## The steps -/

/-- Raise one counter, the largest value `top` stays. -/
def raise (top : Nat) (table : Slot → Nat) (slot : Slot) : Slot → Nat :=
  Function.update table slot (if table slot ≠ top then table slot + 1 else table slot)

/-- Raise the counters of the slots one after the other. -/
def raiseAll (top : Nat) (slots : List Slot) (table : Slot → Nat) : Slot → Nat :=
  slots.foldl (raise top) table

/-- The exact counters after one more visit of the key. -/
def visit (top : Nat) (exact : Key → Nat) (key : Key) : Key → Nat :=
  Function.update exact key (min top (exact key + 1))

/-- The exact counters after all of them are halved. -/
def halve (exact : Key → Nat) : Key → Nat :=
  fun key => exact key / 2

/-- No slot of a key is below the exact counter of the key. -/
def Covers (slots : Key → List Slot) (table : Slot → Nat) (exact : Key → Nat) : Prop :=
  ∀ key, ∀ slot ∈ slots key, exact key ≤ table slot

/-! ## One slot -/

section Raise

variable {top : Nat} {table : Slot → Nat}

theorem raise_self {slot : Slot} (bounded : table slot ≤ top) : raise top table slot slot =
    min top (table slot + 1) := by
  rw [raise, Function.update_self]
  split <;> omega

theorem raise_of_ne {slot other : Slot} (different : other ≠ slot) :
    raise top table slot other = table other :=
  Function.update_of_ne different _ _

theorem le_raise (slot other : Slot) : table other ≤ raise top table slot other := by
  by_cases same : other = slot
  · subst same
    rw [raise, Function.update_self]
    split
    · exact Nat.le_succ _
    · exact le_rfl
  · rw [raise_of_ne same]

theorem raise_le {slot other : Slot} (bounded : table other ≤ top) :
    raise top table slot other ≤ top := by
  by_cases same : other = slot
  · subst same
    rw [raise_self bounded]
    exact Nat.min_le_left _ _
  · rw [raise_of_ne same]
    exact bounded

/-! ## All slots of a key -/

theorem raiseAll_cons (slot : Slot) (slots : List Slot) :
    raiseAll top (slot :: slots) table = raiseAll top slots (raise top table slot) :=
  rfl

theorem le_raiseAll (slots : List Slot) (other : Slot) :
    table other ≤ raiseAll top slots table other := by
  induction slots generalizing table with
  | nil => exact le_rfl
  | cons slot rest ih => exact (le_raise slot other).trans ih

theorem raiseAll_le {slots : List Slot} {other : Slot} (bounded : table other ≤ top) :
    raiseAll top slots table other ≤ top := by
  induction slots generalizing table with
  | nil => exact bounded
  | cons slot rest ih => exact ih (raise_le bounded)

/-- Every slot of the list is raised at least once. -/
theorem min_le_raiseAll {slots : List Slot} {slot : Slot} (bounded : table slot ≤ top)
    (listed : slot ∈ slots) : min top (table slot + 1) ≤ raiseAll top slots table slot := by
  induction slots generalizing table with
  | nil => exact absurd listed List.not_mem_nil
  | cons first rest ih =>
      rw [raiseAll_cons]
      by_cases same : slot = first
      · subst same
        rw [← raise_self bounded]
        exact le_raiseAll rest slot
      · have later : slot ∈ rest := (List.mem_cons.mp listed).resolve_left same
        have kept : raise top table first slot = table slot := raise_of_ne same
        rw [← kept]
        exact ih (raise_le bounded) later

end Raise

/-! ## The sketch covers the exact counters -/

section Covers

variable {top : Nat} {slots : Key → List Slot} {table : Slot → Nat} {exact : Key → Nat}

omit [DecidableEq Key] [DecidableEq Slot] in
theorem Covers.of_zero (zero : ∀ key, exact key = 0) : Covers slots table exact :=
  fun key slot _ => (zero key).trans_le (Nat.zero_le (table slot))

/-- A visit raises the exact counter by no more than any slot of the key. -/
theorem Covers.visit {key : Key} (covers : Covers slots table exact)
    (bounded : ∀ slot ∈ slots key, table slot ≤ top) :
    Covers slots (raiseAll top (slots key) table) (visit top exact key) := by
  intro other slot listed
  by_cases same : other = key
  · subst same
    rw [Program.visit, Function.update_self]
    have covered : exact other ≤ table slot := covers other slot listed
    have raised : min top (table slot + 1) ≤ raiseAll top (slots other) table slot :=
      min_le_raiseAll (bounded slot listed) listed
    omega
  · rw [Program.visit, Function.update_of_ne same]
    exact (covers other slot listed).trans (le_raiseAll (slots key) slot)

omit [DecidableEq Key] [DecidableEq Slot] in
/-- The exact counters are halved with the slots; a slot may also stay. -/
theorem Covers.halve {table' : Slot → Nat} (covers : Covers slots table exact)
    (halved : ∀ slot, table slot / 2 ≤ table' slot) : Covers slots table' (halve exact) :=
  fun key slot listed => (Nat.div_le_div_right (covers key slot listed)).trans (halved slot)

end Covers

end CountingSketch

end OpenNfm.Program
