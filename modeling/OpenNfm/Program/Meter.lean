import OpenNfm.Program.Oracle

/-!
# Code under a meter

A meter reads a number off the calls that have been made, and more calls never make it smaller.
Code `Gives` a result while the memory and the calls stay within what the meter allows: every
bound that holds for a reading holds for the later ones, so what is known of a value when it is
taken from the memory is still known when it is used.
-/

namespace OpenNfm.Program

/-- A number for the calls so far, and what it allows the memory and the calls to be. -/
structure Meter (R Op : Type) (Ans : Op → Type) where
  reading : List (Called Op Ans) → Nat
  memory : Nat → R → Prop
  call : Nat → Op → Prop
  reading_cons : ∀ called calls, reading calls ≤ reading (called :: calls)
  memory_mono : ∀ {n m ram}, n ≤ m → memory n ram → memory m ram
  call_mono : ∀ {n m op}, n ≤ m → call n op → call m op

namespace Meter

variable {R Op : Type} {Ans : Op → Type} {α β : Type} {meter : Meter R Op Ans}
  {oracle : Oracle Op Ans} {n m : Nat} {ram : R} {calls : List (Called Op Ans)}

/-- The meter has come to `n`, and the memory and the calls are within what it allows. -/
structure Kept (meter : Meter R Op Ans) (n : Nat) (ram : R) (calls : List (Called Op Ans)) :
    Prop where
  since : n ≤ meter.reading calls
  memory : meter.memory (meter.reading calls) ram
  calls : ∀ called ∈ calls, meter.call (meter.reading calls) called.op

theorem Kept.weaken (kept : meter.Kept m ram calls) (le : n ≤ m) : meter.Kept n ram calls :=
  ⟨Nat.le_trans le kept.since, kept.memory, kept.calls⟩

/-- Where the power fails, the meter has come at least as far as it had before. -/
theorem Kept.weakenCut (cut : ∃ ram, meter.Kept m ram calls) (le : n ≤ m) :
    ∃ ram, meter.Kept n ram calls := by
  obtain ⟨ram, kept⟩ := cut
  exact ⟨ram, kept.weaken le⟩

theorem Kept.now (kept : meter.Kept n ram calls) : meter.Kept (meter.reading calls) ram calls :=
  ⟨Nat.le_refl _, kept.memory, kept.calls⟩

theorem Kept.asked {op : Op} {answer : Ans op} (kept : meter.Kept n ram calls)
    (allowed : ∀ m, n ≤ m → meter.call m op) : meter.Kept n ram (⟨op, answer⟩ :: calls) := by
  have later := meter.reading_cons ⟨op, answer⟩ calls
  refine ⟨Nat.le_trans kept.since later, meter.memory_mono later kept.memory, ?_⟩
  intro called member
  rcases List.mem_cons.mp member with rfl | earlier
  · exact allowed _ (Nat.le_trans kept.since later)
  · exact meter.call_mono later (kept.calls called earlier)

/-- From any point where the meter has come to `n`, the code stays within what the meter allows,
and the result is as `post` says for the reading at the end. -/
def Gives (meter : Meter R Op Ans) (oracle : Oracle Op Ans) (n : Nat) (code : Code R Op Ans α)
    (post : α → Nat → Prop) : Prop :=
  ∀ ram calls, meter.Kept n ram calls →
    Code.spec oracle.machine (fun calls' => ∃ ram', meter.Kept n ram' calls') True code
      (fun value ram' calls' => meter.Kept n ram' calls' ∧ post value (meter.reading calls')) ram
      calls

namespace Gives

variable {code : Code R Op Ans α} {post post' : α → Nat → Prop}

theorem mono (gives : meter.Gives oracle n code post)
    (stronger : ∀ value m, n ≤ m → post value m → post' value m) :
    meter.Gives oracle n code post' :=
  fun ram calls kept => Code.spec_mono (gives ram calls kept)
    (fun value _ _ given => ⟨given.1, stronger value _ given.1.since given.2⟩) fun _ => id

theorem kept (gives : meter.Gives oracle n code post) :
    meter.Gives oracle n code fun _ _ => True :=
  gives.mono fun _ _ _ _ => trivial

theorem pure {value : α} (meets : ∀ m, n ≤ m → post value m) :
    meter.Gives oracle n (Pure.pure value) post :=
  fun ram _ kept => Code.spec_pure.mpr ⟨⟨ram, kept⟩, kept, meets _ kept.since⟩

/-- A value of which nothing has to be known. -/
theorem done {value : α} : meter.Gives oracle n (Pure.pure value) fun _ _ => True :=
  .pure fun _ _ => trivial

/-- A value that is known behind the code. -/
theorem same {value : α} : meter.Gives oracle n (Pure.pure value) fun other _ => other = value :=
  .pure fun _ _ => rfl

theorem halt {reason : Halt} : meter.Gives oracle n (Code.halt reason) post :=
  fun ram _ kept => Code.spec_halt.mpr ⟨⟨ram, kept⟩, trivial⟩

theorem assert {condition : Prop} [Decidable condition] :
    meter.Gives oracle n (Code.assert condition) fun _ _ => True :=
  fun ram _ kept => Code.spec_assert.mpr ⟨⟨ram, kept⟩, fun _ => ⟨kept, trivial⟩, fun _ => trivial⟩

theorem get : meter.Gives oracle n MonadState.get fun ram m => meter.memory m ram :=
  fun ram _ kept => Code.spec_get.mpr ⟨⟨ram, kept⟩, kept, kept.memory⟩

theorem modifies {change : R → R}
    (stable : ∀ ram m, n ≤ m → meter.memory m ram → meter.memory m (change ram)) :
    meter.Gives oracle n (modify change) fun _ _ => True :=
  fun ram _ kept => Code.spec_modify.mpr
    ⟨⟨ram, kept⟩, ⟨kept.since, stable ram _ kept.since kept.memory, kept.calls⟩, trivial⟩

/-- What is known of the first result is known for a later reading. -/
theorem bind {rest : α → Code R Op Ans β} {post' : β → Nat → Prop}
    (first : meter.Gives oracle n code post)
    (second : ∀ value m, n ≤ m → post value m → meter.Gives oracle m (rest value) post') :
    meter.Gives oracle n (code >>= rest) post' := by
  intro ram calls kept
  rw [Code.spec_bind]
  refine Code.spec_mono (first ram calls kept) (fun value ram' calls' given => ?_) fun _ => id
  refine Code.spec_mono (second value _ given.1.since given.2 ram' calls' given.1.now)
    (fun _ _ _ final => ?_) fun _ cut => ?_
  · exact ⟨final.1.weaken given.1.since, final.2⟩
  · exact Kept.weakenCut cut given.1.since

/-- The rest of the code needs nothing of the first result and of the reading. -/
theorem seq {rest : α → Code R Op Ans β} {post' : β → Nat → Prop}
    (first : meter.Gives oracle n code post)
    (second : ∀ value {m}, meter.Gives oracle m (rest value) post') :
    meter.Gives oracle n (code >>= rest) post' :=
  .bind first fun value _ _ _ => second value

theorem ite {condition : Prop} [Decidable condition] {first second : Code R Op Ans α}
    (yes : condition → meter.Gives oracle n first post)
    (no : ¬ condition → meter.Gives oracle n second post) :
    meter.Gives oracle n (if condition then first else second) post := by
  split
  · rename_i met
    exact yes met
  · rename_i unmet
    exact no unmet

/-- One call. -/
theorem perform {op : Op} {post : Ans op → Nat → Prop} (allowed : ∀ m, n ≤ m → meter.call m op)
    (meets : ∀ ram calls, meter.Kept n ram calls →
      post (oracle calls op) (meter.reading (⟨op, oracle calls op⟩ :: calls))) :
    meter.Gives oracle n (Code.perform op) post := by
  intro ram calls kept
  have step : oracle.machine calls op = .ok (oracle calls op, ⟨op, oracle calls op⟩ :: calls) := rfl
  have after : meter.Kept n ram (⟨op, oracle calls op⟩ :: calls) := kept.asked allowed
  exact (Code.spec_perform_of_step step).mpr
    ⟨⟨ram, kept⟩, ⟨ram, after⟩, after, meets ram calls kept⟩

end Gives

end Meter

end OpenNfm.Program
