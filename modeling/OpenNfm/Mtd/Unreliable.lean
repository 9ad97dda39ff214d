import OpenNfm.Mtd.Faulty

/-!
# A device with an endless pattern of failures

The pattern says what becomes of each program and each erase, in the order in which they
are asked for.  As on the device with a list of outcomes, a program that fails leaves its
page readable or torn, an erase that fails keeps some pages of its block, and the die
reports a failed program when it is polled.
-/

namespace OpenNfm

open OpenNfm.Program

/-- What becomes of the programs and erases, one after another. -/
abbrev FailurePattern := Nat → Outcome

/-- The state of the device: the flash, and how much of the pattern has been used. -/
structure Unreliable (B : Type) where
  nand : Nand B
  torn : Nat → Nat → Bool
  count : Nat
  failedDie : Nat → Bool

namespace Unreliable

variable {B : Type} (g : Geometry) (pattern : FailurePattern)

/-- The next program.  One that fails stores the page or leaves it torn. -/
def program (state : Unreliable B) (block page : Nat) (content : Page B) : Unreliable B :=
  match pattern state.count with
  | .done =>
      { nand := state.nand.program block page content
        torn := state.torn
        count := state.count + 1
        failedDie := Function.update state.failedDie (Faulty.dieOf g block) false }
  | .failed kept =>
      { nand := if kept page then state.nand.program block page content else state.nand
        torn := if kept page then state.torn
          else Function.update state.torn block (Function.update (state.torn block) page true)
        count := state.count + 1
        failedDie := Function.update state.failedDie (Faulty.dieOf g block) true }

/-- The next erase.  One that fails leaves each page as it was, or torn. -/
def erase (state : Unreliable B) (block : Nat) : Status × Unreliable B :=
  match pattern state.count with
  | .done =>
      (.success,
        { nand := state.nand.erase block
          torn := Function.update state.torn block fun _ => false
          count := state.count + 1
          failedDie := Function.update state.failedDie (Faulty.dieOf g block) false })
  | .failed kept =>
      (.badblock,
        { nand := Function.update state.nand block fun page =>
            if kept page then state.nand block page else none
          torn := Function.update state.torn block fun page =>
            if kept page then state.torn block page else true
          count := state.count + 1
          failedDie := Function.update state.failedDie (Faulty.dieOf g block) false })

end Unreliable

/-- The device that fails by a pattern. -/
def unreliableMachine (g : Geometry) (pattern : FailurePattern) {B : Type} [PageContent B] :
    Machine (MtdOp B) (MtdAns B) (Unreliable B)
  | state, .read block page =>
      if block < g.cfgLogBlockCount ∧ page < g.pagePerPhyBlock then
        .ok (state.nand.answer block page,
          { state with
            failedDie := Function.update state.failedDie (Faulty.dieOf g block) false })
      else .error .assertion
  | state, .program block page main spare =>
      if block < g.cfgLogBlockCount ∧ page < g.pagePerPhyBlock ∧
          (state.nand block page).isNone ∧ state.torn block page = false then
        .ok (.success, state.program g pattern block page ⟨main, spare.getD .ones⟩)
      else .error .assertion
  | state, .erase block =>
      if block < g.cfgLogBlockCount then .ok (state.erase g pattern block)
      else .error .assertion
  | state, .waitReady block =>
      if block < g.cfgLogBlockCount then
        .ok (if state.failedDie (Faulty.dieOf g block) then .badblock else .success, state)
      else .error .assertion
  | state, .readStatus block =>
      if block < g.cfgLogBlockCount then
        .ok (if state.failedDie (Faulty.dieOf g block) then .badblock else .success, state)
      else .error .assertion
  | state, .checkBlock block =>
      if block < g.cfgLogBlockCount then .ok (.success, state) else .error .assertion
  | state, .bufFree _ => .ok ((), state)

/-! ## What an operation leaves alone -/

/-- Only blocks of a given kind are changed. -/
structure ChangedOnly {B : Type} (inside : Nat → Prop) (before after : Unreliable B) : Prop where
  nand : ∀ block, ¬ inside block → after.nand block = before.nand block
  torn : ∀ block, ¬ inside block → after.torn block = before.torn block

namespace ChangedOnly

variable {B : Type} {inside inside' : Nat → Prop} {before middle after : Unreliable B}

theorem refl (inside : Nat → Prop) (state : Unreliable B) : ChangedOnly inside state state :=
  ⟨fun _ _ => rfl, fun _ _ => rfl⟩

theorem trans (first : ChangedOnly inside before middle)
    (second : ChangedOnly inside middle after) :
    ChangedOnly inside before after :=
  ⟨fun block outside => (second.nand block outside).trans (first.nand block outside),
    fun block outside => (second.torn block outside).trans (first.torn block outside)⟩

theorem mono (changed : ChangedOnly inside before after)
    (wider : ∀ block, inside block → inside' block) : ChangedOnly inside' before after :=
  ⟨fun block outside => changed.nand block fun here => outside (wider block here),
    fun block outside => changed.torn block fun here => outside (wider block here)⟩

end ChangedOnly

/-- No page of the block from `next` on is programmed or torn. -/
def BlankFrom {B : Type} (state : Unreliable B) (block next : Nat) : Prop :=
  ∀ page, next ≤ page → state.nand block page = none ∧ state.torn block page = false

theorem BlankFrom.frame {B : Type} {inside : Nat → Prop} {before after : Unreliable B}
    {block next : Nat} (blank : BlankFrom before block next)
    (changed : ChangedOnly inside before after) (outside : ¬ inside block) :
    BlankFrom after block next := by
  intro page behind
  rw [changed.nand block outside, changed.torn block outside]
  exact blank page behind

namespace Unreliable

variable {B : Type} (state : Unreliable B) (g : Geometry) (pattern : FailurePattern)

theorem erase_changed (block : Nat) :
    ChangedOnly (· = block) state (state.erase g pattern block).2 := by
  unfold erase
  split
  · exact ⟨fun _ different => Function.update_of_ne different _ _,
      fun _ different => Function.update_of_ne different _ _⟩
  · exact ⟨fun _ different => Function.update_of_ne different _ _,
      fun _ different => Function.update_of_ne different _ _⟩

theorem program_changed (block page : Nat) (content : Page B) :
    ChangedOnly (· = block) state (state.program g pattern block page content) := by
  unfold program
  split
  · exact ⟨fun _ different => Function.update_of_ne different _ _, fun _ _ => rfl⟩
  · refine ⟨fun other different => ?_, fun other different => ?_⟩
    · dsimp only
      split
      · exact Function.update_of_ne different _ _
      · rfl
    · dsimp only
      split
      · rfl
      · exact Function.update_of_ne different _ _

theorem program_count (block page : Nat) (content : Page B) :
    (state.program g pattern block page content).count = state.count + 1 := by
  unfold program
  split <;> rfl

end Unreliable

/-! ## Rules -/

section Rules

variable {g : Geometry} {pattern : FailurePattern} {R B : Type} [PageContent B] {halts : Prop}
  {block page : Nat} {ram : R} {state : Unreliable B}

theorem Unreliable.spec_mtdErase {post : Status → R → Unreliable B → Prop}
    (isBlock : block < g.cfgLogBlockCount)
    (erased : ∀ after, BlankFrom after block 0 → ChangedOnly (· = block) state after →
      after.count = state.count + 1 → post .success ram after)
    (failed : ∀ after, ChangedOnly (· = block) state after → after.count = state.count + 1 →
      post .badblock ram after) :
    Code.spec (unreliableMachine g pattern) (fun _ => True) halts (mtdErase block) post ram
      state := by
  have step : unreliableMachine g pattern state (.erase block) =
      .ok ((state.erase g pattern block).1, (state.erase g pattern block).2) := if_pos isBlock
  refine (Code.spec_perform_of_step step).mpr ⟨trivial, trivial, ?_⟩
  have changed := state.erase_changed g pattern block
  unfold Unreliable.erase at changed ⊢
  cases outcome : pattern state.count with
  | done =>
      simp only [outcome] at changed ⊢
      refine erased _ (fun page _ => ⟨state.nand.erase_same block page, ?_⟩) changed rfl
      simp only [Function.update_self]
  | failed kept =>
      simp only [outcome] at changed ⊢
      exact failed _ changed rfl

theorem Unreliable.spec_mtdRead {post : ReadAnswer B → R → Unreliable B → Prop}
    (isBlock : block < g.cfgLogBlockCount) (isPage : page < g.pagePerPhyBlock)
    (meets : ∀ after, ChangedOnly (fun _ => False) state after → after.count = state.count →
      post (state.nand.answer block page) ram after) :
    Code.spec (unreliableMachine g pattern) (fun _ => True) halts (mtdRead block page) post ram
      state := by
  have step : unreliableMachine g pattern state (.read block page) =
      .ok (state.nand.answer block page, { state with
        failedDie := Function.update state.failedDie (Faulty.dieOf g block) false }) :=
    if_pos ⟨isBlock, isPage⟩
  refine (Code.spec_perform_of_step step).mpr ⟨trivial, trivial, meets _ ?_ rfl⟩
  exact ⟨fun _ _ => rfl, fun _ _ => rfl⟩

end Rules

end OpenNfm
