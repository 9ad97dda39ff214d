import OpenNfm.Mtd.Interface
import OpenNfm.Program.Spec

/-!
# A device on which programs and erases fail

A list of outcomes decides about the coming programs and erases; behind its end
everything succeeds.  A program that fails leaves its page readable or torn, and the
die reports the failure to every poll until the next command on it.  An erase that
fails keeps some of the pages of its block.  The device also remembers the last
program that succeeded.
-/

namespace OpenNfm

open OpenNfm.Program

/-- What becomes of a program or an erase: it is done, or it fails and `kept` says
which pages are readable afterwards. -/
inductive Outcome where
  | done
  | failed (kept : Nat → Bool)

/-- The state of the device.  A torn page is neither readable nor blank. -/
structure Faulty (B : Type) where
  nand : Nand B
  torn : Nat → Nat → Bool
  outcomes : List Outcome
  failedDie : Nat → Bool
  polls : List Bool
  lastProgram : Option (Nat × Nat × B)

namespace Faulty

variable {B : Type} (g : Geometry)

/-- The die of a block. -/
def dieOf (block : Nat) : Nat := block % g.totalDieCount

/-- The die forgets that its last program has failed. -/
def settle (state : Faulty B) (block : Nat) : Faulty B :=
  { state with failedDie := Function.update state.failedDie (dieOf g block) false }

/-- Program a blank page, as the next outcome has it. -/
def program (state : Faulty B) (block page : Nat) (content : Page B) : Faulty B :=
  match state.outcomes.headD .done with
  | .done =>
      { state with
        nand := state.nand.program block page content
        outcomes := state.outcomes.tail
        failedDie := Function.update state.failedDie (dieOf g block) false
        lastProgram := some (block, page, content.main) }
  | .failed kept =>
      { state with
        nand := if kept page then state.nand.program block page content else state.nand
        torn := if kept page then state.torn
          else Function.update state.torn block (Function.update (state.torn block) page true)
        outcomes := state.outcomes.tail
        failedDie := Function.update state.failedDie (dieOf g block) true }

/-- Erase a block, as the next outcome has it. -/
def erase (state : Faulty B) (block : Nat) : Status × Faulty B :=
  match state.outcomes.headD .done with
  | .done =>
      (.success,
        { state with
          nand := state.nand.erase block
          torn := Function.update state.torn block fun _ => false
          outcomes := state.outcomes.tail
          failedDie := Function.update state.failedDie (dieOf g block) false })
  | .failed kept =>
      (.badblock,
        { state with
          nand := Function.update state.nand block fun page =>
            if kept page then state.nand block page else none
          torn := Function.update state.torn block fun page =>
            if kept page then state.torn block page else true
          outcomes := state.outcomes.tail
          failedDie := Function.update state.failedDie (dieOf g block) false })

end Faulty

/-- The device that fails by a list of outcomes. -/
def faultyMachine (g : Geometry) {B : Type} [PageContent B] :
    Machine (MtdOp B) (MtdAns B) (Faulty B)
  | state, .read block page =>
      if block < g.cfgLogBlockCount ∧ page < g.pagePerPhyBlock then
        .ok (state.nand.answer block page, state.settle g block)
      else .error .assertion
  | state, .program block page main spare =>
      if block < g.cfgLogBlockCount ∧ page < g.pagePerPhyBlock ∧
          (state.nand block page).isNone ∧ state.torn block page = false then
        .ok (.success, state.program g block page ⟨main, spare.getD .ones⟩)
      else .error .assertion
  | state, .erase block =>
      if block < g.cfgLogBlockCount then .ok (state.erase g block) else .error .assertion
  | state, .waitReady block =>
      if block < g.cfgLogBlockCount then
        .ok (if state.failedDie (Faulty.dieOf g block) then .badblock else .success, state)
      else .error .assertion
  | state, .readStatus block =>
      if block < g.cfgLogBlockCount then
        match state.polls with
        | true :: rest => .ok (.dieBusy, { state with polls := rest })
        | false :: rest =>
            .ok (if state.failedDie (Faulty.dieOf g block) then .badblock else .success,
              { state with polls := rest })
        | [] =>
            .ok (if state.failedDie (Faulty.dieOf g block) then .badblock else .success, state)
      else .error .assertion
  | state, .checkBlock block =>
      if block < g.cfgLogBlockCount then .ok (.success, state) else .error .assertion
  | state, .bufFree _ => .ok ((), state)

/-! ## Rules -/

section Rules

variable {g : Geometry} {R B : Type} [PageContent B] {crash : Faulty B → Prop} {halts : Prop}
  {block page : Nat} {ram : R} {state : Faulty B}

theorem spec_mtdRead {post : ReadAnswer B → R → Faulty B → Prop}
    (isBlock : block < g.cfgLogBlockCount) (isPage : page < g.pagePerPhyBlock) :
    Code.spec (faultyMachine g) crash halts (mtdRead block page) post ram state ↔
      crash state ∧ crash (state.settle g block) ∧
        post (state.nand.answer block page) ram (state.settle g block) := by
  have step : faultyMachine g state (.read block page) =
      .ok (state.nand.answer block page, state.settle g block) := if_pos ⟨isBlock, isPage⟩
  exact Code.spec_perform_of_step step

theorem spec_mtdProgram {main : B} {spare : Option Spare} {post : Status → R → Faulty B → Prop}
    (isBlock : block < g.cfgLogBlockCount) (isPage : page < g.pagePerPhyBlock)
    (blank : state.nand block page = none) (whole : state.torn block page = false) :
    Code.spec (faultyMachine g) crash halts (mtdProgram block page main spare) post ram state ↔
      crash state ∧ crash (state.program g block page ⟨main, spare.getD .ones⟩) ∧
        post .success ram (state.program g block page ⟨main, spare.getD .ones⟩) := by
  have step : faultyMachine g state (.program block page main spare) =
      .ok (.success, state.program g block page ⟨main, spare.getD .ones⟩) := by
    simp [faultyMachine, isBlock, isPage, blank, whole]
  exact Code.spec_perform_of_step step

theorem spec_mtdErase {post : Status → R → Faulty B → Prop}
    (isBlock : block < g.cfgLogBlockCount) :
    Code.spec (faultyMachine g) crash halts (mtdErase block) post ram state ↔
      crash state ∧ crash (state.erase g block).2 ∧
        post (state.erase g block).1 ram (state.erase g block).2 := by
  have step : faultyMachine g state (.erase block) =
      .ok ((state.erase g block).1, (state.erase g block).2) := if_pos isBlock
  exact Code.spec_perform_of_step step

theorem spec_mtdWaitReady {post : Status → R → Faulty B → Prop}
    (isBlock : block < g.cfgLogBlockCount) :
    Code.spec (faultyMachine g) crash halts (mtdWaitReady block) post ram state ↔
      crash state ∧
        post (if state.failedDie (Faulty.dieOf g block) then .badblock else .success) ram
          state := by
  have step : faultyMachine g state (.waitReady block) =
      .ok (if state.failedDie (Faulty.dieOf g block) then .badblock else .success, state) :=
    if_pos isBlock
  refine (Code.spec_perform_of_step step).trans ?_
  rw [← and_assoc, and_self]

end Rules

end OpenNfm
