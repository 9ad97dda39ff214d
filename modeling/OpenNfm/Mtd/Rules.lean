import OpenNfm.Mtd.Interface

/-!
# Rules for the calls of the MTD layer

The weakest precondition of each call on the device without failures.  A call
in range never fails there; only `MTD_Program` asks for more, a page that is
blank.
-/

namespace OpenNfm

open OpenNfm.Program

/-- The call addresses a page of the device. -/
def Geometry.HasPage (g : Geometry) (block page : Nat) : Prop :=
  block < g.cfgLogBlockCount ∧ page < g.pagePerPhyBlock

namespace Ideal

variable {B : Type}

/-- The device after a page is programmed. -/
def program (state : Ideal B) (block page : Nat) (content : Page B) : Ideal B :=
  { state with nand := state.nand.program block page content }

/-- The device after a block is erased. -/
def erase (state : Ideal B) (block : Nat) : Ideal B :=
  { state with nand := state.nand.erase block }

@[simp]
theorem program_nand (state : Ideal B) (block page : Nat) (content : Page B) :
    (state.program block page content).nand = state.nand.program block page content :=
  rfl

@[simp]
theorem erase_nand (state : Ideal B) (block : Nat) :
    (state.erase block).nand = state.nand.erase block :=
  rfl

end Ideal

section Rules

variable {g : Geometry} {R B : Type} [PageContent B] {crash : Ideal B → Prop}
variable {block page : Nat} {ram : R} {state : Ideal B}

theorem wp_mtdRead {post : ReadAnswer B → R → Ideal B → Prop}
    (inRange : g.HasPage block page) :
    Code.wp (idealMachine g) crash (mtdRead block page) post ram state ↔
      crash state ∧ post (state.nand.answer block page) ram state := by
  have step : idealMachine g state (.read block page) =
      .ok (state.nand.answer block page, state) := if_pos inRange
  refine (Code.wp_perform_of_step step).trans ?_
  rw [← and_assoc, and_self]

theorem wp_mtdProgram {main : B} {spare : Option Spare} {post : Status → R → Ideal B → Prop}
    (inRange : g.HasPage block page) (blank : state.nand block page = none) :
    Code.wp (idealMachine g) crash (mtdProgram block page main spare) post ram state ↔
      crash state ∧ crash (state.program block page ⟨main, spare.getD .ones⟩) ∧
        post .success ram (state.program block page ⟨main, spare.getD .ones⟩) := by
  have step : idealMachine g state (.program block page main spare) =
      .ok (.success, state.program block page ⟨main, spare.getD .ones⟩) := by
    simp [idealMachine, Ideal.program, inRange.1, inRange.2, blank]
  exact Code.wp_perform_of_step step

theorem wp_mtdErase {post : Status → R → Ideal B → Prop}
    (inRange : block < g.cfgLogBlockCount) :
    Code.wp (idealMachine g) crash (mtdErase block) post ram state ↔
      crash state ∧ crash (state.erase block) ∧
        post .success ram (state.erase block) := by
  have step : idealMachine g state (.erase block) = .ok (.success, state.erase block) :=
    if_pos inRange
  exact Code.wp_perform_of_step step

theorem wp_mtdWaitReady {post : Status → R → Ideal B → Prop}
    (inRange : block < g.cfgLogBlockCount) :
    Code.wp (idealMachine g) crash (mtdWaitReady block) post ram state ↔
      crash state ∧ post .success ram state := by
  have step : idealMachine g state (.waitReady block) = .ok (.success, state) :=
    if_pos inRange
  refine (Code.wp_perform_of_step step).trans ?_
  rw [← and_assoc, and_self]

theorem wp_mtdCheckBlock {post : Status → R → Ideal B → Prop}
    (inRange : block < g.cfgLogBlockCount) :
    Code.wp (idealMachine g) crash (mtdCheckBlock block) post ram state ↔
      crash state ∧ post .success ram state := by
  have step : idealMachine g state (.checkBlock block) = .ok (.success, state) :=
    if_pos inRange
  refine (Code.wp_perform_of_step step).trans ?_
  rw [← and_assoc, and_self]

/-- A status poll is answered busy or ready, and leaves the flash as it is. -/
theorem wp_mtdReadStatus {post : Status → R → Ideal B → Prop}
    (inRange : block < g.cfgLogBlockCount)
    (safe : ∀ polls, crash ⟨state.nand, polls⟩)
    (meets : ∀ status polls, status = .success ∨ status = .dieBusy →
      post status ram ⟨state.nand, polls⟩) :
    Code.wp (idealMachine g) crash (mtdReadStatus block) post ram state := by
  have step : ∃ status polls, (status = .success ∨ status = .dieBusy) ∧
      idealMachine g state (.readStatus block) = .ok (status, ⟨state.nand, polls⟩) := by
    obtain ⟨nand, polls⟩ := state
    rcases polls with _ | ⟨busy, rest⟩
    · exact ⟨.success, [], .inl rfl, by simp [idealMachine, inRange]⟩
    · cases busy with
      | true => exact ⟨.dieBusy, rest, .inr rfl, by simp [idealMachine, inRange]⟩
      | false => exact ⟨.success, rest, .inl rfl, by simp [idealMachine, inRange]⟩
  obtain ⟨status, polls, known, run⟩ := step
  exact (Code.wp_perform_of_step run).mpr
    ⟨safe state.polls, safe polls, meets status polls known⟩

theorem wp_bufFree {buffer : Nat} {post : Unit → R → Ideal B → Prop} :
    Code.wp (idealMachine g) crash (bufFree buffer) post ram state ↔
      crash state ∧ post () ram state := by
  have step : idealMachine g state (.bufFree buffer) = .ok ((), state) := rfl
  refine (Code.wp_perform_of_step step).trans ?_
  rw [← and_assoc, and_self]

end Rules

end OpenNfm
