import OpenNfm.Mtd.Interface
import OpenNfm.Program.Oracle

/-!
# A device with a given answer to each program and erase

One sequence says what becomes of the programs and another one which erases succeed, for
as many as there may be.  The device is an oracle: it counts the calls so far.
-/

namespace OpenNfm

open OpenNfm.Program

/-- What becomes of a program: it is done, it is refused at once, or the failure shows when
it is waited for. -/
inductive ProgramResult where
  | done
  | refused
  | failed
  deriving DecidableEq

/-- What becomes of each program, and whether each erase succeeds. -/
structure Answers where
  programs : Nat → ProgramResult
  erases : Nat → Bool

section Counting

variable {B : Type}

/-- The calls of a run of a device with answers, the newest one first. -/
abbrev MtdCalls (B : Type) : Type :=
  List (Called (MtdOp B) (MtdAns B))

/-- How many programs have been called. -/
def programCount : MtdCalls B → Nat
  | [] => 0
  | ⟨.program _ _ _ _, _⟩ :: rest => programCount rest + 1
  | _ :: rest => programCount rest

/-- How many erases have been called. -/
def eraseCount : MtdCalls B → Nat
  | [] => 0
  | ⟨.erase _, _⟩ :: rest => eraseCount rest + 1
  | _ :: rest => eraseCount rest

/-- The page of the last program and what was to be written to it. -/
def lastProgram : MtdCalls B → Option (Nat × Nat × B)
  | [] => none
  | ⟨.program block page main _, _⟩ :: _ => some (block, page, main)
  | _ :: rest => lastProgram rest

end Counting

namespace Answers

/-- How many of the first `n` erases fail. -/
def failures (answers : Answers) (n : Nat) : Nat :=
  (List.range n).countP fun i => !answers.erases i

theorem failures_succ (answers : Answers) (n : Nat) :
    answers.failures (n + 1) = answers.failures n + if answers.erases n then 0 else 1 := by
  unfold failures
  rw [List.range_succ, List.countP_append, List.countP_singleton]
  cases answers.erases n <;> rfl

/-- The status of the n-th erase. -/
def eraseStatus (answers : Answers) (n : Nat) : Status :=
  if answers.erases n then .success else .badblock

/-- The device: its answers depend on the number of calls so far. -/
def oracle (answers : Answers) {B : Type} [PageContent B] : Oracle (MtdOp B) (MtdAns B)
  | _, .read _ _ => ⟨.failure, PageContent.ones, .ones⟩
  | calls, .program _ _ _ _ =>
      if answers.programs (programCount calls) = .refused then .badblock else .success
  | calls, .erase _ => answers.eraseStatus (eraseCount calls)
  | calls, .waitReady _ =>
      if answers.programs (programCount calls - 1) = .done then .success else .badblock
  | _, .readStatus _ => .success
  | _, .checkBlock _ => .success
  | _, .bufFree _ => ()

variable {R B : Type} [PageContent B] {answers : Answers} {halts : Prop} {ram : R}
  {calls : MtdCalls B} {post : Status → R → MtdCalls B → Prop}

theorem spec_mtdErase {block : Nat} :
    Code.spec answers.oracle.machine (fun _ => True) halts (mtdErase block) post ram calls ↔
      post (answers.eraseStatus (eraseCount calls)) ram
        (⟨.erase block, answers.eraseStatus (eraseCount calls)⟩ :: calls) := by
  have step : answers.oracle.machine calls (.erase block) =
      .ok (answers.eraseStatus (eraseCount calls),
        ⟨.erase block, answers.eraseStatus (eraseCount calls)⟩ :: calls) := rfl
  exact (Code.spec_perform_of_step step).trans (by simp only [true_and])

end Answers

end OpenNfm
