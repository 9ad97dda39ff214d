import OpenNfm.Mtd.Faulty

/-!
# A device whose dice are polled

A list says what the coming polls are told: that the die is busy, that it is ready, or that its
last program has failed.  The device keeps the reports of its dice and the buffers that are
handed back, so that it can be said which failed pages are lost.
-/

namespace OpenNfm

open OpenNfm.Program

/-- The flash, the answers to the coming polls, what the dice that are busy will report, the
reports so far, the newest one first, and the buffers that were handed back. -/
structure PolledDice (B : Type) where
  nand : Nand B
  answers : List Status
  pending : Nat → Status
  reports : List (Nat × Status)
  freed : List Nat

namespace PolledDice

variable {B : Type}

/-- The device in front of the first poll. -/
def start (nand : Nand B) (answers : List Status) (pending : Nat → Status) : PolledDice B :=
  ⟨nand, answers, pending, [], []⟩

/-- A poll of the die takes the next answer. -/
def poll (dice : PolledDice B) (die : Nat) (answer : Status) : PolledDice B :=
  { dice with answers := dice.answers.tail, reports := (die, answer) :: dice.reports }

/-- What `MTD_WaitReady` ends with: the last report of the die, if the die was not busy. -/
def waited (dice : PolledDice B) (die : Nat) : Status :=
  match dice.reports.find? fun report => report.1 = die with
  | some (_, .dieBusy) => dice.pending die
  | some (_, status) => status
  | none => dice.pending die

/-- The device with a page that is being programmed. -/
def program (dice : PolledDice B) (block page : Nat) (content : Page B) : PolledDice B :=
  { dice with nand := dice.nand.program block page content }

/-- The device with one more buffer that was handed back. -/
def free (dice : PolledDice B) (buffer : Nat) : PolledDice B :=
  { dice with freed := buffer :: dice.freed }

theorem waited_poll (dice : PolledDice B) (die : Nat) :
    (dice.poll die .success).waited die = .success := by
  simp [waited, poll]

end PolledDice

/-- The device whose dice are polled.  When the list of answers is at its end, every die is
ready. -/
def polledMachine (g : Geometry) {B : Type} [PageContent B] :
    Machine (MtdOp B) (MtdAns B) (PolledDice B)
  | dice, .read block page =>
      if block < g.cfgLogBlockCount ∧ page < g.pagePerPhyBlock then
        .ok (dice.nand.answer block page, dice)
      else .error .assertion
  | dice, .program block page main spare =>
      if block < g.cfgLogBlockCount ∧ page < g.pagePerPhyBlock then
        .ok (.success, dice.program block page ⟨main, spare.getD .ones⟩)
      else .error .assertion
  | dice, .erase block =>
      if block < g.cfgLogBlockCount then
        .ok (.success, { dice with nand := dice.nand.erase block })
      else .error .assertion
  | dice, .waitReady block =>
      if block < g.cfgLogBlockCount then .ok (dice.waited (Faulty.dieOf g block), dice)
      else .error .assertion
  | dice, .readStatus block =>
      if block < g.cfgLogBlockCount then
        .ok (dice.answers.headD .success,
          dice.poll (Faulty.dieOf g block) (dice.answers.headD .success))
      else .error .assertion
  | dice, .checkBlock block =>
      if block < g.cfgLogBlockCount then .ok (.success, dice) else .error .assertion
  | dice, .bufFree buffer => .ok ((), dice.free buffer)

end OpenNfm
