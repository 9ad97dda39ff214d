import OpenNfm.Mtd.Interface
import OpenNfm.Program.Spec

/-!
# A device with bad blocks

The erase and the program of a bad block always report the failure, and those of other
blocks always succeed.  An operation that fails leaves some pages of its block readable.
-/

namespace OpenNfm

open OpenNfm.Program

/-- The bad blocks, and the pages of them that stay readable when an erase fails, or become
readable although a program fails. -/
structure BadBlocks where
  bad : Nat → Bool
  kept : Nat → Nat → Bool

/-- The flash, and the dies whose last program has failed. -/
structure Worn (B : Type) where
  nand : Nand B
  failedDie : Nat → Bool

namespace Worn

variable {B : Type} (g : Geometry) (blocks : BadBlocks)

/-- A program stores the page unless the block is worn out and keeps nothing. -/
def program (state : Worn B) (block page : Nat) (content : Page B) : Worn B where
  nand := if blocks.bad block = false ∨ blocks.kept block page = true then
    state.nand.program block page content else state.nand
  failedDie := Function.update state.failedDie (block % g.totalDieCount) (blocks.bad block)

/-- An erase of a worn out block may leave its pages behind. -/
def erase (state : Worn B) (block : Nat) : Worn B where
  nand := Function.update state.nand block fun page =>
    if blocks.bad block = true ∧ blocks.kept block page = true then state.nand block page else none
  failedDie := Function.update state.failedDie (block % g.totalDieCount) false

theorem erase_other (state : Worn B) {block other : Nat} (different : other ≠ block) :
    (state.erase g blocks block).nand other = state.nand other :=
  Function.update_of_ne different _ _

theorem erase_same (state : Worn B) (block : Nat) :
    (state.erase g blocks block).nand block = fun page =>
      if blocks.bad block = true ∧ blocks.kept block page = true then state.nand block page
      else none :=
  Function.update_self block _ state.nand

end Worn

/-- What the device reports about an operation on the block. -/
def BadBlocks.status (blocks : BadBlocks) (block : Nat) : Status :=
  if blocks.bad block then .badblock else .success

/-- The device with bad blocks. -/
def wornMachine (g : Geometry) (blocks : BadBlocks) {B : Type} [PageContent B] :
    Machine (MtdOp B) (MtdAns B) (Worn B)
  | state, .read block page =>
      if block < g.cfgLogBlockCount ∧ page < g.pagePerPhyBlock then
        .ok (state.nand.answer block page, state)
      else .error .assertion
  | state, .program block page main spare =>
      if block < g.cfgLogBlockCount ∧ page < g.pagePerPhyBlock ∧
          (blocks.bad block = true ∨ (state.nand block page).isNone) then
        .ok (.success, state.program g blocks block page ⟨main, spare.getD .ones⟩)
      else .error .assertion
  | state, .erase block =>
      if block < g.cfgLogBlockCount then
        .ok (blocks.status block, state.erase g blocks block)
      else .error .assertion
  | state, .waitReady block =>
      if block < g.cfgLogBlockCount then
        .ok (if state.failedDie (block % g.totalDieCount) then .badblock else .success, state)
      else .error .assertion
  | state, .readStatus block =>
      if block < g.cfgLogBlockCount then
        .ok (if state.failedDie (block % g.totalDieCount) then .badblock else .success, state)
      else .error .assertion
  | state, .checkBlock block =>
      if block < g.cfgLogBlockCount then .ok (.success, state) else .error .assertion
  | state, .bufFree _ => .ok ((), state)

section Rules

variable {g : Geometry} {blocks : BadBlocks} {R B : Type} [PageContent B] {crash : Worn B → Prop}
  {halts : Prop} {block : Nat} {ram : R} {state : Worn B}

theorem Worn.spec_mtdErase {post : Status → R → Worn B → Prop}
    (isBlock : block < g.cfgLogBlockCount) :
    Code.spec (wornMachine g blocks) crash halts (mtdErase block) post ram state ↔
      crash state ∧ crash (state.erase g blocks block) ∧
        post (blocks.status block) ram (state.erase g blocks block) := by
  have step : wornMachine g blocks state (.erase block) =
      .ok (blocks.status block, state.erase g blocks block) := if_pos isBlock
  exact Code.spec_perform_of_step step

end Rules

end OpenNfm
