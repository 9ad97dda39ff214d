import OpenNfm.Core.Cmn
import OpenNfm.Program.Code
import Mathlib.Logic.Function.Basic

/-!
# The MTD layer as its callers see it

The functions of `mtd_api.c` are the operations of an interface, together with
`BUF_Free`, through which the layers above hand back page buffers.  The
content of a page is a parameter `B` with a distinguished value for the
all-ones pattern of erased flash.

`Nand` is the state of the flash: what has been programmed in a page since the
last erase of its block.  `idealMachine` is the device on which no program and
no erase fails.  Like the simulated device it refuses to program a page twice
and it refuses addresses that it does not have.
-/

namespace OpenNfm

open OpenNfm.Program

/-- Page contents, with the pattern that an erased page shows. -/
class PageContent (B : Type) where
  ones : B

/-- A programmed page. -/
structure Page (B : Type) where
  main : B
  spare : Spare
  deriving DecidableEq, Repr

/-- What is programmed in each page since the last erase of its block. -/
abbrev Nand (B : Type) := Nat → Nat → Option (Page B)

/-- What `MTD_Read` hands back: its status, and what it left in the buffers. -/
structure ReadAnswer (B : Type) where
  status : Status
  main : B
  spare : Spare
  deriving DecidableEq, Repr

/-- The functions of the MTD layer, and `BUF_Free`. -/
inductive MtdOp (B : Type) where
  | read (block : Nat) (page : Nat)
  | program (block : Nat) (page : Nat) (main : B) (spare : Option Spare)
  | erase (block : Nat)
  | waitReady (block : Nat)
  | readStatus (block : Nat)
  | checkBlock (block : Nat)
  | bufFree (buffer : Nat)
  deriving DecidableEq, Repr

/-- The answer to each call. -/
abbrev MtdAns (B : Type) : MtdOp B → Type
  | .read _ _ => ReadAnswer B
  | .program _ _ _ _ => Status
  | .erase _ => Status
  | .waitReady _ => Status
  | .readStatus _ => Status
  | .checkBlock _ => Status
  | .bufFree _ => Unit

/-- Code that runs on the MTD layer with static variables `R`. -/
abbrev MtdCode (R B α : Type) := Code R (MtdOp B) (MtdAns B) α

section Calls

variable {R B : Type}

/-- `MTD_Read`, as the layer above calls it. -/
def mtdRead (block : Nat) (page : Nat) : MtdCode R B (ReadAnswer B) :=
  Code.perform (MtdOp.read block page)

/-- `MTD_Program`, as the layer above calls it. -/
def mtdProgram (block : Nat) (page : Nat) (main : B) (spare : Option Spare) :
    MtdCode R B Status :=
  Code.perform (MtdOp.program block page main spare)

/-- `MTD_Erase`, as the layer above calls it. -/
def mtdErase (block : Nat) : MtdCode R B Status :=
  Code.perform (MtdOp.erase block)

/-- `MTD_WaitReady`, as the layer above calls it. -/
def mtdWaitReady (block : Nat) : MtdCode R B Status :=
  Code.perform (MtdOp.waitReady block)

/-- `MTD_ReadStatus`, as the layer above calls it. -/
def mtdReadStatus (block : Nat) : MtdCode R B Status :=
  Code.perform (MtdOp.readStatus block)

/-- `MTD_CheckBlock`, as the layer above calls it. -/
def mtdCheckBlock (block : Nat) : MtdCode R B Status :=
  Code.perform (MtdOp.checkBlock block)

/-- `BUF_Free`, as the layer above calls it. -/
def bufFree (buffer : Nat) : MtdCode R B Unit :=
  Code.perform (MtdOp.bufFree buffer)

end Calls

/-! ## The flash -/

namespace Nand

variable {B : Type}

/-- Program one page. -/
def program (nand : Nand B) (block : Nat) (page : Nat) (content : Page B) : Nand B :=
  Function.update nand block (Function.update (nand block) page (some content))

/-- Erase one block. -/
def erase (nand : Nand B) (block : Nat) : Nand B :=
  Function.update nand block fun _ => none

@[simp]
theorem program_same (nand : Nand B) (block : Nat) (page : Nat) (content : Page B) :
    nand.program block page content block page = some content := by
  simp [program]

theorem program_other (nand : Nand B) {block other : Nat} (page otherPage : Nat)
    (content : Page B) (different : other ≠ block) :
    nand.program block page content other otherPage = nand other otherPage := by
  simp [program, different]

theorem program_otherPage (nand : Nand B) (block : Nat) {page otherPage : Nat}
    (content : Page B) (different : otherPage ≠ page) :
    nand.program block page content block otherPage = nand block otherPage := by
  simp [program, different]

@[simp]
theorem erase_same (nand : Nand B) (block : Nat) (page : Nat) :
    nand.erase block block page = none := by
  simp [erase]

theorem erase_other (nand : Nand B) {block other : Nat} (page : Nat)
    (different : other ≠ block) : nand.erase block other page = nand other page := by
  simp [erase, different]

/-- What reading a page leaves in the buffers. -/
def answer [PageContent B] (nand : Nand B) (block : Nat) (page : Nat) : ReadAnswer B :=
  match nand block page with
  | some content => ⟨.success, content.main, content.spare⟩
  | none => ⟨.failure, PageContent.ones, .ones⟩

end Nand

/-! ## The device without failures -/

/-- The state of a device on which no program and no erase fails: the flash,
and the answers that coming status polls give.  A poll that finds `true` is
told that the die is busy; once the list is used up every die is ready. -/
structure Ideal (B : Type) where
  nand : Nand B
  polls : List Bool

/-- The device on which no program and no erase fails. -/
def idealMachine (g : Geometry) {B : Type} [PageContent B] :
    Machine (MtdOp B) (MtdAns B) (Ideal B)
  | state, .read block page =>
      if block < g.cfgLogBlockCount ∧ page < g.pagePerPhyBlock then
        .ok (state.nand.answer block page, state)
      else .error .assertion
  | state, .program block page main spare =>
      if block < g.cfgLogBlockCount ∧ page < g.pagePerPhyBlock then
        match state.nand block page with
        | some _ => .error .assertion
        | none =>
            .ok (.success,
              { state with nand := state.nand.program block page ⟨main, spare.getD .ones⟩ })
      else .error .assertion
  | state, .erase block =>
      if block < g.cfgLogBlockCount then
        .ok (.success, { state with nand := state.nand.erase block })
      else .error .assertion
  | state, .waitReady block =>
      if block < g.cfgLogBlockCount then .ok (.success, state) else .error .assertion
  | state, .readStatus block =>
      if block < g.cfgLogBlockCount then
        match state.polls with
        | true :: rest => .ok (.dieBusy, { state with polls := rest })
        | false :: rest => .ok (.success, { state with polls := rest })
        | [] => .ok (.success, state)
      else .error .assertion
  | state, .checkBlock block =>
      if block < g.cfgLogBlockCount then .ok (.success, state) else .error .assertion
  | state, .bufFree _ => .ok ((), state)

end OpenNfm
