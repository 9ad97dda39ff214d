import OpenNfm.Onfm.Refinement
import OpenNfm.Onfm.Stack

/-!
# The sector layer over a watched pool

The functions of the sector layer with another `BUF_Allocate` and another `BUF_Free`.  Where
no buffer is left, or the buffer that comes next is in use, and where a buffer that is not in
use is handed back, they do anything whatever: `PoolFaults` says what.  The functions of the
FTL get the marks of the pool, and each buffer is released at the moment when the UBI layer
hands it back, not when the FTL returns.

The functions of the sector layer are written here once more.  Code has the calls of its layer
in its type, so code that asks a watched pool is other code.  That it differs in nothing but the
pool is proved function by function: whatever the faults do, it runs like the code of
`Onfm.Api` and `Buf.Buffers`.
-/

namespace OpenNfm

open OpenNfm.Program OpenNfm.Buf

/-- What becomes of an allocation that finds no buffer of its own, and of the release of a
buffer that is not in use. -/
structure PoolFaults (S : Type) where
  allocate : OnfmRam S → Except Halt (Option Nat × OnfmRam S)
  free : (Nat → Bool) → Nat → Except Halt (Nat → Bool)

/-- As in the source: `NULL`, and an assertion that fails. -/
def PoolFaults.source {S : Type} : PoolFaults S where
  allocate ram := .ok (none, ram)
  free _ _ := .error .assertion

/-- The calls to the FTL, with the marks of the pool.  `held` asks for the buffers that
`dice_hold` has. -/
inductive PoolOp (S : Type) where
  | read (page : Nat) (used : Nat → Bool)
  | write (page : Nat) (source : PageSource) (content : Nat → S) (used : Nat → Bool)
  | held

/-- Each page of the layer below is answered with the pool that its frees leave. -/
abbrev PoolAns (S : Type) : PoolOp S → Type
  | .read _ _ => (Status × (Nat → S)) × (Nat → Bool)
  | .write _ _ _ _ => Status × (Nat → Bool)
  | .held => List Nat

/-- Code of the sector layer over a watched pool. -/
abbrev Watched (S α : Type) := Code (OnfmRam S) (PoolOp S) (PoolAns S) α

namespace Watched

section Functions

variable (g : Geometry) {S : Type} (faults : PoolFaults S)

/-! ## The pool -/

/-- No buffer, or none of its own. -/
def fault : Watched S (Option Nat) := do
  let ram ← get
  match faults.allocate ram with
  | .ok (buffer, ram) => do
      set ram
      pure buffer
  | .error reason => Code.halt reason

/-- `BUF_Allocate`, called with buffers in hand.  A buffer is in use if it is marked, if it is
the write buffer or in the hands of the caller, or if `dice_hold` has it. -/
def allocate (inHand : List Nat) : Watched S (Option Nat) := do
  let held ← Code.perform PoolOp.held
  let ram ← get
  match allocateFrom g ram.pbPoolUsed (List.range (g.bufferCount / 2)) with
  | some buffer =>
      if ram.pbPoolUsed buffer = true ∨ buffer ∈ ram.writeBuffer.toList ++ inHand ++ held then
        fault faults
      else do
        modify fun ram => { ram with pbPoolUsed := Function.update ram.pbPoolUsed buffer true }
        pure (some buffer)
  | none => fault faults

/-- The marks after `BUF_Free`. -/
def freed (used : Nat → Bool) (buffer : Nat) : Except Halt (Nat → Bool) :=
  if buffer < g.bufferCount then
    if used buffer = true then .ok (Function.update used buffer false)
    else faults.free used buffer
  else .ok used

/-- `BUF_Free`, watched. -/
def free (buffer : Nat) : Watched S Unit := do
  let ram ← get
  match freed g faults ram.pbPoolUsed buffer with
  | .ok used => modify fun ram => { ram with pbPoolUsed := used }
  | .error reason => Code.halt reason

/-! ## The FTL -/

/-- `FTL_Read`, watched. -/
def ftlRead (page : Nat) : Watched S (Status × (Nat → S)) := do
  let ram ← get
  let (answer, used) ← Code.perform (PoolOp.read page ram.pbPoolUsed)
  modify fun ram => { ram with pbPoolUsed := used }
  pure answer

/-- `FTL_Write`, watched. -/
def ftlWrite (page : Nat) (source : PageSource) (content : Nat → S) : Watched S Status := do
  let ram ← get
  let (ret, used) ← Code.perform (PoolOp.write page source content ram.pbPoolUsed)
  modify fun ram => { ram with pbPoolUsed := used }
  pure ret

/-! ## The write buffer -/

/-- `BUF_PutSector`, watched. -/
def putSector (addr : Nat) (sector : S) : Watched S Unit := do
  let ram ← get
  match ram.writeBuffer with
  | none => Code.halt .assertion
  | some buffer => do
      if ram.bufEndAddr = invalidLsaddr then
        modify fun ram =>
          { ram with
            bufStartAddr := startOf g addr
            bufEndAddr := startOf g addr + (g.sectorPerMpp - 1) }
      let ram ← get
      Code.assert (ram.bufStartAddr ≤ addr ∧ addr ≤ ram.bufEndAddr)
      modify fun ram =>
        { ram with
          pbPool := Function.update ram.pbPool buffer
            (Function.update (ram.pbPool buffer) (addr - ram.bufStartAddr) sector)
          sectorWritten := Function.update ram.sectorWritten (addr - ram.bufStartAddr) true }

/-- The branch of `BUF_GetPage` that merges, watched. -/
def mergePage (pageAddr : Nat) : Watched S (Option Nat) := do
  let ram ← get
  Code.assert (ram.mergeBuffer = none)
  let buffer ← allocate g faults []
  match buffer, ram.writeBuffer with
  | some merge, some new => do
      let (ret, old) ← ftlRead pageAddr
      modify fun ram => { ram with pbPool := Function.update ram.pbPool merge old }
      if ret = .success then
        modify fun ram =>
          { ram with
            pbPool := Function.update ram.pbPool merge
              (merged g ram.sectorWritten (ram.pbPool new) (ram.pbPool merge)) }
      free g faults new
      modify fun ram => { ram with writeBuffer := none, mergeBuffer := none }
      pure (some merge)
  | _, _ => Code.halt .undefined

/-- `BUF_GetPage`, watched. -/
def getPage : Watched S (Nat × Option Nat) := do
  let ram ← get
  let pageAddr := ram.bufStartAddr / g.sectorPerMpp
  Code.assert (ram.bufStartAddr ≠ invalidLsaddr)
  let needMerge := (List.range g.sectorPerMpp).any fun i => !ram.sectorWritten i
  let buffer ←
    if needMerge then mergePage g faults pageAddr
    else do
      modify fun ram => { ram with writeBuffer := none }
      pure ram.writeBuffer
  modify fun ram =>
    { ram with
      bufStartAddr := invalidLsaddr
      bufEndAddr := invalidLsaddr
      sectorWritten := fun i => if i < g.sectorPerMpp then false else ram.sectorWritten i }
  let ram ← get
  if ram.writeBuffer = none then do
    let next ← allocate g faults buffer.toList
    modify fun ram => { ram with writeBuffer := next }
  pure (pageAddr, buffer)

/-! ## Reading and writing -/

/-- `onfm_read_sector`, watched. -/
def onfmReadSector (sectorAddr : Nat) : Watched S (Int × Option S) := do
  let ram ← get
  let ret ←
    if ram.readBufferStartSector ≤ sectorAddr ∧
        sectorAddr < g.behindPage ram.readBufferStartSector then
      pure .success
    else do
      let pageAddr := sectorAddr / g.sectorPerMpp
      let (ret, content) ← ftlRead pageAddr
      modify fun ram => { ram with onfmReadBuffer := content }
      if ret = .success then
        modify fun ram => { ram with readBufferStartSector := pageAddr * g.sectorPerMpp }
      pure ret
  let ram ← get
  if ret = .success then
    pure (0, some (ram.onfmReadBuffer (sectorAddr - ram.readBufferStartSector)))
  else do
    modify fun ram => { ram with readBufferStartSector := invalidLsaddr }
    pure (-1, none)

/-- The loop of `ONFM_Read`, watched. -/
def onfmReadSectors (sectorAddr : Nat) : List Nat → Int → (Nat → S) → Watched S (Int × (Nat → S))
  | [], ret, sectorData => pure (ret, sectorData)
  | i :: rest, ret, sectorData =>
      if ret = 0 then do
        let (ret, sector) ← onfmReadSector g (sectorAddr + i)
        onfmReadSectors sectorAddr rest ret
          (match sector with
          | some sector => Function.update sectorData i sector
          | none => sectorData)
      else onfmReadSectors sectorAddr rest ret sectorData

/-- `ONFM_Read`, watched. -/
def onfmRead (sectorAddr sectorCount : Nat) (sectorData : Nat → S) :
    Watched S (Int × (Nat → S)) := do
  let (ret, sectorData) ←
    if sectorAddr % g.sectorPerMpp = 0 ∧ sectorCount = g.sectorPerMpp then do
      let (status, content) ← ftlRead (sectorAddr / g.sectorPerMpp)
      pure (if status = .success then (0 : Int) else -1,
        fun i => if i < g.sectorPerMpp then content i else sectorData i)
    else onfmReadSectors g sectorAddr (List.range sectorCount) 0 sectorData
  Code.assert (ret = 0)
  pure (ret, sectorData)

/-- `onfm_write_sector`, watched. -/
def onfmWriteSector (sectorAddr : Nat) (sectorData : Option S) : Watched S Int := do
  let ram ← get
  let start := startOf g sectorAddr
  let ret ←
    if ram.startingSector = invalidLsaddr then
      match sectorData with
      | some sector => do
          modify fun ram => { ram with startingSector := start }
          putSector g sectorAddr sector
          pure .success
      | none => pure .success
    else
      match sectorData, decide (ram.startingSector ≤ sectorAddr ∧
          sectorAddr < g.behindPage ram.startingSector) with
      | some sector, true => do
          putSector g sectorAddr sector
          pure .success
      | _, _ => do
          Code.assert (sectorData.isNone ∨ sectorAddr = g.behindPage ram.startingSector)
          let (pageAddr, buffer) ← getPage g faults
          match buffer with
          | none => Code.halt .undefined
          | some buffer => do
              let ram ← get
              let ret ← ftlWrite pageAddr (.pool buffer) (ram.pbPool buffer)
              if ret = .success then
                match sectorData with
                | some sector => do
                    modify fun ram => { ram with startingSector := start }
                    putSector g sectorAddr sector
                | none => do
                    Code.assert (sectorAddr = invalidLsaddr)
                    modify fun ram => { ram with startingSector := invalidLsaddr }
              pure ret
  pure (if ret = .success then 0 else -1)

/-- The loop of `ONFM_Write`, watched. -/
def onfmWriteSectors (sectorAddr : Nat) (sectorData : Nat → S) : List Nat → Watched S Int
  | [] => pure 0
  | i :: rest => do
      let ret ← onfmWriteSector g faults (sectorAddr + i) (some (sectorData i))
      if ret = 0 then onfmWriteSectors sectorAddr sectorData rest else pure ret

/-- `ONFM_Write`, watched. -/
def onfmWrite (sectorAddr sectorCount : Nat) (sectorData : Nat → S) : Watched S Int := do
  modify fun ram => { ram with readBufferStartSector := invalidLsaddr }
  if sectorAddr % g.sectorPerMpp = 0 ∧ sectorCount = g.sectorPerMpp then do
    let status ← ftlWrite (sectorAddr / g.sectorPerMpp) .host sectorData
    pure (if status = .success then 0 else -1)
  else do
    let ret ← onfmWriteSectors g faults sectorAddr sectorData (List.range sectorCount)
    if ret = 0 then onfmWriteSector g faults invalidLsaddr none else pure ret

/-- A call, as the watched code answers it. -/
def onfmCall : OnfmCall S → Watched S (OnfmAnswer S)
  | .write addr count data => do
      let ret ← onfmWrite g faults addr count data
      pure (.written ret)
  | .read addr count data => do
      let (ret, data) ← onfmRead g addr count data
      pure (.filled ret data)

end Functions

/-! ## The FTL with the marks of the pool -/

section Device

variable {S : Type} [Zero S]

/-- The device with the marks of the pool: a buffer is released when it is handed back. -/
def device (g : Geometry) (faults : PoolFaults S) (oracle : DeviceOracle (Nat → S)) :
    Machine (MtdOp (UbiBuffer (Ftl.FtlPage (Nat → S)))) (MtdAns (UbiBuffer (Ftl.FtlPage (Nat → S))))
      (DeviceCalls (Nat → S) × (Nat → Bool))
  | (calls, used), op =>
      match op.freed with
      | none => .ok (oracle calls op, ⟨op, oracle calls op⟩ :: calls, used)
      | some buffer =>
          match freed g faults used buffer with
          | .ok used => .ok (oracle calls op, ⟨op, oracle calls op⟩ :: calls, used)
          | .error reason => .error reason

/-- The FTL over the UBI layer, on the device with the marks of the pool. -/
def machine (l : Ftl.Layout) (fuel : Nat) (oracle : DeviceOracle (Nat → S))
    (bytes : Ftl.FtlPage (Nat → S) → Nat → S) (faults : PoolFaults S) :
    Machine (PoolOp S) (PoolAns S) (Stack S)
  | stack, .read page used =>
      match (stack.program l.g fuel l.g.bufferCount (Ftl.ftlRead l fuel page)).exec
        (device l.g faults oracle) (stack.calls, used) with
      | .ok (((answer, ftl), ubi), calls, used) =>
          .ok (((answer.1, bytes answer.2), used), ⟨ftl, ubi, calls⟩)
      | .error reason => .error reason
  | stack, .write page source content used =>
      match (stack.program l.g fuel (source.address l.g)
        (Ftl.ftlWrite l fuel page (some content))).exec (device l.g faults oracle)
        (stack.calls, used) with
      | .ok (((ret, ftl), ubi), calls, used) => .ok ((ret, used), ⟨ftl, ubi, calls⟩)
      | .error reason => .error reason
  | stack, .held => .ok (heldBuffers l.g stack.ubi, stack)

end Device

end Watched

end OpenNfm
