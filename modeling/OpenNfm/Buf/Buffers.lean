import OpenNfm.Onfm.Interface

/-!
# Page buffers

`buf_api.c`: a pool of page buffers, and the write buffer that collects the
sectors of one page.  `BUF_GetPage` hands the collected page out for writing;
when some of its sectors are missing it merges them into the old page first.
-/

namespace OpenNfm.Buf

open OpenNfm.Program

section BufFile

variable (g : Geometry) {S : Type}

/-- The first unused buffer, taken from the two halves of the pool in turn. -/
def allocateFrom (used : Nat → Bool) : List Nat → Option Nat
  | [] => none
  | i :: rest =>
      if used i = false then some i
      else if used (i + g.bufferCount / 2) = false then some (i + g.bufferCount / 2)
      else allocateFrom used rest

/-- `BUF_Allocate`, from the first half of the pool. -/
def allocate : Onfm S (Option Nat) := do
  let ram ← get
  match allocateFrom g ram.pbPoolUsed (List.range (g.bufferCount / 2)) with
  | some buffer => do
      modify fun ram => { ram with pbPoolUsed := Function.update ram.pbPoolUsed buffer true }
      pure (some buffer)
  | none => pure none

/-- Releasing memory outside the pool does nothing. -/
def free (buffer : Nat) : Onfm S Unit :=
  if buffer < g.bufferCount then do
    let ram ← get
    Code.assert (ram.pbPoolUsed buffer = true)
    modify fun ram => { ram with pbPoolUsed := Function.update ram.pbPoolUsed buffer false }
  else pure ()

/-- `FTL_Read` releases buffers through `BUF_Free`. -/
def ftlRead (page : Nat) : Onfm S (Status × (Nat → S)) := do
  let (ret, content, released) ← Code.perform (FtlOp.read page)
  released.forM (free g)
  pure (ret, content)

/-- `BUF_Init` -/
def init : Onfm S Unit := do
  modify fun ram =>
    { ram with
      bufStartAddr := invalidLsaddr
      bufEndAddr := invalidLsaddr
      pbPoolUsed := fun i => if i < g.bufferCount then false else ram.pbPoolUsed i
      sectorWritten := fun i => if i < g.sectorPerMpp then false else ram.sectorWritten i }
  let buffer ← allocate g
  modify fun ram => { ram with writeBuffer := buffer, mergeBuffer := none }

/-- The first sector of the page of a sector. -/
def startOf (addr : Nat) : Nat := addr / g.sectorPerMpp * g.sectorPerMpp

/-- `BUF_PutSector` -/
def putSector (addr : Nat) (sector : S) : Onfm S Unit := do
  let ram ← get
  match ram.writeBuffer with
  | none => Code.halt .assertion
  | some buffer => do
      if ram.bufEndAddr = invalidLsaddr then
        modify fun ram =>
          { ram with
            bufStartAddr := startOf g addr
            bufEndAddr := startOf g addr + (g.sectorPerMpp - 1) }
      let ram ← get
      -- a flush must come between two pages
      Code.assert (ram.bufStartAddr ≤ addr ∧ addr ≤ ram.bufEndAddr)
      modify fun ram =>
        { ram with
          pbPool := Function.update ram.pbPool buffer
            (Function.update (ram.pbPool buffer) (addr - ram.bufStartAddr) sector)
          sectorWritten := Function.update ram.sectorWritten (addr - ram.bufStartAddr) true }

/-- The page that is written: its new sectors over its old ones. -/
def merged (written : Nat → Bool) (new old : Nat → S) : Nat → S :=
  fun i => if written i && decide (i < g.sectorPerMpp) then new i else old i

/-- Merge the collected sectors into the old page, in another buffer. -/
def mergePage (pageAddr : Nat) : Onfm S (Option Nat) := do
  let ram ← get
  Code.assert (ram.mergeBuffer = none)
  let buffer ← allocate g
  match buffer, ram.writeBuffer with
  | some merge, some new => do
      let (ret, old) ← ftlRead g pageAddr
      modify fun ram => { ram with pbPool := Function.update ram.pbPool merge old }
      if ret = .success then
        modify fun ram =>
          { ram with
            pbPool := Function.update ram.pbPool merge
              (merged g ram.sectorWritten (ram.pbPool new) (ram.pbPool merge)) }
      free g new
      modify fun ram => { ram with writeBuffer := none, mergeBuffer := none }
      pure (some merge)
  | _, _ => Code.halt .undefined

/-- Hand out the collected page and prepare for the sectors that follow. -/
def getPage : Onfm S (Nat × Option Nat) := do
  let ram ← get
  let pageAddr := ram.bufStartAddr / g.sectorPerMpp
  Code.assert (ram.bufStartAddr ≠ invalidLsaddr)
  let needMerge := (List.range g.sectorPerMpp).any fun i => !ram.sectorWritten i
  let buffer ←
    if needMerge then mergePage g pageAddr
    else do
      modify fun ram => { ram with writeBuffer := none }
      pure ram.writeBuffer
  modify fun ram =>
    { ram with
      bufStartAddr := invalidLsaddr
      bufEndAddr := invalidLsaddr
      sectorWritten := fun i => if i < g.sectorPerMpp then false else ram.sectorWritten i }
  let ram ← get
  if ram.writeBuffer = none then do
    let next ← allocate g
    modify fun ram => { ram with writeBuffer := next }
  pure (pageAddr, buffer)

end BufFile

end OpenNfm.Buf
