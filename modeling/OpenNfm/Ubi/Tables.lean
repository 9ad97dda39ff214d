import OpenNfm.Mtd.Interface

/-!
# Tables and static variables of the UBI layer

The three tables of `ubi_inc.h`, the pages that hold them, the static
variables of the layer, and the functions of `ubi_table.c` that append a table
to a block and find the last one.

An array of the source is a function on its index.  A block number and the
erase count that the source keeps beside it in a parallel array are one
record.
-/

namespace OpenNfm

open OpenNfm.Program

/-- A block with its erase count: an entry of an area table, of the free block
table or of the area index table. -/
structure BlockEc where
  block : Nat
  ec : EraseCount
  deriving DecidableEq

/-- An entry that holds no block. -/
def BlockEc.invalid : BlockEc := ⟨invalidBlock, invalidEc⟩

/-- The update of an area table that the index table announces. -/
structure AreaUpdatePlr where
  logicalBlock : Nat
  physicalBlock : Nat
  blockEc : EraseCount
  deriving DecidableEq

/-- `INDEX_TABLE` -/
structure IndexTable where
  areaIndex : Nat → BlockEc
  free : Nat → BlockEc
  areaUpdatePlr : AreaUpdatePlr

/-- An area table maps the blocks of its area. -/
abbrev AreaTable := Nat → BlockEc

/-- `ANCHOR_TABLE` -/
structure AnchorTable where
  indexNewBlock : Nat
  indexNewEc : EraseCount
  indexOldBlock : Nat
  indexOldEc : EraseCount
  previousAnchorBlock : Nat
  totalDataBlock : Nat
  swlCurrentArea : Nat
  oath : List Nat
  version : Nat
  badBlockTable : Nat → Nat

/-- The bytes of `ANCHOR_OATH` that are compared. -/
def anchorOath : List Nat :=
  ['I', ' ', 'L', 'O', 'V', 'E', ' ', 'W', 'S', 'S', '!'].map Char.toNat

/-- `ANCHOR_VERSION` -/
def anchorVersion : Nat := 123

/-- The index table after `memset` with ones. -/
def IndexTable.blank : IndexTable where
  areaIndex _ := .invalid
  free _ := .invalid
  areaUpdatePlr := ⟨invalidBlock, invalidBlock, invalidEc⟩

/-- The area table after `memset` with ones. -/
def AreaTable.blank : AreaTable := fun _ => .invalid

/-- The anchor table after `memset` with ones. -/
def AnchorTable.blank : AnchorTable where
  indexNewBlock := invalidBlock
  indexNewEc := invalidEc
  indexOldBlock := invalidBlock
  indexOldEc := invalidEc
  previousAnchorBlock := invalidBlock
  totalDataBlock := invalidBlock
  swlCurrentArea := invalidArea
  oath := List.replicate 11 255
  version := allOnes
  badBlockTable _ := invalidBlock

/-- The content of a page buffer: one of the tables, a page `D` of the layer
above, or the pattern of erased flash. -/
inductive UbiBuffer (D : Type) where
  | ones
  | index (table : IndexTable)
  | area (table : AreaTable)
  | anchor (table : AnchorTable)
  | data (page : D)

/-- An erased page reads as ones. -/
instance {D : Type} : PageContent (UbiBuffer D) := ⟨.ones⟩

/-- A page buffer of the caller: its address and its content. -/
structure Buffer (D : Type) where
  address : Nat
  content : UbiBuffer D

/-- The page that was last programmed without waiting for the result. -/
structure DieHoldPage (D : Type) where
  logBlock : Nat
  phyBlock : Nat
  ec : EraseCount
  page : Nat
  buffer : Option (Buffer D)
  spare : Spare

/-- The static variables of the UBI layer. -/
structure UbiRam (D : Type) where
  indexTable : IndexTable
  indexBlock : Nat
  indexBlockEc : EraseCount
  indexNextPage : Nat
  isUpdatingArea : Bool
  areaOffsetTable : Nat → Nat
  cachedAreaTable : AreaTable
  cachedAreaNumber : Nat
  anchorTable : AnchorTable
  anchorBlock : Nat
  anchorNextPage : Nat
  diceHold : Nat → DieHoldPage D

/-- The static variables at power-on. -/
def UbiRam.reset (D : Type) : UbiRam D where
  indexTable := ⟨fun _ => ⟨0, (0 : Nat)⟩, fun _ => ⟨0, (0 : Nat)⟩, ⟨0, 0, (0 : Nat)⟩⟩
  indexBlock := 0
  indexBlockEc := (0 : Nat)
  indexNextPage := 0
  isUpdatingArea := false
  areaOffsetTable _ := 0
  cachedAreaTable _ := ⟨0, (0 : Nat)⟩
  cachedAreaNumber := 0
  anchorTable := ⟨0, (0 : Nat), 0, (0 : Nat), 0, 0, 0, List.replicate 11 0, 0, fun _ => 0⟩
  anchorBlock := 0
  anchorNextPage := 0
  diceHold _ := ⟨0, 0, (0 : Nat), 0, none, ⟨0, 0⟩⟩

/-- Code of the UBI layer. -/
abbrev Ubi (D α : Type) := MtdCode (UbiRam D) (UbiBuffer D) α

section TableFile

variable (g : Geometry) {D : Type}

/-- Append a table to a block, with the footprint in its spare area. -/
def tableWrite (block : Nat) (page : Nat) (buffer : UbiBuffer D) : Ubi D Status := do
  let ret ← mtdProgram block page buffer (some ⟨0, 0⟩)
  if ret = .success then mtdWaitReady block else pure ret

/-- Binary search for the last page with a footprint between `head` and
`tail`.  The interval shrinks in every round. -/
def tableSearch (block : Nat) : Nat → Nat → Nat → Ubi D Nat
  | 0, _, _ => Code.halt .fuel
  | rounds + 1, head, tail => do
      let mid := (head + tail) / 2
      if mid ≠ head ∧ mid ≠ tail then
        let answer ← mtdRead block mid
        if answer.status = .success ∧ answer.spare.first ≠ allOnes then
          tableSearch block rounds mid tail
        else
          -- an empty page, or a page that a power loss left unreadable
          tableSearch block rounds head mid
      else
        Code.assert (tail = head ∨ tail = head + 1)
        pure mid

/-- Read the table at `page`, or the last one when `page` is `INVALID_PAGE`.
Hands back the status, the page it is on and what the buffer holds. -/
def tableRead (block : Nat) (page : Nat) :
    Ubi D (Status × Nat × UbiBuffer D) := do
  let mid ←
    if page ≠ invalidPage then tableSearch block 1 page page
    else tableSearch block (g.pagePerPhyBlock + 1) 0 g.pagePerPhyBlock
  let answer ← mtdRead block mid
  if answer.status = .success then
    if answer.spare.first = allOnes then pure (.failure, invalidPage, answer.main)
    else pure (.success, mid, answer.main)
  else pure (answer.status, invalidPage, answer.main)

/-! A page read into the memory of a table.  Bytes of another kind of page are
not given a meaning. -/

/-- The bytes of a page as an index table. -/
def loadIndex : UbiBuffer D → Ubi D IndexTable
  | .index table => pure table
  | .ones => pure .blank
  | _ => Code.halt .undefined

/-- The bytes of a page as an area table. -/
def loadArea : UbiBuffer D → Ubi D AreaTable
  | .area table => pure table
  | .ones => pure .blank
  | _ => Code.halt .undefined

/-- The bytes of a page as an anchor table. -/
def loadAnchor : UbiBuffer D → Ubi D AnchorTable
  | .anchor table => pure table
  | .ones => pure .blank
  | _ => Code.halt .undefined

end TableFile

end OpenNfm
