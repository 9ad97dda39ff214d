import OpenNfm.Ubi.Tables

/-!
# The anchor

`ubi_anchor.c`: the root of all other tables.  The anchor table is appended
to one block of a ring of reserved blocks and moves to the next good block of
the ring when that one is full.
-/

namespace OpenNfm

open OpenNfm.Program

section AnchorFile

variable (g : Geometry) (fuel : Nat) {D : Type}

/-! ## The bad block table -/

/-- Enter a block into the first free slot of the bad block table, unless it is
there already. -/
def logBadBlock (table : Nat → Nat) (block : Nat) : Nat → Nat :=
  match (List.range g.anchorBadblockCount).find? fun i =>
      table i = invalidBlock ∨ table i = block with
  | some i => Function.update table i block
  | none => table

/-- The bad block table has the block. -/
def isBadBlock (table : Nat → Nat) (block : Nat) : Bool :=
  (List.range g.anchorBadblockCount).any fun i => table i = block

/-- `ANCHOR_LogBadBlock` -/
def anchorLogBadBlock (block : Nat) : Ubi D Unit :=
  modify fun ram =>
    { ram with anchorTable :=
      { ram.anchorTable with
        badBlockTable := logBadBlock g ram.anchorTable.badBlockTable block } }

/-- `ANCHOR_IsBadBlock` -/
def anchorIsBadBlock (block : Nat) : Ubi D Bool := do
  let ram ← get
  pure (isBadBlock g ram.anchorTable.badBlockTable block)

/-! ## Writing the anchor -/

/-- One round after another of the search in `anchor_find_next_block`. -/
def anchorFindLoop (current : Nat) : Nat → Nat → Ubi D (Status × Nat)
  | 0, _ => Code.halt .fuel
  | rounds + 1, block => do
      let next := if block + 1 > g.anchorLastBlock then Geometry.anchorFirstBlock else block + 1
      let bad ← anchorIsBadBlock g next
      let ret ←
        if bad then pure .badblock
        else do
          let ret ← mtdErase next
          if ret ≠ .success then anchorLogBadBlock g next
          pure ret
      if ret ≠ .success ∧ next ≠ current then anchorFindLoop current rounds next
      else pure (ret, next)

/-- The next good block of the ring, or an error and the block itself. -/
def anchorFindNextBlock (current : Nat) : Ubi D (Status × Nat) := do
  let (ret, next) ← anchorFindLoop g current (g.anchorBlockCount + 1) current
  if next ≠ current then pure (ret, next) else pure (.failure, current)

/-- The loop of `ANCHOR_Update`. -/
def anchorUpdateLoop : Nat → Bool → Ubi D Status
  | 0, _ => Code.halt .fuel
  | rounds + 1, anchorReclaimed => do
      let ram ← get
      let (found, anchorReclaimed) ←
        if ram.anchorNextPage = g.pagePerPhyBlock then do
          modify fun ram =>
            { ram with anchorTable :=
              { ram.anchorTable with previousAnchorBlock := ram.anchorBlock } }
          let (ret, next) ← anchorFindNextBlock g ram.anchorBlock
          if ret = .success then
            modify fun ram => { ram with anchorBlock := next, anchorNextPage := 0 }
          pure (ret, true)
        else pure (.success, anchorReclaimed)
      if found ≠ .success then pure found
      else do
        let ram ← get
        let ret ← tableWrite ram.anchorBlock ram.anchorNextPage (.anchor ram.anchorTable)
        if ret = .success then do
          if anchorReclaimed then
            -- the block that held the anchor so far
            let _ ← mtdErase ram.anchorTable.previousAnchorBlock
          modify fun ram => { ram with anchorNextPage := ram.anchorNextPage + 1 }
          pure ret
        else do
          if ret = .badblock then
            modify fun ram => { ram with anchorNextPage := g.pagePerPhyBlock }
          anchorUpdateLoop rounds anchorReclaimed

/-- `ANCHOR_Update` -/
def anchorUpdate : Ubi D Status :=
  anchorUpdateLoop g fuel false

/-- `ANCHOR_IndexReclaim`: the anchor table names both index blocks. -/
def anchorIndexReclaim (indexCurrentBlock : Nat) (indexCurrentEc : EraseCount)
    (newItb : Nat) (newItbEc : EraseCount) : Ubi D Unit :=
  modify fun ram =>
    { ram with anchorTable :=
      { ram.anchorTable with
        indexNewBlock := newItb
        indexNewEc := newItbEc
        indexOldBlock := indexCurrentBlock
        indexOldEc := indexCurrentEc } }

/-! ## Format and mount -/

/-- Erase the good blocks of the ring. -/
def anchorFormatErase : List Nat → Ubi D Unit
  | [] => pure ()
  | block :: rest => do
      let bad ← anchorIsBadBlock g block
      if bad = false then
        let ret ← mtdErase block
        if ret ≠ .success then anchorLogBadBlock g block
      anchorFormatErase rest

/-- `ANCHOR_Format` -/
def anchorFormat (totalDataBlock : Nat) : Ubi D Status := do
  modify fun ram =>
    { ram with
      anchorBlock := Geometry.anchorFirstBlock
      anchorNextPage := 0
      anchorTable :=
        { ram.anchorTable with
          totalDataBlock := totalDataBlock
          previousAnchorBlock := invalidBlock
          swlCurrentArea := 0
          oath := anchorOath
          version := anchorVersion } }
  anchorFormatErase g (List.range' Geometry.anchorFirstBlock g.anchorBlockCount)
  anchorUpdate g fuel

/-- Where `ANCHOR_Init` has found an anchor so far: block, page, and the block
that the anchor says it replaces. -/
structure AnchorFound where
  block : Nat
  page : Nat
  previous : Nat
  deriving DecidableEq

/-- Scan the ring for the newest anchor.  At most two blocks hold one; the
older of two is erased. -/
def anchorInitScan : List Nat → Option AnchorFound → Ubi D (Option AnchorFound)
  | [], found => pure found
  | block :: rest, found => do
      -- is the first page of the block programmed at all?
      let (ret, _, _) ← tableRead g block 0
      let (ret, page) ←
        if ret = .success then do
          let (ret, page, buffer) ← tableRead g block invalidPage
          let table ← loadAnchor buffer
          modify fun ram => { ram with anchorTable := table }
          pure (ret, page)
        else pure (ret, 0)
      if ret = .success then do
        let ram ← get
        match found with
        | none =>
            anchorInitScan rest (some ⟨block, page, ram.anchorTable.previousAnchorBlock⟩)
        | some first => do
            let (newest, oldBlock) ←
              if first.previous = block then pure (first, block)
              else do
                Code.assert (first.block = ram.anchorTable.previousAnchorBlock)
                pure (⟨block, page, first.previous⟩, ram.anchorTable.previousAnchorBlock)
            if oldBlock ≠ invalidBlock then
              let ret ← mtdErase oldBlock
              if ret ≠ .success then anchorLogBadBlock g oldBlock
            pure (some newest)
      else anchorInitScan rest found

/-- `ANCHOR_Init` -/
def anchorInit : Ubi D Status := do
  modify fun ram => { ram with anchorTable := .blank, indexTable := .blank }
  let found ← anchorInitScan g (List.range' Geometry.anchorFirstBlock g.anchorBlockCount) none
  match found with
  | none => pure .failure
  | some newest => do
      modify fun ram => { ram with anchorBlock := newest.block, anchorNextPage := newest.page + 1 }
      let ram ← get
      if ram.anchorTable.totalDataBlock = invalidBlock ∨
          ram.anchorTable.version ≠ anchorVersion ∨ ram.anchorTable.oath ≠ anchorOath then
        -- just a valid bad block table
        pure .failure
      else pure .success

end AnchorFile

end OpenNfm
