import OpenNfm.Mtd.Interface
import OpenNfm.Program.Spec

/-!
# The UBI layer as the FTL sees it

The functions of `ubi_api.c` are the operations of an interface.  The tables of the FTL
are pages of log blocks, next to the data pages of the callers.

`storeMachine` is a correct store of erasable log blocks: a page is written once after
each erase of its block, and a page that is not written cannot be read.
-/

namespace OpenNfm.Ftl

open OpenNfm.Program

/-! ## Words that hold a block and a page -/

namespace PmNode

variable (g : Geometry)

/-- `PM_NODE_IS_CACHED`: the word is an address in memory. -/
def isCached (word : Nat) : Bool := word % 2 = 0

/-- `PM_NODE_IS_DIRTY` -/
def isDirty (word : Nat) : Bool := word / 2 % 2 = 1

/-- `PM_NODE_ADDRESS` -/
def address (word : Nat) : Nat := word / 4 * 4

/-- `PM_NODE_BLOCK` -/
def block (word : Nat) : Nat := word / 4 / g.pagePerPhyBlock

/-- `PM_NODE_PAGE` -/
def page (word : Nat) : Nat := word / 4 % g.pagePerPhyBlock

/-- `PM_NODE_SET_DIRTY` -/
def setDirty (word : Nat) : Nat := word ||| 2

/-- `PM_NODE_SET_BLOCKPAGE` -/
def setBlockPage (block page : Nat) : Nat :=
  ((block * g.pagePerPhyBlock + page) * 4 + 1) % 2 ^ 32

/-- `INVALID_PM_NODE` -/
def invalid : Nat := allOnes

end PmNode

/-! ## Pages -/

/-- The root table. -/
structure Root where
  hotJournal : Nat → Nat
  coldJournal : Nat → Nat
  reclaimJournal : Nat → Nat
  pmtCurrentBlock : Nat
  pmtReclaimBlock : Nat
  hdiCurrentJournal : Nat
  bdtCurrentJournal : Nat
  rootCurrentJournal : Nat
  rootEdition : Nat
  pageMappingNodes : Nat → Nat

/-- The root table with all bits set. -/
def Root.blank : Root where
  hotJournal _ := allOnes
  coldJournal _ := allOnes
  reclaimJournal _ := allOnes
  pmtCurrentBlock := allOnes
  pmtReclaimBlock := allOnes
  hdiCurrentJournal := allOnes
  bdtCurrentJournal := allOnes
  rootCurrentJournal := allOnes
  rootEdition := allOnes
  pageMappingNodes _ := allOnes

/-- What the FTL writes to a page: its tables, the spare areas or clusters of the pages
of a block, or a data page. -/
inductive FtlPage (D : Type) where
  | ones
  | root (table : Root)
  | dirtyCounts (counts : Nat → Nat)
  | hotHash (values : Nat → Nat)
  | node (words : Nat → Nat)
  | clusters (table : Nat → Nat)
  | spares (table : Nat → Spare)
  | data (page : D)

/-- An erased page reads as ones. -/
instance {D : Type} : PageContent (FtlPage D) := ⟨.ones⟩

/-! ## Calls -/

/-- The functions of the UBI layer. -/
inductive UbiOp (D : Type) where
  | format
  | init
  | read (block page : Nat)
  | write (block page : Nat) (main : FtlPage D) (spare : Option Spare) (async : Bool)
  | erase (block dieIndex : Nat)
  | flush
  | swl
  | readStatus (block : Nat)

/-- What each operation answers. -/
abbrev UbiAns (D : Type) : UbiOp D → Type
  | .format => Status
  | .init => Status
  | .read _ _ => ReadAnswer (FtlPage D)
  | .write _ _ _ _ _ => Status
  | .erase _ _ => Status
  | .flush => Status
  | .swl => Status
  | .readStatus _ => Status

/-- The static variables of the FTL layer. -/
structure FtlRam where
  rootTable : Root
  rootCurrentBlock : Nat
  rootCurrentPage : Nat
  rootEdition : Nat
  bdtCurrentBlock : Nat
  bdtCurrentPage : Nat
  blockDirtyTable : Nat → Nat
  hdiHashTable : Nat → Nat
  hdiCurrentPage : Nat
  hdiCurrentBlock : Nat
  hdiCount : Nat
  pmNodeCaches : Nat → Nat → Nat
  pmCacheOriginLocation : Nat → Nat
  pmCacheCluster : Nat → Nat
  metaData : Nat → Nat
  editionInHotJournal : Nat
  editionInColdJournal : Nat
  hotMetaData : Nat → Nat → Spare
  coldMetaData : Nat → Nat → Spare

/-- The root table when the power comes on. -/
def Root.reset : Root where
  hotJournal _ := 0
  coldJournal _ := 0
  reclaimJournal _ := 0
  pmtCurrentBlock := 0
  pmtReclaimBlock := 0
  hdiCurrentJournal := 0
  bdtCurrentJournal := 0
  rootCurrentJournal := 0
  rootEdition := 0
  pageMappingNodes _ := 0

/-- The static variables when the power comes on. -/
def FtlRam.reset : FtlRam where
  rootTable := .reset
  rootCurrentBlock := 0
  rootCurrentPage := 0
  rootEdition := 0
  bdtCurrentBlock := 0
  bdtCurrentPage := 0
  blockDirtyTable _ := 0
  hdiHashTable _ := 0
  hdiCurrentPage := 0
  hdiCurrentBlock := 0
  hdiCount := 0
  pmNodeCaches _ _ := 0
  pmCacheOriginLocation _ := 0
  pmCacheCluster _ := 0
  metaData _ := 0
  editionInHotJournal := 0
  editionInColdJournal := 0
  hotMetaData _ _ := ⟨0, 0⟩
  coldMetaData _ _ := ⟨0, 0⟩

/-- Code of the FTL layer. -/
abbrev FtlCode (D α : Type) := Code FtlRam (UbiOp D) (UbiAns D) α

section Calls

variable {D : Type}

/-- `UBI_Format`, as the FTL calls it. -/
def ubiFormat : FtlCode D Status :=
  Code.perform UbiOp.format

/-- `UBI_Init`, as the FTL calls it. -/
def ubiInit : FtlCode D Status :=
  Code.perform UbiOp.init

/-- `UBI_Read`, as the FTL calls it. -/
def ubiRead (block page : Nat) : FtlCode D (ReadAnswer (FtlPage D)) :=
  Code.perform (UbiOp.read block page)

/-- `UBI_Write`, as the FTL calls it. -/
def ubiWrite (block page : Nat) (main : FtlPage D) (spare : Option Spare) (async : Bool) :
    FtlCode D Status :=
  Code.perform (UbiOp.write block page main spare async)

/-- `UBI_Erase`, as the FTL calls it. -/
def ubiErase (block dieIndex : Nat) : FtlCode D Status :=
  Code.perform (UbiOp.erase block dieIndex)

/-- `UBI_Flush`, as the FTL calls it. -/
def ubiFlush : FtlCode D Status :=
  Code.perform UbiOp.flush

/-- `UBI_SWL`, as the FTL calls it. -/
def ubiSwl : FtlCode D Status :=
  Code.perform UbiOp.swl

/-- `UBI_ReadStatus`, as the FTL calls it. -/
def ubiReadStatus (block : Nat) : FtlCode D Status :=
  Code.perform (UbiOp.readStatus block)

/-- Go on only after a success, and hand back another status as it is. -/
def onSuccess (ret : Status) (rest : FtlCode D Status) : FtlCode D Status :=
  if ret = .success then rest else pure ret

theorem onSuccess_success (rest : FtlCode D Status) : onSuccess .success rest = rest :=
  if_pos rfl

theorem onSuccess_other {ret : Status} (failed : ret ≠ .success) (rest : FtlCode D Status) :
    onSuccess ret rest = pure ret :=
  if_neg failed

/-! A page read into the memory of a table.  Bytes of another kind of page are not given
a meaning. -/

/-- The bytes of a page as the root table. -/
def loadRoot : FtlPage D → FtlCode D Root
  | .root table => pure table
  | .ones => pure .blank
  | _ => Code.halt .undefined

/-- The bytes of a page as dirty page counts. -/
def loadDirtyCounts : FtlPage D → FtlCode D (Nat → Nat)
  | .dirtyCounts counts => pure counts
  | .ones => pure fun _ => 0xff
  | _ => Code.halt .undefined

/-- The bytes of a page as the hash table of the hot data. -/
def loadHotHash : FtlPage D → FtlCode D (Nat → Nat)
  | .hotHash values => pure values
  | .ones => pure fun _ => 0xff
  | _ => Code.halt .undefined

/-- The bytes of a page as the words of a node. -/
def loadNode : FtlPage D → FtlCode D (Nat → Nat)
  | .node words => pure words
  | .ones => pure fun _ => allOnes
  | _ => Code.halt .undefined

/-- The bytes of a page as the clusters of a block. -/
def loadClusters : FtlPage D → FtlCode D (Nat → Nat)
  | .clusters table => pure table
  | .ones => pure fun _ => allOnes
  | _ => Code.halt .undefined

/-- The bytes of a page as the spares of a block. -/
def loadSpares : FtlPage D → FtlCode D (Nat → Spare)
  | .spares table => pure table
  | .ones => pure fun _ => .ones
  | _ => Code.halt .undefined

end Calls

/-! ## The store -/

/-- What is written in each page since the last erase of its block, all writes so far,
and the answers that coming status polls give. -/
structure UbiStore (D : Type) where
  pages : Nand (FtlPage D)
  history : List (Nat × Nat × Page (FtlPage D))
  polls : List Status

namespace UbiStore

variable {D : Type}

/-- The erased device, whose dice are ready. -/
def erased : UbiStore D := ⟨fun _ _ => none, [], []⟩

/-- The store behind a write. -/
def write (store : UbiStore D) (block page : Nat) (content : Page (FtlPage D)) : UbiStore D :=
  { store with
    pages := store.pages.program block page content
    history := (block, page, content) :: store.history }

/-- The store behind an erase. -/
def erase (store : UbiStore D) (block : Nat) : UbiStore D :=
  { store with pages := store.pages.erase block }

end UbiStore

/-- The store of `capacity` log blocks.  Once the answers to polls are used up every die is
ready. -/
def storeMachine (g : Geometry) (capacity : Nat) {D : Type} :
    Machine (UbiOp D) (UbiAns D) (UbiStore D)
  | store, .format => .ok (.success, store)
  | store, .init => .ok (.success, store)
  | store, .read block page =>
      if block < capacity ∧ page < g.pagePerPhyBlock then
        .ok (store.pages.answer block page, store)
      else .error .assertion
  | store, .write block page main spare _ =>
      if block < capacity ∧ page < g.pagePerPhyBlock ∧ (store.pages block page).isNone then
        .ok (.success, store.write block page ⟨main, spare.getD .ones⟩)
      else .error .assertion
  | store, .erase block _ =>
      if block < capacity then .ok (.success, store.erase block) else .error .assertion
  | store, .flush => .ok (.success, store)
  | store, .swl => .ok (.success, store)
  | store, .readStatus block =>
      if block < capacity then
        match store.polls with
        | ret :: rest => .ok (ret, { store with polls := rest })
        | [] => .ok (.success, store)
      else .error .assertion

end OpenNfm.Ftl
