import OpenNfm.Program.Ownership
import OpenNfm.Ubi.AnchorRing
import OpenNfm.Ubi.FreeList

/-!
# What the tables on the flash say

A logical block is mapped by the table of its area, unless the index table
announces an update of that very entry.  `Maps` relates an index table and the
area tables on the flash to the pages that the logical blocks hold, and says
that every physical block has one use.  The lemmas follow the steps of the
layer: each exchanges the block of one role with a free block.
-/

namespace OpenNfm

open OpenNfm.Program

variable {g : Geometry} {D : Type}

/-! ## Logical blocks -/

/-- Entries in use in the table of the last area. -/
def Geometry.lastAreaBlocks (g : Geometry) : Nat :=
  min (g.dataBlockCount - (g.dataFirstBlock + (g.areaCount - 1) * (g.cfgPhyBlockPerArea + 1)))
    g.cfgPhyBlockPerArea

/-- The number of logical blocks. -/
def Geometry.ubiCapacity (g : Geometry) : Nat :=
  (g.areaCount - 1) * g.cfgPhyBlockPerArea + g.lastAreaBlocks

theorem Geometry.Supported.areaCount_pos (supported : g.Supported) : 0 < g.areaCount := by
  rw [← supported.areas]
  have := supported.data
  exact Nat.div_pos (by omega) (Nat.succ_pos _)

theorem areaIndex_lt (supported : g.Supported) {block : Nat} (inRange : block < g.ubiCapacity) :
    g.areaIndex block < g.areaCount := by
  have pos := supported.areaCount_pos
  have last : g.lastAreaBlocks ≤ g.cfgPhyBlockPerArea := Nat.min_le_right _ _
  have split : g.areaCount * g.cfgPhyBlockPerArea =
      (g.areaCount - 1) * g.cfgPhyBlockPerArea + g.cfgPhyBlockPerArea := by
    rw [← Nat.succ_mul, Nat.succ_eq_add_one, Nat.sub_add_cancel pos]
  unfold Geometry.areaIndex
  rw [Nat.div_lt_iff_lt_mul supported.entries]
  unfold Geometry.ubiCapacity at inRange
  omega

theorem ubiCapacity_le (supported : g.Supported) : g.ubiCapacity ≤ g.cfgLogBlockCount := by
  have pos := supported.areaCount_pos
  have data := supported.data
  have reserve := supported.reserve
  have areas := supported.areas
  obtain ⟨n, count⟩ := Nat.exists_eq_succ_of_ne_zero pos.ne'
  have fits : n * (g.cfgPhyBlockPerArea + 1) ≤ g.dataBlockCount - g.dataFirstBlock := by
    have := Nat.div_mul_le_self (g.dataBlockCount - g.dataFirstBlock + g.cfgPhyBlockPerArea)
      (g.cfgPhyBlockPerArea + 1)
    rw [areas, count, Nat.succ_mul] at this
    omega
  have last : g.lastAreaBlocks ≤
      g.dataBlockCount - (g.dataFirstBlock + n * (g.cfgPhyBlockPerArea + 1)) := by
    have : g.areaCount - 1 = n := by omega
    unfold Geometry.lastAreaBlocks
    rw [this]
    exact Nat.min_le_left _ _
  unfold Geometry.ubiCapacity
  have : g.areaCount - 1 = n := by omega
  rw [this]
  rw [Nat.mul_add, Nat.mul_one] at fits last
  omega

theorem ubiCapacity_pos (supported : g.Supported) : 0 < g.ubiCapacity := by
  have pos := supported.areaCount_pos
  have data := supported.data
  have entries := supported.entries
  have areas := supported.areas
  obtain ⟨n, count⟩ := Nat.exists_eq_succ_of_ne_zero pos.ne'
  have fits : n * (g.cfgPhyBlockPerArea + 1) + 1 ≤ g.dataBlockCount - g.dataFirstBlock := by
    have := Nat.div_mul_le_self (g.dataBlockCount - g.dataFirstBlock + g.cfgPhyBlockPerArea)
      (g.cfgPhyBlockPerArea + 1)
    rw [areas, count, Nat.succ_mul] at this
    omega
  have : g.areaCount - 1 = n := by omega
  unfold Geometry.ubiCapacity Geometry.lastAreaBlocks
  rw [this]
  have some : 0 < min (g.dataBlockCount -
      (g.dataFirstBlock + n * (g.cfgPhyBlockPerArea + 1))) g.cfgPhyBlockPerArea :=
    lt_min (by omega) entries
  omega

/-- A logical block is determined by its area and its offset. -/
theorem logBlock_ext {block other : Nat} (area : g.areaIndex block = g.areaIndex other)
    (offset : g.blockOffsetArea block = g.blockOffsetArea other) : block = other := by
  unfold Geometry.areaIndex at area
  unfold Geometry.blockOffsetArea at offset
  rw [← Nat.div_add_mod block g.cfgPhyBlockPerArea,
    ← Nat.div_add_mod other g.cfgPhyBlockPerArea, area, offset]

/-! ## The mapping -/

/-- The pages of the logical blocks. -/
abbrev Store (D : Type) := Nand (UbiBuffer D)

/-- The tables beside the index table: the free blocks in order, the newest
table of each area, and the number of tables in the block of the area. -/
structure UbiView where
  free : List BlockEc
  tables : Nat → AreaTable
  next : Nat → Nat

/-- The entry of a logical block in the newest table of its area. -/
def rawEntry (g : Geometry) (view : UbiView) (block : Nat) : BlockEc :=
  view.tables (g.areaIndex block) (g.blockOffsetArea block)

/-- The entry that the index table announces. -/
def AreaUpdatePlr.entry (plr : AreaUpdatePlr) : BlockEc :=
  ⟨plr.physicalBlock, plr.blockEc⟩

/-- Where a logical block is: the announced entry overrides the area table. -/
def mapEntry (g : Geometry) (table : IndexTable) (view : UbiView) (block : Nat) : BlockEc :=
  if table.areaUpdatePlr.logicalBlock = block then table.areaUpdatePlr.entry
  else rawEntry g view block

/-- The physical block of each logical block. -/
def placeOf (g : Geometry) (table : IndexTable) (view : UbiView) : Nat → Nat :=
  fun block => (mapEntry g table view block).block

/-- The uses of a physical block. -/
inductive Role where
  | data (block : Nat)
  | area (area : Nat)
  | index
  deriving DecidableEq

/-- The role is one of the geometry. -/
def Role.Valid (g : Geometry) : Role → Prop
  | .data logBlock => logBlock < g.ubiCapacity
  | .area number => number < g.areaCount
  | .index => True

/-- The physical block of each role. -/
def holder (g : Geometry) (table : IndexTable) (view : UbiView) (indexBlock : Nat) : Role → Nat
  | .data block => (mapEntry g table view block).block
  | .area area => (table.areaIndex area).block
  | .index => indexBlock

/-- The blocks behind the ring. -/
def Usable (g : Geometry) (block : Nat) : Prop :=
  g.dataFirstBlock ≤ block ∧ block < g.cfgLogBlockCount

/-- Some logical block or some area table is in the block. -/
def InUse (g : Geometry) (table : IndexTable) (view : UbiView) (block : Nat) : Prop :=
  (∃ area < g.areaCount, (table.areaIndex area).block = block) ∨
    ∃ logBlock < g.ubiCapacity, (mapEntry g table view logBlock).block = block

/-- The index table and the area tables on the flash map the logical blocks to
the pages of `store`. -/
structure Maps (g : Geometry) (nand : Nand (UbiBuffer D)) (table : IndexTable)
    (indexBlock : Nat) (view : UbiView) (store : Store D) : Prop where
  free : FreeList g table.free view.free
  many : 1 < view.free.length
  areas : ∀ area < g.areaCount,
    TableLog g nand (table.areaIndex area).block (view.next area) (.area (view.tables area))
  areaEc : ∀ area < g.areaCount, (table.areaIndex area).ec ≠ invalidEc
  mapEc : ∀ block < g.ubiCapacity, (mapEntry g table view block).ec ≠ invalidEc
  unused : ∀ block, g.ubiCapacity ≤ block → g.areaIndex block < g.areaCount →
    rawEntry g view block = .invalid
  owned : Owned (Role.Valid g) (Usable g) (holder g table view indexBlock)
    (view.free.map BlockEc.block)
  content : ∀ block < g.ubiCapacity, ∀ page,
    nand (mapEntry g table view block).block page = store block page
  announced : table.areaUpdatePlr.logicalBlock = invalidBlock ∨
    table.areaUpdatePlr.logicalBlock < g.ubiCapacity

/-- The announced entry is in its area table, or the block of the area has room
for a table that contains it. -/
def Pending (g : Geometry) (table : IndexTable) (view : UbiView) : Prop :=
  table.areaUpdatePlr.logicalBlock ≠ invalidBlock →
    rawEntry g view table.areaUpdatePlr.logicalBlock = table.areaUpdatePlr.entry ∨
      view.next (g.areaIndex table.areaUpdatePlr.logicalBlock) < g.pagePerPhyBlock

/-- The announced entry is in its area table. -/
def Synced (g : Geometry) (table : IndexTable) (view : UbiView) : Prop :=
  table.areaUpdatePlr.logicalBlock ≠ invalidBlock →
    rawEntry g view table.areaUpdatePlr.logicalBlock = table.areaUpdatePlr.entry

theorem Synced.pending {table : IndexTable} {view : UbiView} (synced : Synced g table view) :
    Pending g table view :=
  fun announced => .inl (synced announced)

theorem Synced.congr {table table' : IndexTable} {view view' : UbiView}
    (synced : Synced g table view) (plr : table'.areaUpdatePlr = table.areaUpdatePlr)
    (tables : view'.tables = view.tables) : Synced g table' view' := by
  unfold Synced rawEntry at synced ⊢
  rw [plr, tables]
  exact synced

theorem Synced.mapEntry_eq {table : IndexTable} {view : UbiView} (synced : Synced g table view)
    {block : Nat} (proper : block ≠ invalidBlock) :
    mapEntry g table view block = rawEntry g view block := by
  unfold mapEntry
  split
  · rename_i same
    rw [← same, synced (same ▸ proper)]
  · rfl

theorem logBlock_proper (supported : g.Supported) {block : Nat}
    (inRange : block < g.ubiCapacity) : block ≠ invalidBlock := by
  have := ubiCapacity_le supported
  have := supported.blocksSmall
  rw [invalidBlock]
  omega

/-- The area table that contains the announced entry. -/
def enteredTable (g : Geometry) (view : UbiView) (plr : AreaUpdatePlr) : AreaTable :=
  Function.update (view.tables (g.areaIndex plr.logicalBlock))
    (g.blockOffsetArea plr.logicalBlock) plr.entry

/-- The view after a table with the announced entry is written, which makes it
the table number `next` of its block. -/
def UbiView.enter (g : Geometry) (view : UbiView) (plr : AreaUpdatePlr) (next : Nat) : UbiView :=
  { view with
    tables := Function.update view.tables (g.areaIndex plr.logicalBlock)
      (enteredTable g view plr)
    next := Function.update view.next (g.areaIndex plr.logicalBlock) next }

theorem rawEntry_enter (view : UbiView) (plr : AreaUpdatePlr) (next block : Nat) :
    rawEntry g (view.enter g plr next) block =
      if plr.logicalBlock = block then plr.entry else rawEntry g view block := by
  simp only [rawEntry, UbiView.enter, enteredTable]
  by_cases sameArea : g.areaIndex block = g.areaIndex plr.logicalBlock
  · rw [sameArea, Function.update_self]
    by_cases sameOffset : g.blockOffsetArea block = g.blockOffsetArea plr.logicalBlock
    · rw [sameOffset, Function.update_self, if_pos (logBlock_ext sameArea sameOffset).symm]
    · rw [Function.update_of_ne sameOffset, if_neg]
      rintro rfl
      exact sameOffset rfl
  · rw [Function.update_of_ne sameArea, if_neg]
    rintro rfl
    exact sameArea rfl

theorem mapEntry_enter (table : IndexTable) (view : UbiView) (next : Nat) :
    mapEntry g table (view.enter g table.areaUpdatePlr next) = mapEntry g table view := by
  funext block
  unfold mapEntry
  rw [rawEntry_enter]
  split <;> rfl

theorem placeOf_enter (table : IndexTable) (view : UbiView) (next : Nat) :
    placeOf g table (view.enter g table.areaUpdatePlr next) = placeOf g table view := by
  unfold placeOf
  rw [mapEntry_enter]

theorem synced_enter (table : IndexTable) (view : UbiView) (next : Nat) :
    Synced g table (view.enter g table.areaUpdatePlr next) := by
  intro _
  rw [rawEntry_enter, if_pos rfl]

/-- Exchanging a free block leaves as many free blocks. -/
theorem many_exchange {blocks blocks' : List BlockEc} {held block : Nat}
    (many : 1 < blocks.length) (isFree : block ∈ blocks.map BlockEc.block)
    (perm : (blocks'.map BlockEc.block).Perm (held :: (blocks.map BlockEc.block).erase block)) :
    1 < blocks'.length := by
  have length := perm.length_eq
  have erased := List.length_erase_of_mem isFree
  simp only [List.length_map, List.length_cons] at length erased
  omega

namespace Maps

variable {nand nand' : Nand (UbiBuffer D)} {table : IndexTable} {indexBlock : Nat}
  {view : UbiView} {store : Store D}

theorem some (maps : Maps g nand table indexBlock view store) : view.free ≠ [] :=
  List.ne_nil_of_length_pos (Nat.zero_lt_of_lt maps.many)

theorem not_inUse_free (maps : Maps g nand table indexBlock view store) {entry : BlockEc}
    (inside : entry ∈ view.free) : ¬ InUse g table view entry.block := by
  have isFree := List.mem_map_of_mem (f := BlockEc.block) inside
  rintro (⟨area, isArea, same⟩ | ⟨block, isBlock, same⟩) <;> rw [← same] at isFree
  · exact maps.owned.apart (.area area) isArea isFree
  · exact maps.owned.apart (.data block) isBlock isFree

theorem not_inUse_index (maps : Maps g nand table indexBlock view store) :
    ¬ InUse g table view indexBlock := by
  rintro (⟨area, isArea, same⟩ | ⟨block, isBlock, same⟩)
  · exact Role.noConfusion (maps.owned.injective (.area area) .index isArea trivial same)
  · exact Role.noConfusion (maps.owned.injective (.data block) .index isBlock trivial same)

theorem usable_of_inUse (maps : Maps g nand table indexBlock view store) {block : Nat}
    (inUse : InUse g table view block) : Usable g block := by
  rcases inUse with ⟨area, isArea, rfl⟩ | ⟨logBlock, isBlock, rfl⟩
  · exact maps.owned.held (.area area) isArea
  · exact maps.owned.held (.data logBlock) isBlock

theorem not_inUse_ring (maps : Maps g nand table indexBlock view store) {block : Nat}
    (inRing : g.InRing block) : ¬ InUse g table view block := by
  intro inUse
  have := (maps.usable_of_inUse inUse).1
  have := inRing.lt_data
  omega

theorem usable_free (maps : Maps g nand table indexBlock view store) {entry : BlockEc}
    (inside : entry ∈ view.free) : Usable g entry.block :=
  maps.owned.spare _ (List.mem_map_of_mem inside)

/-- The tables depend on the flash of the blocks in use only. -/
theorem frame (maps : Maps g nand table indexBlock view store)
    (same : ∀ block, InUse g table view block → nand' block = nand block) :
    Maps g nand' table indexBlock view store :=
  { maps with
    areas := fun area isArea => (maps.areas area isArea).frame (same _ (.inl ⟨area, isArea, rfl⟩))
    content := fun block isBlock page => by
      rw [same _ (.inr ⟨block, isBlock, rfl⟩)]
      exact maps.content block isBlock page }

/-- Erasing a block that is not in use. -/
theorem eraseUnused (maps : Maps g nand table indexBlock view store) {block : Nat}
    (notInUse : ¬ InUse g table view block) :
    Maps g (nand.erase block) table indexBlock view store :=
  maps.frame fun _ inUse =>
    funext fun page => nand.erase_other page fun same => notInUse (same ▸ inUse)

/-- Programming a block that is not in use. -/
theorem programUnused (maps : Maps g nand table indexBlock view store) {block : Nat}
    (page : Nat) (content : Page (UbiBuffer D)) (notInUse : ¬ InUse g table view block) :
    Maps g (nand.program block page content) table indexBlock view store :=
  maps.frame fun _ inUse =>
    funext fun other => nand.program_other page other content fun same => notInUse (same ▸ inUse)

/-! ## Exchanging blocks -/

/-- A logical block moves to a free block, which the index table announces. -/
theorem remap {free' : Nat → BlockEc} {blocks' : List BlockEc} {logBlock block : Nat}
    {ec : EraseCount}
    (maps : Maps g nand table indexBlock view store) (supported : g.Supported)
    (synced : Synced g table view) (isBlock : logBlock < g.ubiCapacity)
    (isFree : block ∈ view.free.map BlockEc.block) (proper : ec ≠ invalidEc)
    (list : FreeList g free' blocks')
    (perm : (blocks'.map BlockEc.block).Perm
      ((mapEntry g table view logBlock).block :: (view.free.map BlockEc.block).erase block))
    (same : ∀ other, InUse g table view other → nand' other = nand other) :
    Maps g nand'
      { table with free := free', areaUpdatePlr := ⟨logBlock, block, ec⟩ } indexBlock
      { view with free := blocks' } (Function.update store logBlock (nand' block)) := by
  have entries : ∀ other < g.ubiCapacity,
      mapEntry g { table with free := free', areaUpdatePlr := ⟨logBlock, block, ec⟩ }
        { view with free := blocks' } other =
      if logBlock = other then ⟨block, ec⟩ else mapEntry g table view other := by
    intro other isOther
    rw [synced.mapEntry_eq (logBlock_proper supported isOther)]
    rfl
  have framed := maps.frame same
  refine
    { free := list, many := many_exchange maps.many isFree perm, areas := framed.areas,
      areaEc := maps.areaEc, mapEc := ?_,
      unused := maps.unused, owned := ?_, content := ?_, announced := .inr isBlock }
  · intro other isOther
    rw [entries other isOther]
    split
    · exact proper
    · exact maps.mapEc other isOther
  · have moved := maps.owned.exchange (show Role.Valid g (.data logBlock) from isBlock)
      isFree perm
    refine moved.congr fun role isValid => ?_
    cases role with
    | data other =>
        simp only [holder, entries other isValid]
        by_cases equal : logBlock = other
        · subst equal
          rw [if_pos rfl, Function.update_self]
        · rw [if_neg equal, Function.update_of_ne (by simpa using Ne.symm equal)]
          rfl
    | area number => rw [Function.update_of_ne (by simp)]; rfl
    | index => rw [Function.update_of_ne (by simp)]; rfl
  · intro other isOther page
    rw [entries other isOther]
    by_cases equal : logBlock = other
    · subst equal
      rw [if_pos rfl, Function.update_self]
    · rw [if_neg equal, Function.update_of_ne (Ne.symm equal)]
      exact framed.content other isOther page

/-- The index block moves to a free block. -/
theorem moveIndex {free' : Nat → BlockEc} {blocks' : List BlockEc} {block : Nat}
    (maps : Maps g nand table indexBlock view store)
    (isFree : block ∈ view.free.map BlockEc.block)
    (list : FreeList g free' blocks')
    (perm : (blocks'.map BlockEc.block).Perm
      (indexBlock :: (view.free.map BlockEc.block).erase block))
    (same : ∀ other, InUse g table view other → nand' other = nand other) :
    Maps g nand' { table with free := free' } block { view with free := blocks' } store := by
  have framed := maps.frame same
  refine
    { framed with
      free := list
      many := many_exchange maps.many isFree perm
      owned := ?_ }
  have moved := maps.owned.exchange (show Role.Valid g .index from trivial) isFree perm
  refine moved.congr fun role _ => ?_
  cases role with
  | data other => rw [Function.update_of_ne (by simp)]; rfl
  | area number => rw [Function.update_of_ne (by simp)]; rfl
  | index => rw [Function.update_self]; rfl

/-! ## Entering the announced update -/

/-- The table of the area is written once more, with the announced entry. -/
theorem appendArea (maps : Maps g nand table indexBlock view store)
    (announced : table.areaUpdatePlr.logicalBlock < g.ubiCapacity)
    (isArea : g.areaIndex table.areaUpdatePlr.logicalBlock < g.areaCount)
    (room : view.next (g.areaIndex table.areaUpdatePlr.logicalBlock) < g.pagePerPhyBlock) :
    Maps g
      (nand.program (table.areaIndex (g.areaIndex table.areaUpdatePlr.logicalBlock)).block
        (view.next (g.areaIndex table.areaUpdatePlr.logicalBlock))
        (tablePage (.area (enteredTable g view table.areaUpdatePlr)))) table indexBlock
      (view.enter g table.areaUpdatePlr
        (view.next (g.areaIndex table.areaUpdatePlr.logicalBlock) + 1)) store := by
  generalize same : g.areaIndex table.areaUpdatePlr.logicalBlock = area at *
  have entries := mapEntry_enter (g := g) table view (view.next area + 1)
  have log := (maps.areas area isArea).append room
    (.area (enteredTable g view table.areaUpdatePlr))
  refine
    { maps with
      areas := ?_
      mapEc := entries ▸ maps.mapEc
      unused := ?_
      owned := ?_
      content := ?_ }
  · intro other isOther
    simp only [UbiView.enter, same]
    by_cases equal : other = area
    · rw [equal, Function.update_self, Function.update_self]
      exact log
    · rw [Function.update_of_ne equal, Function.update_of_ne equal]
      refine (maps.areas other isOther).frame (funext fun page => nand.program_other _ _ _ ?_)
      intro clash
      have := maps.owned.injective (.area other) (.area area) isOther isArea clash
      exact equal (by injection this)
  · intro block outside inArea
    rw [rawEntry_enter, if_neg (by omega)]
    exact maps.unused block outside inArea
  · refine maps.owned.congr fun role _ => ?_
    cases role <;> simp only [holder, entries]
  · intro block isBlock page
    rw [entries, nand.program_other]
    · exact maps.content block isBlock page
    · intro clash
      exact Role.noConfusion
        (maps.owned.injective (.data block) (.area area) isBlock isArea clash)

/-- The table of the area moves to a free block, with the announced entry. -/
theorem moveArea {free' : Nat → BlockEc} {blocks' : List BlockEc} {block : Nat}
    {ec : EraseCount}
    (maps : Maps g nand table indexBlock view store)
    (announced : table.areaUpdatePlr.logicalBlock < g.ubiCapacity)
    (isArea : g.areaIndex table.areaUpdatePlr.logicalBlock < g.areaCount)
    (isFree : block ∈ view.free.map BlockEc.block) (proper : ec ≠ invalidEc)
    (list : FreeList g free' blocks')
    (perm : (blocks'.map BlockEc.block).Perm
      ((table.areaIndex (g.areaIndex table.areaUpdatePlr.logicalBlock)).block ::
        (view.free.map BlockEc.block).erase block))
    (log : TableLog g nand' block 1 (.area (enteredTable g view table.areaUpdatePlr)))
    (same : ∀ other, InUse g table view other → nand' other = nand other) :
    Maps g nand'
      { table with
        free := free'
        areaIndex := Function.update table.areaIndex
          (g.areaIndex table.areaUpdatePlr.logicalBlock) ⟨block, ec⟩ } indexBlock
      { view.enter g table.areaUpdatePlr 1 with free := blocks' } store := by
  generalize sameArea : g.areaIndex table.areaUpdatePlr.logicalBlock = area at *
  have entries : mapEntry g
      { table with
        free := free', areaIndex := Function.update table.areaIndex area ⟨block, ec⟩ }
      { view.enter g table.areaUpdatePlr 1 with free := blocks' } = mapEntry g table view :=
    mapEntry_enter table view 1
  have framed := maps.frame same
  refine
    { free := list
      many := many_exchange maps.many isFree perm
      areas := ?_
      areaEc := ?_
      mapEc := entries ▸ maps.mapEc
      unused := ?_
      owned := ?_
      content := ?_
      announced := .inr announced }
  · intro other isOther
    simp only [UbiView.enter, sameArea]
    by_cases equal : other = area
    · simp only [equal, Function.update_self]
      exact log
    · simp only [Function.update_of_ne equal]
      exact framed.areas other isOther
  · intro other isOther
    by_cases equal : other = area
    · simp only [equal, Function.update_self]
      exact proper
    · simp only [Function.update_of_ne equal]
      exact maps.areaEc other isOther
  · intro other outside inArea
    have raw := rawEntry_enter (g := g) view table.areaUpdatePlr 1 other
    rw [if_neg (by omega)] at raw
    exact raw.trans (maps.unused other outside inArea)
  · have moved := maps.owned.exchange (show Role.Valid g (.area area) from isArea) isFree perm
    refine moved.congr fun role _ => ?_
    cases role with
    | data other => rw [Function.update_of_ne (by simp)]; simp only [holder, entries]
    | area number =>
        by_cases equal : number = area
        · simp only [holder, equal, Function.update_self]
        · rw [Function.update_of_ne (by simpa using equal)]
          simp only [holder, Function.update_of_ne equal]
    | index => rw [Function.update_of_ne (by simp)]; rfl
  · intro other isOther page
    rw [entries]
    exact framed.content other isOther page

/-! ## Programming a page of a logical block -/

theorem programData (maps : Maps g nand table indexBlock view store) {logBlock : Nat}
    (isBlock : logBlock < g.ubiCapacity) (page : Nat) (content : Page (UbiBuffer D)) :
    Maps g (nand.program (mapEntry g table view logBlock).block page content) table indexBlock
      view (store.program logBlock page content) :=
  { maps with
    areas := fun area isArea => (maps.areas area isArea).frame
      (funext fun other => nand.program_other _ _ _ fun clash => Role.noConfusion
        (maps.owned.injective (.area area) (.data logBlock) isArea isBlock clash))
    content := fun other isOther otherPage => by
      by_cases same : other = logBlock
      · subst same
        by_cases samePage : otherPage = page
        · rw [samePage, Nand.program_same, Nand.program_same]
        · rw [nand.program_otherPage _ _ samePage, store.program_otherPage _ _ samePage]
          exact maps.content other isOther otherPage
      · rw [nand.program_other, store.program_other _ _ _ same]
        · exact maps.content other isOther otherPage
        · intro clash
          have equal := maps.owned.injective (.data other) (.data logBlock) isOther isBlock clash
          exact same (by injection equal) }

end Maps

end OpenNfm
