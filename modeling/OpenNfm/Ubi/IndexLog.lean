import OpenNfm.Ubi.Mapping
import OpenNfm.Ubi.Index

/-!
# The index log

The anchor leads to the index block, whose newest table is the index.  While
the index moves, an anchor may name a block that is still blank; then the old
index block counts, and it is full.  `Recoverable` collects what a mount needs
to find, and `wp_indexUpdate` shows that writing the index keeps it at every
step.
-/

namespace OpenNfm

open OpenNfm.Program

variable {g : Geometry} {D : Type}

/-- The anchor leads to the index block: it names the block, or it names a
blank block that was to replace it. -/
def Leads (g : Geometry) (nand : Nand (UbiBuffer D)) (indexBlock next : Nat)
    (anchor : AnchorTable) : Prop :=
  anchor.indexNewBlock = indexBlock ∧ anchor.indexNewEc ≠ invalidEc ∨
    next = g.pagePerPhyBlock ∧ anchor.indexOldBlock = indexBlock ∧
      anchor.indexOldEc ≠ invalidEc ∧ Usable g anchor.indexNewBlock ∧
      nand.Blank anchor.indexNewBlock

/-- An anchor of the formatted device that leads to the index block. -/
def GoodAnchor (g : Geometry) (nand : Nand (UbiBuffer D)) (indexBlock next : Nat)
    (anchor : AnchorTable) : Prop :=
  anchor.Formatted g g.ubiCapacity ∧ Leads g nand indexBlock next anchor

/-- The flash leads to the index table, over any of the forms of the ring. -/
structure IndexLog (g : Geometry) (nand : Nand (UbiBuffer D)) (indexBlock next : Nat)
    (table : IndexTable) : Prop where
  log : TableLog g nand indexBlock next (.index table)
  ring : RingHolds g nand (GoodAnchor g nand indexBlock next) (next = g.pagePerPhyBlock)

/-- A mount finds the tables of these logical blocks, in these places. -/
def Recoverable (g : Geometry) (place : Nat → Nat) (store : Store D)
    (nand : Nand (UbiBuffer D)) : Prop :=
  ∃ indexBlock next table view, IndexLog g nand indexBlock next table ∧
    Maps g nand table indexBlock view store ∧ Pending g table view ∧
    placeOf g table view = place

/-- The static variables know where the index and the anchor are, of which
`table` and the newest anchor are on the flash. -/
structure IndexReady (g : Geometry) (nand : Nand (UbiBuffer D)) (ram : UbiRam D)
    (table : IndexTable) : Prop where
  log : TableLog g nand ram.indexBlock ram.indexNextPage (.index table)
  ring : ∃ held, RingSingle g nand ram.anchorBlock ram.anchorNextPage held ∧
    GoodAnchor g nand ram.indexBlock ram.indexNextPage held
  anchor : ram.anchorTable.Formatted g g.ubiCapacity
  ec : ram.indexBlockEc ≠ invalidEc

/-- The newest anchor on the flash names the index block itself. -/
def Settled (g : Geometry) (nand : Nand (UbiBuffer D)) (ram : UbiRam D) : Prop :=
  ∃ held, RingSingle g nand ram.anchorBlock ram.anchorNextPage held ∧
    held.Formatted g g.ubiCapacity ∧ held.indexNewBlock = ram.indexBlock ∧
    held.indexNewEc ≠ invalidEc

/-- Writing the index leaves the area tables and the held pages alone. -/
structure SameAreas (ram ram' : UbiRam D) : Prop where
  areaIndex : ram'.indexTable.areaIndex = ram.indexTable.areaIndex
  plr : ram'.indexTable.areaUpdatePlr = ram.indexTable.areaUpdatePlr
  isUpdatingArea : ram'.isUpdatingArea = ram.isUpdatingArea
  areaOffsetTable : ram'.areaOffsetTable = ram.areaOffsetTable
  cachedAreaTable : ram'.cachedAreaTable = ram.cachedAreaTable
  cachedAreaNumber : ram'.cachedAreaNumber = ram.cachedAreaNumber
  diceHold : ram'.diceHold = ram.diceHold

/-! ## Frames -/

theorem Usable.not_inRing {block : Nat} (usable : Usable g block) : ¬ g.InRing block := by
  intro inRing
  have := inRing.lt_data
  have := usable.1
  omega

theorem Leads.frame {nand nand' : Nand (UbiBuffer D)} {indexBlock next : Nat}
    {anchor : AnchorTable} (leads : Leads g nand indexBlock next anchor)
    (blank : ∀ block, Usable g block → nand.Blank block → nand'.Blank block) :
    Leads g nand' indexBlock next anchor := by
  rcases leads with named | ⟨full, old, ec, usable, isBlank⟩
  · exact .inl named
  · exact .inr ⟨full, old, ec, usable, blank _ usable isBlank⟩

theorem GoodAnchor.frame {nand nand' : Nand (UbiBuffer D)} {indexBlock next : Nat}
    {anchor : AnchorTable} (good : GoodAnchor g nand indexBlock next anchor)
    (blank : ∀ block, Usable g block → nand.Blank block → nand'.Blank block) :
    GoodAnchor g nand' indexBlock next anchor :=
  ⟨good.1, good.2.frame blank⟩

theorem Nand.Blank.erase {B : Type} {nand : Nand B} {block : Nat} (blank : nand.Blank block)
    (other : Nat) : (nand.erase other).Blank block := by
  intro page
  by_cases same : block = other
  · rw [same, Nand.erase_same]
  · rw [nand.erase_other page same]
    exact blank page

theorem Nand.erase_row {B : Type} (nand : Nand B) {block other : Nat} (different : other ≠ block) :
    nand.erase block other = nand other :=
  funext fun page => nand.erase_other page different

theorem Nand.program_row {B : Type} (nand : Nand B) {block other : Nat} (page : Nat)
    (content : Page B) (different : other ≠ block) :
    nand.program block page content other = nand other :=
  funext fun otherPage => nand.program_other page otherPage content different

/-- Erasing a block other than the index block. -/
theorem IndexLog.erase {nand : Nand (UbiBuffer D)} {indexBlock next : Nat} {table : IndexTable}
    (index : IndexLog g nand indexBlock next table) {block : Nat} (usable : Usable g block)
    (different : block ≠ indexBlock) :
    IndexLog g (nand.erase block) indexBlock next table where
  log := index.log.frame (nand.erase_row different.symm)
  ring := index.ring.frame
    (fun _ inRing => nand.erase_row fun same => usable.not_inRing (same ▸ inRing))
    (fun _ good => good.frame fun _ _ blank => blank.erase block) id

/-- Programming a block other than the index block, which no anchor takes for
blank. -/
theorem IndexLog.program {nand : Nand (UbiBuffer D)} {indexBlock next : Nat}
    {table : IndexTable} (index : IndexLog g nand indexBlock next table) {block page : Nat}
    {content : Page (UbiBuffer D)} (usable : Usable g block) (different : block ≠ indexBlock)
    (room : next < g.pagePerPhyBlock ∨ ¬ nand.Blank block) :
    IndexLog g (nand.program block page content) indexBlock next table where
  log := index.log.frame (nand.program_row page content different.symm)
  ring := index.ring.frame
    (fun other inRing => nand.program_row page content fun same =>
      usable.not_inRing (same ▸ inRing))
    (fun anchor good => by
      refine ⟨good.1, ?_⟩
      rcases good.2 with named | ⟨full, old, ec, isUsable, isBlank⟩
      · exact .inl named
      · refine .inr ⟨full, old, ec, isUsable, fun otherPage => ?_⟩
        have notBlank : ¬ nand.Blank block := room.resolve_left (by omega)
        rw [nand.program_other]
        · exact isBlank otherPage
        · rintro rfl
          exact notBlank isBlank) id

theorem RingChanged.blank {nand nand' : Nand (UbiBuffer D)} (change : RingChanged g nand nand')
    {block : Nat} (usable : Usable g block) (blank : nand.Blank block) : nand'.Blank block := by
  intro page
  rw [change block usable.not_inRing]
  exact blank page

theorem Maps.frameRing {nand nand' : Nand (UbiBuffer D)} {table : IndexTable} {indexBlock : Nat}
    {view : UbiView} {store : Store D} (maps : Maps g nand table indexBlock view store)
    (change : RingChanged g nand nand') : Maps g nand' table indexBlock view store :=
  maps.frame fun block inUse => change block (maps.usable_of_inUse inUse).not_inRing

theorem Maps.usable_index {nand : Nand (UbiBuffer D)} {table : IndexTable} {indexBlock : Nat}
    {view : UbiView} {store : Store D} (maps : Maps g nand table indexBlock view store) :
    Usable g indexBlock :=
  maps.owned.held .index trivial

theorem IndexReady.indexLog {nand : Nand (UbiBuffer D)} {ram : UbiRam D} {table : IndexTable}
    (ready : IndexReady g nand ram table) :
    IndexLog g nand ram.indexBlock ram.indexNextPage table := by
  obtain ⟨held, single, good⟩ := ready.ring
  exact ⟨ready.log, .single good single⟩

theorem Settled.frame {nand nand' : Nand (UbiBuffer D)} {ram : UbiRam D}
    (settled : Settled g nand ram)
    (same : ∀ other, g.InRing other → nand' other = nand other) : Settled g nand' ram := by
  obtain ⟨held, single, good⟩ := settled
  exact ⟨held, single.frame same, good⟩

theorem Settled.program {nand : Nand (UbiBuffer D)} {ram : UbiRam D}
    (settled : Settled g nand ram) {block : Nat} (page : Nat) (content : Page (UbiBuffer D))
    (usable : Usable g block) : Settled g (nand.program block page content) ram :=
  settled.frame fun _ inRing => nand.program_row page content fun same =>
    usable.not_inRing (same ▸ inRing)

theorem Settled.erase {nand : Nand (UbiBuffer D)} {ram : UbiRam D}
    (settled : Settled g nand ram) {block : Nat} (usable : Usable g block) :
    Settled g (nand.erase block) ram :=
  settled.frame fun _ inRing => nand.erase_row fun same => usable.not_inRing (same ▸ inRing)

theorem Settled.indexLog {nand : Nand (UbiBuffer D)} {ram : UbiRam D} {table : IndexTable}
    (settled : Settled g nand ram)
    (log : TableLog g nand ram.indexBlock ram.indexNextPage (.index table)) :
    IndexLog g nand ram.indexBlock ram.indexNextPage table := by
  obtain ⟨held, single, formatted, named⟩ := settled
  exact ⟨log, .single ⟨formatted, .inl named⟩ single⟩

theorem IndexReady.ofSettled {nand : Nand (UbiBuffer D)} {ram : UbiRam D} {table : IndexTable}
    (settled : Settled g nand ram)
    (log : TableLog g nand ram.indexBlock ram.indexNextPage (.index table))
    (anchor : ram.anchorTable.Formatted g g.ubiCapacity) (ec : ram.indexBlockEc ≠ invalidEc) :
    IndexReady g nand ram table := by
  obtain ⟨held, single, formatted, named⟩ := settled
  exact ⟨log, ⟨held, single, formatted, .inl named⟩, anchor, ec⟩

/-! ## Writing the index -/

section Specs

variable {crash : Ideal (UbiBuffer D) → Prop} {ram : UbiRam D} {state : Ideal (UbiBuffer D)}

/-- The block that `INDEX_FreeBlock_Get` picks for the die of `block`. -/
def pickedBlock (g : Geometry) (free : Nat → BlockEc) (block : Nat) : Nat :=
  (free (FreeList.chosen g free block)).block

/-- The anchor table after `ANCHOR_IndexReclaim`. -/
def reclaimedAnchor (anchor : AnchorTable) (old new : BlockEc) : AnchorTable :=
  { anchor with
    indexNewBlock := new.block
    indexNewEc := new.ec
    indexOldBlock := old.block
    indexOldEc := old.ec }

theorem AnchorTable.Formatted.reclaimed {anchor : AnchorTable} {total : Nat}
    (formatted : anchor.Formatted g total) (old new : BlockEc) :
    (reclaimedAnchor anchor old new).Formatted g total :=
  ⟨formatted.total, formatted.swl, formatted.oath, formatted.version, formatted.noBad⟩

theorem updatedAnchor_formatted {total : Nat} (formatted : ram.anchorTable.Formatted g total) :
    (updatedAnchor g ram).Formatted g total := by
  unfold updatedAnchor
  split
  · exact ⟨formatted.total, formatted.swl, formatted.oath, formatted.version, formatted.noBad⟩
  · exact formatted

/-- The state in which the index is written: the tables in memory are about to
map to `store'`.  When `fresh` holds, the tables on the flash map to `store`,
and an index block that has to be picked is one that is free on the flash
too. -/
structure IndexChange (g : Geometry) (nand : Nand (UbiBuffer D)) (ram : UbiRam D) (fresh : Prop)
    (table : IndexTable) (view view' : UbiView) (store store' : Store D) : Prop where
  ready : IndexReady g nand ram table
  maps : fresh → Maps g nand table ram.indexBlock view store
  pending : fresh → Pending g table view
  maps' : Maps g nand ram.indexTable ram.indexBlock view' store'
  pending' : Pending g ram.indexTable view'
  picked : fresh → ram.indexNextPage = g.pagePerPhyBlock →
    pickedBlock g ram.indexTable.free ram.indexBlock ∈ view.free.map BlockEc.block

variable {fuel : Nat} {fresh : Prop} {table : IndexTable} {view view' : UbiView}
  {store store' : Store D} {post : Status → UbiRam D → Ideal (UbiBuffer D) → Prop}

theorem wp_indexUpdate_room
    (change : IndexChange g state.nand ram fresh table view view' store store')
    (room : ram.indexNextPage < g.pagePerPhyBlock)
    (safe : ∀ nand, (fresh → Recoverable g (placeOf g table view) store nand ∨
      Recoverable g (placeOf g ram.indexTable view') store' nand) →
      crash ⟨nand, state.polls⟩)
    (meets : ∀ nand ram' view'', IndexReady g nand ram' ram'.indexTable → Settled g nand ram' →
      Maps g nand ram'.indexTable ram'.indexBlock view'' store' →
      view''.tables = view'.tables → view''.next = view'.next → SameAreas ram ram' →
      post .success ram' ⟨nand, state.polls⟩) :
    Code.wp (idealMachine g) crash (indexUpdate g fuel) post ram state := by
  obtain ⟨ready, maps, pending, maps', pending', -⟩ := change
  have usable := maps'.usable_index
  have notFull := Nat.ne_of_lt room
  have here : crash state := safe state.nand fun isFresh =>
    .inl ⟨_, _, _, _, ready.indexLog, maps isFresh, pending isFresh, rfl⟩
  obtain ⟨held, single, formatted, leads⟩ := ready.ring
  have named := leads.resolve_right fun moved => notFull moved.1
  let nand := state.nand.program ram.indexBlock ram.indexNextPage
    (tablePage (.index ram.indexTable))
  let ram' : UbiRam D := { ram with indexNextPage := ram.indexNextPage + 1 }
  have settled : Settled g state.nand ram := ⟨held, single, formatted, named⟩
  have settled' : Settled g nand ram' := settled.program _ _ usable
  have ready' : IndexReady g nand ram' ram.indexTable :=
    .ofSettled settled' (ready.log.append room _) ready.anchor ready.ec
  have written := maps'.programUnused ram.indexNextPage (tablePage (.index ram.indexTable))
    maps'.not_inUse_index
  have after : crash ⟨nand, state.polls⟩ := safe nand fun _ =>
    .inr ⟨_, _, _, _, ready'.indexLog, written, pending', rfl⟩
  simp only [indexUpdate, Code.wp_bind, Code.wp_get, notFull, if_false, Code.wp_pure, if_true]
  rw [wp_tableWrite ⟨usable.2, room⟩ ready.log.nextBlank]
  simp only [if_true, Code.wp_bind, Code.wp_modify, Code.wp_pure]
  exact ⟨here, here, here, here, after, after, after,
    meets nand ram' view' ready' settled' written rfl rfl ⟨rfl, rfl, rfl, rfl, rfl, rfl, rfl⟩⟩

theorem wp_indexUpdate_full (supported : g.Supported) (pos : 0 < fuel)
    (change : IndexChange g state.nand ram fresh table view view' store store')
    (full : ram.indexNextPage = g.pagePerPhyBlock)
    (safe : ∀ nand, (fresh → Recoverable g (placeOf g table view) store nand ∨
      Recoverable g (placeOf g ram.indexTable view') store' nand) →
      crash ⟨nand, state.polls⟩)
    (meets : ∀ nand ram' view'', IndexReady g nand ram' ram'.indexTable → Settled g nand ram' →
      Maps g nand ram'.indexTable ram'.indexBlock view'' store' →
      view''.tables = view'.tables → view''.next = view'.next → SameAreas ram ram' →
      post .success ram' ⟨nand, state.polls⟩) :
    Code.wp (idealMachine g) crash (indexUpdate g fuel) post ram state := by
  obtain ⟨ready, maps, pending, maps', pending', picked⟩ := change
  have indexUsable := maps'.usable_index
  have indexLog := ready.indexLog
  obtain ⟨held, single, good⟩ := ready.ring
  have here : crash state := safe state.nand fun isFresh =>
    .inl ⟨_, _, _, _, indexLog, maps isFresh, pending isFresh, rfl⟩
  simp only [indexUpdate, Code.wp_bind, Code.wp_get, full, if_true]
  -- every block that may be picked is apart from the ring and the index block
  have erased : ∀ i (inside : i < view'.free.length),
      i = FreeList.chosen g ram.indexTable.free ram.indexBlock →
      IndexLog g (state.nand.erase view'.free[i].block) ram.indexBlock ram.indexNextPage table ∧
      (fresh → Maps g (state.nand.erase view'.free[i].block) table ram.indexBlock view store) ∧
      view'.free[i].block ≠ ram.indexBlock := by
    intro i inside isChosen
    have isEntry : view'.free[i] ∈ view'.free := List.getElem_mem inside
    have different : view'.free[i].block ≠ ram.indexBlock := fun same =>
      maps'.owned.apart .index trivial
        (show ram.indexBlock ∈ _ from same ▸ List.mem_map_of_mem isEntry)
    refine ⟨indexLog.erase (maps'.usable_free isEntry) different, fun isFresh => ?_, different⟩
    have isFree := picked isFresh full
    rw [pickedBlock, ← isChosen, maps'.free.entry_of_lt inside] at isFree
    obtain ⟨entry, isEntry', sameBlock⟩ := List.mem_map.mp isFree
    exact (maps isFresh).eraseUnused (sameBlock ▸ (maps isFresh).not_inUse_free isEntry')
  refine ⟨here, wp_indexFreeBlockGet maps'.free maps'.some pos
    (fun entry inside => (maps'.usable_free inside).2) here ?_ ?_⟩
  · intro i inside isChosen
    obtain ⟨log, kept, -⟩ := erased i inside isChosen
    exact safe _ fun isFresh => .inl ⟨_, _, _, _, log, kept isFresh, pending isFresh, rfl⟩
  · intro i inside isChosen
    obtain ⟨log₁, kept, different⟩ := erased i inside isChosen
    have isEntry : view'.free[i] ∈ view'.free := List.getElem_mem inside
    have isFree := List.mem_map_of_mem (f := BlockEc.block) isEntry
    have usable := maps'.usable_free isEntry
    have notInUse := maps'.not_inUse_free isEntry
    have proper : ram.indexBlock ≠ invalidBlock ∧ ram.indexBlockEc ≠ invalidEc :=
      ⟨(indexUsable.2.trans supported.blocksSmall).ne, ready.ec⟩
    obtain ⟨blocks, list, perm⟩ := maps'.free.exchange inside proper
    generalize view'.free[i] = entry at *
    have blank := state.nand.blank_erase entry.block
    have single₁ : RingSingle g (state.nand.erase entry.block) ram.anchorBlock
        ram.anchorNextPage held :=
      single.frame fun other inRing => state.nand.erase_row fun same =>
        usable.not_inRing (same ▸ inRing)
    have good₁ : GoodAnchor g (state.nand.erase entry.block) ram.indexBlock ram.indexNextPage
        held :=
      good.frame fun _ _ isBlank => isBlank.erase entry.block
    have safe₁ : crash (state.erase entry.block) := safe _ fun isFresh =>
      .inl ⟨_, _, _, _, log₁, kept isFresh, pending isFresh, rfl⟩
    have formatted := ready.anchor.reclaimed ⟨ram.indexBlock, ram.indexBlockEc⟩
      ⟨entry.block, entry.ec.plus 1⟩
    let ram₁ : UbiRam D :=
      { ram.withFree (freeBlockRemove g ram.indexTable.free i) with
        anchorTable := reclaimedAnchor ram.anchorTable ⟨ram.indexBlock, ram.indexBlockEc⟩
          ⟨entry.block, entry.ec.plus 1⟩ }
    have formatted' : (updatedAnchor g ram₁).Formatted g g.ubiCapacity :=
      updatedAnchor_formatted formatted
    have named : (updatedAnchor g ram₁).indexNewBlock = entry.block ∧
        (updatedAnchor g ram₁).indexNewEc ≠ invalidEc := by
      unfold updatedAnchor
      split <;> exact ⟨rfl, EraseCount.plus_ne _ _⟩
    have replaced : (updatedAnchor g ram₁).indexOldBlock = ram.indexBlock ∧
        (updatedAnchor g ram₁).indexOldEc ≠ invalidEc := by
      unfold updatedAnchor
      split <;> exact ⟨rfl, ready.ec⟩
    have goodNew : ∀ nand, RingChanged g (state.erase entry.block).nand nand →
        GoodAnchor g nand ram.indexBlock ram.indexNextPage (updatedAnchor g ram₁) := by
      intro nand changed
      refine ⟨formatted', .inr ⟨full, replaced.1, replaced.2, ?_⟩⟩
      rw [named.1]
      exact ⟨usable, changed.blank usable blank⟩
    simp only [if_true, Code.wp_bind, anchorIndexReclaim, Code.wp_modify]
    refine ⟨safe₁, ?_⟩
    change Code.wp _ _ _ _ ram₁ _
    refine wp_anchorUpdate formatted.noBad supported pos single₁ ?_ ?_
    · -- the anchor is written while the index block is full
      intro nand changed holds
      refine safe nand fun isFresh => .inl ⟨_, _, _, _,
        ⟨log₁.log.frame (changed _ indexUsable.not_inRing), ?_⟩,
        (kept isFresh).frameRing changed, pending isFresh, rfl⟩
      refine holds.frame (fun _ _ => rfl) ?_ (fun _ => full)
      rintro anchor (rfl | rfl)
      · exact good₁.frame fun _ isUsable isBlank => changed.blank isUsable isBlank
      · exact goodNew nand changed
    · intro nand block next changed ring
      have log₂ := log₁.log.frame (changed _ indexUsable.not_inRing)
      have safe₂ : crash ⟨nand, state.polls⟩ := safe nand fun isFresh =>
        .inl ⟨_, _, _, _, ⟨log₂, .single (goodNew nand changed) ring⟩,
          (kept isFresh).frameRing changed, pending isFresh, rfl⟩
      have blank' := changed.blank usable blank
      -- the index table goes to the new block
      let table' : IndexTable :=
        { ram.indexTable with
          free := freeBlockPut g (freeBlockRemove g ram.indexTable.free i) ram.indexBlock
            ram.indexBlockEc }
      let nand' := nand.program entry.block 0 (tablePage (.index table'))
      have rows : ∀ other, InUse g ram.indexTable view' other →
          nand' other = state.nand other := by
        intro other inUse
        have apart : other ≠ entry.block := by
          rintro rfl
          exact notInUse inUse
        calc nand' other = nand other := nand.program_row _ _ apart
          _ = state.nand.erase entry.block other :=
            changed other (maps'.usable_of_inUse inUse).not_inRing
          _ = state.nand other := state.nand.erase_row apart
      have moved := maps'.moveIndex isFree list perm rows
      let ram' : UbiRam D :=
        { ram₁ with
          indexTable := table', indexBlock := entry.block, indexNextPage := 1,
          indexBlockEc := entry.ec.plus 1, anchorBlock := block, anchorNextPage := next,
          anchorTable := updatedAnchor g ram₁ }
      have settled : Settled g nand' ram' :=
        ⟨updatedAnchor g ram₁, ring.frame fun other inRing => nand.program_row _ _ fun same =>
          usable.not_inRing (same ▸ inRing), formatted', named⟩
      have ready' : IndexReady g nand' ram' table' :=
        .ofSettled settled (TableLog.start usable.2 blank' _) formatted' (EraseCount.plus_ne _ _)
      have safe₃ : crash ⟨nand', state.polls⟩ := safe _ fun _ =>
        .inr ⟨_, _, _, _, ready'.indexLog, moved, pending', rfl⟩
      simp only [if_true, Code.wp_bind, wp_indexFreeBlockPut, Code.wp_modify, Code.wp_get,
        Code.wp_pure]
      rw [wp_tableWrite ⟨usable.2, g.pagePerPhyBlock_pos⟩ (blank' 0)]
      simp only [if_true, Code.wp_bind, Code.wp_modify, Code.wp_pure]
      exact ⟨safe₂, safe₂, safe₂, safe₂, safe₂, safe₃, safe₃, safe₃,
        meets nand' ram' _ ready' settled moved rfl rfl ⟨rfl, rfl, rfl, rfl, rfl, rfl, rfl⟩⟩

/-- `index_update` from tables that are on the flash to the tables in memory.
The states that a power failure leaves are recoverable to one or the other,
unless the index moves to a block that the tables on the flash still use. -/
theorem wp_indexUpdate (supported : g.Supported) (pos : 0 < fuel)
    (change : IndexChange g state.nand ram fresh table view view' store store')
    (safe : ∀ nand, (fresh → Recoverable g (placeOf g table view) store nand ∨
      Recoverable g (placeOf g ram.indexTable view') store' nand) →
      crash ⟨nand, state.polls⟩)
    (meets : ∀ nand ram' view'', IndexReady g nand ram' ram'.indexTable → Settled g nand ram' →
      Maps g nand ram'.indexTable ram'.indexBlock view'' store' →
      view''.tables = view'.tables → view''.next = view'.next → SameAreas ram ram' →
      post .success ram' ⟨nand, state.polls⟩) :
    Code.wp (idealMachine g) crash (indexUpdate g fuel) post ram state := by
  by_cases full : ram.indexNextPage = g.pagePerPhyBlock
  · exact wp_indexUpdate_full supported pos change full safe meets
  · exact wp_indexUpdate_room change (lt_of_le_of_ne change.ready.log.le full) safe meets

end Specs

end OpenNfm
