import OpenNfm.Ubi.AreaCache
import OpenNfm.Ubi.IndexLog

/-!
# The commit

`INDEX_Update_Commit` brings an announced update to the flash.  When the block
of the area has room, the index table announces the update first and the area
table follows; when it is full, the area table goes to a free block first and
the index table that names that block follows.  Either way a power failure
leaves the tables as they were before or as they are after the commit, provided
that no block which the tables on the flash still use is picked on the way.
-/

namespace OpenNfm

open OpenNfm.Program

variable {g : Geometry} {D : Type}

/-- The area of the announced update. -/
abbrev UbiRam.updatingArea (g : Geometry) (ram : UbiRam D) : Nat :=
  g.areaIndex ram.indexTable.areaUpdatePlr.logicalBlock

/-- The free block table after a block is picked for the die of `old` and `old`
is put back. -/
def replacedFree (g : Geometry) (free : Nat → BlockEc) (old : BlockEc) : Nat → BlockEc :=
  freeBlockPut g (freeBlockRemove g free (FreeList.chosen g free old.block)) old.block old.ec

/-- The free blocks that a commit picks: one for a full area block, and one for
a full index block. -/
def commitPicks (g : Geometry) (ram : UbiRam D) : List Nat :=
  let old := ram.indexTable.areaIndex (ram.updatingArea g)
  if ram.areaOffsetTable (ram.updatingArea g) = g.pagePerPhyBlock - 1 then
    pickedBlock g ram.indexTable.free old.block ::
      if ram.indexNextPage = g.pagePerPhyBlock then
        [pickedBlock g (replacedFree g ram.indexTable.free old) ram.indexBlock]
      else []
  else if ram.indexNextPage = g.pagePerPhyBlock then
    [pickedBlock g ram.indexTable.free ram.indexBlock]
  else []

/-- The state in which an announced update is committed. -/
structure CommitReady (g : Geometry) (nand : Nand (UbiBuffer D)) (ram : UbiRam D) (fresh : Prop)
    (table : IndexTable) (view view' : UbiView) (store store' : Store D)
    (known : Nat → Prop) : Prop where
  ready : IndexReady g nand ram table
  settled : Settled g nand ram
  maps : Maps g nand table ram.indexBlock view store
  pending : Pending g table view
  maps' : Maps g nand ram.indexTable ram.indexBlock view' store'
  isUpdating : ram.isUpdatingArea = true
  announced : ram.indexTable.areaUpdatePlr.logicalBlock < g.ubiCapacity
  offsets : OffsetsKnown g ram view' known
  isKnown : known (ram.updatingArea g)
  cached : ram.cachedAreaNumber = ram.updatingArea g →
    Function.update ram.cachedAreaTable
      (g.blockOffsetArea ram.indexTable.areaUpdatePlr.logicalBlock)
      ram.indexTable.areaUpdatePlr.entry = enteredTable g view' ram.indexTable.areaUpdatePlr
  picked : fresh → ∀ block ∈ commitPicks g ram, block ∈ view.free.map BlockEc.block

/-- The state between two calls: memory and flash agree. -/
structure Committed (g : Geometry) (nand : Nand (UbiBuffer D)) (ram : UbiRam D)
    (view : UbiView) (store : Store D) (known : Nat → Prop) : Prop where
  ready : IndexReady g nand ram ram.indexTable
  settled : Settled g nand ram
  maps : Maps g nand ram.indexTable ram.indexBlock view store
  synced : Synced g ram.indexTable view
  notUpdating : ram.isUpdatingArea = false
  offsets : OffsetsKnown g ram view known
  fits : CacheFits ram view known

theorem Committed.recoverable {nand : Nand (UbiBuffer D)} {ram : UbiRam D} {view : UbiView}
    {store : Store D} {known : Nat → Prop} (committed : Committed g nand ram view store known) :
    Recoverable g (placeOf g ram.indexTable view) store nand :=
  ⟨_, _, _, _, committed.ready.indexLog, committed.maps, committed.synced.pending, rfl⟩

section Specs

variable {crash : Ideal (UbiBuffer D) → Prop} {ram : UbiRam D} {state : Ideal (UbiBuffer D)}
  {fuel : Nat} {fresh : Prop} {table : IndexTable} {view view' : UbiView}
  {store store' : Store D} {known : Nat → Prop}
  {post : Status → UbiRam D → Ideal (UbiBuffer D) → Prop}

theorem enteredTable_congr {view view' : UbiView} (same : view'.tables = view.tables)
    (plr : AreaUpdatePlr) : enteredTable g view' plr = enteredTable g view plr := by
  unfold enteredTable
  rw [same]

/-- The table in memory, with the announced entry, is the table to be
written. -/
theorem CommitReady.entered {nand : Nand (UbiBuffer D)}
    (commit : CommitReady g nand ram fresh table view view' store store' known)
    (cached : AreaTable)
    (isCached :
      ram.cachedAreaNumber = ram.updatingArea g ∧ cached = ram.cachedAreaTable ∨
      ram.cachedAreaNumber ≠ ram.updatingArea g ∧
        cached = view'.tables (ram.updatingArea g)) :
    Function.update cached (g.blockOffsetArea ram.indexTable.areaUpdatePlr.logicalBlock)
      ram.indexTable.areaUpdatePlr.entry = enteredTable g view' ram.indexTable.areaUpdatePlr := by
  rcases isCached with ⟨same, rfl⟩ | ⟨-, rfl⟩
  · exact commit.cached same
  · rfl

/-- The announced block is a block of the device. -/
theorem CommitReady.proper {nand : Nand (UbiBuffer D)}
    (commit : CommitReady g nand ram fresh table view view' store store' known)
    (supported : g.Supported) :
    ram.indexTable.areaUpdatePlr.physicalBlock ≠ invalidBlock := by
  have usable := commit.maps'.owned.held (.data _) commit.announced
  simp only [holder, mapEntry, if_true] at usable
  exact (usable.2.trans supported.blocksSmall).ne

/-- The area table follows an index table that announces the update. -/
theorem wp_areaUpdate_append (supported : g.Supported)
    (ready : IndexReady g state.nand ram ram.indexTable) (settled : Settled g state.nand ram)
    (maps : Maps g state.nand ram.indexTable ram.indexBlock view store)
    (announced : ram.indexTable.areaUpdatePlr.logicalBlock < g.ubiCapacity)
    (proper : ram.indexTable.areaUpdatePlr.physicalBlock ≠ invalidBlock)
    (room : view.next (ram.updatingArea g) < g.pagePerPhyBlock)
    (offsets : OffsetsKnown g ram view known) (isKnown : known (ram.updatingArea g))
    (isCached : ram.cachedAreaNumber = ram.updatingArea g)
    (entered : Function.update ram.cachedAreaTable
      (g.blockOffsetArea ram.indexTable.areaUpdatePlr.logicalBlock)
      ram.indexTable.areaUpdatePlr.entry = enteredTable g view ram.indexTable.areaUpdatePlr)
    (safe : ∀ nand, Recoverable g (placeOf g ram.indexTable view) store nand →
      crash ⟨nand, state.polls⟩)
    (meets : ∀ nand ram' view',
      Committed g nand { ram' with isUpdatingArea := false } view' store known →
      placeOf g ram.indexTable view' = placeOf g ram.indexTable view →
      ram'.indexTable = ram.indexTable → ram'.diceHold = ram.diceHold →
      post .success ram' ⟨nand, state.polls⟩) :
    Code.wp (idealMachine g) crash
      (areaUpdate g ram.indexTable.areaUpdatePlr.logicalBlock
        ram.indexTable.areaUpdatePlr.physicalBlock ram.indexTable.areaUpdatePlr.blockEc) post ram
      state := by
  obtain ⟨isArea, offset⟩ := offsets _ isKnown
  have log := maps.areas _ isArea
  have pending : Pending g ram.indexTable view := fun _ => .inr room
  have areaUsable : Usable g (ram.indexTable.areaIndex (ram.updatingArea g)).block :=
    maps.owned.held (.area _) isArea
  have apart : (ram.indexTable.areaIndex (ram.updatingArea g)).block ≠ ram.indexBlock :=
    fun same => Role.noConfusion
      (maps.owned.injective (.area _) .index isArea trivial same)
  have page : view.next (ram.updatingArea g) =
      (ram.areaOffsetTable (ram.updatingArea g) + 1) % g.pagePerPhyBlock := by
    have pos := log.pos
    rw [offset, Nat.sub_add_cancel pos, Nat.mod_eq_of_lt room]
  have maps' := maps.appendArea announced isArea room
  have synced := synced_enter (g := g) ram.indexTable view (view.next (ram.updatingArea g) + 1)
  have settled' := settled.program (view.next (ram.updatingArea g))
    (tablePage (.area (enteredTable g view ram.indexTable.areaUpdatePlr))) areaUsable
  have log' := ready.log.frame (state.nand.program_row (view.next (ram.updatingArea g))
    (tablePage (.area (enteredTable g view ram.indexTable.areaUpdatePlr))) apart.symm)
  refine wp_areaUpdate isCached entered proper supported page rfl areaUsable.2 log.nextBlank
    (safe _ ⟨_, _, _, _, ready.indexLog, maps, pending, rfl⟩)
    (safe _ ⟨_, _, _, _, settled'.indexLog log', maps', synced.pending, placeOf_enter _ _ _⟩) ?_
  refine meets _ _ (view.enter g ram.indexTable.areaUpdatePlr
    (view.next (ram.updatingArea g) + 1)) ?_ (placeOf_enter _ _ _) rfl rfl
  refine
    { ready := .ofSettled settled' log' ready.anchor ready.ec
      settled := settled'
      maps := maps'
      synced := synced
      notUpdating := rfl
      offsets := ?_
      fits := ?_ }
  · intro area isKnown'
    obtain ⟨isArea', offset'⟩ := offsets area isKnown'
    refine ⟨isArea', ?_⟩
    by_cases same : area = ram.updatingArea g
    · simp only [same, UbiView.enter, Function.update_self, Nat.add_sub_cancel]
    · simp only [UbiView.enter, Function.update_of_ne same]
      exact offset'
  · intro _
    simp only [isCached, UbiView.enter, Function.update_self]
    exact ⟨isKnown, trivial⟩

/-- Commit to an area block with room. -/
theorem wp_indexUpdateCommitRound_room (supported : g.Supported) (pos : 0 < fuel)
    {post : Status × Bool → UbiRam D → Ideal (UbiBuffer D) → Prop}
    (commit : CommitReady g state.nand ram fresh table view view' store store' known)
    (room : view'.next (ram.updatingArea g) < g.pagePerPhyBlock)
    (safe : ∀ nand, (fresh → Recoverable g (placeOf g table view) store nand ∨
      Recoverable g (placeOf g ram.indexTable view') store' nand) →
      crash ⟨nand, state.polls⟩)
    (meets : ∀ nand ram' view'', Committed g nand ram' view'' store' known →
      placeOf g ram'.indexTable view'' = placeOf g ram.indexTable view' →
      ram'.indexTable.areaUpdatePlr = ram.indexTable.areaUpdatePlr →
      ram'.diceHold = ram.diceHold → post (.success, false) ram' ⟨nand, state.polls⟩) :
    Code.wp (idealMachine g) crash (indexUpdateCommitRound g fuel false) post ram state := by
  have entered := commit.entered
  have proper := commit.proper supported
  obtain ⟨ready, settled, maps, pending, maps', isUpdating, announced, offsets, isKnown, -,
    picked⟩ := commit
  obtain ⟨isArea, offset⟩ := offsets _ isKnown
  have here : crash state := safe state.nand fun _ =>
    .inl ⟨_, _, _, _, ready.indexLog, maps, pending, rfl⟩
  have notFull : ram.areaOffsetTable (ram.updatingArea g) ≠ g.pagePerPhyBlock - 1 := by
    have pos' := (maps'.areas _ isArea).pos
    rw [offset]
    omega
  simp only [indexUpdateCommitRound, Code.wp_bind, Code.wp_get, isUpdating, if_true]
  refine ⟨here, wp_areaIsFull supported isArea (maps'.areas _ isArea) offset here ?_⟩
  intro cached isCached
  simp only [room.ne, decide_false, Bool.false_eq_true, if_false, Code.wp_bind]
  have change : IndexChange g state.nand (ram.cache (ram.updatingArea g) cached) fresh table view
      view' store store' :=
    { ready := ⟨ready.log, ready.ring, ready.anchor, ready.ec⟩
      maps := fun _ => maps
      pending := fun _ => pending
      maps' := maps'
      pending' := fun _ => .inr room
      picked := fun isFresh full => by
        have full' : ram.indexNextPage = g.pagePerPhyBlock := full
        refine picked isFresh _ ?_
        unfold commitPicks
        rw [if_neg notFull, if_pos full']
        exact List.mem_singleton.mpr rfl }
  refine wp_indexUpdate supported pos change safe ?_
  intro nand₁ ram₁ view₁ ready₁ settled₁ maps₁ sameTables sameNext same
  have plr : ram₁.indexTable.areaUpdatePlr = ram.indexTable.areaUpdatePlr := same.plr
  have area : ram₁.updatingArea g = ram.updatingArea g := by
    rw [UbiRam.updatingArea, plr]
  have isCached₁ : ram₁.cachedAreaNumber = ram₁.updatingArea g := by
    rw [area]
    exact same.cachedAreaNumber
  have table₁ : ram₁.cachedAreaTable = cached := same.cachedAreaTable
  have offset₁ : ram₁.areaOffsetTable = ram.areaOffsetTable := same.areaOffsetTable
  have offsets₁ : OffsetsKnown g ram₁ view₁ known := by
    intro other isKnown'
    rw [offset₁, sameNext]
    exact offsets other isKnown'
  have room₁ : view₁.next (ram₁.updatingArea g) < g.pagePerPhyBlock := by
    rw [area, sameNext]
    exact room
  have entered₁ : Function.update ram₁.cachedAreaTable
      (g.blockOffsetArea ram₁.indexTable.areaUpdatePlr.logicalBlock)
      ram₁.indexTable.areaUpdatePlr.entry =
        enteredTable g view₁ ram₁.indexTable.areaUpdatePlr := by
    rw [table₁, plr, enteredTable_congr sameTables]
    exact entered cached isCached
  have placed₁ : placeOf g ram₁.indexTable view₁ = placeOf g ram.indexTable view' := by
    unfold placeOf mapEntry rawEntry
    rw [plr, sameTables]
  have after₁ : crash ⟨nand₁, state.polls⟩ := safe nand₁ fun _ =>
    .inr ⟨_, _, _, _, ready₁.indexLog, maps₁, fun _ => .inr room₁, placed₁⟩
  simp only [Code.wp_pure, if_true, Code.wp_bind, ← plr]
  refine ⟨after₁, wp_areaUpdate_append supported ready₁ settled₁ maps₁
    (by rw [plr]; exact announced) (by rw [plr]; exact proper) room₁ offsets₁
    (by rw [area]; exact isKnown) isCached₁ entered₁
    (fun nand recoverable => safe nand fun _ => .inr (placed₁ ▸ recoverable)) ?_⟩
  intro nand₂ ram₂ view₂ committed sameView sameIndex sameHold
  have placed₂ : placeOf g ram₂.indexTable view₂ = placeOf g ram.indexTable view' := by
    rw [sameIndex, sameView, placed₁]
  have after : crash ⟨nand₂, state.polls⟩ := safe nand₂ fun _ =>
    .inr (placed₂ ▸ committed.recoverable)
  simp only [Bool.false_eq_true, and_false, if_false, Code.wp_pure, Code.wp_bind, if_true,
    Code.wp_modify]
  refine ⟨after, after, after, meets nand₂ _ view₂ committed placed₂ ?_ ?_⟩
  · change ram₂.indexTable.areaUpdatePlr = _
    rw [sameIndex, plr]
  · change ram₂.diceHold = _
    rw [sameHold]
    exact same.diceHold

/-- Commit when the block of the area is full. -/
theorem wp_indexUpdateCommitRound_full (supported : g.Supported) (pos : 0 < fuel)
    {post : Status × Bool → UbiRam D → Ideal (UbiBuffer D) → Prop}
    (commit : CommitReady g state.nand ram fresh table view view' store store' known)
    (full : view'.next (ram.updatingArea g) = g.pagePerPhyBlock)
    (safe : ∀ nand, (fresh → Recoverable g (placeOf g table view) store nand ∨
      Recoverable g (placeOf g ram.indexTable view') store' nand) →
      crash ⟨nand, state.polls⟩)
    (meets : ∀ nand ram' view'', Committed g nand ram' view'' store' known →
      placeOf g ram'.indexTable view'' = placeOf g ram.indexTable view' →
      ram'.indexTable.areaUpdatePlr = ram.indexTable.areaUpdatePlr →
      ram'.diceHold = ram.diceHold → post (.success, true) ram' ⟨nand, state.polls⟩) :
    Code.wp (idealMachine g) crash (indexUpdateCommitRound g fuel false) post ram state := by
  have entered := commit.entered
  have proper := commit.proper supported
  obtain ⟨ready, settled, maps, pending, maps', isUpdating, announced, offsets, isKnown, -,
    picked⟩ := commit
  obtain ⟨isArea, offset⟩ := offsets _ isKnown
  have here : crash state := safe state.nand fun _ =>
    .inl ⟨_, _, _, _, ready.indexLog, maps, pending, rfl⟩
  have isFull : ram.areaOffsetTable (ram.updatingArea g) = g.pagePerPhyBlock - 1 := by
    rw [offset, full]
  have firstPage : 0 = (ram.areaOffsetTable (ram.updatingArea g) + 1) % g.pagePerPhyBlock := by
    rw [isFull, Nat.sub_add_cancel g.pagePerPhyBlock_pos, Nat.mod_self]
  generalize oldIs : ram.indexTable.areaIndex (ram.updatingArea g) = old at *
  have oldUsable : Usable g old.block := oldIs ▸ maps'.owned.held (.area _) isArea
  have oldProper : old.block ≠ invalidBlock ∧ old.ec ≠ invalidEc :=
    ⟨(oldUsable.2.trans supported.blocksSmall).ne, oldIs ▸ maps'.areaEc _ isArea⟩
  simp only [indexUpdateCommitRound, Code.wp_bind, Code.wp_get, isUpdating, if_true]
  refine ⟨here, wp_areaIsFull supported isArea (maps'.areas _ isArea) offset here ?_⟩
  intro cached isCached
  simp only [full, decide_true, if_true, Code.wp_bind, Code.wp_get]
  -- what is known of the block that is picked
  have chosen : ∀ i (inside : i < view'.free.length),
      i = FreeList.chosen g ram.indexTable.free old.block →
      view'.free[i].block ≠ ram.indexBlock ∧
        (fresh → view'.free[i].block ∈ view.free.map BlockEc.block) := by
    intro i inside isChosen
    refine ⟨fun same => maps'.owned.apart .index trivial
      (show ram.indexBlock ∈ _ from same ▸ List.mem_map_of_mem (List.getElem_mem inside)),
      fun isFresh => picked isFresh _ ?_⟩
    unfold commitPicks pickedBlock
    rw [if_pos isFull, oldIs, ← isChosen, maps'.free.entry_of_lt inside]
    exact List.mem_cons_self
  have unused : ∀ {block : Nat}, block ∈ view.free.map BlockEc.block →
      ¬ InUse g table view block := by
    intro block inside
    obtain ⟨entry, isEntry, rfl⟩ := List.mem_map.mp inside
    exact maps.not_inUse_free isEntry
  refine ⟨here, wp_indexFreeBlockGet maps'.free maps'.some pos
    (fun entry inside => (maps'.usable_free inside).2) here ?_ ?_⟩
  · intro i inside isChosen
    obtain ⟨different, isFree⟩ := chosen i inside (oldIs ▸ isChosen)
    exact safe _ fun isFresh => .inl ⟨_, _, _, _, ready.indexLog.erase
      (maps'.usable_free (List.getElem_mem inside)) different,
      maps.eraseUnused (unused (isFree isFresh)), pending, rfl⟩
  · intro i inside isChosen
    have isChosen' : i = FreeList.chosen g ram.indexTable.free old.block := oldIs ▸ isChosen
    obtain ⟨different, isFree⟩ := chosen i inside isChosen'
    have isEntry : view'.free[i] ∈ view'.free := List.getElem_mem inside
    have isFree' := List.mem_map_of_mem (f := BlockEc.block) isEntry
    have usable := maps'.usable_free isEntry
    have notInUse := maps'.not_inUse_free isEntry
    obtain ⟨blocks, list, perm⟩ := maps'.free.exchange inside oldProper
    generalize view'.free[i] = entry at *
    have blank := state.nand.blank_erase entry.block
    have safe₁ : crash (state.erase entry.block) := safe _ fun isFresh =>
      .inl ⟨_, _, _, _, ready.indexLog.erase usable different,
        maps.eraseUnused (unused (isFree isFresh)), pending, rfl⟩
    -- the area table in its new block
    let page := tablePage (.area (enteredTable g view' ram.indexTable.areaUpdatePlr) :
      UbiBuffer D)
    let nand₂ := (state.nand.erase entry.block).program entry.block 0 page
    let table₂ : IndexTable :=
      { ram.indexTable with
        free := freeBlockPut g (freeBlockRemove g ram.indexTable.free i) old.block old.ec
        areaIndex := Function.update ram.indexTable.areaIndex (ram.updatingArea g)
          ⟨entry.block, entry.ec.plus 1⟩ }
    let ram₂ : UbiRam D :=
      { ram with
        indexTable := table₂
        cachedAreaTable := enteredTable g view' ram.indexTable.areaUpdatePlr
        cachedAreaNumber := ram.updatingArea g
        areaOffsetTable := Function.update ram.areaOffsetTable (ram.updatingArea g) 0 }
    let view₂ : UbiView := { view'.enter g ram.indexTable.areaUpdatePlr 1 with free := blocks }
    have rows : ∀ other, other ≠ entry.block → nand₂ other = state.nand other := by
      intro other apart
      calc nand₂ other = state.nand.erase entry.block other := Nand.program_row _ _ _ apart
        _ = state.nand other := state.nand.erase_row apart
    have log₂ := ready.log.frame (rows _ different.symm)
    have settled₂ : Settled g nand₂ ram₂ := (settled.erase usable).program 0 page usable
    have maps₂ : fresh → Maps g nand₂ table ram.indexBlock view store := fun isFresh =>
      (maps.eraseUnused (unused (isFree isFresh))).programUnused 0 page
        (unused (isFree isFresh))
    have safe₂ : crash ⟨nand₂, state.polls⟩ := safe _ fun isFresh =>
      .inl ⟨_, _, _, _, settled₂.indexLog log₂, maps₂ isFresh, pending, rfl⟩
    have moved : Maps g nand₂ table₂ ram.indexBlock view₂ store' :=
      maps'.moveArea announced isArea isFree' (EraseCount.plus_ne _ _) list (oldIs ▸ perm)
        (TableLog.start usable.2 blank _) fun other inUse =>
          rows other fun same => notInUse (same ▸ inUse)
    have synced₂ : Synced g table₂ view₂ := synced_enter ram.indexTable view' 1
    have change : IndexChange g nand₂ ram₂ fresh table view view₂ store store' :=
      { ready := .ofSettled settled₂ log₂ ready.anchor ready.ec
        maps := maps₂
        pending := fun _ => pending
        maps' := moved
        pending' := synced₂.pending
        picked := fun isFresh indexFull => by
          refine picked isFresh _ ?_
          have indexFull' : ram.indexNextPage = g.pagePerPhyBlock := indexFull
          unfold commitPicks
          rw [if_pos isFull, if_pos indexFull', oldIs]
          refine List.mem_cons_of_mem _ (List.mem_singleton.mpr ?_)
          simp only [ram₂, table₂, replacedFree, isChosen'] }
    simp only [if_true, indexUpdateAreaReclaim, Code.wp_bind, Code.wp_get,
      wp_indexFreeBlockPut, Code.wp_modify, Code.wp_pure]
    refine ⟨safe₁, safe₁, safe₁, safe₁, ?_⟩
    subst oldIs
    let ram₁ : UbiRam D := { ram.cache (ram.updatingArea g) cached with indexTable := table₂ }
    have block₁ : entry.block = (ram₁.indexTable.areaIndex (ram.updatingArea g)).block := by
      simp only [ram₁, table₂, Function.update_self]
    change Code.wp _ _ _ _ ram₁ _
    refine wp_areaUpdate rfl (entered cached isCached) proper supported firstPage block₁ usable.2
      (blank 0) safe₁ safe₂ ?_
    -- the index table that names the new block of the area
    simp only [if_true, and_self, Code.wp_bind]
    change Code.wp _ _ _ _ ram₂ _
    have placed₂ : placeOf g ram₂.indexTable view₂ = placeOf g ram.indexTable view' :=
      placeOf_enter ram.indexTable view' 1
    rw [← placed₂] at safe
    refine wp_indexUpdate supported pos change safe ?_
    intro nand₃ ram₃ view₃ ready₃ settled₃ maps₃ sameTables sameNext same
    have plr : ram₃.indexTable.areaUpdatePlr = ram.indexTable.areaUpdatePlr := same.plr
    have placed₃ : placeOf g ram₃.indexTable view₃ = placeOf g ram₂.indexTable view₂ := by
      unfold placeOf mapEntry rawEntry
      rw [same.plr, sameTables]
    have committed : Committed g nand₃ { ram₃ with isUpdatingArea := false } view₃ store' known :=
      { ready := ⟨ready₃.log, ready₃.ring, ready₃.anchor, ready₃.ec⟩
        settled := settled₃
        maps := maps₃
        synced := synced₂.congr same.plr sameTables
        notUpdating := rfl
        offsets := by
          intro other isKnown'
          obtain ⟨isArea', offset'⟩ := offsets other isKnown'
          refine ⟨isArea', ?_⟩
          change ram₃.areaOffsetTable other = _
          rw [same.areaOffsetTable, sameNext]
          by_cases equal : other = ram.updatingArea g
          · simp only [ram₂, view₂, equal, UbiView.enter, Function.update_self]
          · simp only [ram₂, view₂, UbiView.enter, Function.update_of_ne equal]
            exact offset'
        fits := by
          intro _
          have number : ram₃.cachedAreaNumber = ram.updatingArea g := same.cachedAreaNumber
          change known ram₃.cachedAreaNumber ∧ ram₃.cachedAreaTable = _
          rw [number, same.cachedAreaTable, sameTables]
          simp only [ram₂, view₂, UbiView.enter, Function.update_self]
          exact ⟨isKnown, trivial⟩ }
    have after : crash ⟨nand₃, state.polls⟩ := safe _ fun _ =>
      .inr (placed₃ ▸ committed.recoverable)
    simp only [if_true, Code.wp_bind, Code.wp_modify, Code.wp_pure]
    exact ⟨after, after,
      meets nand₃ _ view₃ committed (placed₃.trans placed₂) plr same.diceHold⟩

/-- `INDEX_Update_Commit` ends with memory and flash in agreement on the new
tables. -/
theorem wp_indexUpdateCommit (supported : g.Supported) (pos : 0 < fuel)
    (commit : CommitReady g state.nand ram fresh table view view' store store' known)
    (safe : ∀ nand, (fresh → Recoverable g (placeOf g table view) store nand ∨
      Recoverable g (placeOf g ram.indexTable view') store' nand) →
      crash ⟨nand, state.polls⟩)
    (meets : ∀ nand ram' view'', Committed g nand ram' view'' store' known →
      placeOf g ram'.indexTable view'' = placeOf g ram.indexTable view' →
      ram'.indexTable.areaUpdatePlr = ram.indexTable.areaUpdatePlr →
      ram'.diceHold = ram.diceHold → post .success ram' ⟨nand, state.polls⟩) :
    Code.wp (idealMachine g) crash (indexUpdateCommit g fuel) post ram state := by
  obtain ⟨rounds, rfl⟩ := Nat.exists_eq_succ_of_ne_zero pos.ne'
  obtain ⟨isArea, -⟩ := commit.offsets _ commit.isKnown
  have after : ∀ nand ram' view'', Committed g nand ram' view'' store' known →
      placeOf g ram'.indexTable view'' = placeOf g ram.indexTable view' →
      crash ⟨nand, state.polls⟩ :=
    fun nand _ _ committed placed => safe nand fun _ => .inr (placed ▸ committed.recoverable)
  simp only [indexUpdateCommit, indexUpdateCommitLoop, Code.wp_bind]
  rcases lt_or_eq_of_le (commit.maps'.areas _ isArea).le with room | full
  · refine wp_indexUpdateCommitRound_room supported pos commit room safe ?_
    intro nand ram' view'' committed placed plr sameHold
    simp only [reduceCtorEq, if_false, Code.wp_pure]
    exact ⟨after nand ram' view'' committed placed,
      meets nand ram' view'' committed placed plr sameHold⟩
  · refine wp_indexUpdateCommitRound_full supported pos commit full safe ?_
    intro nand ram' view'' committed placed plr sameHold
    simp only [reduceCtorEq, if_false, Code.wp_pure]
    exact ⟨after nand ram' view'' committed placed,
      meets nand ram' view'' committed placed plr sameHold⟩

end Specs

end OpenNfm
