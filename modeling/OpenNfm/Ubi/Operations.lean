import OpenNfm.Ubi.Api
import OpenNfm.Ubi.Commit

/-!
# The operations between format and mount

The invariant that holds between two calls of the UBI layer, and what each
operation does to the pages of the logical blocks while no program and no
erase fails.  Each statement also says what a power failure inside the call
leaves on the flash.
-/

namespace OpenNfm

open OpenNfm.Program

variable {g : Geometry} {D : Type}

/-- Only the first slot ever holds a page: a recovery goes on in the slot that it finds. -/
structure HoldFits (g : Geometry) (hold : Nat → DieHoldPage D) : Prop where
  others : ∀ slot < g.totalDieCount, slot ≠ 0 → (hold slot).phyBlock = invalidBlock
  buffer : (hold 0).phyBlock ≠ invalidBlock → (hold 0).buffer ≠ none
  logBlock : ∀ slot, (hold slot).logBlock < g.ubiCapacity

/-- The state between two calls. -/
structure UbiReady (g : Geometry) (nand : Nand (UbiBuffer D)) (ram : UbiRam D) (view : UbiView)
    (store : Store D) : Prop where
  committed : Committed g nand ram view store (· < g.areaCount)
  hold : HoldFits g ram.diceHold

/-- The calls that only read leave the tables in memory as they are. -/
structure SameTables (ram ram' : UbiRam D) : Prop where
  indexTable : ram'.indexTable = ram.indexTable
  indexBlock : ram'.indexBlock = ram.indexBlock
  indexNextPage : ram'.indexNextPage = ram.indexNextPage
  areaOffsetTable : ram'.areaOffsetTable = ram.areaOffsetTable

theorem SameTables.refl (ram : UbiRam D) : SameTables ram ram :=
  ⟨rfl, rfl, rfl, rfl⟩

theorem SameTables.trans {first second third : UbiRam D} (same : SameTables first second)
    (same' : SameTables second third) : SameTables first third :=
  ⟨same'.indexTable.trans same.indexTable, same'.indexBlock.trans same.indexBlock,
    same'.indexNextPage.trans same.indexNextPage,
    same'.areaOffsetTable.trans same.areaOffsetTable⟩

theorem Committed.cache {nand : Nand (UbiBuffer D)} {ram : UbiRam D} {view : UbiView}
    {store : Store D} {known : Nat → Prop} (committed : Committed g nand ram view store known)
    {area : Nat} (isKnown : known area) :
    Committed g nand (ram.cache area (view.tables area)) view store known where
  ready := ⟨committed.ready.log, committed.ready.ring, committed.ready.anchor,
    committed.ready.ec⟩
  settled := committed.settled
  maps := committed.maps
  synced := committed.synced
  notUpdating := committed.notUpdating
  offsets := committed.offsets
  fits := cacheFits_cache isKnown

theorem Committed.withHold {nand : Nand (UbiBuffer D)} {ram : UbiRam D} {view : UbiView}
    {store : Store D} {known : Nat → Prop} (committed : Committed g nand ram view store known)
    (hold : Nat → DieHoldPage D) :
    Committed g nand { ram with diceHold := hold } view store known where
  ready := ⟨committed.ready.log, committed.ready.ring, committed.ready.anchor,
    committed.ready.ec⟩
  settled := committed.settled
  maps := committed.maps
  synced := committed.synced
  notUpdating := committed.notUpdating
  offsets := committed.offsets
  fits := committed.fits

/-- Programming a page of a logical block. -/
theorem Committed.programData {nand : Nand (UbiBuffer D)} {ram : UbiRam D} {view : UbiView}
    {store : Store D} {known : Nat → Prop} (committed : Committed g nand ram view store known)
    (supported : g.Supported) {logBlock : Nat} (isBlock : logBlock < g.ubiCapacity) (page : Nat)
    (content : Page (UbiBuffer D)) :
    Committed g (nand.program (rawEntry g view logBlock).block page content) ram view
      (store.program logBlock page content) known := by
  have proper := logBlock_proper supported isBlock
  rw [← committed.synced.mapEntry_eq proper]
  have usable : Usable g (mapEntry g ram.indexTable view logBlock).block :=
    committed.maps.owned.held (.data _) isBlock
  have apart : (mapEntry g ram.indexTable view logBlock).block ≠ ram.indexBlock := fun same =>
    Role.noConfusion (committed.maps.owned.injective (.data _) .index isBlock trivial same)
  have settled := committed.settled.program page content usable
  exact
    { ready := .ofSettled settled
        (committed.ready.log.frame (nand.program_row page content apart.symm))
        committed.ready.anchor committed.ready.ec
      settled := settled
      maps := committed.maps.programData isBlock page content
      synced := committed.synced
      notUpdating := committed.notUpdating
      offsets := committed.offsets
      fits := committed.fits }

section Specs

variable {crash : Ideal (UbiBuffer D) → Prop} {ram : UbiRam D} {state : Ideal (UbiBuffer D)}
  {fuel : Nat} {view : UbiView} {store : Store D}

/-- The physical block of a logical block. -/
theorem Committed.data {nand : Nand (UbiBuffer D)} {known : Nat → Prop}
    (committed : Committed g nand ram view store known) (supported : g.Supported)
    {logBlock : Nat} (isBlock : logBlock < g.ubiCapacity) :
    Usable g (rawEntry g view logBlock).block ∧
      (rawEntry g view logBlock).block ≠ invalidBlock ∧
      (rawEntry g view logBlock).ec ≠ invalidEc ∧
      ∀ page, nand (rawEntry g view logBlock).block page = store logBlock page := by
  have proper := logBlock_proper supported isBlock
  have usable := committed.maps.owned.held (.data _) isBlock
  have ec := committed.maps.mapEc logBlock isBlock
  have content := committed.maps.content logBlock isBlock
  simp only [holder] at usable
  rw [committed.synced.mapEntry_eq proper] at usable ec content
  exact ⟨usable, (usable.2.trans supported.blocksSmall).ne, ec, content⟩

theorem wp_ubiRead [Zero D] {block page : Nat}
    {post : ReadAnswer (UbiBuffer D) → UbiRam D → Ideal (UbiBuffer D) → Prop}
    (supported : g.Supported) (inv : UbiReady g state.nand ram view store)
    (isBlock : block < g.ubiCapacity) (isPage : page < g.pagePerPhyBlock) (safe : crash state)
    (meets : ∀ ram', UbiReady g state.nand ram' view store →
      post (store.answer block page) ram' state) :
    Code.wp (idealMachine g) crash (ubiRead g block page) post ram state := by
  obtain ⟨committed, hold⟩ := inv
  obtain ⟨usable, proper, -, content⟩ := committed.data supported isBlock
  have isArea := areaIndex_lt supported isBlock
  have pageProper : page ≠ invalidPage := (isPage.trans supported.pagesSmall).ne
  have answer : state.nand.answer (rawEntry g view block).block page = store.answer block page := by
    simp only [Nand.answer, content page]
  simp only [ubiRead, ne_eq, logBlock_proper supported isBlock, not_false_eq_true, pageProper,
    and_self, if_true, Code.wp_bind]
  refine wp_areaGetBlock supported committed.maps.areas committed.offsets committed.fits
    isArea safe ?_
  rw [Code.wp_assert, wp_mtdRead ⟨usable.2, isPage⟩, answer]
  exact ⟨proper, safe, safe, meets _ ⟨committed.cache isArea, hold⟩⟩

theorem wp_ubiReadStatus {block : Nat}
    {post : Status → UbiRam D → Ideal (UbiBuffer D) → Prop}
    (supported : g.Supported) (inv : UbiReady g state.nand ram view store)
    (isBlock : block < g.ubiCapacity) (safe : ∀ polls, crash ⟨state.nand, polls⟩)
    (meets : ∀ status ram' polls, status = .success ∨ status = .dieBusy →
      UbiReady g state.nand ram' view store → post status ram' ⟨state.nand, polls⟩) :
    Code.wp (idealMachine g) crash (ubiReadStatus g block) post ram state := by
  obtain ⟨committed, hold⟩ := inv
  obtain ⟨usable, proper, -, -⟩ := committed.data supported isBlock
  have isArea := areaIndex_lt supported isBlock
  have here := safe state.polls
  simp only [ubiReadStatus, Code.wp_bind]
  refine wp_areaGetBlock supported committed.maps.areas committed.offsets committed.fits
    isArea here ?_
  rw [Code.wp_assert]
  refine ⟨proper, here, wp_mtdReadStatus usable.2 safe fun status polls known => ?_⟩
  exact meets status _ polls known ⟨committed.cache isArea, hold⟩

/-! ## Writing -/

/-- Releasing the held page. -/
theorem wp_ubiReleaseHeld {post : Unit → UbiRam D → Ideal (UbiBuffer D) → Prop}
    (inv : UbiReady g state.nand ram view store) (safe : crash state)
    (meets : ∀ ram', UbiReady g state.nand ram' view store → SameTables ram ram' →
      post () ram' state) :
    Code.wp (idealMachine g) crash (ubiReleaseHeld 0) post ram state := by
  obtain ⟨committed, hold⟩ := inv
  simp only [ubiReleaseHeld, Code.wp_bind, Code.wp_get]
  refine ⟨safe, ?_⟩
  by_cases held : (ram.diceHold 0).phyBlock = invalidBlock
  · simp only [held, ne_eq, not_true_eq_false, if_false, Code.wp_pure]
    exact ⟨safe, meets ram ⟨committed, hold⟩ (.refl ram)⟩
  · obtain ⟨buffer, isBuffer⟩ := Option.ne_none_iff_exists'.mp (hold.buffer held)
    simp only [held, ne_eq, not_false_eq_true, if_true, isBuffer, Code.wp_bind, wp_bufFree, setHold,
      Code.wp_modify]
    refine ⟨safe, safe, meets _ ⟨committed.withHold _, ?_⟩ ⟨rfl, rfl, rfl, rfl⟩⟩
    refine ⟨fun slot isSlot isOther => ?_, fun impossible => ?_, fun slot => ?_⟩
    · simp only [Function.update_of_ne isOther]
      exact hold.others slot isSlot isOther
    · simp at impossible
    · by_cases same : slot = 0
      · subst same
        simp only [Function.update_self]
        exact hold.logBlock 0
      · simp only [Function.update_of_ne same]
        exact hold.logBlock slot

/-- The head of `UBI_Write`: find the block, wait for its die, and release the
page that the die was busy with. -/
theorem wp_ubiWrite_head {block page : Nat} {buffer : Option (Buffer D)} {spare : Option Spare}
    {async : Bool} {post : Status → UbiRam D → Ideal (UbiBuffer D) → Prop}
    (supported : g.Supported) (pos : 0 < fuel) (inv : UbiReady g state.nand ram view store)
    (isBlock : block < g.ubiCapacity) (safe : crash state)
    (meets : ∀ ram', UbiReady g state.nand ram' view store → SameTables ram ram' →
      Code.wp (idealMachine g) crash
        (if page ≠ invalidPage then
          ubiWritePage g fuel block (rawEntry g view block).block (rawEntry g view block).ec page
            buffer spare async 0
        else pure .success) post ram' state) :
    Code.wp (idealMachine g) crash (ubiWrite g fuel block page buffer spare async) post ram
      state := by
  obtain ⟨rounds, rfl⟩ := Nat.exists_eq_succ_of_ne_zero pos.ne'
  obtain ⟨committed, hold⟩ := inv
  obtain ⟨usable, proper, -, -⟩ := committed.data supported isBlock
  have isArea := areaIndex_lt supported isBlock
  simp only [ubiWrite, Code.wp_bind]
  refine wp_areaGetBlock supported committed.maps.areas committed.offsets committed.fits
    isArea safe ?_
  have committed₁ := committed.cache isArea
  refine wp_areaGetEc supported committed₁.maps.areas committed₁.offsets committed₁.fits
    isArea safe ?_
  rw [Code.wp_assert]
  refine ⟨proper, safe, ?_⟩
  rw [wp_mtdWaitReady usable.2]
  simp only [ubiWriteRecoverHeld, reduceCtorEq, if_false, Code.wp_pure, if_true, Code.wp_bind]
  refine ⟨safe, safe, wp_ubiReleaseHeld ⟨committed₁.cache isArea, hold⟩ safe ?_⟩
  intro ram' inv' same
  simp only [true_and]
  exact meets ram' inv' ⟨same.indexTable, same.indexBlock, same.indexNextPage,
    same.areaOffsetTable⟩

/-- `UBI_Write` without a page waits for the die. -/
theorem wp_ubiWrite_wait {block : Nat} {async : Bool}
    {post : Status → UbiRam D → Ideal (UbiBuffer D) → Prop}
    (supported : g.Supported) (pos : 0 < fuel) (inv : UbiReady g state.nand ram view store)
    (isBlock : block < g.ubiCapacity) (safe : crash state)
    (meets : ∀ ram', UbiReady g state.nand ram' view store → SameTables ram ram' →
      post .success ram' state) :
    Code.wp (idealMachine g) crash (ubiWrite g fuel block invalidPage none none async) post ram
      state := by
  refine wp_ubiWrite_head supported pos inv isBlock safe fun ram' inv' same => ?_
  simp only [ne_eq, not_true_eq_false, if_false, Code.wp_pure]
  exact ⟨safe, meets ram' inv' same⟩

/-- `UBI_Write` programs a page that the logical block has not used since its
last erase. -/
theorem wp_ubiWrite {block page : Nat} {buffer : Buffer D} {spare : Option Spare} {async : Bool}
    {post : Status → UbiRam D → Ideal (UbiBuffer D) → Prop}
    (supported : g.Supported) (pos : 0 < fuel) (inv : UbiReady g state.nand ram view store)
    (isBlock : block < g.ubiCapacity) (isPage : page < g.pagePerPhyBlock)
    (blank : store block page = none) (hasSpare : async = true → spare ≠ none)
    (safe : ∀ nand, Recoverable g (placeOf g ram.indexTable view) store nand ∨
      Recoverable g (placeOf g ram.indexTable view)
        (store.program block page ⟨buffer.content, spare.getD .ones⟩) nand →
      crash ⟨nand, state.polls⟩)
    (meets : ∀ nand ram',
      UbiReady g nand ram' view (store.program block page ⟨buffer.content, spare.getD .ones⟩) →
      post .success ram' ⟨nand, state.polls⟩) :
    Code.wp (idealMachine g) crash (ubiWrite g fuel block page (some buffer) spare async)
      post ram state := by
  have here : crash state := safe state.nand (.inl inv.committed.recoverable)
  have pageProper : page ≠ invalidPage := (isPage.trans supported.pagesSmall).ne
  refine wp_ubiWrite_head supported pos inv isBlock here fun ram' inv' same => ?_
  rw [← same.indexTable] at safe
  obtain ⟨usable, -, -, content⟩ := inv'.committed.data supported isBlock
  have programmed := inv'.committed.programData supported isBlock page
    ⟨buffer.content, spare.getD .ones⟩
  have after := safe _ (.inr programmed.recoverable)
  simp only [ne_eq, pageProper, not_false_eq_true, if_true, ubiWritePage, Code.wp_bind]
  rw [wp_mtdProgram ⟨usable.2, isPage⟩ ((content page).trans blank)]
  refine ⟨here, after, ?_⟩
  cases async with
  | true =>
      obtain ⟨spare, rfl⟩ := Option.ne_none_iff_exists'.mp (hasSpare rfl)
      simp only [if_true, setHold, Code.wp_bind, Code.wp_modify, Code.wp_pure]
      refine ⟨after, after, meets _ _ ⟨programmed.withHold _, ?_⟩⟩
      refine ⟨fun slot isSlot isOther => ?_, fun _ => ?_, fun slot => ?_⟩
      · simp only [Function.update_of_ne isOther]
        exact inv'.hold.others slot isSlot isOther
      · simp
      · by_cases same : slot = 0
        · subst same
          simp only [Function.update_self]
          exact isBlock
        · simp only [Function.update_of_ne same]
          exact inv'.hold.logBlock slot
  | false =>
      obtain ⟨rounds, rfl⟩ := Nat.exists_eq_succ_of_ne_zero pos.ne'
      simp only [Bool.false_eq_true, if_true, if_false, Code.wp_bind,
        wp_mtdWaitReady usable.2, ubiWriteRecover, reduceCtorEq, Code.wp_pure, Code.wp_assert,
        wp_bufFree]
      exact ⟨after, after, trivial, after, after, after, meets _ _ ⟨programmed, inv'.hold⟩⟩

theorem wp_ubiFlushSlots {slots : List Nat} {post : Status → UbiRam D → Ideal (UbiBuffer D) → Prop}
    (supported : g.Supported) (pos : 0 < fuel) (inv : UbiReady g state.nand ram view store)
    (safe : crash state)
    (meets : ∀ ram', UbiReady g state.nand ram' view store → post .success ram' state) :
    Code.wp (idealMachine g) crash (ubiFlushSlots g fuel slots .success) post ram state := by
  induction slots generalizing ram with
  | nil =>
      simp only [ubiFlushSlots, Code.wp_pure]
      exact ⟨safe, meets ram inv⟩
  | cons slot rest ih =>
      simp only [ubiFlushSlots, if_true, Code.wp_bind, Code.wp_get]
      exact ⟨safe, wp_ubiWrite_wait supported pos inv (inv.hold.logBlock slot) safe
        fun ram' inv' _ => ih inv'⟩

theorem wp_ubiFlush {post : Status → UbiRam D → Ideal (UbiBuffer D) → Prop}
    (supported : g.Supported) (pos : 0 < fuel) (inv : UbiReady g state.nand ram view store)
    (safe : crash state)
    (meets : ∀ ram', UbiReady g state.nand ram' view store → post .success ram' state) :
    Code.wp (idealMachine g) crash (ubiFlush g fuel) post ram state :=
  wp_ubiFlushSlots supported pos inv safe meets

/-! ## Erasing -/

/-- The static variables of `UBI_Erase` at the commit: the block has been
exchanged for a free one of the die. -/
def erasedRam (g : Geometry) (ram : UbiRam D) (old : BlockEc) (block die : Nat) : UbiRam D :=
  let i := FreeList.chosen g ram.indexTable.free die
  { ram with
    indexTable :=
      { ram.indexTable with
        free := freeBlockPut g (freeBlockRemove g ram.indexTable.free i) old.block old.ec
        areaUpdatePlr := ⟨block, (ram.indexTable.free i).block,
          (ram.indexTable.free i).ec.plus 1⟩ }
    isUpdatingArea := true }

/-- `UBI_Erase` maps the logical block to a blank physical block. -/
theorem wp_ubiErase {block dieIndex : Nat} {fresh : Prop}
    {post : Status → UbiRam D → Ideal (UbiBuffer D) → Prop}
    (supported : g.Supported) (pos : 0 < fuel) (inv : UbiReady g state.nand ram view store)
    (isBlock : block < g.ubiCapacity)
    (picked : fresh → ∀ other ∈ commitPicks g
      (erasedRam g ram (rawEntry g view block) block (dieIndex % g.totalDieCount)),
      other ∈ view.free.map BlockEc.block)
    (safe : ∀ nand, (fresh → Recoverable g (placeOf g ram.indexTable view) store nand ∨
      ∃ place, place block ≠ placeOf g ram.indexTable view block ∧
        Recoverable g place (store.erase block) nand) → crash ⟨nand, state.polls⟩)
    (meets : ∀ nand ram' view', UbiReady g nand ram' view' (store.erase block) →
      post .success ram' ⟨nand, state.polls⟩) :
    Code.wp (idealMachine g) crash (ubiErase g fuel block dieIndex) post ram state := by
  have here : crash state := safe state.nand fun _ => .inl inv.committed.recoverable
  have isArea := areaIndex_lt supported isBlock
  simp only [ubiErase, Code.wp_bind, Code.wp_get]
  refine ⟨here, wp_ubiWrite_wait supported pos inv (inv.hold.logBlock _) here ?_⟩
  intro ram₁ inv₁ same
  rw [← same.indexTable] at safe
  obtain ⟨committed, hold⟩ := inv₁
  obtain ⟨oldUsable, oldProper, oldEc, -⟩ := committed.data supported isBlock
  have maps := committed.maps
  have settled := committed.settled
  have proper := logBlock_proper supported isBlock
  have entryIs := committed.synced.mapEntry_eq proper
  -- the picked block is free on the flash as well
  have erased : ∀ entry ∈ view.free, entry.block ≠ ram₁.indexBlock ∧
      crash (state.erase entry.block) := by
    intro entry isEntry
    have different : entry.block ≠ ram₁.indexBlock := fun equal =>
      maps.owned.apart .index trivial
        (show ram₁.indexBlock ∈ _ from equal ▸ List.mem_map_of_mem isEntry)
    exact ⟨different, safe _ fun _ => .inl ⟨_, _, _, _,
      committed.ready.indexLog.erase (maps.usable_free isEntry) different,
      maps.eraseUnused (maps.not_inUse_free isEntry), committed.synced.pending, rfl⟩⟩
  simp only [if_true, Code.wp_bind]
  refine wp_indexFreeBlockGet maps.free maps.some pos
    (fun entry inside => (maps.usable_free inside).2) here
    (fun i inside _ => (erased _ (List.getElem_mem inside)).2) ?_
  intro i inside isChosen
  have isEntry : view.free[i] ∈ view.free := List.getElem_mem inside
  have isFree := List.mem_map_of_mem (f := BlockEc.block) isEntry
  have usable := maps.usable_free isEntry
  have notInUse := maps.not_inUse_free isEntry
  have isEntry' := maps.free.entry_of_lt inside
  obtain ⟨different, after⟩ := erased _ isEntry
  obtain ⟨blocks, list, perm⟩ := maps.free.exchange inside ⟨oldProper, oldEc⟩
  generalize view.free[i] = entry at *
  have apart : ∀ other, InUse g ram₁.indexTable view other →
      state.nand.erase entry.block other = state.nand other := fun other inUse =>
    state.nand.erase_row fun equal => notInUse (equal ▸ inUse)
  have ecProper : entry.ec.plus 1 ≠ invalidEc := EraseCount.plus_ne _ _
  have areas : AreasLogged g (state.erase entry.block).nand ram₁.indexTable view :=
    fun area isArea' => (maps.areas area isArea').frame (apart _ (.inl ⟨area, isArea', rfl⟩))
  simp only [if_true, Code.wp_bind, Code.wp_assert]
  refine ⟨⟨proper, ecProper⟩, after, ?_⟩
  refine wp_areaGetEc supported areas committed.offsets committed.fits isArea after ?_
  refine wp_areaGetBlock supported areas committed.offsets (cacheFits_cache isArea) isArea after ?_
  simp only [wp_indexFreeBlockPut, indexUpdateAreaUpdate, Code.wp_bind, Code.wp_assert,
    Code.wp_modify]
  refine ⟨after, ⟨(usable.2.trans supported.blocksSmall).ne, ecProper⟩, after, after, ?_⟩
  let table₂ : IndexTable :=
    { ram₁.indexTable with
      free := freeBlockPut g (freeBlockRemove g ram₁.indexTable.free i)
        (rawEntry g view block).block (rawEntry g view block).ec
      areaUpdatePlr := ⟨block, entry.block, entry.ec.plus 1⟩ }
  let ram₂ : UbiRam D :=
    { ram₁.cache (g.areaIndex block) (view.tables (g.areaIndex block)) with
      indexTable := table₂, isUpdatingArea := true }
  change Code.wp _ _ _ _ ram₂ _
  have blankRow : state.nand.erase entry.block entry.block = fun _ => none :=
    Function.update_self _ _ _
  have moved : Maps g (state.nand.erase entry.block) table₂ ram₁.indexBlock
      { view with free := blocks } (store.erase block) := by
    have remapped := maps.remap supported committed.synced isBlock isFree ecProper list
      (entryIs ▸ perm) apart
    rw [blankRow] at remapped
    exact remapped
  have settled₂ : Settled g (state.nand.erase entry.block) ram₂ := settled.erase usable
  have log₂ := committed.ready.log.frame (state.nand.erase_row different.symm)
  have commit : CommitReady g (state.nand.erase entry.block) ram₂ fresh ram₁.indexTable view
      { view with free := blocks } store (store.erase block) (· < g.areaCount) :=
    { ready := .ofSettled settled₂ log₂ committed.ready.anchor committed.ready.ec
      settled := settled₂
      maps := maps.eraseUnused notInUse
      pending := committed.synced.pending
      maps' := moved
      isUpdating := rfl
      announced := isBlock
      offsets := committed.offsets
      isKnown := isArea
      cached := fun _ => rfl
      picked := fun isFresh other isPicked => by
        refine picked isFresh other ?_
        have sameRam : commitPicks g (erasedRam g ram (rawEntry g view block) block
            (dieIndex % g.totalDieCount)) = commitPicks g ram₂ := by
          simp only [commitPicks, erasedRam, ← same.indexTable, ← same.indexBlock,
            ← same.indexNextPage, ← same.areaOffsetTable, ← isChosen]
          rfl
        rw [sameRam]
        exact isPicked }
  -- the new tables have the logical block elsewhere
  have elsewhere : placeOf g table₂ { view with free := blocks } block ≠
      placeOf g ram₁.indexTable view block := by
    have placed : placeOf g table₂ { view with free := blocks } block = entry.block := by
      unfold placeOf mapEntry
      rw [if_pos rfl]
      rfl
    rw [placed]
    exact fun same => notInUse (.inr ⟨block, isBlock, same.symm⟩)
  refine wp_indexUpdateCommit supported pos commit
    (fun nand recoverable => safe nand fun isFresh =>
      (recoverable isFresh).imp id fun new => ⟨_, elsewhere, new⟩) ?_
  intro nand ram' view' committed' _ _ sameHold
  refine meets nand ram' view' ⟨committed', ?_⟩
  rw [sameHold]
  exact hold

end Specs

end OpenNfm
