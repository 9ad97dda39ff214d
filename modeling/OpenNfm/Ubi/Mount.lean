import OpenNfm.Ubi.Operations

/-!
# The mount

`UBI_Init` on any flash that is recoverable: it ends with memory and flash in
agreement on the same pages of the logical blocks, and the power may fail
again at any point of it.
-/

namespace OpenNfm

open OpenNfm.Program

variable {g : Geometry} {D : Type}

section Specs

variable {crash : Ideal (UbiBuffer D) → Prop} {ram : UbiRam D} {state : Ideal (UbiBuffer D)}
  {fuel : Nat} {view : UbiView} {store : Store D} {place : Nat → Nat}

/-- The picked block of a table that is on the flash is free there. -/
theorem Maps.pickedBlock_mem {nand : Nand (UbiBuffer D)} {table : IndexTable} {indexBlock : Nat}
    (maps : Maps g nand table indexBlock view store) (block : Nat) :
    pickedBlock g table.free block ∈ view.free.map BlockEc.block := by
  have inside := maps.free.chosen_lt maps.some block
  unfold pickedBlock
  rw [maps.free.entry_of_lt inside]
  exact List.mem_map_of_mem (List.getElem_mem inside)

/-! ## The index -/

/-- The end of `INDEX_Init`: the index table that was read is written once more. -/
theorem wp_indexUpdate_read {table : IndexTable}
    {post : Status → UbiRam D → Ideal (UbiBuffer D) → Prop}
    (supported : g.Supported) (pos : 0 < fuel)
    (ready : IndexReady g state.nand ram table) (isTable : ram.indexTable = table)
    (maps : Maps g state.nand table ram.indexBlock view store)
    (pending : Pending g table view) (placed : placeOf g table view = place)
    (safe : ∀ nand, Recoverable g place store nand → crash ⟨nand, state.polls⟩)
    (meets : ∀ nand ram' view', IndexReady g nand ram' ram'.indexTable → Settled g nand ram' →
      Maps g nand ram'.indexTable ram'.indexBlock view' store →
      Pending g ram'.indexTable view' → placeOf g ram'.indexTable view' = place →
      SameAreas ram ram' →
      post .success ram' ⟨nand, state.polls⟩) :
    Code.wp (idealMachine g) crash (indexUpdate g fuel) post ram state := by
  subst isTable placed
  have change : IndexChange g state.nand ram True ram.indexTable view view store store :=
    { ready := ready
      maps := fun _ => maps
      pending := fun _ => pending
      maps' := maps
      pending' := pending
      picked := fun _ _ => maps.pickedBlock_mem ram.indexBlock }
  refine wp_indexUpdate supported pos change
    (fun nand recoverable => safe nand ((recoverable trivial).elim id id)) ?_
  intro nand ram' view' ready' settled maps' sameTables sameNext same
  refine meets nand ram' view' ready' settled maps' ?_ ?_ same
  · unfold Pending rawEntry at pending ⊢
    rw [same.plr, sameTables, sameNext]
    exact pending
  · unfold placeOf mapEntry rawEntry
    rw [same.plr, sameTables]

/-- `INDEX_Init` finds the index table, wherever the index was on its way. -/
theorem wp_indexInit {indexBlock next : Nat} {table : IndexTable} {held : AnchorTable}
    {post : Status × AreaUpdatePlr → UbiRam D → Ideal (UbiBuffer D) → Prop}
    (supported : g.Supported) (pos : 0 < fuel)
    (ring : RingSingle g state.nand ram.anchorBlock ram.anchorNextPage held)
    (heldGood : GoodAnchor g state.nand indexBlock next held)
    (anchorGood : GoodAnchor g state.nand indexBlock next ram.anchorTable)
    (log : TableLog g state.nand indexBlock next (.index table))
    (maps : Maps g state.nand table indexBlock view store) (pending : Pending g table view)
    (placed : placeOf g table view = place)
    (safe : ∀ nand, Recoverable g place store nand → crash ⟨nand, state.polls⟩)
    (meets : ∀ nand ram' view', IndexReady g nand ram' ram'.indexTable → Settled g nand ram' →
      Maps g nand ram'.indexTable ram'.indexBlock view' store →
      Pending g ram'.indexTable view' → placeOf g ram'.indexTable view' = place →
      ram'.isUpdatingArea = false →
      ram'.diceHold = ram.diceHold →
      post (.success, ram'.indexTable.areaUpdatePlr) ram' ⟨nand, state.polls⟩) :
    Code.wp (idealMachine g) crash (indexInit g fuel) post ram state := by
  have here : crash state := safe state.nand
    ⟨indexBlock, next, table, view, ⟨log, .single heldGood ring⟩, maps, pending, placed⟩
  have usable := maps.usable_index
  have indexProper := (usable.2.trans supported.blocksSmall).ne
  obtain ⟨formatted, leads⟩ := anchorGood
  simp only [indexInit, Code.wp_bind, Code.wp_modify, Code.wp_get, Code.wp_assert]
  rcases leads with ⟨named, ec⟩ | ⟨full, old, ec, newUsable, blank⟩
  · -- the anchor names the index block
    subst named
    refine ⟨here, here, indexProper, here, wp_tableRead log (.inl rfl) here ?_⟩
    have last : next - 1 + 1 = next := Nat.succ_pred_eq_of_pos log.pos
    simp only [loadIndex, Code.wp_pure, Code.wp_bind, Code.wp_modify, if_true, last]
    refine ⟨here, here, here, wp_indexUpdate_read supported pos
      ⟨log, ⟨held, ring, heldGood⟩, formatted, ec⟩ rfl maps pending placed safe ?_⟩
    intro nand ram' view' ready settled maps' pending' placed' same
    have after : crash ⟨nand, state.polls⟩ :=
      safe nand ⟨_, _, _, _, ready.indexLog, maps', pending', placed'⟩
    simp only [Code.wp_get]
    exact ⟨after, after, after,
      meets nand ram' view' ready settled maps' pending' placed' same.isUpdatingArea same.diceHold⟩
  · -- the block that the anchor names is still blank
    subst old full
    have newProper := (newUsable.2.trans supported.blocksSmall).ne
    refine ⟨here, here, newProper, here, wp_tableRead_blank newUsable.2 (blank 0)
      (.inr ⟨rfl, blank⟩) here ?_⟩
    simp only [loadIndex, Code.wp_pure, Code.wp_bind, Code.wp_modify, reduceCtorEq, if_false,
      Code.wp_get, Code.wp_assert]
    refine ⟨here, here, here, indexProper, here, wp_tableRead log (.inl rfl) here ?_⟩
    simp only [Code.wp_pure, Code.wp_bind, Code.wp_modify, if_true]
    refine ⟨here, here, here, wp_indexUpdate_read supported pos
      ⟨log, ⟨held, ring, heldGood⟩, formatted, ec⟩ rfl maps pending placed safe ?_⟩
    intro nand ram' view' ready settled maps' pending' placed' same
    have after : crash ⟨nand, state.polls⟩ :=
      safe nand ⟨_, _, _, _, ready.indexLog, maps', pending', placed'⟩
    simp only [Code.wp_get]
    exact ⟨after, after,
      meets nand ram' view' ready settled maps' pending' placed' same.isUpdatingArea same.diceHold⟩

/-! ## The areas -/

/-- The mount has read the areas in `known`. -/
structure Mounting (g : Geometry) (nand : Nand (UbiBuffer D)) (ram : UbiRam D) (view : UbiView)
    (place : Nat → Nat) (store : Store D) (known : Nat → Prop) (plr : AreaUpdatePlr) : Prop where
  ready : IndexReady g nand ram ram.indexTable
  settled : Settled g nand ram
  maps : Maps g nand ram.indexTable ram.indexBlock view store
  pending : Pending g ram.indexTable view
  notUpdating : ram.isUpdatingArea = false
  offsets : OffsetsKnown g ram view known
  isPlr : ram.indexTable.areaUpdatePlr = plr
  placed : placeOf g ram.indexTable view = place

theorem Mounting.recoverable {nand : Nand (UbiBuffer D)} {known : Nat → Prop}
    {plr : AreaUpdatePlr} (mounting : Mounting g nand ram view place store known plr) :
    Recoverable g place store nand :=
  ⟨_, _, _, _, mounting.ready.indexLog, mounting.maps, mounting.pending, mounting.placed⟩

/-- `AREA_Init` reads the newest table of the area. -/
theorem wp_areaInit {known : Nat → Prop} {plr : AreaUpdatePlr} {area : Nat}
    {post : Status → UbiRam D → Ideal (UbiBuffer D) → Prop}
    (supported : g.Supported) (isArea : area < g.areaCount)
    (mounting : Mounting g state.nand ram view place store known plr) (safe : crash state)
    (meets : ∀ ram', ram'.indexTable = ram.indexTable → ram'.indexBlock = ram.indexBlock →
      IndexReady g state.nand ram' ram.indexTable → Settled g state.nand ram' →
      ram'.isUpdatingArea = false →
      OffsetsKnown g ram' view (fun other => known other ∨ other = area) →
      ram'.cachedAreaNumber = area → ram'.cachedAreaTable = view.tables area →
      ram'.diceHold = ram.diceHold → post .success ram' state) :
    Code.wp (idealMachine g) crash (areaInit g area) post ram state := by
  simp only [areaInit, Code.wp_bind, Code.wp_modify]
  refine ⟨safe, wp_areaRead_load supported isArea (mounting.maps.areas area isArea)
    (area_proper supported isArea) (.inl (Function.update_self _ _ _)) safe ?_⟩
  refine meets _ rfl rfl
    ⟨mounting.ready.log, mounting.ready.ring, mounting.ready.anchor, mounting.ready.ec⟩
    mounting.settled mounting.notUpdating ?_ rfl rfl rfl
  intro other isKnown
  by_cases same : other = area
  · subst same
    exact ⟨isArea, Function.update_self _ _ _⟩
  · simp only [Function.update_of_ne same]
    exact mounting.offsets other (isKnown.resolve_right same)

/-- The memory of the mount is what a commit of the announced update needs. -/
theorem Mounting.commitReady {nand : Nand (UbiBuffer D)} {known : Nat → Prop}
    {plr : AreaUpdatePlr} (mounting : Mounting g nand ram view place store known plr)
    (announced : plr.logicalBlock ≠ invalidBlock) (isKnown : known (g.areaIndex plr.logicalBlock))
    (missed : rawEntry g view plr.logicalBlock ≠ plr.entry) :
    CommitReady g nand
      { ram with cachedAreaTable := enteredTable g view plr, isUpdatingArea := true } True
      ram.indexTable view view store store known := by
  obtain ⟨ready, settled, maps, pending, -, offsets, isPlr, -⟩ := mounting
  subst isPlr
  have notFull : ram.areaOffsetTable (ram.updatingArea g) ≠ g.pagePerPhyBlock - 1 := by
    have room := (pending announced).resolve_left missed
    obtain ⟨isArea, offset⟩ := offsets _ isKnown
    have some := (maps.areas _ isArea).pos
    rw [offset]
    omega
  refine
    { ready := ⟨ready.log, ready.ring, ready.anchor, ready.ec⟩
      settled := settled
      maps := maps
      pending := pending
      maps' := maps
      isUpdating := rfl
      announced := maps.announced.resolve_left announced
      offsets := offsets
      isKnown := isKnown
      cached := fun _ => Function.update_idem _ _ _
      picked := fun _ other isPicked => ?_ }
  change other ∈ if ram.areaOffsetTable (ram.updatingArea g) = _ then _ else _ at isPicked
  rw [if_neg notFull] at isPicked
  split at isPicked
  · rw [List.mem_singleton.mp isPicked]
    exact maps.pickedBlock_mem ram.indexBlock
  · simp at isPicked

/-- The loop over the areas. -/
theorem wp_ubiInitAreas {known : Nat → Prop} {plr : AreaUpdatePlr} {areas : List Nat}
    {post : Status → UbiRam D → Ideal (UbiBuffer D) → Prop}
    (supported : g.Supported) (pos : 0 < fuel) (isArea : ∀ area ∈ areas, area < g.areaCount)
    (mounting : Mounting g state.nand ram view place store known plr)
    (synced : known (g.areaIndex plr.logicalBlock) → Synced g ram.indexTable view)
    (fits : areas = [] → CacheFits ram view known)
    (safe : ∀ nand, Recoverable g place store nand → crash ⟨nand, state.polls⟩)
    (meets : ∀ nand ram' view' known', Mounting g nand ram' view' place store known' plr →
      (known' (g.areaIndex plr.logicalBlock) → Synced g ram'.indexTable view') →
      CacheFits ram' view' known' → (∀ area, known' area ↔ known area ∨ area ∈ areas) →
      ram'.diceHold = ram.diceHold → post .success ram' ⟨nand, state.polls⟩) :
    Code.wp (idealMachine g) crash (ubiInitAreas g fuel plr areas .success) post ram state := by
  induction areas generalizing ram view known state with
  | nil =>
      simp only [ubiInitAreas, Code.wp_pure]
      exact ⟨safe _ mounting.recoverable,
        meets _ ram view known mounting synced (fits rfl) (fun area => by simp) rfl⟩
  | cons area rest ih =>
      have isArea₀ := isArea area List.mem_cons_self
      have here : crash state := safe _ mounting.recoverable
      simp only [ubiInitAreas, Code.wp_bind]
      refine wp_areaInit supported isArea₀ mounting here ?_
      intro ram₁ sameIndex sameBlock ready settled notUpdating offsets number isCached sameHold
      -- what is left to do once the area is read and, if need be, updated
      have next : ∀ nand ram₂ view₂,
          Mounting g nand ram₂ view₂ place store (fun other => known other ∨ other = area) plr →
          (known (g.areaIndex plr.logicalBlock) ∨ g.areaIndex plr.logicalBlock = area →
            Synced g ram₂.indexTable view₂) →
          CacheFits ram₂ view₂ (fun other => known other ∨ other = area) →
          ram₂.diceHold = ram.diceHold →
          Code.wp (idealMachine g) crash (ubiInitAreas g fuel plr rest .success) post ram₂
            ⟨nand, state.polls⟩ := by
        intro nand ram₂ view₂ mounting₂ synced₂ fits₂ sameHold₂
        refine ih (fun other inside => isArea other (List.mem_cons_of_mem _ inside)) mounting₂
          synced₂ (fun _ => fits₂) safe ?_
        intro nand₃ ram₃ view₃ known₃ mounting₃ synced₃ fits₃ isKnown₃ sameHold₃
        refine meets nand₃ ram₃ view₃ known₃ mounting₃ synced₃ fits₃ ?_
          (sameHold₃.trans sameHold₂)
        intro other
        rw [isKnown₃, List.mem_cons, or_assoc]
      have mounting₁ : Mounting g state.nand ram₁ view place store
          (fun other => known other ∨ other = area) plr :=
        { ready := sameIndex ▸ ready
          settled := settled
          maps := by
            rw [sameIndex, sameBlock]
            exact mounting.maps
          pending := sameIndex ▸ mounting.pending
          notUpdating := notUpdating
          offsets := offsets
          isPlr := sameIndex ▸ mounting.isPlr
          placed := sameIndex ▸ mounting.placed }
      have fits₁ : CacheFits ram₁ view (fun other => known other ∨ other = area) := fun _ => by
        rw [number, isCached]
        exact ⟨.inr rfl, rfl⟩
      have isPlr₁ := mounting₁.isPlr
      simp only [if_true]
      by_cases isUpdating : plr.logicalBlock ≠ invalidBlock ∧ area = g.areaIndex plr.logicalBlock
      · obtain ⟨announced, rfl⟩ := isUpdating
        simp only [ne_eq, announced, not_false_eq_true, if_true, areaCheckUpdatePlr, Code.wp_bind,
          Code.wp_get, isCached]
        refine ⟨here, ?_⟩
        by_cases found : view.tables (g.areaIndex plr.logicalBlock)
            (g.blockOffsetArea plr.logicalBlock) = ⟨plr.physicalBlock, plr.blockEc⟩
        · simp only [found, if_true, Code.wp_pure, Bool.false_eq_true, if_false, Code.wp_bind]
          refine ⟨here, here, next state.nand ram₁ view mounting₁ (fun _ _ => ?_) fits₁ sameHold⟩
          rw [isPlr₁]
          exact found
        · -- the area table misses the update that the index table announces
          have commit := mounting₁.commitReady announced (.inr rfl) found
          have inRange : plr.logicalBlock < g.ubiCapacity :=
            (isPlr₁ ▸ mounting₁.maps.announced).resolve_left announced
          have usable : Usable g plr.physicalBlock := by
            have held := mounting₁.maps.owned.held (.data _) inRange
            simp only [holder, mapEntry, isPlr₁, if_true] at held
            exact held
          have ecProper : plr.blockEc ≠ invalidEc := by
            have ec := mounting₁.maps.mapEc _ inRange
            simp only [mapEntry, isPlr₁, if_true] at ec
            exact ec
          have proper := (usable.2.trans supported.blocksSmall).ne
          subst isPlr₁
          simp only [found, if_false, Code.wp_bind, Code.wp_modify, Code.wp_pure, if_true,
            indexUpdateAreaUpdate, Code.wp_assert, isCached]
          refine ⟨here, here, ⟨proper, ecProper⟩, here, here, ?_⟩
          have placed := mounting₁.placed
          refine wp_indexUpdateCommit supported pos commit
            (fun nand recoverable => safe nand (placed ▸ (recoverable trivial).elim id id)) ?_
          intro nand ram₂ view₂ committed placed₂ plr₂ sameHold₂
          refine next nand ram₂ view₂ ?_ (fun _ => committed.synced) committed.fits
            (sameHold₂.trans sameHold)
          exact
            { ready := committed.ready
              settled := committed.settled
              maps := committed.maps
              pending := committed.synced.pending
              notUpdating := committed.notUpdating
              offsets := committed.offsets
              isPlr := plr₂
              placed := placed₂.trans placed }
      · have notUpdating' : area ≠
            (if plr.logicalBlock ≠ invalidBlock then g.areaIndex plr.logicalBlock
              else invalidArea) := by
          split
          · rename_i announced
            exact fun same => isUpdating ⟨announced, same⟩
          · exact area_proper supported isArea₀
        simp only [notUpdating', if_false, Code.wp_bind, Code.wp_pure]
        refine ⟨here, next state.nand ram₁ view mounting₁ ?_ fits₁ sameHold⟩
        rintro (isKnown | same) announced
        · rw [sameIndex] at announced ⊢
          exact synced isKnown announced
        · exact absurd ⟨isPlr₁ ▸ announced, same.symm⟩ isUpdating

/-! ## The whole mount -/

/-- `UBI_Init` ends ready for the next call, with every page that it found. -/
theorem wp_ubiInit {post : Status → UbiRam D → Ideal (UbiBuffer D) → Prop}
    (supported : g.Supported) (pos : 0 < fuel) (recoverable : Recoverable g place store state.nand)
    (logBlock : ∀ slot, (ram.diceHold slot).logBlock < g.ubiCapacity)
    (safe : ∀ nand, Recoverable g place store nand → crash ⟨nand, state.polls⟩)
    (meets : ∀ nand ram' view', UbiReady g nand ram' view' store →
      post .success ram' ⟨nand, state.polls⟩) :
    Code.wp (idealMachine g) crash (ubiInit g fuel) post ram state := by
  obtain ⟨indexBlock, next, table, view, ⟨log, ring⟩, maps, pending, placed⟩ := recoverable
  have indexUsable := maps.usable_index
  have capacity := ubiCapacity_le supported
  have small := supported.blocksSmall
  have proper : g.ubiCapacity ≠ invalidBlock := by
    rw [invalidBlock]
    omega
  -- changes of the ring do not touch the tables
  have kept : ∀ nand, RingChanged g state.nand nand →
      TableLog g nand indexBlock next (.index table) ∧ Maps g nand table indexBlock view store ∧
        ∀ anchor, GoodAnchor g state.nand indexBlock next anchor →
          GoodAnchor g nand indexBlock next anchor := fun nand changed =>
    ⟨log.frame (changed _ indexUsable.not_inRing), maps.frameRing changed, fun anchor good =>
      good.frame fun block usable blank => changed.blank usable blank⟩
  simp only [ubiInit, Code.wp_bind]
  refine wp_anchorInit supported ring (fun anchor good => good.1) proper ?_ ?_
  · intro nand changed ring'
    obtain ⟨log', maps', good⟩ := kept nand changed
    exact safe nand ⟨_, _, _, _, ⟨log', ring'.frame (fun _ _ => rfl) good id⟩, maps',
      pending, placed⟩
  · intro nand block page held anchor changed single heldGood anchorGood _
    obtain ⟨log', maps', good⟩ := kept nand changed
    simp only [if_true, Code.wp_bind]
    refine wp_indexInit supported pos single (good held heldGood) (good anchor anchorGood) log'
      maps' pending placed safe ?_
    intro nand₁ ram₁ view₁ ready settled maps₁ pending₁ placed₁ notUpdating sameHold
    simp only [if_true, Code.wp_bind]
    have mounting : Mounting g nand₁ ram₁ view₁ place store (fun _ => False)
        ram₁.indexTable.areaUpdatePlr :=
      ⟨ready, settled, maps₁, pending₁, notUpdating, fun _ impossible => impossible.elim, rfl,
        placed₁⟩
    refine wp_ubiInitAreas supported pos (fun area inside => List.mem_range.mp inside) mounting
      (fun impossible => impossible.elim) ?_ safe ?_
    · intro empty
      have some := supported.areaCount_pos
      rw [List.range_eq_nil] at empty
      omega
    · intro nand₂ ram₂ view₂ known mounting₂ synced fits isKnown sameHold₂
      obtain rfl : known = (· < g.areaCount) := by
        funext area
        simp only [isKnown, List.mem_range, false_or]
      have after := safe nand₂ mounting₂.recoverable
      have synced₂ : Synced g ram₂.indexTable view₂ := by
        rcases mounting₂.maps.announced with none | announced
        · exact fun impossible => absurd none impossible
        · exact synced (mounting₂.isPlr ▸ areaIndex_lt supported announced)
      have committed : Committed g nand₂ ram₂ view₂ store (· < g.areaCount) :=
        ⟨mounting₂.ready, mounting₂.settled, mounting₂.maps, synced₂, mounting₂.notUpdating,
          mounting₂.offsets, fits⟩
      have hold : ∀ slot, (ram₂.diceHold slot).logBlock < g.ubiCapacity := by
        rw [sameHold₂, sameHold]
        exact logBlock
      simp only [if_true, Code.wp_bind, Code.wp_modify, Code.wp_pure]
      refine ⟨after, after, meets nand₂ _ view₂ ⟨committed.withHold _, ?_⟩⟩
      refine ⟨fun slot isSlot _ => ?_, fun held => ?_, fun slot => ?_⟩
      · simp only [isSlot, if_true]
      · simp only [g.totalDieCount_pos, if_true, ne_eq, not_true_eq_false] at held
      · by_cases isSlot : slot < g.totalDieCount
        · simp only [isSlot, if_true]
          exact hold slot
        · simp only [isSlot, if_false]
          exact hold slot

end Specs

end OpenNfm
