import OpenNfm.Ubi.Operations

/-!
# Static wear levelling

`UBI_SWL` copies the least worn block of an area to the most worn free block
and exchanges the two.  The copy programs every page, so that blank pages of
the logical block are programmed with ones.
-/

namespace OpenNfm

open OpenNfm.Program

variable {g : Geometry} {D : Type}

/-! ## The exchanged blocks -/

theorem minEcOffset_lt (table : AreaTable) {n : Nat} (pos : 0 < n) : minEcOffset table n < n := by
  induction n with
  | zero => exact absurd pos (Nat.lt_irrefl 0)
  | succ n ih =>
      have step : minEcOffset table (n + 1) =
          if (table n).ec < (table (minEcOffset table n)).ec then n else minEcOffset table n := by
        rw [minEcOffset, List.range_succ, List.foldl_append]
        rfl
      rw [step]
      split
      · exact Nat.lt_succ_self n
      · cases n with
        | zero => exact Nat.one_pos
        | succ n => exact Nat.lt_succ_of_lt (ih (Nat.succ_pos n))

/-- The least worn block of the area that wear levelling looks at. -/
def UbiView.leastWorn (g : Geometry) (view : UbiView) (area : Nat) : Nat :=
  area * g.cfgPhyBlockPerArea + minEcOffset (view.tables area) g.cfgPhyBlockPerArea

theorem leastWorn_area (supported : g.Supported) (view : UbiView) (area : Nat) :
    g.areaIndex (view.leastWorn g area) = area ∧
      g.blockOffsetArea (view.leastWorn g area) =
        minEcOffset (view.tables area) g.cfgPhyBlockPerArea := by
  have inside := minEcOffset_lt (view.tables area) supported.entries
  unfold UbiView.leastWorn Geometry.areaIndex Geometry.blockOffsetArea
  rw [Nat.add_comm, Nat.add_mul_div_right _ _ supported.entries, Nat.div_eq_of_lt inside,
    Nat.add_mul_mod_self_right, Nat.mod_eq_of_lt inside, Nat.zero_add]
  exact ⟨rfl, rfl⟩

theorem rawEntry_leastWorn (supported : g.Supported) (view : UbiView) (area : Nat) :
    rawEntry g view (view.leastWorn g area) =
      view.tables area (minEcOffset (view.tables area) g.cfgPhyBlockPerArea) := by
  obtain ⟨isArea, offset⟩ := leastWorn_area supported view area
  rw [rawEntry, isArea, offset]

/-- A page after wear levelling has copied it. -/
def copiedPage {B : Type} [PageContent B] (content : Option (Page B)) : Page B :=
  content.getD ⟨PageContent.ones, .ones⟩

/-- A logical block after wear levelling: its blank pages are programmed. -/
def Nand.fill {B : Type} [PageContent B] (nand : Nand B) (g : Geometry) (block : Nat) : Nand B :=
  Function.update nand block fun page =>
    if page < g.pagePerPhyBlock then some (copiedPage (nand block page)) else none

/-- The most worn free block. -/
def mostWorn (g : Geometry) (free : Nat → BlockEc) : BlockEc :=
  free (freeBlockLastValid free (g.freeBlockCount - 1))

/-- Wear levelling finds two blocks to exchange. -/
def Exchanges (g : Geometry) (ram : UbiRam D) (view : UbiView) : Prop :=
  swlRequired g (rawEntry g view (view.leastWorn g ram.anchorTable.swlCurrentArea))
    (mostWorn g ram.indexTable.free) = true

/-- What wear levelling makes of the logical blocks. -/
def Levelled (g : Geometry) (store store' : Store D) : Prop :=
  store' = store ∨ ∃ block < g.ubiCapacity, store' = store.fill g block

/-- The static variables of `UBI_SWL` at the commit. -/
def levelledRam (g : Geometry) (ram : UbiRam D) (block : Nat) (min max : BlockEc) : UbiRam D :=
  { ram with
    indexTable :=
      { ram.indexTable with
        free := swappedFree g ram.indexTable.free min
        areaUpdatePlr := ⟨block, max.block, max.ec⟩ }
    isUpdatingArea := true }

section Specs

variable {crash : Ideal (UbiBuffer D) → Prop} {ram : UbiRam D} {state : Ideal (UbiBuffer D)}
  {fuel : Nat} {view : UbiView} {store : Store D}

/-! ## Copying -/

/-- The copy touches the target only. -/
theorem wp_ubiCopyPages {source target first count : Nat}
    {post : Status → UbiRam D → Ideal (UbiBuffer D) → Prop}
    (sourceRange : source < g.cfgLogBlockCount) (targetRange : target < g.cfgLogBlockCount)
    (different : source ≠ target) (inRange : first + count ≤ g.pagePerPhyBlock)
    (blank : ∀ page, first ≤ page → state.nand target page = none)
    (safe : ∀ row, crash ⟨Function.update state.nand target row, state.polls⟩)
    (meets : post .success ram
      ⟨Function.update state.nand target fun page =>
        if first ≤ page ∧ page < first + count then some (copiedPage (state.nand source page))
        else state.nand target page, state.polls⟩) :
    Code.wp (idealMachine g) crash (ubiCopyPages source target (List.range' first count)) post ram
      state := by
  have here : crash state := by
    have := safe (state.nand target)
    rwa [Function.update_eq_self] at this
  induction count generalizing first state with
  | zero =>
      have same : (fun page => if first ≤ page ∧ page < first + 0 then
          some (copiedPage (state.nand source page)) else state.nand target page) =
          state.nand target := by
        funext page
        rw [if_neg (by omega)]
      rw [same, Function.update_eq_self] at meets
      simp only [List.range'_zero, ubiCopyPages, Code.wp_pure]
      exact ⟨here, meets⟩
  | succ count ih =>
      have page : g.HasPage source first := ⟨sourceRange, by omega⟩
      have copied : (⟨(state.nand.answer source first).main,
          (some (state.nand.answer source first).spare).getD .ones⟩ : Page (UbiBuffer D)) =
          copiedPage (state.nand source first) := by
        unfold Nand.answer copiedPage
        cases state.nand source first <;> rfl
      simp only [List.range'_succ, ubiCopyPages, Code.wp_bind, wp_mtdRead page]
      rw [wp_mtdProgram ⟨targetRange, by omega⟩ (blank first le_rfl), copied]
      have written : crash (state.program target first (copiedPage (state.nand source first))) :=
        safe _
      simp only [if_true, Code.wp_bind, wp_mtdWaitReady targetRange]
      refine ⟨here, here, written, written, ih (by omega) ?_ ?_ ?_ written⟩
      · intro page behind
        rw [Ideal.program_nand, Nand.program_otherPage _ _ _ (by omega)]
        exact blank page (by omega)
      · intro row
        have := safe row
        simp only [Ideal.program, Nand.program, Function.update_idem]
        exact this
      · have source' : ∀ page, state.nand.program target first
            (copiedPage (state.nand source first)) source page = state.nand source page :=
          fun page => Nand.program_other _ _ _ _ different
        simp only [Ideal.program_nand, source']
        have rows : (fun page => if first + 1 ≤ page ∧ page < first + 1 + count then
              some (copiedPage (state.nand source page))
            else state.nand.program target first (copiedPage (state.nand source first)) target
              page) =
            fun page => if first ≤ page ∧ page < first + (count + 1) then
              some (copiedPage (state.nand source page)) else state.nand target page := by
          funext page
          by_cases same : page = first
          · subst same
            rw [if_neg (by omega), if_pos (by omega), Nand.program_same]
          · rw [Nand.program_otherPage _ _ _ same]
            have : (first + 1 ≤ page ∧ page < first + 1 + count) ↔
                (first ≤ page ∧ page < first + (count + 1)) := by omega
            simp only [this]
        rw [rows]
        simp only [Ideal.program, Nand.program, Function.update_idem]
        exact meets

/-! ## The exchange -/

theorem wp_areaFindMinEcBlock {area : Nat}
    {post : Nat × Option BlockEc → UbiRam D → Ideal (UbiBuffer D) → Prop}
    (supported : g.Supported) (inv : UbiReady g state.nand ram view store)
    (isArea : area < g.areaCount) (safe : crash state)
    (meets : post (minEcOffset (view.tables area) g.cfgPhyBlockPerArea,
        some (rawEntry g view (view.leastWorn g area))) (ram.cache area (view.tables area))
      state) :
    Code.wp (idealMachine g) crash (areaFindMinEcBlock g area) post ram state := by
  rw [rawEntry_leastWorn supported] at meets
  simp only [areaFindMinEcBlock, Code.wp_bind]
  refine wp_areaRead_fits supported inv.committed.maps.areas inv.committed.offsets
    inv.committed.fits isArea safe ?_
  simp only [if_true, Code.wp_bind, Code.wp_get, Code.wp_pure]
  exact ⟨safe, safe, meets⟩

/-- The exchanged block is a logical block: the other entries of the area are
invalid. -/
theorem leastWorn_lt {nand : Nand (UbiBuffer D)} {table : IndexTable} {indexBlock : Nat}
    (supported : g.Supported) (maps : Maps g nand table indexBlock view store)
    (isArea : ram.anchorTable.swlCurrentArea < g.areaCount) (exchanges : Exchanges g ram view) :
    view.leastWorn g ram.anchorTable.swlCurrentArea < g.ubiCapacity := by
  by_contra outside
  have areaIs := (leastWorn_area supported view ram.anchorTable.swlCurrentArea).1
  have unused := maps.unused _ (Nat.le_of_not_lt outside) (areaIs.symm ▸ isArea)
  unfold Exchanges at exchanges
  rw [unused] at exchanges
  simp [swlRequired, BlockEc.invalid] at exchanges

/-- Turning to the next area. -/
theorem UbiReady.nextArea {nand : Nand (UbiBuffer D)} (inv : UbiReady g nand ram view store)
    (supported : g.Supported) :
    UbiReady g nand
      { ram with
        anchorTable :=
          { ram.anchorTable with
            swlCurrentArea := (ram.anchorTable.swlCurrentArea + 1) % g.areaCount } }
      view store := by
  obtain ⟨⟨ready, settled, maps, synced, notUpdating, offsets, fits⟩, hold⟩ := inv
  obtain ⟨log, ring, anchor, ec⟩ := ready
  exact ⟨⟨⟨log, ring, ⟨anchor.total, Nat.mod_lt _ supported.areaCount_pos, anchor.oath,
    anchor.version, anchor.noBad⟩, ec⟩, settled, maps, synced, notUpdating, offsets, fits⟩, hold⟩

/-- `UBI_SWL` exchanges two blocks or none. -/
theorem wp_ubiSwl {fresh : Prop} {post : Status → UbiRam D → Ideal (UbiBuffer D) → Prop}
    (supported : g.Supported) (pos : 0 < fuel) (inv : UbiReady g state.nand ram view store)
    (picked : fresh → Exchanges g ram view → ∀ other ∈ commitPicks g (levelledRam g ram
        (view.leastWorn g ram.anchorTable.swlCurrentArea)
        (rawEntry g view (view.leastWorn g ram.anchorTable.swlCurrentArea))
        (mostWorn g ram.indexTable.free)), other ∈ view.free.map BlockEc.block)
    (safe : ∀ nand, (fresh → ∃ place store', Levelled g store store' ∧
      Recoverable g place store' nand) → crash ⟨nand, state.polls⟩)
    (unchanged : ¬ Exchanges g ram view → ∀ ram', UbiReady g state.nand ram' view store →
      post .success ram' state)
    (exchanged : Exchanges g ram view → ∀ nand ram' view',
      UbiReady g nand ram' view' (store.fill g (view.leastWorn g ram.anchorTable.swlCurrentArea)) →
      post .success ram' ⟨nand, state.polls⟩) :
    Code.wp (idealMachine g) crash (ubiSwl g fuel) post ram state := by
  obtain ⟨committed, hold⟩ := inv
  have maps := committed.maps
  have isArea := committed.ready.anchor.swl
  have fitsTable := maps.free.fits
  have many := maps.many
  have lastIs := maps.free.freeBlockLastValid_eq
    (show view.free.length - 1 ≤ g.freeBlockCount - 1 by omega) (by omega)
  have inside : view.free.length - 1 < view.free.length := by omega
  have maxIs : mostWorn g ram.indexTable.free = view.free[view.free.length - 1] := by
    rw [mostWorn, lastIs, maps.free.entry_of_lt inside]
  have here : crash state := safe state.nand fun _ =>
    ⟨_, store, .inl rfl, committed.recoverable⟩
  have entry := rawEntry_leastWorn supported view ram.anchorTable.swlCurrentArea
  obtain ⟨areaIs, offsetIs⟩ := leastWorn_area supported view ram.anchorTable.swlCurrentArea
  have logical : ram.anchorTable.swlCurrentArea * g.cfgPhyBlockPerArea +
      minEcOffset (view.tables ram.anchorTable.swlCurrentArea) g.cfgPhyBlockPerArea =
        view.leastWorn g ram.anchorTable.swlCurrentArea := rfl
  have exchangesIs : Exchanges g ram view ↔
      swlRequired g (rawEntry g view (view.leastWorn g ram.anchorTable.swlCurrentArea))
        (mostWorn g ram.indexTable.free) = true := Iff.rfl
  generalize blockIs : view.leastWorn g ram.anchorTable.swlCurrentArea = block at *
  have inv₁ : UbiReady g state.nand
      (ram.cache ram.anchorTable.swlCurrentArea
        (view.tables ram.anchorTable.swlCurrentArea)) view store :=
    ⟨committed.cache isArea, hold⟩
  simp only [ubiSwl, Code.wp_bind, Code.wp_get]
  refine ⟨here, wp_areaFindMinEcBlock supported ⟨committed, hold⟩ isArea here ?_⟩
  rw [blockIs]
  refine wp_indexFreeBlockGetMaxEcBlock maps.free many here ?_
  simp only [← maxIs]
  by_cases required : swlRequired g (rawEntry g view block)
      (mostWorn g ram.indexTable.free) = true
  · have exchanges := exchangesIs.mpr required
    have isBlock : block < g.ubiCapacity := blockIs ▸ leastWorn_lt supported maps isArea exchanges
    simp only [required, if_true, Code.wp_bind]
    have proper := required
    simp only [swlRequired, Bool.decide_and, Bool.and_eq_true, decide_eq_true_eq] at proper
    obtain ⟨-, -, -, -, minEc, exceeds⟩ := proper
    obtain ⟨minUsable, minProper, -, content⟩ := committed.data supported isBlock
    have entryIs := committed.synced.mapEntry_eq (logBlock_proper supported isBlock)
    have isEntry : view.free[view.free.length - 1] ∈ view.free := List.getElem_mem inside
    have isFree := List.mem_map_of_mem (f := BlockEc.block) isEntry
    have maxUsable := maps.usable_free isEntry
    have notInUse := maps.not_inUse_free isEntry
    have maxProper := maps.free.valid _ isEntry
    have different : (rawEntry g view block).block ≠
        (view.free[view.free.length - 1]).block := by
      intro same
      exact notInUse (.inr ⟨block, isBlock, entryIs ▸ same⟩)
    have apart : (view.free[view.free.length - 1]).block ≠ ram.indexBlock := fun same =>
      maps.owned.apart .index trivial
        (show ram.indexBlock ∈ _ from same ▸ isFree)
    obtain ⟨blocks, list, perm⟩ := maps.free.swap many ⟨minProper, minEc⟩
    have listIs :
        FreeList g (swappedFree g ram.indexTable.free (rawEntry g view block)) blocks := by
      simp only [swappedFree, lastIs]
      exact list
    rw [maxIs] at required exceeds picked ⊢
    obtain ⟨max, isMax⟩ : ∃ max, max = view.free[view.free.length - 1] := ⟨_, rfl⟩
    simp only [← isMax] at required exceeds picked isEntry isFree maxUsable notInUse maxProper
    simp only [← isMax] at different apart perm ⊢
    -- whatever the target holds, the tables on the flash stand
    have rows : ∀ row other, other ≠ max.block →
        Function.update state.nand max.block row other = state.nand other :=
      fun row other apart' => Function.update_of_ne apart' _ _
    have kept : ∀ row, Maps g (Function.update state.nand max.block row) ram.indexTable
        ram.indexBlock view store := fun row =>
      maps.frame fun other inUse => rows row other fun same => notInUse (same ▸ inUse)
    have settled : ∀ row, Settled g (Function.update state.nand max.block row) ram := fun row =>
      committed.settled.frame fun other inRing => rows row other fun same =>
        maxUsable.not_inRing (same ▸ inRing)
    have log : ∀ row, TableLog g (Function.update state.nand max.block row) ram.indexBlock
        ram.indexNextPage (.index ram.indexTable) := fun row =>
      committed.ready.log.frame (rows row _ apart.symm)
    have safeRow : ∀ row, crash ⟨Function.update state.nand max.block row, state.polls⟩ :=
      fun row => safe _ fun _ => ⟨_, store, .inl rfl, _, _, _, _,
        (settled row).indexLog (log row), kept row, committed.synced.pending, rfl⟩
    have erased : crash (state.erase max.block) := safeRow _
    rw [wp_mtdErase maxUsable.2]
    simp only [if_true, List.range_eq_range', Code.wp_bind]
    refine ⟨here, erased, wp_ubiCopyPages minUsable.2 maxUsable.2 different (by omega)
      (fun page _ => state.nand.erase_same _ _) (fun row => ?_) ?_⟩
    · have := safeRow row
      simpa only [Ideal.erase, Nand.erase, Function.update_idem] using this
    · -- the target holds the copy
      let row : Nat → Option (Page (UbiBuffer D)) := fun page =>
        if page < g.pagePerPhyBlock then some (copiedPage (store block page)) else none
      have after : (⟨Function.update (state.erase max.block).nand max.block fun page =>
          if 0 ≤ page ∧ page < 0 + g.pagePerPhyBlock then
            some (copiedPage ((state.erase max.block).nand (rawEntry g view block).block page))
          else (state.erase max.block).nand max.block page, (state.erase max.block).polls⟩ :
          Ideal (UbiBuffer D)) = ⟨Function.update state.nand max.block row, state.polls⟩ := by
        have sourceRow : ∀ page, (state.erase max.block).nand (rawEntry g view block).block page =
            store block page := fun page => by
          rw [Ideal.erase_nand, Nand.erase_row _ different, content]
        have targetRow : ∀ page, (state.erase max.block).nand max.block page = none :=
          fun page => state.nand.erase_same _ page
        simp only [sourceRow, targetRow, Nat.zero_le, Nat.zero_add, true_and]
        simp only [Ideal.erase, Nand.erase, Function.update_idem, row]
      rw [after]
      have copied : crash ⟨Function.update state.nand max.block row, state.polls⟩ := safeRow row
      have filled : Function.update store block row = store.fill g block := rfl
      have synced := committed.synced
      have moved : Maps g (Function.update state.nand max.block row)
          (levelledRam g ram block (rawEntry g view block) max).indexTable ram.indexBlock
          { view with free := blocks } (store.fill g block) := by
        have remapped := maps.remap supported synced isBlock isFree maxProper.2 listIs
          (entryIs ▸ perm) fun other inUse => rows row other fun same => notInUse (same ▸ inUse)
        rw [Function.update_self, filled] at remapped
        exact remapped
      let ram₁ := levelledRam g
        (ram.cache ram.anchorTable.swlCurrentArea (view.tables ram.anchorTable.swlCurrentArea))
        block (rawEntry g view block) max
      have settled₁ : Settled g (Function.update state.nand max.block row) ram₁ := settled row
      have commit : CommitReady g (Function.update state.nand max.block row) ram₁ fresh
          ram.indexTable view { view with free := blocks } store (store.fill g block)
          (· < g.areaCount) :=
        { ready := .ofSettled settled₁ (log row) committed.ready.anchor committed.ready.ec
          settled := settled₁
          maps := kept row
          pending := synced.pending
          maps' := moved
          isUpdating := rfl
          announced := isBlock
          offsets := committed.offsets
          isKnown := by
            change g.areaIndex block < g.areaCount
            rw [areaIs]
            exact isArea
          cached := fun same => by
            change Function.update (view.tables ram.anchorTable.swlCurrentArea) _ _ = _
            rw [← areaIs]
            rfl
          picked := fun isFresh => picked isFresh exchanges }
      simp only [if_true, indexUpdateAreaUpdate, logical, Code.wp_bind, Code.wp_assert,
        Code.wp_modify]
      refine ⟨⟨maxProper.1, maxProper.2⟩, copied, copied,
        wp_indexFreeBlockSwapMaxEcBlock maps.free many (isMax ▸ exceeds) copied ?_⟩
      · change Code.wp _ _ _ _ ram₁ _
        refine wp_indexUpdateCommit supported pos commit (fun nand recoverable =>
          safe nand fun isFresh => ?_) ?_
        · rcases recoverable isFresh with old | new
          · exact ⟨_, store, .inl rfl, old⟩
          · exact ⟨_, _, .inr ⟨block, isBlock, rfl⟩, new⟩
        · intro nand ram' view' committed' _ _ sameHold
          refine exchanged exchanges nand ram' view' ⟨committed', ?_⟩
          rw [sameHold]
          exact hold
  · simp only [required, Bool.false_eq_true, if_false, Code.wp_modify, Code.wp_bind, Code.wp_pure]
    exact ⟨here, here, unchanged (fun exchanges => required (exchangesIs.mp exchanges)) _
      (inv₁.nextArea supported)⟩

end Specs

end OpenNfm
