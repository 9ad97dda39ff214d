import OpenNfm.Ubi.AnchorReturns
import OpenNfm.Ubi.FreeParked
import OpenNfm.Ubi.Commit
import OpenNfm.Ubi.FreeBlockGet

/-!
# The commit on a device that fails

`INDEX_Update_Commit` repeats its round as long as a bad block is reported.  A write of the
area table that fails makes the next round move the area to a free block, and a write of
the index table that fails makes it move the index.  Either move discards the block that
failed, so that every failure uses up a free block or is the first one of its table: the
number of free blocks plus two is more than the number of rounds that fail.
-/

namespace OpenNfm

open OpenNfm.Program

variable {g : Geometry} {D : Type} {pattern : FailurePattern} {fuel : Nat}

/-! ## The state of a commit -/

/-- The block can take another table, on page `next`. -/
structure Appendable (state : Unreliable (UbiBuffer D)) (block next : Nat) : Prop where
  tables : Tables state.nand block next
  blank : BlankFrom state block next

theorem Appendable.ofBlank {state : Unreliable (UbiBuffer D)} {block : Nat}
    (blank : BlankFrom state block 0) : Appendable state block 0 :=
  ⟨Tables.ofBlank fun page => (blank page (Nat.zero_le page)).1, blank⟩

theorem Appendable.frame {inside : Nat → Prop} {state after : Unreliable (UbiBuffer D)}
    {block next : Nat} (log : Appendable state block next)
    (changed : ChangedOnly inside state after) (outside : ¬ inside block) :
    Appendable after block next :=
  have same := changed.nand block outside
  ⟨⟨fun page written => same ▸ log.tables.written page written,
    fun page behind => same ▸ log.tables.blank page behind⟩, log.blank.frame changed outside⟩

/-- A table is appended. -/
theorem Appendable.append {state after : Unreliable (UbiBuffer D)} {block next : Nat}
    (log : Appendable state block next) {table : UbiBuffer D}
    (nand : after.nand = state.nand.program block next (tablePage table))
    (torn : after.torn = state.torn) : Appendable after block (next + 1) := by
  refine ⟨nand ▸ log.tables.program table, fun page behind => ?_⟩
  rw [nand, torn, Nand.program_otherPage _ _ _ (by omega)]
  exact log.blank page (by omega)

theorem Appendable.written {state after : Unreliable (UbiBuffer D)} {block next : Nat}
    (log : Appendable state block next) {table : UbiBuffer D} (isBlock : block < g.cfgLogBlockCount)
    (isPage : next < g.pagePerPhyBlock)
    (nand : after.nand = state.nand.program block next (tablePage table)) :
    TableLog g after.nand block (next + 1) table where
  inRange := isBlock
  pos := Nat.succ_pos next
  le := isPage
  tables := nand ▸ log.tables.program table
  last := by
    rw [nand]
    exact Nand.program_same _ _ _ _

theorem changed_of_program {state after : Unreliable (UbiBuffer D)} {block page : Nat}
    {content : Page (UbiBuffer D)} (nand : after.nand = state.nand.program block page content)
    (torn : after.torn = state.torn) : ChangedOnly (· = block) state after := by
  refine ⟨fun other different => ?_, fun other _ => congrFun torn other⟩
  rw [nand]
  exact Function.update_of_ne different _ _

/-- The blocks in use and the free ones are different blocks outside the ring. -/
structure CommitBlocks (g : Geometry) (used : List Nat) (blocks : List BlockEc) : Prop where
  distinct : (used ++ blocks.map BlockEc.block).Nodup
  usable : ∀ block ∈ used ++ blocks.map BlockEc.block,
    block < g.cfgLogBlockCount ∧ ¬ g.InRing block

namespace CommitBlocks

variable {used used' : List Nat} {blocks blocks' rest : List BlockEc} {entry : BlockEc} {old : Nat}

theorem of_subperm (known : CommitBlocks g used blocks)
    (sub : List.Subperm (used' ++ blocks'.map BlockEc.block) (used ++ blocks.map BlockEc.block)) :
    CommitBlocks g used' blocks' := by
  obtain ⟨list, perm, sublist⟩ := sub
  exact ⟨perm.nodup_iff.mp (known.distinct.sublist sublist), fun block inside =>
    known.usable block (sublist.mem (perm.mem_iff.mpr inside))⟩

theorem perm (known : CommitBlocks g used blocks) (same : used'.Perm used) :
    CommitBlocks g used' blocks :=
  known.of_subperm (same.append_right _).subperm

/-- A free block comes into use for one that is discarded. -/
theorem take (known : CommitBlocks g (old :: used) blocks)
    (sub : List.Subperm (entry :: rest) blocks) : CommitBlocks g (entry.block :: used) rest := by
  obtain ⟨list, perm, sublist⟩ := sub
  refine known.of_subperm ?_
  have moved : (entry.block :: used ++ rest.map BlockEc.block).Perm
      (used ++ list.map BlockEc.block) :=
    List.perm_middle.symm.trans ((perm.map BlockEc.block).symm.append_left used)
  have free : List.Subperm (used ++ list.map BlockEc.block) (used ++ blocks.map BlockEc.block) :=
    ((sublist.map BlockEc.block).append_left used).subperm
  exact moved.subperm.trans (free.trans (List.sublist_cons_self old _).subperm)

/-- A free block comes into use for one that is put back. -/
theorem exchange {ec : EraseCount} (known : CommitBlocks g (old :: used) blocks)
    (sub : List.Subperm (entry :: rest) blocks) (put : blocks'.Perm (⟨old, ec⟩ :: rest)) :
    CommitBlocks g (entry.block :: used) blocks' := by
  obtain ⟨list, perm, sublist⟩ := sub
  refine known.of_subperm ?_
  have back : (entry.block :: used ++ blocks'.map BlockEc.block).Perm
      (entry.block :: used ++ old :: rest.map BlockEc.block) :=
    (put.map BlockEc.block).append_left _
  have moved : (entry.block :: used ++ old :: rest.map BlockEc.block).Perm
      (old :: (used ++ list.map BlockEc.block)) := by
    refine List.perm_middle.trans (List.Perm.cons old ?_)
    exact List.perm_middle.symm.trans ((perm.map BlockEc.block).symm.append_left used)
  exact (back.trans moved).subperm.trans
    (((sublist.map BlockEc.block).append_left used).cons_cons old).subperm

end CommitBlocks

/-- The index can be written: to its block, or to a free one.  The blocks of `others` are in
use. -/
structure IndexRetry (g : Geometry) (ram : UbiRam D) (state : Unreliable (UbiBuffer D))
    (others : List Nat) (blocks : List BlockEc) : Prop where
  free : FreeHead g ram.indexTable.free blocks
  anchor : AnchorRoom g ram state
  known : CommitBlocks g (ram.indexBlock :: others) blocks
  le : ram.indexNextPage ≤ g.pagePerPhyBlock
  log : ram.indexNextPage ≠ g.pagePerPhyBlock →
    Appendable state ram.indexBlock ram.indexNextPage

/-- The variables that belong to the area of the update. -/
structure SameArea (ram ram' : UbiRam D) : Prop where
  areaIndex : ram'.indexTable.areaIndex = ram.indexTable.areaIndex
  plr : ram'.indexTable.areaUpdatePlr = ram.indexTable.areaUpdatePlr
  isUpdating : ram'.isUpdatingArea = ram.isUpdatingArea
  offsets : ram'.areaOffsetTable = ram.areaOffsetTable
  table : ram'.cachedAreaTable = ram.cachedAreaTable
  number : ram'.cachedAreaNumber = ram.cachedAreaNumber

theorem SameArea.refl (ram : UbiRam D) : SameArea ram ram :=
  ⟨rfl, rfl, rfl, rfl, rfl, rfl⟩

theorem SameArea.trans {first second third : UbiRam D} (same : SameArea first second)
    (same' : SameArea second third) : SameArea first third :=
  ⟨same'.areaIndex.trans same.areaIndex, same'.plr.trans same.plr,
    same'.isUpdating.trans same.isUpdating, same'.offsets.trans same.offsets,
    same'.table.trans same.table, same'.number.trans same.number⟩

/-- None if the block of the index was discarded, and one otherwise. -/
def indexLeft (g : Geometry) (ram : UbiRam D) : Nat :=
  if ram.indexNextPage = g.pagePerPhyBlock ∧ ram.indexBlockEc = invalidEc then 0 else 1

theorem indexLeft_le_one (ram : UbiRam D) : indexLeft g ram ≤ 1 := by
  unfold indexLeft
  split <;> omega

theorem indexLeft_of_room {ram : UbiRam D} (room : ram.indexNextPage ≠ g.pagePerPhyBlock) :
    indexLeft g ram = 1 :=
  if_neg fun both => room both.1

/-! ## Writing the index -/

/-- The first half of `index_update`: a full index moves to a free block. -/
def indexMove (g : Geometry) (fuel : Nat) (ram : UbiRam D) : Ubi D Status :=
  if ram.indexNextPage = g.pagePerPhyBlock then do
    let (ret, free) ← indexFreeBlockGet g fuel ram.indexBlock
    let ret ←
      if ret = .success then do
        anchorIndexReclaim ram.indexBlock ram.indexBlockEc free.block free.ec
        anchorUpdate g fuel
      else pure ret
    if ret = .success then do
      indexFreeBlockPut g ram.indexBlock ram.indexBlockEc
      modify fun ram =>
        { ram with indexBlock := free.block, indexNextPage := 0, indexBlockEc := free.ec }
    pure ret
  else pure .success

/-- The second half: the index table is written. -/
def indexWrite (g : Geometry) (ret : Status) : Ubi D Status := do
  let ram ← get
  let ret ←
    if ret = .success then tableWrite ram.indexBlock ram.indexNextPage (.index ram.indexTable)
    else pure ret
  if ret = .success then
    modify fun ram => { ram with indexNextPage := ram.indexNextPage + 1 }
  else if ret = .badblock then
    modify fun ram =>
      { ram with indexNextPage := g.pagePerPhyBlock, indexBlockEc := invalidEc }
  pure ret

theorem indexUpdate_eq (g : Geometry) (fuel : Nat) :
    (indexUpdate g fuel : Ubi D Status) =
      get >>= fun ram => indexMove g fuel ram >>= indexWrite g := by
  unfold indexUpdate
  refine congrArg (get >>= ·) (funext fun ram => ?_)
  unfold indexMove
  split
  · rw [bind_assoc]
    refine congrArg (indexFreeBlockGet g fuel ram.indexBlock >>= ·) (funext fun found => ?_)
    dsimp only
    split
    · simp only [bind_assoc]
      refine congrArg (_ >>= ·) (funext fun _ => congrArg (_ >>= ·) (funext fun ret => ?_))
      split
      · simp only [bind_assoc, pure_bind]
        rfl
      · rfl
    · rename_i failed
      simp only [pure_bind, indexWrite, failed, if_false]
  · rfl

section Index

variable {halts : Prop} {ram : UbiRam D} {state : Unreliable (UbiBuffer D)} {others : List Nat}
  {blocks : List BlockEc} {post : Status → UbiRam D → Unreliable (UbiBuffer D) → Prop}

theorem IndexRetry.indexBlock_apart (ready : IndexRetry g ram state others blocks) {block : Nat}
    (inUse : block ∈ others) : block ≠ ram.indexBlock := fun same =>
  (List.nodup_cons.mp ready.known.distinct).1 (same ▸ List.mem_append_left _ inUse)

/-- Writing the index leaves the anchor and the other blocks alone. -/
theorem spec_indexWrite (ready : IndexRetry g ram state others blocks)
    (room : ram.indexNextPage ≠ g.pagePerPhyBlock)
    (written : ∀ after,
      IndexRetry g { ram with indexNextPage := ram.indexNextPage + 1 } after others blocks →
      TableLog g after.nand ram.indexBlock (ram.indexNextPage + 1) (.index ram.indexTable) →
      ChangedOnly (· ∉ others) state after →
      post .success { ram with indexNextPage := ram.indexNextPage + 1 } after)
    (failed : ∀ after,
      IndexRetry g
        { ram with indexNextPage := g.pagePerPhyBlock, indexBlockEc := invalidEc } after others
        blocks →
      ChangedOnly (· ∉ others) state after →
      post .badblock
        { ram with indexNextPage := g.pagePerPhyBlock, indexBlockEc := invalidEc } after) :
    Code.spec (unreliableMachine g pattern) (fun _ => True) halts (indexWrite g .success) post ram
      state := by
  obtain ⟨isBlock, outside⟩ := ready.known.usable ram.indexBlock List.mem_cons_self
  have isPage := lt_of_le_of_ne ready.le room
  have log := ready.log room
  have here := log.blank _ le_rfl
  have apart : ∀ block, block = ram.indexBlock → block ∉ others := fun block same inUse =>
    ready.indexBlock_apart inUse same
  have ring : ∀ block, g.InRing block → ¬ block = ram.indexBlock := fun block inRing same =>
    outside (same ▸ inRing)
  simp only [indexWrite, Code.spec_bind, Code.spec_get, if_true]
  refine ⟨trivial, Unreliable.spec_tableWrite isBlock isPage here.1 here.2 ?_ ?_⟩
  · intro after nand torn _
    have changed := changed_of_program nand torn
    rw [if_pos rfl]
    simp only [Code.spec_bind, Code.spec_modify, Code.spec_pure]
    refine ⟨trivial, trivial, written after ?_ (log.written isBlock isPage nand)
      (changed.mono apart)⟩
    exact ⟨ready.free, ready.anchor.frame rfl rfl changed ring, ready.known, isPage,
      fun _ => log.append nand torn⟩
  · intro _ after changed _
    rw [if_neg (by decide), if_pos rfl]
    simp only [Code.spec_bind, Code.spec_modify, Code.spec_pure]
    refine ⟨trivial, trivial, failed after ?_ (changed.mono apart)⟩
    exact ⟨ready.free, ready.anchor.frame rfl rfl changed ring, ready.known, le_rfl,
      fun wrong => absurd rfl wrong⟩

/-- The table behind a block that is taken for one that had this erase count. -/
theorem FreeHead.replace {table : Nat → BlockEc} {rest : List BlockEc}
    (head : FreeHead g table rest) (old : BlockEc) (room : rest.length + 1 < g.freeBlockCount)
    (isBlock : old.block ≠ invalidBlock) :
    ∃ blocks', FreeHead g (freeBlockPut g table old.block old.ec) blocks' ∧
      (old.ec = invalidEc ∧ blocks' = rest ∨
        old.ec ≠ invalidEc ∧ blocks'.Perm (old :: rest)) := by
  by_cases discarded : old.ec = invalidEc
  · rw [discarded]
    exact ⟨rest, head.park room old.block, .inl ⟨rfl, rfl⟩⟩
  · obtain ⟨blocks', head', perm⟩ := head.put room ⟨isBlock, discarded⟩
    exact ⟨blocks', head', .inr ⟨discarded, perm⟩⟩

/-- A block is taken for a used one, which is discarded or put back. -/
theorem CommitBlocks.replace {used : List Nat} {rest blocks' : List BlockEc} {entry old : BlockEc}
    (known : CommitBlocks g (old.block :: used) blocks) (sub : List.Subperm (entry :: rest) blocks)
    (put : old.ec = invalidEc ∧ blocks' = rest ∨ old.ec ≠ invalidEc ∧ blocks'.Perm (old :: rest)) :
    CommitBlocks g (entry.block :: used) blocks' := by
  rcases put with ⟨-, rfl⟩ | ⟨-, perm⟩
  · exact known.take sub
  · exact known.exchange sub perm

/-- A discarded block costs a free one. -/
theorem replace_length {rest blocks' : List BlockEc} {entry old : BlockEc}
    (sub : List.Subperm (entry :: rest) blocks)
    (put : old.ec = invalidEc ∧ blocks' = rest ∨ old.ec ≠ invalidEc ∧ blocks'.Perm (old :: rest)) :
    blocks'.length + 1 ≤ blocks.length + if old.ec = invalidEc then 0 else 1 := by
  have shorter := sub.length_le
  rw [List.length_cons] at shorter
  rcases put with ⟨discarded, rfl⟩ | ⟨valid, perm⟩
  · rw [if_pos discarded]
    omega
  · rw [if_neg valid, perm.length_eq, List.length_cons]
    omega

theorem IndexRetry.isBlock (ready : IndexRetry g ram state others blocks) (supported : g.Supported)
    {block : Nat} (inside : block ∈ (ram.indexBlock :: others) ++ blocks.map BlockEc.block) :
    block ≠ invalidBlock :=
  ((ready.known.usable block inside).1.trans supported.blocksSmall).ne

/-- Taking a free block touches neither the blocks in use nor the ring. -/
theorem IndexRetry.taken_outside (ready : IndexRetry g ram state others blocks)
    {after : Unreliable (UbiBuffer D)}
    (changed : ChangedOnly (fun block => ∃ other ∈ blocks, other.block = block) state after) :
    ChangedOnly (fun block => block ∉ ram.indexBlock :: others ∧ ¬ g.InRing block) state after := by
  refine changed.mono ?_
  rintro block ⟨other, member, rfl⟩
  have free : other.block ∈ blocks.map BlockEc.block := List.mem_map_of_mem member
  exact ⟨fun inUse => (List.nodup_append.mp ready.known.distinct).2.2 _ inUse _ free rfl,
    (ready.known.usable _ (List.mem_append_right _ free)).2⟩

/-- Behind the first half the index has room. -/
theorem spec_indexMove (supported : g.Supported) (returns : AnchorReturns g pattern fuel D)
    (ready : IndexRetry g ram state others blocks) (enough : blocks.length < fuel)
    (moved : ∀ ram' after blocks', IndexRetry g ram' after others blocks' →
      ram'.indexNextPage ≠ g.pagePerPhyBlock →
      blocks'.length + 1 ≤ blocks.length + indexLeft g ram → blocks'.length ≤ blocks.length →
      SameArea ram ram' → ChangedOnly (· ∉ others) state after → post .success ram' after)
    (given : ∀ ret ram' after, ret ≠ .success → ret ≠ .badblock → post ret ram' after) :
    Code.spec (unreliableMachine g pattern) (fun _ => True) halts (indexMove g fuel ram) post ram
      state := by
  unfold indexMove
  by_cases full : ram.indexNextPage = g.pagePerPhyBlock
  · rw [if_pos full]
    simp only [Code.spec_bind]
    refine Unreliable.spec_indexFreeBlockGet ready.free enough (fun entry member =>
      (ready.known.usable _ (List.mem_append_right _ (List.mem_map_of_mem member))).1) ?_ ?_
    · intro entry rest free table middle sub head blank changed _
      have outside := ready.taken_outside changed
      have anchor : AnchorRoom g ram middle :=
        ready.anchor.frame rfl rfl outside fun _ inRing wrong => wrong.2 inRing
      simp only [if_true, Code.spec_bind, anchorIndexReclaim, Code.spec_modify]
      refine ⟨trivial, returns.spec supported
        ⟨anchor.inRing, anchor.le, anchor.blank⟩ fun ret block page table' after updated => ?_⟩
      split
      · rename_i success
        have room : rest.length + 1 < g.freeBlockCount :=
          sub.length_le.trans_lt ready.free.room
        obtain ⟨blocks', head', put⟩ := head.replace ⟨ram.indexBlock, ram.indexBlockEc⟩ room
          (ready.isBlock supported List.mem_cons_self)
        have entryOutside : ¬ g.InRing entry.block :=
          (ready.known.usable _ (List.mem_append_right _
            (List.mem_map_of_mem (sub.subset List.mem_cons_self)))).2
        have length := replace_length sub put
        simp only [indexFreeBlockPut, setFree, Code.spec_bind, Code.spec_modify, Code.spec_pure,
          success]
        refine ⟨trivial, trivial, trivial, moved _ after blocks' ?_ g.pagePerPhyBlock_pos.ne ?_ ?_
          ⟨rfl, rfl, rfl, rfl, rfl, rfl⟩ ?_⟩
        · exact ⟨head', ⟨updated.room.inRing, updated.room.le, updated.room.blank⟩,
            ready.known.replace sub put, Nat.zero_le _,
            fun _ => .ofBlank (blank.frame updated.changed entryOutside)⟩
        · refine length.trans_eq ?_
          unfold indexLeft
          simp only [full, true_and]
        · split at length <;> omega
        · refine (outside.mono fun block out inUse => out.1 (List.mem_cons_of_mem _ inUse)).trans
            (updated.changed.mono fun block inRing inUse => ?_)
          exact (ready.known.usable block
            (List.mem_append_left _ (List.mem_cons_of_mem _ inUse))).2 inRing
      · rename_i failed
        exact ⟨trivial, given ret _ after failed updated.status⟩
    · intro entry ram' after
      simp only [reduceCtorEq, if_false, Code.spec_bind, Code.spec_pure]
      exact ⟨trivial, trivial, given .toomanyBadblock ram' after (by decide) (by decide)⟩
  · rw [if_neg full, Code.spec_pure]
    exact ⟨trivial, moved ram state blocks ready full (by rw [indexLeft_of_room full]) le_rfl
      (.refl ram) (.refl _ state)⟩

/-- The index table is written, or its write fails and uses up a free block. -/
theorem spec_indexUpdate (supported : g.Supported) (returns : AnchorReturns g pattern fuel D)
    (ready : IndexRetry g ram state others blocks) (enough : blocks.length < fuel)
    (written : ∀ ram' after blocks', IndexRetry g ram' after others blocks' →
      TableLog g after.nand ram'.indexBlock ram'.indexNextPage (.index ram'.indexTable) →
      blocks'.length + indexLeft g ram' ≤ blocks.length + indexLeft g ram →
      blocks'.length ≤ blocks.length → SameArea ram ram' → ChangedOnly (· ∉ others) state after →
      post .success ram' after)
    (failed : ∀ ram' after blocks', IndexRetry g ram' after others blocks' →
      blocks'.length + indexLeft g ram' < blocks.length + indexLeft g ram →
      blocks'.length ≤ blocks.length → SameArea ram ram' → ChangedOnly (· ∉ others) state after →
      post .badblock ram' after)
    (given : ∀ ret ram' after, ret ≠ .success → ret ≠ .badblock → post ret ram' after) :
    Code.spec (unreliableMachine g pattern) (fun _ => True) halts (indexUpdate g fuel) post ram
      state := by
  rw [indexUpdate_eq, Code.spec_bind, Code.spec_get, Code.spec_bind]
  refine ⟨trivial, spec_indexMove supported returns ready enough ?_ ?_⟩
  · intro middle after blocks' ready' room fewer le same changed
    refine spec_indexWrite ready' room (fun final ready'' log changed' => ?_)
      fun final ready'' changed' => ?_
    · have one := indexLeft_le_one (g := g)
        { middle with indexNextPage := middle.indexNextPage + 1 }
      exact written _ final blocks' ready'' log (by omega) le
        (same.trans ⟨rfl, rfl, rfl, rfl, rfl, rfl⟩) (changed.trans changed')
    · have none : indexLeft g { middle with
          indexNextPage := g.pagePerPhyBlock, indexBlockEc := invalidEc } = 0 := if_pos ⟨rfl, rfl⟩
      exact failed _ final blocks' ready'' (by omega) le
        (same.trans ⟨rfl, rfl, rfl, rfl, rfl, rfl⟩) (changed.trans changed')
  · intro ret ram' after notDone notBad
    simp only [indexWrite, Code.spec_bind, Code.spec_get, notDone, if_false, Code.spec_pure, notBad]
    exact ⟨trivial, trivial, trivial, given ret ram' after notDone notBad⟩

end Index

/-! ## Writing the area table -/

/-- None if the block of the area was discarded, and one otherwise. -/
def areaLeft (g : Geometry) (ram : UbiRam D) : Nat :=
  if ram.areaOffsetTable (ram.updatingArea g) = g.pagePerPhyBlock - 1 ∧
      (ram.indexTable.areaIndex (ram.updatingArea g)).ec = invalidEc then 0 else 1

theorem areaLeft_le_one (ram : UbiRam D) : areaLeft g ram ≤ 1 := by
  unfold areaLeft
  split <;> omega

/-- The block of the area that is updated. -/
abbrev UbiRam.updatingBlock (g : Geometry) (ram : UbiRam D) : Nat :=
  (ram.indexTable.areaIndex (ram.updatingArea g)).block

/-- A round of the commit can begin. -/
structure AreaRetry (g : Geometry) (ram : UbiRam D) (state : Unreliable (UbiBuffer D))
    (blocks : List BlockEc) : Prop where
  index : IndexRetry g ram state [ram.updatingBlock g] blocks
  isUpdating : ram.isUpdatingArea = true
  logical : ram.indexTable.areaUpdatePlr.logicalBlock < invalidBlock
  physical : ram.indexTable.areaUpdatePlr.physicalBlock ≠ invalidBlock
  log : ram.areaOffsetTable (ram.updatingArea g) ≠ g.pagePerPhyBlock - 1 →
    ram.areaOffsetTable (ram.updatingArea g) + 1 < g.pagePerPhyBlock ∧
      Appendable state (ram.updatingBlock g) (ram.areaOffsetTable (ram.updatingArea g) + 1)
  readable : ram.cachedAreaNumber = ram.updatingArea g ∨
    ∃ table, TableLog g state.nand (ram.updatingBlock g)
      (ram.areaOffsetTable (ram.updatingArea g) + 1) (.area table)

/-- The update has arrived: the index table on the flash names the block of the area, and the
area table there maps the logical block as it was announced. -/
def UpdateOnFlash (g : Geometry) (plr : AreaUpdatePlr) (ram : UbiRam D)
    (nand : Nand (UbiBuffer D)) : Prop :=
  ∃ index area next next', TableLog g nand ram.indexBlock next (.index index) ∧
    TableLog g nand (index.areaIndex (g.areaIndex plr.logicalBlock)).block next' (.area area) ∧
    area (g.blockOffsetArea plr.logicalBlock) = ⟨plr.physicalBlock, plr.blockEc⟩ ∧
    ram.isUpdatingArea = false

section Area

variable {halts : Prop} {ram : UbiRam D} {state : Unreliable (UbiBuffer D)} {area : Nat}
  {blocks : List BlockEc}

/-- The memory with another area in the cache. -/
def UbiRam.caching (ram : UbiRam D) (area : Nat) (table : AreaTable) : UbiRam D :=
  { ram with cachedAreaTable := table, cachedAreaNumber := area }

theorem Unreliable.spec_areaRead {post : Status → UbiRam D → Unreliable (UbiBuffer D) → Prop}
    (supported : g.Supported) (isArea : area ≠ invalidArea)
    (readable : ram.cachedAreaNumber = area ∨
      ∃ table, TableLog g state.nand (ram.indexTable.areaIndex area).block
        (ram.areaOffsetTable area + 1) (.area table))
    (meets : ∀ table after, ChangedOnly (fun _ => False) state after →
      post .success (ram.caching area table) after) :
    Code.spec (unreliableMachine g pattern) (fun _ => True) halts (areaRead g area) post ram
      state := by
  simp only [areaRead, Code.spec_bind, Code.spec_get]
  by_cases cached : area = ram.cachedAreaNumber
  · simp only [← cached, ne_eq, not_true_eq_false, if_false, Code.spec_bind, Code.spec_pure,
      Code.spec_modify, if_true]
    refine ⟨trivial, trivial, trivial, trivial, ?_⟩
    have same := meets ram.cachedAreaTable state (.refl _ state)
    rw [UbiRam.caching, cached] at same
    rw [cached]
    exact same
  · obtain ⟨table, log⟩ := readable.resolve_left (Ne.symm cached)
    simp only [ne_eq, cached, not_false_eq_true, if_true, Code.spec_bind, Code.spec_assert]
    refine ⟨trivial, trivial, fun _ => ?_, fun wrong => absurd isArea wrong⟩
    refine Unreliable.spec_tableRead supported log fun after changed _ => ?_
    simp only [loadArea, Code.spec_pure, Code.spec_modify, if_true,
      Nat.add_sub_cancel, Function.update_eq_self]
    exact ⟨trivial, trivial, trivial, trivial, trivial, meets table after changed⟩

theorem Unreliable.spec_areaIsFull {logicalBlock : Nat}
    {post : Bool → UbiRam D → Unreliable (UbiBuffer D) → Prop}
    (supported : g.Supported) (isArea : g.areaIndex logicalBlock ≠ invalidArea)
    (readable : ram.cachedAreaNumber = g.areaIndex logicalBlock ∨
      ∃ table, TableLog g state.nand (ram.indexTable.areaIndex (g.areaIndex logicalBlock)).block
        (ram.areaOffsetTable (g.areaIndex logicalBlock) + 1) (.area table))
    (meets : ∀ table after, ChangedOnly (fun _ => False) state after →
      post (decide (ram.areaOffsetTable (g.areaIndex logicalBlock) = g.pagePerPhyBlock - 1))
        (ram.caching (g.areaIndex logicalBlock) table) after) :
    Code.spec (unreliableMachine g pattern) (fun _ => True) halts (areaIsFull g logicalBlock) post
      ram state := by
  simp only [areaIsFull, Code.spec_bind]
  refine Unreliable.spec_areaRead supported isArea readable fun table after changed => ?_
  simp only [Code.spec_get, Code.spec_pure, true_and]
  exact meets table after changed

/-- The memory after the area table is written. -/
def UbiRam.areaWritten (ram : UbiRam D) (area : Nat) (table : AreaTable) (page : Nat) : UbiRam D :=
  { ram with
    cachedAreaTable := table
    cachedAreaNumber := area
    areaOffsetTable := Function.update ram.areaOffsetTable area page }

/-- The memory after a write of the area table has failed. -/
def UbiRam.areaFailed (ram : UbiRam D) (g : Geometry) (area : Nat) (table : AreaTable) : UbiRam D :=
  { ram with
    cachedAreaTable := table
    cachedAreaNumber := area
    areaOffsetTable := Function.update ram.areaOffsetTable area (g.pagePerPhyBlock - 1)
    indexTable :=
      { ram.indexTable with
        areaIndex := Function.update ram.indexTable.areaIndex area
          ⟨(ram.indexTable.areaIndex area).block, invalidEc⟩ } }

/-- The new table goes to the page behind the last one, or to the first page. -/
theorem Unreliable.spec_areaUpdate {logicalBlock physicalBlock : Nat} {blockEc : EraseCount}
    {post : Status → UbiRam D → Unreliable (UbiBuffer D) → Prop} (supported : g.Supported)
    (cached : ram.cachedAreaNumber = g.areaIndex logicalBlock)
    (physical : physicalBlock ≠ invalidBlock)
    (isBlock : (ram.indexTable.areaIndex (g.areaIndex logicalBlock)).block < g.cfgLogBlockCount)
    {page : Nat}
    (isPage : (ram.areaOffsetTable (g.areaIndex logicalBlock) + 1) % g.pagePerPhyBlock = page)
    (log : Appendable state (ram.indexTable.areaIndex (g.areaIndex logicalBlock)).block page)
    (written : ∀ table after, table (g.blockOffsetArea logicalBlock) = ⟨physicalBlock, blockEc⟩ →
      after.nand = state.nand.program
        (ram.indexTable.areaIndex (g.areaIndex logicalBlock)).block page
        (tablePage (.area table)) → after.torn = state.torn →
      post .success (ram.areaWritten (g.areaIndex logicalBlock) table page) after)
    (failed : ∀ table after,
      ChangedOnly (· = (ram.indexTable.areaIndex (g.areaIndex logicalBlock)).block) state after →
      post .badblock (ram.areaFailed g (g.areaIndex logicalBlock) table) after) :
    Code.spec (unreliableMachine g pattern) (fun _ => True) halts
      (areaUpdate g logicalBlock physicalBlock blockEc) post ram state := by
  have inBlock : page < g.pagePerPhyBlock := isPage ▸ Nat.mod_lt _ g.pagePerPhyBlock_pos
  have pageProper : page ≠ invalidPage := (inBlock.trans supported.pagesSmall).ne
  have here := log.blank page le_rfl
  simp only [areaUpdate, areaRead, Code.spec_bind, Code.spec_get, cached, ne_eq, not_true_eq_false,
    if_false, Code.spec_pure, Code.spec_modify, if_true, physical, not_false_eq_true, isPage]
  refine ⟨trivial, trivial, trivial, trivial, trivial, trivial, ?_⟩
  refine Unreliable.spec_tableWrite isBlock inBlock here.1 here.2 ?_ ?_
  · intro after nand torn _
    simp only [if_true, Code.spec_bind, Code.spec_assert, Code.spec_modify, Code.spec_pure]
    exact ⟨trivial, trivial, fun _ => ⟨trivial, trivial, written _ after
      (Function.update_self _ _ _) nand torn⟩, fun wrong => absurd (isPage ▸ pageProper) wrong⟩
  · intro _ after changed _
    simp only [reduceCtorEq, if_false, if_true, Code.spec_bind, Code.spec_modify, Code.spec_pure]
    exact ⟨trivial, trivial, trivial, failed _ after changed⟩

end Area

/-! ## A round -/

/-- The first part of a round: the area is moved, or the index table announces the update. -/
def commitPrepare (g : Geometry) (fuel : Nat) (updating : AreaUpdatePlr) (areaReclaim full : Bool) :
    Ubi D (Status × Bool) :=
  if full then do
    let area := g.areaIndex updating.logicalBlock
    let ram ← get
    let (ret, new) ← indexFreeBlockGet g fuel (ram.indexTable.areaIndex area).block
    if ret = .success then do
      indexUpdateAreaReclaim g area new.block new.ec
      pure (ret, true)
    else pure (ret, areaReclaim)
  else do
    let ret ← indexUpdate g fuel
    pure (ret, areaReclaim)

/-- The second part: the area table is written, and after it the index table if the area has
moved. -/
def commitArea (g : Geometry) (fuel : Nat) (updating : AreaUpdatePlr) :
    Status × Bool → Ubi D (Status × Bool)
  | (ret, areaReclaim) => do
      let ret ←
        if ret = .success then do
          let ret ← areaUpdate g updating.logicalBlock updating.physicalBlock updating.blockEc
          if ret = .success ∧ areaReclaim then indexUpdate g fuel else pure ret
        else pure ret
      if ret = .success then modify fun ram => { ram with isUpdatingArea := false }
      pure (ret, areaReclaim)

theorem commitArea_other {updating : AreaUpdatePlr} {ret : Status} {areaReclaim : Bool}
    (failed : ret ≠ .success) :
    (commitArea g fuel updating (ret, areaReclaim) : Ubi D (Status × Bool)) =
      pure (ret, areaReclaim) := by
  simp only [commitArea, failed, if_false, pure_bind]

theorem indexUpdateCommitRound_eq (areaReclaim : Bool) :
    (indexUpdateCommitRound g fuel areaReclaim : Ubi D (Status × Bool)) =
      get >>= fun ram =>
        if ram.isUpdatingArea then
          areaIsFull g ram.indexTable.areaUpdatePlr.logicalBlock >>= fun full =>
            commitPrepare g fuel ram.indexTable.areaUpdatePlr areaReclaim full >>=
              commitArea g fuel ram.indexTable.areaUpdatePlr
        else indexUpdate g fuel >>= fun ret => pure (ret, areaReclaim) := by
  unfold indexUpdateCommitRound
  refine congrArg (get >>= ·) (funext fun ram => ?_)
  split
  · refine congrArg (_ >>= ·) (funext fun full => ?_)
    unfold commitPrepare
    split
    · rw [bind_assoc]
      refine congrArg (get >>= ·) (funext fun _ => ?_)
      rw [bind_assoc]
      refine congrArg (_ >>= ·) (funext fun found => ?_)
      dsimp only
      split
      · rw [bind_assoc]
        rfl
      · rfl
    · rw [bind_assoc]
      rfl
  · rfl

theorem IndexRetry.frame {ram ram' : UbiRam D} {state after : Unreliable (UbiBuffer D)}
    {others : List Nat} {blocks : List BlockEc} (ready : IndexRetry g ram state others blocks)
    (changed : ChangedOnly (· ∈ others) state after)
    (free : ram'.indexTable.free = ram.indexTable.free)
    (block : ram'.indexBlock = ram.indexBlock) (page : ram'.indexNextPage = ram.indexNextPage)
    (anchorBlock : ram'.anchorBlock = ram.anchorBlock)
    (anchorPage : ram'.anchorNextPage = ram.anchorNextPage) :
    IndexRetry g ram' after others blocks where
  free := free ▸ ready.free
  anchor := ready.anchor.frame anchorBlock anchorPage changed fun other inRing inUse =>
    (ready.known.usable other (List.mem_append_left _ (List.mem_cons_of_mem _ inUse))).2 inRing
  known := block ▸ ready.known
  le := page ▸ ready.le
  log := by
    rw [block, page]
    exact fun room => (ready.log room).frame changed fun inUse => ready.indexBlock_apart inUse rfl

section Rounds

variable {halts : Prop} {ram : UbiRam D} {state : Unreliable (UbiBuffer D)}
  {blocks : List BlockEc} {post : Status × Bool → UbiRam D → Unreliable (UbiBuffer D) → Prop}

/-- The second part of a round ends the commit, or it uses up a free block. -/
theorem spec_commitArea {areaReclaim : Bool} {page : Nat} (supported : g.Supported)
    (returns : AnchorReturns g pattern fuel D)
    (ready : IndexRetry g ram state [ram.updatingBlock g] blocks) (enough : blocks.length < fuel)
    (isUpdating : ram.isUpdatingArea = true)
    (logical : ram.indexTable.areaUpdatePlr.logicalBlock < invalidBlock)
    (physical : ram.indexTable.areaUpdatePlr.physicalBlock ≠ invalidBlock)
    (cached : ram.cachedAreaNumber = ram.updatingArea g)
    (isPage : (ram.areaOffsetTable (ram.updatingArea g) + 1) % g.pagePerPhyBlock = page)
    (log : Appendable state (ram.updatingBlock g) page)
    (named : areaReclaim = true ∨
      TableLog g state.nand ram.indexBlock ram.indexNextPage (.index ram.indexTable))
    (arrived : ∀ ram' after, UpdateOnFlash g ram.indexTable.areaUpdatePlr ram' after.nand →
      post (.success, areaReclaim) ram' after)
    (again : ∀ ram' after blocks', AreaRetry g ram' after blocks' →
      ram'.indexTable.areaUpdatePlr = ram.indexTable.areaUpdatePlr →
      blocks'.length + areaLeft g ram' + indexLeft g ram' < blocks.length + 1 + indexLeft g ram →
      blocks'.length ≤ blocks.length → post (.badblock, areaReclaim) ram' after)
    (given : ∀ ret ram' after, ret ≠ .success → ret ≠ .badblock →
      post (ret, areaReclaim) ram' after) :
    Code.spec (unreliableMachine g pattern) (fun _ => True) halts
      (commitArea g fuel ram.indexTable.areaUpdatePlr (.success, areaReclaim)) post ram state := by
  have inUse : ram.updatingBlock g ∈ [ram.updatingBlock g] := List.mem_singleton.mpr rfl
  have isBlock : ram.updatingBlock g < g.cfgLogBlockCount :=
    (ready.known.usable _ (List.mem_append_left _ (List.mem_cons_of_mem _ inUse))).1
  have apart : ram.indexBlock ≠ ram.updatingBlock g := (ready.indexBlock_apart inUse).symm
  have inBlock : page < g.pagePerPhyBlock := isPage ▸ Nat.mod_lt _ g.pagePerPhyBlock_pos
  have within : ∀ block, block = ram.updatingBlock g → block ∈ [ram.updatingBlock g] :=
    fun block same => List.mem_singleton.mpr same
  simp only [commitArea, if_true, Code.spec_bind]
  refine Unreliable.spec_areaUpdate supported cached physical isBlock isPage log ?_ ?_
  · intro table after maps nand torn
    have changed := changed_of_program nand torn
    have areaLog : TableLog g after.nand (ram.updatingBlock g) (page + 1) (.area table) :=
      log.written isBlock inBlock nand
    have ready' : IndexRetry g (ram.areaWritten (ram.updatingArea g) table page) after
        [ram.updatingBlock g] blocks :=
      ready.frame (changed.mono within) rfl rfl rfl rfl rfl
    cases areaReclaim with
    | false =>
        have index := named.resolve_left Bool.false_ne_true
        simp only [Bool.false_eq_true, and_false, if_false, if_true, Code.spec_bind,
          Code.spec_modify, Code.spec_pure]
        refine ⟨trivial, trivial, trivial, arrived _ after ?_⟩
        exact ⟨_, table, _, _, index.frame (changed.nand _ apart), areaLog, maps, rfl⟩
    | true =>
        simp only [and_self, if_true, Code.spec_bind]
        refine spec_indexUpdate supported returns ready' enough ?_ ?_ ?_
        · intro ram' final blocks' _ index _ _ same changed'
          simp only [if_true, Code.spec_bind, Code.spec_modify, Code.spec_pure]
          refine ⟨trivial, trivial, arrived _ final ?_⟩
          refine ⟨_, table, _, page + 1, index, ?_, maps, rfl⟩
          rw [same.areaIndex]
          exact areaLog.frame (changed'.nand _ (not_not.mpr inUse))
        · intro ram' final blocks' ready'' fewer le same changed'
          have plr : ram'.indexTable.areaUpdatePlr = ram.indexTable.areaUpdatePlr := same.plr
          have sameArea : ram'.updatingArea g = ram.updatingArea g := by
            unfold UbiRam.updatingArea
            rw [plr]
          have sameBlock : ram'.updatingBlock g = ram.updatingBlock g := by
            unfold UbiRam.updatingBlock
            rw [sameArea, same.areaIndex]
            rfl
          have offset : ram'.areaOffsetTable (ram'.updatingArea g) = page := by
            rw [sameArea, same.offsets]
            exact Function.update_self _ _ _
          have one := areaLeft_le_one (g := g) ram'
          simp only [reduceCtorEq, if_false, Code.spec_pure]
          refine ⟨trivial, again ram' final blocks' ?_ plr ?_ le⟩
          · refine ⟨sameBlock ▸ ready'', same.isUpdating.trans isUpdating, plr ▸ logical,
              plr ▸ physical, fun room => ?_, .inl (by rw [same.number, sameArea]; rfl)⟩
            rw [offset] at room ⊢
            rw [sameBlock]
            exact ⟨by omega, (log.append nand torn).frame changed' (not_not.mpr inUse)⟩
          · have fewer' :
                blocks'.length + indexLeft g ram' < blocks.length + indexLeft g ram := fewer
            omega
        · intro ret ram' final notDone notBad
          simp only [notDone, if_false, Code.spec_pure]
          exact ⟨trivial, given ret ram' final notDone notBad⟩
  · intro table after changed
    have entry : (ram.areaFailed g (ram.updatingArea g) table).indexTable.areaIndex
        ((ram.areaFailed g (ram.updatingArea g) table).updatingArea g) =
          ⟨ram.updatingBlock g, invalidEc⟩ := Function.update_self _ _ _
    have sameBlock : (ram.areaFailed g (ram.updatingArea g) table).updatingBlock g =
        ram.updatingBlock g := by
      rw [UbiRam.updatingBlock, entry]
    have offset : (ram.areaFailed g (ram.updatingArea g) table).areaOffsetTable
        ((ram.areaFailed g (ram.updatingArea g) table).updatingArea g) = g.pagePerPhyBlock - 1 :=
      Function.update_self _ _ _
    have discarded : areaLeft g (ram.areaFailed g (ram.updatingArea g) table) = 0 :=
      if_pos ⟨offset, congrArg BlockEc.ec entry⟩
    have sameLeft : indexLeft g (ram.areaFailed g (ram.updatingArea g) table) =
        indexLeft g ram := rfl
    simp only [reduceCtorEq, false_and, if_false, Code.spec_bind, Code.spec_pure]
    have fewer : blocks.length + areaLeft g (ram.areaFailed g (ram.updatingArea g) table) +
        indexLeft g (ram.areaFailed g (ram.updatingArea g) table) <
          blocks.length + 1 + indexLeft g ram := by
      omega
    refine ⟨trivial, trivial, again _ after blocks ?_ rfl fewer le_rfl⟩
    refine ⟨?_, isUpdating, logical, physical, fun room => absurd offset room, .inl rfl⟩
    rw [sameBlock]
    exact ready.frame (changed.mono within) rfl rfl rfl rfl rfl

/-! What depends on the variables of the area only. -/

theorem SameArea.updatingArea {ram ram' : UbiRam D} (same : SameArea ram ram') :
    ram'.updatingArea g = ram.updatingArea g := by
  unfold UbiRam.updatingArea
  rw [same.plr]

theorem SameArea.updatingBlock {ram ram' : UbiRam D} (same : SameArea ram ram') :
    ram'.updatingBlock g = ram.updatingBlock g := by
  unfold UbiRam.updatingBlock
  rw [same.updatingArea, same.areaIndex]

theorem SameArea.areaLeft {ram ram' : UbiRam D} (same : SameArea ram ram') :
    areaLeft g ram' = areaLeft g ram := by
  unfold OpenNfm.areaLeft
  rw [same.updatingArea, same.areaIndex, same.offsets]

/-- A round that has only written the index can be repeated. -/
theorem AreaRetry.indexed {ram' : UbiRam D} {after : Unreliable (UbiBuffer D)}
    {blocks' : List BlockEc} (ready : AreaRetry g ram state blocks)
    (index : IndexRetry g ram' after [ram.updatingBlock g] blocks') (same : SameArea ram ram')
    (changed : ChangedOnly (· ∉ [ram.updatingBlock g]) state after) :
    AreaRetry g ram' after blocks' where
  index := same.updatingBlock (g := g) ▸ index
  isUpdating := same.isUpdating.trans ready.isUpdating
  logical := same.plr ▸ ready.logical
  physical := same.plr ▸ ready.physical
  log := by
    rw [same.updatingBlock, same.updatingArea, same.offsets]
    exact fun room => ⟨(ready.log room).1,
      (ready.log room).2.frame changed (not_not.mpr (List.mem_singleton.mpr rfl))⟩
  readable := by
    rw [same.updatingBlock, same.updatingArea, same.offsets, same.number]
    exact ready.readable.imp_right fun ⟨table, log⟩ =>
      ⟨table, log.frame (changed.nand _ (not_not.mpr (List.mem_singleton.mpr rfl)))⟩

/-- The area has been read. -/
theorem AreaRetry.caching {after : Unreliable (UbiBuffer D)} (ready : AreaRetry g ram state blocks)
    (changed : ChangedOnly (fun _ => False) state after) (table : AreaTable) :
    AreaRetry g (ram.caching (ram.updatingArea g) table) after blocks where
  index := ready.index.frame (changed.mono fun _ => False.elim) rfl rfl rfl rfl rfl
  isUpdating := ready.isUpdating
  logical := ready.logical
  physical := ready.physical
  log room := ⟨(ready.log room).1, (ready.log room).2.frame changed id⟩
  readable := .inl rfl

theorem AreaRetry.isArea (ready : AreaRetry g ram state blocks) :
    ram.updatingArea g ≠ invalidArea :=
  ((Nat.div_le_self _ _).trans_lt ready.logical).ne

/-- The free blocks, and the first discarded block of either table. -/
def commitLeft (g : Geometry) (ram : UbiRam D) (blocks : List BlockEc) : Nat :=
  blocks.length + areaLeft g ram + indexLeft g ram

/-- The memory after the area has been given another block. -/
def UbiRam.areaMoved (ram : UbiRam D) (g : Geometry) (area : Nat) (new : BlockEc)
    (free : Nat → BlockEc) (table : Nat → Nat) : UbiRam D :=
  { ram with
    indexTable := { ram.indexTable with
      areaIndex := Function.update ram.indexTable.areaIndex area new
      free := freeBlockPut g free (ram.indexTable.areaIndex area).block
        (ram.indexTable.areaIndex area).ec }
    anchorTable := { ram.anchorTable with badBlockTable := table } }

/-- A round whose area block is full moves the area first. -/
theorem spec_commitRound_full {areaReclaim : Bool} (supported : g.Supported)
    (returns : AnchorReturns g pattern fuel D) (ready : AreaRetry g ram state blocks)
    (cached : ram.cachedAreaNumber = ram.updatingArea g) (enough : blocks.length < fuel)
    (full : ram.areaOffsetTable (ram.updatingArea g) = g.pagePerPhyBlock - 1)
    (arrived : ∀ areaReclaim ram' after,
      UpdateOnFlash g ram.indexTable.areaUpdatePlr ram' after.nand →
      post (.success, areaReclaim) ram' after)
    (again : ∀ areaReclaim ram' after blocks', AreaRetry g ram' after blocks' →
      ram'.indexTable.areaUpdatePlr = ram.indexTable.areaUpdatePlr →
      commitLeft g ram' blocks' < commitLeft g ram blocks → blocks'.length ≤ blocks.length →
      post (.badblock, areaReclaim) ram' after)
    (given : ∀ ret areaReclaim ram' after, ret ≠ .success → ret ≠ .badblock →
      post (ret, areaReclaim) ram' after) :
    Code.spec (unreliableMachine g pattern) (fun _ => True) halts
      (commitPrepare g fuel ram.indexTable.areaUpdatePlr areaReclaim true >>=
        commitArea g fuel ram.indexTable.areaUpdatePlr) post ram state := by
  have inUse : ram.updatingBlock g ∈ [ram.updatingBlock g] := List.mem_singleton.mpr rfl
  simp only [commitPrepare, if_true, Code.spec_bind, Code.spec_get]
  refine ⟨trivial, Unreliable.spec_indexFreeBlockGet ready.index.free enough (fun entry member =>
    (ready.index.known.usable _ (List.mem_append_right _ (List.mem_map_of_mem member))).1) ?_ ?_⟩
  · intro entry rest free table after sub head blank changed _
    have outside := ready.index.taken_outside changed
    have room : rest.length + 1 < g.freeBlockCount := sub.length_le.trans_lt ready.index.free.room
    obtain ⟨blocks', head', put⟩ :=
      head.replace (ram.indexTable.areaIndex (ram.updatingArea g)) room
      (ready.index.isBlock supported (List.mem_append_left _ (List.mem_cons_of_mem _ inUse)))
    have length := replace_length sub put
    have le : blocks'.length ≤ blocks.length := by
      split at length <;> omega
    have left : blocks'.length + 1 ≤ blocks.length + areaLeft g ram := by
      refine length.trans_eq ?_
      unfold areaLeft
      simp only [full, true_and]
    have known : CommitBlocks g [ram.indexBlock, entry.block] blocks' :=
      (CommitBlocks.replace (ready.index.known.perm (List.Perm.swap _ _ _)) sub put).perm
        (List.Perm.swap _ _ _)
    have newEntry : (ram.areaMoved g (ram.updatingArea g) ⟨entry.block, entry.ec.plus 1⟩ free
        table).indexTable.areaIndex (ram.updatingArea g) = ⟨entry.block, entry.ec.plus 1⟩ :=
      Function.update_self _ _ _
    have moved : (ram.areaMoved g (ram.updatingArea g) ⟨entry.block, entry.ec.plus 1⟩ free
        table).updatingBlock g = entry.block := by
      have block := congrArg BlockEc.block newEntry
      exact block
    have index : IndexRetry g (ram.areaMoved g (ram.updatingArea g) ⟨entry.block, entry.ec.plus 1⟩
        free table) after [(ram.areaMoved g (ram.updatingArea g) ⟨entry.block, entry.ec.plus 1⟩ free
          table).updatingBlock g] blocks' := by
      rw [moved]
      exact ⟨head', ready.index.anchor.frame rfl rfl outside fun _ inRing wrong => wrong.2 inRing,
        known, ready.index.le, fun room => (ready.index.log room).frame outside
          fun wrong => wrong.1 List.mem_cons_self⟩
    have log : Appendable after ((ram.areaMoved g (ram.updatingArea g)
        ⟨entry.block, entry.ec.plus 1⟩ free table).updatingBlock g) 0 := by
      rw [moved]
      exact .ofBlank blank
    have next : (ram.areaOffsetTable (ram.updatingArea g) + 1) % g.pagePerPhyBlock = 0 := by
      have := g.pagePerPhyBlock_pos
      rw [full, Nat.sub_add_cancel (by omega), Nat.mod_self]
    have write : Code.spec (unreliableMachine g pattern) (fun _ => True) halts
        (commitArea g fuel ram.indexTable.areaUpdatePlr (.success, true)) post
        (ram.areaMoved g (ram.updatingArea g) ⟨entry.block, entry.ec.plus 1⟩ free table) after := by
      refine spec_commitArea supported returns index (by omega) ready.isUpdating
        ready.logical ready.physical cached next log (.inl rfl) (arrived true)
          (fun ram' final blocks'' ready' plr fewer le' => ?_)
        fun ret => given ret true
      have sameLeft : indexLeft g (ram.areaMoved g (ram.updatingArea g)
        ⟨entry.block, entry.ec.plus 1⟩ free table) = indexLeft g ram := rfl
      refine again true ram' final blocks'' ready' plr ?_ (le'.trans le)
      unfold commitLeft
      omega
    simp only [if_true, indexUpdateAreaReclaim, indexFreeBlockPut, setFree, Code.spec_bind,
      Code.spec_get, Code.spec_modify, Code.spec_pure]
    exact ⟨trivial, trivial, trivial, trivial, write⟩
  · intro entry ram' after
    simp only [reduceCtorEq, if_false, Code.spec_pure, ne_eq, not_false_eq_true, commitArea_other]
    exact ⟨trivial, trivial, given .toomanyBadblock areaReclaim ram' after (by decide) (by decide)⟩

/-- A round whose area block has room announces the update first. -/
theorem spec_commitRound_room {areaReclaim : Bool} (supported : g.Supported)
    (returns : AnchorReturns g pattern fuel D) (ready : AreaRetry g ram state blocks)
    (cached : ram.cachedAreaNumber = ram.updatingArea g) (enough : blocks.length < fuel)
    (room : ram.areaOffsetTable (ram.updatingArea g) ≠ g.pagePerPhyBlock - 1)
    (arrived : ∀ areaReclaim ram' after,
      UpdateOnFlash g ram.indexTable.areaUpdatePlr ram' after.nand →
      post (.success, areaReclaim) ram' after)
    (again : ∀ areaReclaim ram' after blocks', AreaRetry g ram' after blocks' →
      ram'.indexTable.areaUpdatePlr = ram.indexTable.areaUpdatePlr →
      commitLeft g ram' blocks' < commitLeft g ram blocks → blocks'.length ≤ blocks.length →
      post (.badblock, areaReclaim) ram' after)
    (given : ∀ ret areaReclaim ram' after, ret ≠ .success → ret ≠ .badblock →
      post (ret, areaReclaim) ram' after) :
    Code.spec (unreliableMachine g pattern) (fun _ => True) halts
      (commitPrepare g fuel ram.indexTable.areaUpdatePlr areaReclaim false >>=
        commitArea g fuel ram.indexTable.areaUpdatePlr) post ram state := by
  have one : areaLeft g ram = 1 := if_neg fun both => room both.1
  simp only [commitPrepare, Bool.false_eq_true, if_false, Code.spec_bind]
  refine spec_indexUpdate supported returns ready.index enough ?_ ?_ ?_
  · intro ram' after blocks' index named fewer le same changed
    have ready' := ready.indexed index same changed
    have offset : ram'.areaOffsetTable (ram'.updatingArea g) =
        ram.areaOffsetTable (ram.updatingArea g) := by
      rw [same.offsets, same.updatingArea]
    obtain ⟨inBlock, log⟩ := ready'.log (offset ▸ room)
    have plr : ram.indexTable.areaUpdatePlr = ram'.indexTable.areaUpdatePlr := same.plr.symm
    rw [plr] at arrived again ⊢
    rw [Code.spec_pure]
    refine ⟨trivial, spec_commitArea supported returns ready'.index (by omega) ready'.isUpdating
      ready'.logical ready'.physical (by rw [same.number, cached, same.updatingArea])
      (Nat.mod_eq_of_lt inBlock) log (.inr named) (arrived areaReclaim)
      (fun ram'' final blocks'' ready'' plr' fewer' le' => ?_) fun ret => given ret areaReclaim⟩
    refine again areaReclaim ram'' final blocks'' ready'' plr' ?_ (le'.trans le)
    unfold commitLeft
    omega
  · intro ram' after blocks' index fewer le same changed
    have left := same.areaLeft (g := g)
    rw [Code.spec_pure, commitArea_other (by decide), Code.spec_pure]
    refine ⟨trivial, trivial, again areaReclaim ram' after blocks'
      (ready.indexed index same changed) same.plr ?_ le⟩
    unfold commitLeft
    omega
  · intro ret ram' after notDone notBad
    rw [Code.spec_pure, commitArea_other notDone, Code.spec_pure]
    exact ⟨trivial, trivial, given ret areaReclaim ram' after notDone notBad⟩

/-- One round of a commit with an announced update. -/
theorem spec_indexUpdateCommitRound_updating {areaReclaim : Bool} (supported : g.Supported)
    (returns : AnchorReturns g pattern fuel D) (ready : AreaRetry g ram state blocks)
    (enough : blocks.length < fuel)
    (arrived : ∀ areaReclaim ram' after,
      UpdateOnFlash g ram.indexTable.areaUpdatePlr ram' after.nand →
      post (.success, areaReclaim) ram' after)
    (again : ∀ areaReclaim ram' after blocks', AreaRetry g ram' after blocks' →
      ram'.indexTable.areaUpdatePlr = ram.indexTable.areaUpdatePlr →
      commitLeft g ram' blocks' < commitLeft g ram blocks → blocks'.length ≤ blocks.length →
      post (.badblock, areaReclaim) ram' after)
    (given : ∀ ret areaReclaim ram' after, ret ≠ .success → ret ≠ .badblock →
      post (ret, areaReclaim) ram' after) :
    Code.spec (unreliableMachine g pattern) (fun _ => True) halts
      (indexUpdateCommitRound g fuel areaReclaim) post ram state := by
  rw [indexUpdateCommitRound_eq, Code.spec_bind, Code.spec_get, if_pos ready.isUpdating,
    Code.spec_bind]
  refine ⟨trivial, Unreliable.spec_areaIsFull supported ready.isArea ready.readable
    fun table after changed => ?_⟩
  have ready' := ready.caching changed table
  by_cases full : ram.areaOffsetTable (ram.updatingArea g) = g.pagePerPhyBlock - 1
  · rw [decide_eq_true full]
    exact spec_commitRound_full supported returns ready' rfl enough full arrived again given
  · rw [decide_eq_false full]
    exact spec_commitRound_room supported returns ready' rfl enough full arrived again given

/-- The commit with an announced update returns after as many rounds as can fail, and one. -/
theorem spec_indexUpdateCommitLoop_updating {rounds : Nat} {areaReclaim : Bool}
    {post : Status → UbiRam D → Unreliable (UbiBuffer D) → Prop} (supported : g.Supported)
    (returns : AnchorReturns g pattern fuel D) (ready : AreaRetry g ram state blocks)
    (enough : blocks.length < fuel) (many : commitLeft g ram blocks < rounds)
    (arrived : ∀ ram' after, UpdateOnFlash g ram.indexTable.areaUpdatePlr ram' after.nand →
      post .success ram' after)
    (given : ∀ ret ram' after, ret ≠ .success → ret ≠ .badblock → post ret ram' after) :
    Code.spec (unreliableMachine g pattern) (fun _ => True) halts
      (indexUpdateCommitLoop g fuel rounds areaReclaim) post ram state := by
  induction rounds generalizing areaReclaim ram state blocks with
  | zero => exact absurd many (Nat.not_lt_zero _)
  | succ rounds ih =>
      simp only [indexUpdateCommitLoop, Code.spec_bind]
      refine spec_indexUpdateCommitRound_updating supported returns ready enough ?_ ?_ ?_
      · intro areaReclaim ram' after onFlash
        rw [if_neg (show Status.success ≠ .badblock by decide), Code.spec_pure]
        exact ⟨trivial, arrived ram' after onFlash⟩
      · intro areaReclaim ram' after blocks' ready' plr fewer le
        rw [if_pos rfl]
        exact ih ready' (by omega) (by omega) (plr ▸ arrived)
      · intro ret areaReclaim ram' after notDone notBad
        rw [if_neg notBad, Code.spec_pure]
        exact ⟨trivial, given ret ram' after notDone notBad⟩

/-- The commit without an announced update writes the index only. -/
theorem spec_indexUpdateCommitLoop_idle {rounds : Nat} {areaReclaim : Bool}
    {post : Status → UbiRam D → Unreliable (UbiBuffer D) → Prop} (supported : g.Supported)
    (returns : AnchorReturns g pattern fuel D) (ready : IndexRetry g ram state [] blocks)
    (idle : ram.isUpdatingArea = false) (enough : blocks.length < fuel)
    (many : blocks.length + indexLeft g ram < rounds)
    (given : ∀ ret ram' after, ret ≠ .badblock → post ret ram' after) :
    Code.spec (unreliableMachine g pattern) (fun _ => True) halts
      (indexUpdateCommitLoop g fuel rounds areaReclaim) post ram state := by
  induction rounds generalizing areaReclaim ram state blocks with
  | zero => exact absurd many (Nat.not_lt_zero _)
  | succ rounds ih =>
      rw [indexUpdateCommitLoop, indexUpdateCommitRound_eq]
      simp only [Code.spec_bind, Code.spec_get, idle, Bool.false_eq_true, if_false]
      refine ⟨trivial, spec_indexUpdate supported returns ready enough ?_ ?_ ?_⟩
      · intro ram' after blocks' _ _ _ _ _ _
        simp only [Code.spec_pure, reduceCtorEq, if_false]
        exact ⟨trivial, trivial, given .success ram' after (by decide)⟩
      · intro ram' after blocks' ready' fewer le same _
        simp only [Code.spec_pure, if_true]
        exact ⟨trivial, ih ready' (same.isUpdating.trans idle) (by omega) (by omega)⟩
      · intro ret ram' after notDone notBad
        simp only [Code.spec_pure, notBad, if_false]
        exact ⟨trivial, trivial, given ret ram' after notBad⟩

end Rounds

/-! ## The commit returns -/

/-- The state before a commit: the head of the free block table is usable, and if an update
is announced its area can be read and written. -/
def RetryReady (g : Geometry) (ram : UbiRam D) (state : Unreliable (UbiBuffer D))
    (blocks : List BlockEc) : Prop :=
  if ram.isUpdatingArea then AreaRetry g ram state blocks else IndexRetry g ram state [] blocks

/-- `INDEX_Update_Commit` returns after at most three rounds more than there are free blocks,
whatever fails, and never with `STATUS_BADBLOCK`.  When it returns with success, an announced
update has arrived on the flash. -/
theorem indexUpdateCommit_returns {ram : UbiRam D} {state : Unreliable (UbiBuffer D)}
    {blocks : List BlockEc} {rounds : Nat} (supported : g.Supported)
    (ready : RetryReady g ram state blocks) (returns : AnchorReturns g pattern fuel D)
    (enough : blocks.length < fuel) (many : blocks.length + 3 ≤ rounds) :
    ∃ ret ram' after,
      ((indexUpdateCommitLoop g fuel rounds false).run ram).exec (unreliableMachine g pattern)
        state = .ok ((ret, ram'), after) ∧
      ret ≠ .badblock ∧
      (ret = .success → ram.isUpdatingArea = true →
        UpdateOnFlash g ram.indexTable.areaUpdatePlr ram' after.nand) := by
  have index := indexLeft_le_one (g := g) ram
  have whole : Code.spec (unreliableMachine g pattern) (fun _ => True) False
      (indexUpdateCommitLoop g fuel rounds false) (fun ret ram' after => ret ≠ .badblock ∧
        (ret = .success → ram.isUpdatingArea = true →
          UpdateOnFlash g ram.indexTable.areaUpdatePlr ram' after.nand)) ram state := ?_
  · exact Code.exec_of_spec whole
  by_cases updating : ram.isUpdatingArea = true
  · rw [RetryReady, if_pos updating] at ready
    have area := areaLeft_le_one (g := g) ram
    have fewer : commitLeft g ram blocks < rounds := by
      unfold commitLeft
      omega
    exact spec_indexUpdateCommitLoop_updating supported returns ready enough fewer
      (fun ram' after onFlash => ⟨by decide, fun _ _ => onFlash⟩)
      fun ret ram' after notDone notBad => ⟨notBad, fun done => absurd done notDone⟩
  · rw [RetryReady, if_neg updating] at ready
    exact spec_indexUpdateCommitLoop_idle supported returns ready (by simpa using updating) enough
      (by omega) fun ret ram' after notBad => ⟨notBad, fun _ wrong => absurd wrong updating⟩

/-- The second operation fails: it is the first write of the area table. -/
def secondFails : FailurePattern :=
  fun n => if n = 1 then .failed fun _ => false else .done

/-- An announced update whose area block and index block are both full. -/
def bothFull : UbiRam Unit :=
  { UbiRam.reset Unit with
    indexTable :=
      { areaIndex := fun _ => ⟨901, (5 : Nat)⟩
        free := freeArray [⟨902, (1 : Nat)⟩, ⟨903, (2 : Nat)⟩, ⟨904, (3 : Nat)⟩]
        areaUpdatePlr := ⟨7, 950, (4 : Nat)⟩ }
    indexBlock := 900
    indexBlockEc := (5 : Nat)
    indexNextPage := 32
    isUpdatingArea := true
    areaOffsetTable := fun _ => 31
    anchorBlock := 1 }

/-- The device before anything is programmed. -/
def unusedDevice : Unreliable (UbiBuffer Unit) :=
  ⟨fun _ _ => none, fun _ _ => false, 0, fun _ => false⟩

theorem retryReady_bothFull : RetryReady simNand bothFull unusedDevice
    [⟨902, (1 : Nat)⟩, ⟨903, (2 : Nat)⟩, ⟨904, (3 : Nat)⟩] := by
  have free : FreeHead simNand bothFull.indexTable.free
      [⟨902, (1 : Nat)⟩, ⟨903, (2 : Nat)⟩, ⟨904, (3 : Nat)⟩] := by
    have entries : FreeEntries simNand bothFull.indexTable.free _ :=
      freeEntries_freeArray (by decide)
    exact FreeList.head ⟨entries.fits, entries.entry, by decide⟩ (by decide)
  have anchor : AnchorRoom simNand bothFull unusedDevice :=
    ⟨by unfold Geometry.InRing; decide, by decide, fun _ _ _ => ⟨rfl, rfl⟩⟩
  refine ⟨⟨free, anchor, ⟨by decide, by unfold Geometry.InRing; decide⟩, by
    decide, fun room => absurd rfl room⟩, rfl,
    by decide, by decide, fun room => absurd rfl room, .inl rfl⟩

theorem failuresEnd_secondFails : FailuresEnd secondFails 2 := fun n later =>
  if_neg (show n ≠ 1 by omega)

/-- The commit returns although the area block that it takes first is bad. -/
theorem indexUpdateCommit_returns_secondFails :
    ∃ ret ram' after,
      ((indexUpdateCommitLoop simNand 5 6 false).run bothFull).exec
        (unreliableMachine simNand secondFails) unusedDevice = .ok ((ret, ram'), after) ∧
      ret ≠ .badblock ∧
      (ret = .success → true = true →
        UpdateOnFlash simNand bothFull.indexTable.areaUpdatePlr ram' after.nand) :=
  indexUpdateCommit_returns (by decide) retryReady_bothFull
    (anchorReturns_of_failuresEnd (by decide) failuresEnd_secondFails (by decide)) (by decide)
    (by decide)

end OpenNfm
