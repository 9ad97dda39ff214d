import OpenNfm.Mtd.CheckBlock
import OpenNfm.Program.EveryAnswer
import OpenNfm.Program.Oracle
import OpenNfm.Ubi.AnchorScan
import OpenNfm.Ubi.Api
import OpenNfm.Ubi.BadBlockTable

/-!
# Blocks with a factory marker

A device as `UBI_Format` finds it: what its pages are read as, and the first spare bytes of the
pages of each plane.  All other answers are left open, so that any pattern of failures is
covered.

`ANCHOR_Init` may erase one block of the ring, the older of two that hold an anchor.
Then `UBI_Format` goes over all blocks once; what it finds is a function of the device.
-/

namespace OpenNfm

open OpenNfm.Program

/-- The blocks that a call erases or programs. -/
def MtdOp.Touches {B : Type} : MtdOp B → Nat → Prop
  | .erase block, other => block = other
  | .program block _ _ _, other => block = other
  | _, _ => False

/-- The calls and answers of the UBI layer. -/
abbrev UbiCalls (D : Type) := List (Called (MtdOp (UbiBuffer D)) (MtdAns (UbiBuffer D)))

/-- A device of which only the answers are known. -/
abbrev UbiOracle (D : Type) := Oracle (MtdOp (UbiBuffer D)) (MtdAns (UbiBuffer D))

/-- A block has been erased or programmed. -/
def Touched {D : Type} (calls : UbiCalls D) (block : Nat) : Prop :=
  ∃ call ∈ calls, call.op.Touches block

/-- What a device holds before the format. -/
structure FactoryContent (D : Type) where
  pages : Nat → Nat → ReadAnswer (UbiBuffer D)
  spareByte : Nat → Nat → Nat → UInt8

namespace FactoryContent

variable (g : Geometry) {D : Type} (content : FactoryContent D)

/-- The block carries a marker: in page 0 or page 1 of any plane. -/
def Marked (block : Nat) : Prop :=
  block < g.cfgLogBlockCount ∧
    ∃ plane < g.planePerDie, ∃ page < 2, content.spareByte block plane page ≠ 0xff

/-- There is a marker in page 0. -/
def marksFirstPage (block : Nat) : Bool :=
  (List.range g.planePerDie).any fun plane => content.spareByte block plane 0 ≠ 0xff

/-! ## Anchors on the device -/

/-- The page is programmed and has the footprint of a table. -/
def isTable (block page : Nat) : Bool :=
  (content.pages block page).status = .success ∧ (content.pages block page).spare.first ≠ allOnes

/-- The page at which the search for the last table of a block ends. -/
def lastPage (block : Nat) : Nat :=
  bisect (content.isTable block) (g.pagePerPhyBlock + 1) 0 g.pagePerPhyBlock

/-- The block that an anchor says it replaces. -/
def replaced (block : Nat) : Nat :=
  match (content.pages block (content.lastPage g block)).main with
  | .anchor table => table.previousAnchorBlock
  | _ => invalidBlock

/-- The older one of the first two blocks that hold an anchor, when one of them may have been
found already. -/
def outdatedAmong : List Nat → Option Nat → Option Nat
  | [], _ => none
  | block :: rest, found =>
      if content.isTable block 0 then
        match found with
        | none => outdatedAmong rest (some block)
        | some first => some (if content.replaced g first = block then block else first)
      else outdatedAmong rest found

/-- The block of the ring that a newer anchor has replaced. -/
def outdatedAnchor : Option Nat :=
  content.outdatedAmong g (List.range' Geometry.anchorFirstBlock g.anchorBlockCount) none

end FactoryContent

/-- The blocks that are refused when each of them is checked for a marker and then erased. -/
def refusedBlocks {D : Type} (oracle : UbiOracle D) : UbiCalls D → List Nat → List Nat
  | _, [] => []
  | calls, block :: rest =>
      let checked := ⟨.checkBlock block, oracle calls (.checkBlock block)⟩ :: calls
      let erased := ⟨.erase block, oracle checked (.erase block)⟩ :: checked
      if oracle calls (.checkBlock block) ≠ .success then
        block :: refusedBlocks oracle checked rest
      else if oracle checked (.erase block) ≠ .success then
        block :: refusedBlocks oracle erased rest
      else refusedBlocks oracle erased rest

/-- A device with this content.  As long as a block is neither erased nor programmed it is
read as it was, and the check of its marker looks at the spare bytes that it had. -/
structure FactoryDevice (g : Geometry) {D : Type} (content : FactoryContent D)
    (oracle : UbiOracle D) : Prop where
  read : ∀ calls block page, ¬ Touched calls block →
    oracle calls (.read block page) = content.pages block page
  check : ∀ calls block, ¬ Touched calls block →
    oracle calls (.checkBlock block) =
      if content.marksFirstPage g block then .badblock else .success

/-- `MTD_CheckBlock` on the NAND driver answers as this device does. -/
theorem FactoryContent.exec_checkBlock {g : Geometry} {D : Type} (content : FactoryContent D)
    {sim : SimNand} {ram : Mtd.MtdRam} {block : Nat} (pages : 0 < g.pagePerBlockShift)
    (same : ∀ plane, content.spareByte block plane 0 = Mtd.spareByte g sim block plane 0) :
    ∃ after : SimNand, after.simNand = sim.simNand ∧
      ((Mtd.checkBlock g block).run ram).exec (markedMachine g) sim =
        .ok ((if content.marksFirstPage g block then .badblock else .success, ram), after) := by
  obtain ⟨after, kept, run⟩ := @Mtd.exec_checkBlock g sim ram block pages
  refine ⟨after, kept, ?_⟩
  simp only [marksFirstPage, same]
  exact run

/-! ## Before the first erase -/

section Scan

variable {g : Geometry} {D : Type} {content : FactoryContent D}
  {oracle : UbiOracle D} {ram : UbiRam D} {calls : UbiCalls D} {block : Nat}

/-- No block has been erased or programmed. -/
def NoneTouched (calls : UbiCalls D) : Prop :=
  ∀ block, ¬ Touched calls block

theorem touched_cons {op : MtdOp (UbiBuffer D)} {answer : MtdAns (UbiBuffer D) op} :
    Touched (⟨op, answer⟩ :: calls) block ↔ op.Touches block ∨ Touched calls block := by
  simp [Touched]

theorem FactoryDevice.spec_mtdRead (device : FactoryDevice g content oracle)
    (untouched : NoneTouched calls) {page : Nat} :
    Code.spec oracle.machine NoneTouched True (mtdRead block page)
      (fun value ram' after => NoneTouched after ∧ value = content.pages block page ∧
        ram' = ram) ram
        calls := by
  have answer : oracle calls (.read block page) = content.pages block page :=
    device.read calls block page (untouched block)
  have kept : NoneTouched (⟨.read block page, oracle calls (.read block page)⟩ :: calls) := by
    intro other
    rw [touched_cons]
    exact fun touched => touched.elim id (untouched other)
  exact (Code.spec_perform_of_step rfl).mpr ⟨untouched, kept, kept, answer, rfl⟩

theorem FactoryDevice.spec_tableSearch (device : FactoryDevice g content oracle)
    {rounds head tail : Nat} (untouched : NoneTouched calls) :
    Code.spec oracle.machine NoneTouched True (tableSearch block rounds head tail)
      (fun mid ram' after => NoneTouched after ∧ ram' = ram ∧
        mid = bisect (content.isTable block) rounds head tail) ram calls := by
  induction rounds generalizing head tail calls with
  | zero => exact Code.spec_halt.mpr ⟨untouched, trivial⟩
  | succ rounds ih =>
      unfold tableSearch bisect
      dsimp only
      split
      · rw [Code.spec_bind]
        refine Code.spec_mono (device.spec_mtdRead untouched) ?_ fun _ => id
        rintro answer ram' calls' ⟨untouched', rfl, rfl⟩
        simp only [FactoryContent.isTable, decide_eq_true_eq]
        split
        · exact ih untouched'
        · exact ih untouched'
      · rw [Code.spec_bind]
        exact Code.spec_assert.mpr ⟨untouched, fun _ => Code.spec_pure.mpr
          ⟨untouched, untouched, rfl, rfl⟩, fun _ => trivial⟩

/-- The page that `TABLE_Read` looks at. -/
def FactoryContent.tablePage (g : Geometry) (content : FactoryContent D) (block page : Nat) : Nat :=
  if page = invalidPage then content.lastPage g block else page

/-- `TABLE_Read` finds a table if there is one, and hands back what it has read. -/
theorem FactoryDevice.spec_tableRead (device : FactoryDevice g content oracle)
    {page : Nat} (untouched : NoneTouched calls) :
    Code.spec oracle.machine NoneTouched True (tableRead g block page)
      (fun result ram' after => NoneTouched after ∧ ram' = ram ∧
        (result.1 = .success ↔ content.isTable block (content.tablePage g block page) = true) ∧
        result.2.2 = (content.pages block (content.tablePage g block page)).main) ram calls := by
  have finish : ∀ mid calls, NoneTouched calls → Code.spec oracle.machine NoneTouched True (do
      let answer ← mtdRead block mid
      if answer.status = .success then
        if answer.spare.first = allOnes then
          pure (Status.failure, invalidPage, answer.main)
        else pure (.success, mid, answer.main)
      else pure (answer.status, invalidPage, answer.main))
      (fun result ram' after => NoneTouched after ∧ ram' = ram ∧
        (result.1 = .success ↔ content.isTable block mid = true) ∧
        result.2.2 = (content.pages block mid).main) ram calls := by
    intro mid calls untouched
    rw [Code.spec_bind]
    refine Code.spec_mono (device.spec_mtdRead untouched) ?_ fun _ => id
    rintro answer ram' calls' ⟨untouched', rfl, rfl⟩
    simp only [FactoryContent.isTable, decide_eq_true_eq]
    split
    · rename_i good
      split
      · rename_i empty
        exact Code.spec_pure.mpr ⟨untouched', untouched', rfl, by simp [empty], rfl⟩
      · rename_i programmed
        exact Code.spec_pure.mpr ⟨untouched', untouched', rfl, by simp [good, programmed], rfl⟩
    · rename_i failed
      exact Code.spec_pure.mpr ⟨untouched', untouched', rfl, by simp [failed], rfl⟩
  unfold tableRead FactoryContent.tablePage
  by_cases search : page = invalidPage
  · simp only [search, ne_eq, not_true_eq_false, if_false, if_true]
    rw [Code.spec_bind]
    refine Code.spec_mono (device.spec_tableSearch untouched) ?_ fun _ => id
    rintro mid ram' calls' ⟨untouched', rfl, rfl⟩
    exact finish _ calls' untouched'
  · simp only [search, ne_eq, not_false_eq_true, if_true, if_false]
    have middle : (page + page) / 2 = page := by omega
    have single : bisect (content.isTable block) 1 page page = page := by
      simp only [bisect, middle, ne_eq, not_true_eq_false, false_and, if_false]
    rw [Code.spec_bind]
    refine Code.spec_mono (device.spec_tableSearch untouched) ?_ fun _ => id
    rintro mid ram' calls' ⟨untouched', rfl, rfl⟩
    rw [single]
    exact finish page calls' untouched'

/-! ## The scan of the ring -/

/-- At most this block has been erased, and none has been programmed. -/
def OnlyErased (expected : Option Nat) (calls : UbiCalls D) : Prop :=
  ∀ call ∈ calls, ∀ block, call.op.Touches block → call.op = .erase block ∧ expected = some block

theorem NoneTouched.only (untouched : NoneTouched calls) (expected : Option Nat) :
    OnlyErased expected calls :=
  fun call inside block touches => absurd ⟨call, inside, touches⟩ (untouched block)

/-- The table that `ANCHOR_Init` loads from a block names the same block as `replaced`. -/
theorem spec_loadAnchor {crash : UbiCalls D → Prop} (safe : crash calls) (block : Nat) :
    Code.spec oracle.machine crash True
      (loadAnchor (content.pages block (content.lastPage g block)).main)
      (fun table ram' after => table.previousAnchorBlock = content.replaced g block ∧ ram' = ram ∧
        after = calls) ram calls := by
  unfold FactoryContent.replaced
  cases (content.pages block (content.lastPage g block)).main with
  | anchor table => exact Code.spec_pure.mpr ⟨safe, rfl, rfl, rfl⟩
  | ones => exact Code.spec_pure.mpr ⟨safe, rfl, rfl, rfl⟩
  | index table => exact Code.spec_halt.mpr ⟨safe, trivial⟩
  | area table => exact Code.spec_halt.mpr ⟨safe, trivial⟩
  | data page => exact Code.spec_halt.mpr ⟨safe, trivial⟩

/-- The erase of the older of two blocks with an anchor. -/
theorem spec_eraseOutdated {old : Nat} {newest : AnchorFound} (untouched : NoneTouched calls)
    (valid : old ≠ invalidBlock) :
    Code.spec oracle.machine (OnlyErased (some old)) True (do
      if old ≠ invalidBlock then
        let ret ← mtdErase old
        if ret ≠ .success then anchorLogBadBlock g old
      pure (some newest) : Ubi D (Option AnchorFound))
      (fun _ ram' after => OnlyErased (some old) after ∧
        (∀ block, some old = some block → Touched after block) ∧
        ram'.indexTable = ram.indexTable) ram calls := by
  have erased : ∀ answer block, some old = some block →
      Touched (⟨.erase old, answer⟩ :: calls) block :=
    fun answer block same => touched_cons.mpr (.inl (Option.some.inj same))
  have only : ∀ answer, OnlyErased (some old) (⟨.erase old, answer⟩ :: calls) := by
    intro answer call inside block touches
    rcases List.mem_cons.mp inside with rfl | earlier
    · obtain rfl : old = block := touches
      exact ⟨rfl, rfl⟩
    · exact absurd ⟨call, earlier, touches⟩ (untouched block)
  rw [if_pos valid, Code.spec_bind]
  refine (Code.spec_perform_of_step rfl).mpr ⟨untouched.only _, only _, ?_⟩
  split
  · rw [Code.spec_bind]
    exact Code.spec_modify.mpr ⟨only _, Code.spec_pure.mpr ⟨only _, only _, erased _, rfl⟩⟩
  · exact Code.spec_pure.mpr ⟨only _, only _, erased _, rfl⟩

/-- The scan touches the block whose anchor is out of date, and no other. -/
theorem FactoryDevice.spec_anchorInitScan (device : FactoryDevice g content oracle)
    {blocks : List Nat} {found : Option AnchorFound} (untouched : NoneTouched calls)
    (valid : ∀ block ∈ blocks, block ≠ invalidBlock)
    (first : ∀ anchor, found = some anchor →
      anchor.block ≠ invalidBlock ∧ anchor.previous = content.replaced g anchor.block) :
    Code.spec oracle.machine
      (OnlyErased (content.outdatedAmong g blocks (found.map (·.block)))) True
      (anchorInitScan g blocks found)
      (fun _ ram' after => OnlyErased (content.outdatedAmong g blocks (found.map (·.block))) after ∧
        (∀ block, content.outdatedAmong g blocks (found.map (·.block)) = some block →
          Touched after block) ∧
        ram'.indexTable = ram.indexTable) ram calls := by
  induction blocks generalizing found ram calls with
  | nil =>
      refine Code.spec_pure.mpr ⟨untouched.only _, untouched.only _, fun block none => ?_, rfl⟩
      simp only [FactoryContent.outdatedAmong, reduceCtorEq] at none
  | cons block rest ih =>
      have validRest : ∀ other ∈ rest, other ≠ invalidBlock :=
        fun other inside => valid other (List.mem_cons_of_mem _ inside)
      have validBlock : block ≠ invalidBlock := valid block List.mem_cons_self
      generalize isExpected : content.outdatedAmong g (block :: rest)
        (found.map (·.block)) = expected
      unfold FactoryContent.outdatedAmong at isExpected
      unfold anchorInitScan
      rw [Code.spec_bind]
      refine Code.spec_mono (device.spec_tableRead untouched) ?_ fun _ none => none.only _
      rintro ⟨ret, page, buffer⟩ ram calls ⟨untouched, rfl, table, -⟩
      have firstPage : content.tablePage g block 0 = 0 := if_neg (by decide)
      rw [firstPage] at table
      by_cases begins : content.isTable block 0 = true
      · rw [if_pos begins] at isExpected
        have good := table.mpr begins
        have last : content.isTable block (content.lastPage g block) = true :=
          bisect_inside g.pagePerPhyBlock_pos begins
        have lastPlace : content.tablePage g block invalidPage = content.lastPage g block :=
          if_pos rfl
        dsimp only
        rw [if_pos good, Code.spec_bind]
        refine Code.spec_mono (device.spec_tableRead untouched) ?_ fun _ none => none.only _
        rintro ⟨ret', page', buffer'⟩ ram calls ⟨untouched, rfl, table', isBuffer⟩
        rw [lastPlace] at table' isBuffer
        obtain rfl : ret' = .success := table'.mpr last
        dsimp only at isBuffer ⊢
        subst isBuffer
        rw [Code.spec_bind]
        refine Code.spec_mono (spec_loadAnchor (untouched.only expected) block) ?_ fun _ => id
        rintro loaded ram calls ⟨names, rfl, rfl⟩
        rw [Code.spec_bind]
        refine Code.spec_modify.mpr ⟨untouched.only _, ?_⟩
        rw [pure_bind, if_pos rfl, Code.spec_bind]
        refine Code.spec_get.mpr ⟨untouched.only _, ?_⟩
        cases found with
        | none =>
            subst isExpected
            have known : ∀ anchor,
                some (⟨block, page', loaded.previousAnchorBlock⟩ : AnchorFound) = some anchor →
                anchor.block ≠ invalidBlock ∧
                  anchor.previous = content.replaced g anchor.block := by
              intro anchor isAnchor
              obtain rfl := Option.some.inj isAnchor
              exact ⟨validBlock, names⟩
            exact ih untouched validRest known
        | some anchor =>
            obtain ⟨validFirst, names'⟩ := first anchor rfl
            subst isExpected
            dsimp only [Option.map_some]
            rw [← names']
            by_cases newer : anchor.previous = block
            · rw [if_pos newer, if_pos newer]
              exact spec_eraseOutdated untouched validBlock
            · rw [if_neg newer, if_neg newer, Code.spec_bind]
              refine Code.spec_assert.mpr ⟨untouched.only _, fun same => ?_, fun _ => trivial⟩
              rw [← same]
              exact spec_eraseOutdated untouched validFirst
      · have missing : ret ≠ .success := fun good => begins (table.mp good)
        rw [if_neg begins] at isExpected
        subst isExpected
        dsimp only
        rw [if_neg missing, pure_bind, if_neg missing]
        exact ih untouched validRest first

theorem FactoryDevice.spec_anchorInit (supported : g.Supported)
    (device : FactoryDevice g content oracle) (ram : UbiRam D) :
    Code.spec oracle.machine (OnlyErased (content.outdatedAnchor g)) True (anchorInit g)
      (fun _ ram' after => OnlyErased (content.outdatedAnchor g) after ∧
        (∀ block, content.outdatedAnchor g = some block → Touched after block) ∧
        ram'.indexTable = .blank) ram [] := by
  have untouched : NoneTouched ([] : UbiCalls D) :=
    fun block ⟨call, inside, _⟩ => absurd inside List.not_mem_nil
  have valid : ∀ block ∈ List.range' Geometry.anchorFirstBlock g.anchorBlockCount,
      block ≠ invalidBlock := by
    intro block inside
    have inRing : g.InRing block := by
      rw [List.mem_range'_1] at inside
      have := g.anchorLastBlock_eq
      unfold Geometry.InRing
      unfold Geometry.anchorFirstBlock at *
      omega
    exact ((inRing.lt_blocks supported).trans supported.blocksSmall).ne
  unfold anchorInit
  rw [Code.spec_bind]
  refine Code.spec_modify.mpr ⟨untouched.only _, ?_⟩
  rw [Code.spec_bind]
  refine Code.spec_mono (device.spec_anchorInitScan untouched valid
    fun _ none => absurd none (by simp)) ?_ fun _ => id
  rintro found ram' calls' ⟨only, touched, blank⟩
  cases found with
  | none => exact Code.spec_pure.mpr ⟨only, only, touched, blank⟩
  | some newest =>
      dsimp only
      rw [Code.spec_bind]
      refine Code.spec_modify.mpr ⟨only, ?_⟩
      rw [Code.spec_bind]
      refine Code.spec_get.mpr ⟨only, ?_⟩
      split
      · exact Code.spec_pure.mpr ⟨only, only, touched, blank⟩
      · exact Code.spec_pure.mpr ⟨only, only, touched, blank⟩

end Scan

end OpenNfm
