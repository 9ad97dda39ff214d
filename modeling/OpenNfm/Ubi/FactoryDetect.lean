import OpenNfm.Ubi.FactoryCoverage

/-!
# Which marked blocks the format spares

`UBI_Format` spares the blocks with a factory marker if the check sees each marker, if the
first block of the ring has none, if `ANCHOR_Init` erases none of them, and if they all find
room in the bad block table.  On a device without failures it spares them only then.
-/

namespace OpenNfm

open OpenNfm.Program

section Detect

variable {g : Geometry} {D : Type} {content : FactoryContent D} {oracle : UbiOracle D}
  {ram : UbiRam D} {calls : UbiCalls D}

open Code

/-- The memory with another bad block table. -/
def UbiRam.withBadBlocks (ram : UbiRam D) (table : Nat → Nat) : UbiRam D :=
  { ram with anchorTable := { ram.anchorTable with badBlockTable := table } }

/-- No call has erased or programmed a marked block, or programmed a table that uses one. -/
def CallsSpare (marked : Nat → Prop) (calls : UbiCalls D) : Prop :=
  ∀ call ∈ calls, call.op.Spares marked

theorem CallsSpare.cons {marked : Nat → Prop} (spared : CallsSpare marked calls)
    {call : Called (MtdOp (UbiBuffer D)) (MtdAns (UbiBuffer D))} (here : call.op.Spares marked) :
    CallsSpare marked (call :: calls) := by
  intro other inside
  rcases List.mem_cons.mp inside with rfl | earlier
  · exact here
  · exact spared other earlier

theorem CallsSpare.untouched {marked : Nat → Prop} (spared : CallsSpare marked calls) {block : Nat}
    (isMarked : marked block) : ¬ Touched calls block := by
  rintro ⟨⟨op, answer⟩, inside, touches⟩
  have spares := spared _ inside
  cases op with
  | erase other =>
      obtain rfl : other = block := touches
      exact spares isMarked
  | program other page main spare =>
      obtain rfl : other = block := touches
      exact spares.1 isMarked
  | read other page => exact touches
  | waitReady other => exact touches
  | readStatus other => exact touches
  | checkBlock other => exact touches
  | bufFree buffer => exact touches

/-- The detection logs the blocks that are refused. -/
theorem yields_ubiDetectBadBlocks {blocks : List Nat} :
    Yields oracle (ubiDetectBadBlocks g blocks)
      (fun _ ram' _ => ram' = ram.withBadBlocks
        (logBadBlocks g ram.anchorTable.badBlockTable (refusedBlocks oracle calls blocks))) ram
          calls := by
  induction blocks generalizing ram calls with
  | nil => exact Yields.pure.mpr rfl
  | cons block rest ih =>
      unfold ubiDetectBadBlocks refusedBlocks
      dsimp only
      rw [Yields.bind]
      refine Yields.perform.mpr ?_
      split
      · rename_i good
        rw [if_neg (not_not.mpr good), Yields.bind]
        refine Yields.perform.mpr ?_
        split
        · rw [Yields.bind]
          exact Yields.modifies.mpr ih
        · exact ih
      · rename_i wrong
        rw [pure_bind, if_pos wrong, Yields.bind]
        exact Yields.modifies.mpr ih

theorem touched_mono {call : Called (MtdOp (UbiBuffer D)) (MtdAns (UbiBuffer D))} {block : Nat}
    (touched : Touched calls block) : Touched (call :: calls) block :=
  touched.imp fun _ ⟨inside, touches⟩ => ⟨List.mem_cons_of_mem _ inside, touches⟩

/-- Each block in whose page 0 the check finds no marker has been erased. -/
theorem FactoryDevice.yields_ubiDetectBadBlocks (device : FactoryDevice g content oracle)
    {blocks : List Nat} :
    Yields oracle (ubiDetectBadBlocks g blocks)
      (fun _ _ calls' => (∀ block, Touched calls block → Touched calls' block) ∧
        ∀ block ∈ blocks, content.marksFirstPage g block = false → Touched calls' block) ram
          calls := by
  induction blocks generalizing ram calls with
  | nil => exact Yields.pure.mpr ⟨fun _ => id, fun block inside => absurd inside List.not_mem_nil⟩
  | cons block rest ih =>
      have goOn : ∀ (ram : UbiRam D) (calls' : UbiCalls D),
          (∀ other, Touched calls other → Touched calls' other) →
          (content.marksFirstPage g block = false → Touched calls' block) →
          Yields oracle (ubiDetectBadBlocks g rest)
            (fun _ _ calls'' => (∀ other, Touched calls other → Touched calls'' other) ∧
              ∀ other ∈ block :: rest, content.marksFirstPage g other = false →
                Touched calls'' other) ram calls' := by
        intro ram calls' kept here
        refine Yields.mono ih fun _ _ calls'' later => ⟨fun other touched =>
          later.1 other (kept other touched), fun other inside unmarked => ?_⟩
        rcases List.mem_cons.mp inside with rfl | inRest
        · exact later.1 other (here unmarked)
        · exact later.2 other inRest unmarked
      unfold ubiDetectBadBlocks
      dsimp only
      rw [Yields.bind]
      refine Yields.perform.mpr ?_
      split
      · rw [Yields.bind]
        refine Yields.perform.mpr ?_
        have kept : ∀ answer answer' other, Touched calls other → Touched
            (⟨.erase block, answer'⟩ :: ⟨.checkBlock block, answer⟩ :: calls : UbiCalls D) other :=
          fun _ _ _ touched => touched_mono (touched_mono touched)
        split
        · rw [Yields.bind]
          exact Yields.modifies.mpr (goOn _ _ (kept _ _) fun _ => touched_erase _ _)
        · exact goOn _ _ (kept _ _) fun _ => touched_erase _ _
      · rename_i wrong
        rw [pure_bind, if_pos wrong, Yields.bind]
        refine Yields.modifies.mpr (goOn _ _ (fun _ => touched_mono) fun unmarked => ?_)
        by_contra untouched
        have answer := device.check calls block fun touched => untouched (touched_mono touched)
        rw [unmarked, if_neg Bool.false_ne_true] at answer
        exact wrong answer

/-- As long as the check sees every marker, no marked block is erased. -/
theorem FactoryDevice.spec_ubiDetectBadBlocks (device : FactoryDevice g content oracle)
    {marked : Nat → Prop} (visible : ∀ block, marked block → content.marksFirstPage g block = true)
    {blocks : List Nat} (spared : CallsSpare marked calls) :
    Code.spec oracle.machine (CallsSpare marked) True (ubiDetectBadBlocks g blocks)
      (fun _ _ calls' => CallsSpare marked calls') ram calls := by
  induction blocks generalizing ram calls with
  | nil => exact Code.spec_pure.mpr ⟨spared, spared⟩
  | cons block rest ih =>
      have checked : ∀ answer,
          CallsSpare marked (⟨.checkBlock block, answer⟩ :: calls : UbiCalls D) :=
        fun answer => spared.cons trivial
      unfold ubiDetectBadBlocks
      dsimp only
      rw [Code.spec_bind]
      refine (Code.spec_perform_of_step rfl).mpr ⟨spared, checked _, ?_⟩
      split
      · rename_i good
        have unmarked : ¬ marked block := by
          intro isMarked
          have answer := device.check calls block (spared.untouched isMarked)
          rw [visible block isMarked, if_pos rfl, good] at answer
          cases answer
        have erased := fun answer answer' =>
          @CallsSpare.cons D _ _ (checked answer) ⟨.erase block, answer'⟩ unmarked
        rw [Code.spec_bind]
        refine (Code.spec_perform_of_step rfl).mpr ⟨checked _, erased _ _, ?_⟩
        split
        · rw [Code.spec_bind]
          exact Code.spec_modify.mpr ⟨erased _ _, ih (erased _ _)⟩
        · exact ih (erased _ _)
      · rename_i wrong
        rw [pure_bind, if_pos wrong, Code.spec_bind]
        exact Code.spec_modify.mpr ⟨checked _, ih (checked _)⟩

/-- Code that spares the marked blocks under every answer does so on this device. -/
theorem CallsSpare.spec {α : Type} {marked : Nat → Prop} {code : Ubi D α}
    {post : α → UbiRam D → Prop} (spared : CallsSpare marked calls)
    (holds : Everywhere (MtdOp.Spares marked) code post ram) :
    Code.spec oracle.machine (CallsSpare marked) True code
      (fun value ram' calls' => CallsSpare marked calls' ∧ post value ram') ram calls := by
  have step : ∀ calls op answer after, oracle.machine calls op = .ok (answer, after) →
      ∀ other, (∃ call ∈ after, call.op = other) →
        other = op ∨ ∃ call ∈ calls, call.op = other := by
    rintro calls op answer after same other ⟨call, inside, rfl⟩
    obtain ⟨rfl, rfl⟩ := Prod.mk.inj (Except.ok.inj same)
    rcases List.mem_cons.mp inside with rfl | earlier
    · exact .inl rfl
    · exact .inr ⟨call, earlier, rfl⟩
  have all : ∀ calls : UbiCalls D,
      (∀ op, (∃ call ∈ calls, call.op = op) → op.Spares marked) → CallsSpare marked calls :=
    fun calls each call inside => each call.op ⟨call, inside, rfl⟩
  have allowed : ∀ op, (∃ call ∈ calls, call.op = op) → op.Spares marked := by
    rintro op ⟨call, inside, rfl⟩
    exact spared call inside
  refine Code.spec_mono (holds.spec step allowed) ?_ all
  · exact fun value ram' calls' ⟨each, met⟩ => ⟨all calls' each, met⟩

end Detect

/-! ## The condition -/

/-- When the format spares the marked blocks: the check sees each of them in page 0, the first
block of the ring is none of them, the recovery of the ring erases none of them, and they are
all in the bad block table, which is `table` behind the detection. -/
structure FactoryCondition (g : Geometry) {D : Type} (content : FactoryContent D)
    (table : Nat → Nat) : Prop where
  visible : ∀ block, content.Marked g block → content.marksFirstPage g block = true
  firstBlock : ¬ content.Marked g Geometry.anchorFirstBlock
  outdated : ∀ block, content.outdatedAnchor g = some block → ¬ content.Marked g block
  room : ∀ block, content.Marked g block → block ≠ 0 → isBadBlock g table block = true

section Runs

variable {g : Geometry} {D : Type} {content : FactoryContent D} {oracle : UbiOracle D}
  {fuel : Nat} {ram ram₁ : UbiRam D} {calls₁ : UbiCalls D} {ret₁ : Status}

open Code

/-- The bad block table behind the detection. -/
def detectedTable (g : Geometry) (oracle : UbiOracle D) (ram₁ : UbiRam D) (calls₁ : UbiCalls D) :
    Nat → Nat :=
  logBadBlocks g ram₁.anchorTable.badBlockTable
    (refusedBlocks oracle calls₁ (List.range g.cfgLogBlockCount))

theorem FactoryContent.Marked.ne_invalid (supported : g.Supported) {block : Nat}
    (isMarked : content.Marked g block) : block ≠ invalidBlock :=
  (isMarked.1.trans supported.blocksSmall).ne

/-- Under the condition the format spares the marked blocks, wherever it is cut. -/
theorem FactoryCondition.spec (supported : g.Supported) (device : FactoryDevice g content oracle)
    (init : ((anchorInit g).run ram).exec oracle.machine [] = .ok ((ret₁, ram₁), calls₁))
    (noAnchor : ret₁ ≠ .success)
    (condition : FactoryCondition g content (detectedTable g oracle ram₁ calls₁)) :
    Code.spec oracle.machine (CallsSpare (content.Marked g)) True (ubiFormat g fuel)
      (fun ret ram' calls' => CallsSpare (content.Marked g) calls' ∧
        LeavesSpared (content.Marked g) ret ram') ram [] := by
  have valid : ∀ block, content.Marked g block → block ≠ invalidBlock :=
    fun block isMarked => isMarked.ne_invalid supported
  have harmless : ∀ calls : UbiCalls D, OnlyErased (content.outdatedAnchor g) calls →
      CallsSpare (content.Marked g) calls := by
    rintro calls only ⟨op, answer⟩ inside
    have erased := only _ inside
    cases op with
    | erase block => exact condition.outdated block (erased block rfl).2
    | program block page main spare => exact absurd (erased block rfl).1 (by simp)
    | read block page => trivial
    | waitReady block => trivial
    | readStatus block => trivial
    | checkBlock block => trivial
    | bufFree buffer => trivial
  have start : Code.spec oracle.machine (fun _ => True) True (anchorInit g)
      (fun ret ram' calls' => ret₁ = ret ∧ ram₁ = ram' ∧ calls₁ = calls') ram [] :=
    Code.spec_of_exec init ⟨rfl, rfl, rfl⟩
  rw [ubiFormat_eq, Code.spec_bind]
  refine Code.spec_mono (Code.spec_and (device.spec_anchorInit supported ram) start) ?_
    fun calls only => harmless calls only.1
  rintro _ _ _ ⟨⟨only, -, blank⟩, rfl, rfl, rfl⟩
  rw [if_pos noAnchor, Code.spec_bind]
  refine Code.spec_mono (Code.spec_and
    (device.spec_ubiDetectBadBlocks condition.visible (harmless _ only))
    yields_ubiDetectBadBlocks) ?_ fun _ => And.left
  rintro _ _ calls' ⟨spared, rfl⟩
  refine spared.spec (everywhere_ubiFormatLayout valid condition.firstBlock ⟨condition.room, ?_⟩)
  show ram₁.indexTable.Spares (content.Marked g)
  rw [blank]
  exact ⟨fun _ isMarked => valid _ isMarked rfl, fun _ isMarked => valid _ isMarked rfl⟩

/-- Without failures, a format that spares the marked blocks meets the condition. -/
theorem FactoryCondition.of_run (supported : g.Supported) (device : FactoryDevice g content oracle)
    (init : ((anchorInit g).run ram).exec oracle.machine [] = .ok ((ret₁, ram₁), calls₁))
    (noAnchor : ret₁ ≠ .success) (healthy : Healthy oracle) {ret : Status} {ram' : UbiRam D}
    {calls' : UbiCalls D}
    (run : ((ubiFormat g fuel).run ram).exec oracle.machine [] = .ok ((ret, ram'), calls'))
    (spared : CallsSpare (content.Marked g) calls') :
    FactoryCondition g content (detectedTable g oracle ram₁ calls₁) := by
  have start : Code.spec oracle.machine (fun _ => True) True (anchorInit g)
      (fun ret ram' calls' => ret₁ = ret ∧ ram₁ = ram' ∧ calls₁ = calls') ram [] :=
    Code.spec_of_exec init ⟨rfl, rfl, rfl⟩
  have facts : Code.spec oracle.machine (fun _ => True) True (ubiFormat g fuel)
      (fun _ _ calls' => GoneOver g
        (isBadBlock g (detectedTable g oracle ram₁ calls₁)) calls' ∧
        (∀ block, content.outdatedAnchor g = some block → Touched calls' block) ∧
        ∀ block < g.cfgLogBlockCount, content.marksFirstPage g block = false →
          Touched calls' block) ram [] := by
    rw [ubiFormat_eq, Code.spec_bind]
    refine Code.spec_mono (Code.spec_and (device.spec_anchorInit supported ram) start) ?_
      fun _ _ => trivial
    rintro _ _ _ ⟨⟨-, outdated, -⟩, rfl, rfl, rfl⟩
    rw [if_pos noAnchor, Code.spec_bind]
    refine Code.spec_mono (Code.spec_and device.yields_ubiDetectBadBlocks
      yields_ubiDetectBadBlocks) ?_ fun _ _ => trivial
    rintro _ _ calls₂ ⟨⟨kept, erased⟩, rfl⟩
    have lists : Lists g (isBadBlock g (detectedTable g oracle ram₁ calls₁))
        (ram₁.withBadBlocks (detectedTable g oracle ram₁ calls₁)) := fun _ => rfl
    refine Code.spec_mono (Code.spec_and (healthy.yields_ubiFormatLayout supported lists)
      Yields.suffix) ?_ fun _ _ => trivial
    rintro _ _ calls₃ ⟨goneOver, later⟩
    have remains : ∀ block, Touched calls₂ block → Touched calls₃ block :=
      fun block ⟨call, inside, touches⟩ => ⟨call, later.subset inside, touches⟩
    exact ⟨goneOver, fun block isOutdated => remains block (kept block (outdated block isOutdated)),
      fun block inRange unmarked =>
        remains block (erased block (List.mem_range.mpr inRange) unmarked)⟩
  obtain ⟨goneOver, outdated, erased⟩ := Code.post_of_spec facts run
  refine ⟨fun block isMarked => ?_, fun isMarked => spared.untouched isMarked goneOver.anchor,
    fun block isOutdated isMarked => spared.untouched isMarked (outdated block isOutdated),
    fun block isMarked notCode => ?_⟩
  · by_contra hidden
    exact spared.untouched isMarked (erased block isMarked.1 (by simpa using hidden))
  · have first : Geometry.anchorFirstBlock ≤ block := Nat.one_le_iff_ne_zero.mpr notCode
    exact (goneOver.blocks block first isMarked.1).resolve_right (spared.untouched isMarked)

/-- What the format owes the marked blocks when it returns. -/
structure SparesFactoryBlocks (g : Geometry) (content : FactoryContent D) (ret : Status)
    (ram : UbiRam D) (calls : UbiCalls D) : Prop where
  calls : CallsSpare (content.Marked g) calls
  memory : LeavesSpared (content.Marked g) ret ram

/-- `UBI_Format` without a valid anchor: under the condition it touches no marked block and
allocates none, whatever fails on the way; without failures it meets that only under the
condition. -/
theorem ubiFormat_sparesFactoryBlocks (supported : g.Supported)
    (device : FactoryDevice g content oracle)
    (init : ((anchorInit g).run ram).exec oracle.machine [] = .ok ((ret₁, ram₁), calls₁))
    (noAnchor : ret₁ ≠ .success) :
    (FactoryCondition g content (detectedTable g oracle ram₁ calls₁) →
      (∀ n, CallsSpare (content.Marked g)
        (((ubiFormat g fuel).run ram).cut oracle.machine n [])) ∧
      ∀ ret ram' calls',
        ((ubiFormat g fuel).run ram).exec oracle.machine [] = .ok ((ret, ram'), calls') →
          SparesFactoryBlocks g content ret ram' calls') ∧
    (Healthy oracle → ∀ ret ram' calls',
      ((ubiFormat g fuel).run ram).exec oracle.machine [] = .ok ((ret, ram'), calls') →
        (SparesFactoryBlocks g content ret ram' calls' ↔
          FactoryCondition g content (detectedTable g oracle ram₁ calls₁))) := by
  have enough : FactoryCondition g content (detectedTable g oracle ram₁ calls₁) → ∀ ret ram' calls',
      ((ubiFormat g fuel).run ram).exec oracle.machine [] = .ok ((ret, ram'), calls') →
        SparesFactoryBlocks g content ret ram' calls' := by
    intro condition ret ram' calls' run
    obtain ⟨spared, memory⟩ :=
      Code.post_of_spec (condition.spec supported device init noAnchor) run
    exact ⟨spared, memory⟩
  refine ⟨fun condition => ⟨fun n => ?_, enough condition⟩, fun healthy ret ram' calls' run =>
    ⟨fun spares => ?_, fun condition => enough condition ret ram' calls' run⟩⟩
  · exact Prog.cut_of_spec (condition.spec supported device init noAnchor) n
  · exact FactoryCondition.of_run supported device init noAnchor healthy run spares.calls

end Runs

/-! ## A small device -/

/-- A device on which nothing is programmed but the markers in some spare areas, which are given
by block, plane and page. -/
def markersOnly (D : Type) (markers : List (Nat × Nat × Nat)) : FactoryContent D where
  pages _ _ := ⟨.failure, .ones, .ones⟩
  spareByte block plane page := if (block, plane, page) ∈ markers then 0 else 0xff

/-- A device without failures that never loses a marker. -/
def markersStay (g : Geometry) {D : Type} (content : FactoryContent D) : UbiOracle D
  | _, .read block page => content.pages block page
  | _, .program _ _ _ _ => .success
  | _, .erase _ => .success
  | _, .waitReady _ => .success
  | _, .readStatus _ => .success
  | _, .checkBlock block => if content.marksFirstPage g block then .badblock else .success
  | _, .bufFree _ => ()

theorem markersStay_device (g : Geometry) {D : Type} (content : FactoryContent D) :
    FactoryDevice g content (markersStay g content) :=
  ⟨fun _ _ _ _ => rfl, fun _ _ _ => rfl⟩

theorem markersStay_healthy (g : Geometry) {D : Type} (content : FactoryContent D) :
    Healthy (markersStay g content) :=
  ⟨fun _ _ => rfl, fun _ _ _ _ _ => rfl, fun _ _ => rfl⟩

/-- One die of sixteen blocks with two planes and small pages. -/
def sixteenBlocks : Geometry :=
  { simNand with
    sectorPerPageShift := 0
    pagePerBlockShift := 4
    blockPerPlaneShift := 4
    diePerChipShift := 0
    chipCountShift := 0 }

/-- A marker in page 0 of block 5: the block is spared. -/
theorem ubiFormat_sparesFactoryBlocks_firstPage :
    ∃ ret ram' calls', ((ubiFormat sixteenBlocks 1).run (UbiRam.reset Nat)).exec
        (markersStay sixteenBlocks (markersOnly Nat [(5, 1, 0)])).machine [] =
          .ok ((ret, ram'), calls') ∧
      SparesFactoryBlocks sixteenBlocks (markersOnly Nat [(5, 1, 0)]) ret ram' calls' := by
  have init : Code.returns (((anchorInit sixteenBlocks).run (UbiRam.reset Nat)).exec
      (markersStay sixteenBlocks (markersOnly Nat [(5, 1, 0)])).machine [])
      (fun ret ram calls => decide (ret ≠ .success) && isBadBlock sixteenBlocks
        (detectedTable sixteenBlocks (markersStay sixteenBlocks (markersOnly Nat [(5, 1, 0)])) ram
          calls) 5) = true := by
    set_option maxRecDepth 100000 in decide +kernel
  have run : Code.returns (((ubiFormat sixteenBlocks 1).run (UbiRam.reset Nat)).exec
      (markersStay sixteenBlocks (markersOnly Nat [(5, 1, 0)])).machine [])
      (fun _ _ _ => true) = true := by
    set_option maxRecDepth 100000 in decide +kernel
  obtain ⟨ret₁, ram₁, calls₁, inited, found⟩ := Code.returns_iff.mp init
  obtain ⟨ret, ram', calls', formatted, -⟩ := Code.returns_iff.mp run
  rw [Bool.and_eq_true, decide_eq_true_eq] at found
  have only : ∀ block, (markersOnly Nat [(5, 1, 0)]).Marked sixteenBlocks block → block = 5 := by
    rintro block ⟨-, plane, -, page, -, marker⟩
    by_contra other
    exact marker (if_neg (by simp [other]))
  have supported : sixteenBlocks.Supported := by decide
  have condition : FactoryCondition sixteenBlocks (markersOnly Nat [(5, 1, 0)])
      (detectedTable sixteenBlocks (markersStay sixteenBlocks (markersOnly Nat [(5, 1, 0)])) ram₁
        calls₁) := by
    refine ⟨fun block isMarked => ?_, fun isMarked => absurd (only _ isMarked) (by decide),
      fun block outdated => ?_, fun block isMarked _ => ?_⟩
    · rw [only block isMarked]
      decide
    · have none : (markersOnly Nat [(5, 1, 0)]).outdatedAnchor sixteenBlocks = none := by decide
      rw [none] at outdated
      exact absurd outdated (by simp)
    · rw [only block isMarked]
      exact found.2
  exact ⟨ret, ram', calls', formatted,
    ((ubiFormat_sparesFactoryBlocks supported (markersStay_device _ _) inited found.1).2
      (markersStay_healthy _ _) ret ram' calls' formatted).mpr condition⟩

/-- The call erases a block. -/
def erases {D : Type} (block : Nat) : MtdOp (UbiBuffer D) → Bool
  | .erase other => other == block
  | _ => false

/-- A marker in page 1 of block 5 only: the check does not see it, and the format erases the
block. -/
theorem ubiFormat_erases_secondPage :
    (markersOnly Nat [(5, 1, 1)]).Marked sixteenBlocks 5 ∧
    FactoryDevice sixteenBlocks (markersOnly Nat [(5, 1, 1)])
      (markersStay sixteenBlocks (markersOnly Nat [(5, 1, 1)])) ∧
    (∃ ret ram' calls', ((anchorInit sixteenBlocks).run (UbiRam.reset Nat)).exec
        (markersStay sixteenBlocks (markersOnly Nat [(5, 1, 1)])).machine [] =
          .ok ((ret, ram'), calls') ∧ ret ≠ .success) ∧
    ∃ ram' calls', ((ubiFormat sixteenBlocks 1).run (UbiRam.reset Nat)).exec
        (markersStay sixteenBlocks (markersOnly Nat [(5, 1, 1)])).machine [] =
          .ok ((.success, ram'), calls') ∧
      ∃ call ∈ calls', call.op = .erase 5 := by
  have init : Code.returns (((anchorInit sixteenBlocks).run (UbiRam.reset Nat)).exec
      (markersStay sixteenBlocks (markersOnly Nat [(5, 1, 1)])).machine [])
      (fun ret _ _ => decide (ret ≠ .success)) = true := by
    set_option maxRecDepth 100000 in decide +kernel
  have run : Code.returns (((ubiFormat sixteenBlocks 1).run (UbiRam.reset Nat)).exec
      (markersStay sixteenBlocks (markersOnly Nat [(5, 1, 1)])).machine [])
      (fun ret _ calls => decide (ret = .success) && calls.any fun call => erases 5 call.op) =
        true := by
    set_option maxRecDepth 100000 in decide +kernel
  obtain ⟨ret₁, ram₁, calls₁, inited, noAnchor⟩ := Code.returns_iff.mp init
  obtain ⟨ret, ram', calls', formatted, found⟩ := Code.returns_iff.mp run
  rw [Bool.and_eq_true, decide_eq_true_eq, List.any_eq_true] at found
  obtain ⟨rfl, ⟨op, answer⟩, inside, isErase⟩ := found
  refine ⟨⟨by decide, 1, by decide, 1, by decide, by decide⟩, markersStay_device _ _,
    ⟨ret₁, ram₁, calls₁, inited, of_decide_eq_true noAnchor⟩, ram', calls', formatted, _,
      inside, ?_⟩
  cases op with
  | erase block => rw [beq_iff_eq.mp isErase]
  | _ => exact absurd isErase Bool.false_ne_true

end OpenNfm
