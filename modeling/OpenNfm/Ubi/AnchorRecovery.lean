import OpenNfm.Ubi.AnchorScan

/-!
# The choice of the anchor

The scan looks at the first two blocks of the ring in which it reads an anchor.
`chosenAnchor` says what it makes of them, for every content of the ring, and
`AnchorRecoverable` when the choice is the block that was written last.
-/

namespace OpenNfm

open OpenNfm.Program

variable {g : Geometry} {D : Type}

/-! ## Erases that may fail -/

namespace Faulty

variable {B : Type} (state : Faulty B) {block other : Nat} (page : Nat)

theorem erase_lastProgram : (state.erase g block).2.lastProgram = state.lastProgram := by
  unfold erase
  split <;> rfl

theorem erase_outcomes : (state.erase g block).2.outcomes = state.outcomes.tail := by
  unfold erase
  split <;> rfl

theorem erase_nand_other (different : other ≠ block) :
    (state.erase g block).2.nand other = state.nand other := by
  unfold erase
  split
  · exact funext fun page => state.nand.erase_other page different
  · exact Function.update_of_ne different _ _

/-- An erase leaves a page as it was or removes it. -/
theorem erase_nand_le {content : Page B}
    (programmed : (state.erase g block).2.nand other page = some content) :
    state.nand other page = some content := by
  by_cases same : other = block
  · subst same
    unfold erase at programmed
    split at programmed
    · simp at programmed
    · simp only [Function.update_self] at programmed
      split at programmed
      · exact programmed
      · simp at programmed
  · rwa [erase_nand_other state same] at programmed

theorem erase_blank (success : (state.erase g block).1 = .success) :
    (state.erase g block).2.nand.Blank block := by
  cases outcome : state.outcomes.headD .done with
  | done =>
      simp only [erase, outcome]
      exact state.nand.blank_erase block
  | failed kept =>
      simp only [erase, outcome] at success
      exact absurd success (by decide)

theorem erase_of_outcomes (faultless : state.outcomes = []) :
    (state.erase g block).1 = .success ∧
      (state.erase g block).2.nand = state.nand.erase block := by
  simp [erase, faultless]

theorem SameFlash.erase_status {after : Faulty B} (same : SameFlash state after) :
    (after.erase g block).1 = (state.erase g block).1 := by
  simp only [erase, same.outcomes]
  split <;> rfl

/-- What became of the flash when an outdated block, if there is one, was erased. -/
def Discarded (g : Geometry) (outdated : Option Nat) (state after : Faulty B) : Prop :=
  match outdated with
  | none => SameFlash state after
  | some old => ∃ middle, SameFlash state middle ∧ after = (middle.erase g old).2

theorem Discarded.lastProgram {outdated : Option Nat} {state after : Faulty B}
    (discarded : Discarded g outdated state after) : after.lastProgram = state.lastProgram := by
  cases outdated with
  | none => exact SameFlash.lastProgram discarded
  | some old =>
      obtain ⟨middle, same, rfl⟩ := discarded
      rw [erase_lastProgram, same.lastProgram]

theorem Discarded.nand_le {outdated : Option Nat} {state after : Faulty B}
    (discarded : Discarded g outdated state after) {block page : Nat} {content : Page B}
    (programmed : after.nand block page = some content) :
    state.nand block page = some content := by
  cases outdated with
  | none => rwa [SameFlash.nand discarded] at programmed
  | some old =>
      obtain ⟨middle, same, rfl⟩ := discarded
      rw [← same.nand]
      exact middle.erase_nand_le page programmed

theorem Discarded.nand_other {outdated : Option Nat} {state after : Faulty B}
    (discarded : Discarded g outdated state after) {block : Nat}
    (different : outdated ≠ some block) : after.nand block = state.nand block := by
  cases outdated with
  | none => rw [SameFlash.nand discarded]
  | some old =>
      obtain ⟨middle, same, rfl⟩ := discarded
      rw [middle.erase_nand_other fun wrong => different (congrArg some wrong.symm), same.nand]

end Faulty

open Faulty

theorem AnchorPages.of_le {nand nand' : Nand (UbiBuffer D)} (pages : AnchorPages g nand)
    (le : ∀ block page content, nand' block page = some content →
      nand block page = some content) : AnchorPages g nand' :=
  fun block page content inRing programmed =>
    pages block page content inRing (le block page content programmed)

/-! ## The choice -/

/-- The table with one more block in its bad block table. -/
def AnchorTable.logged (g : Geometry) (table : AnchorTable) (block : Nat) : AnchorTable :=
  { table with badBlockTable := logBadBlock g table.badBlockTable block }

/-- What `ANCHOR_Init` returns when it has found the table: a table without areas or without
the signature holds only bad blocks. -/
def AnchorTable.initStatus (table : AnchorTable) : Status :=
  if table.totalDataBlock = invalidBlock ∨ table.version ≠ anchorVersion ∨
      table.oath ≠ anchorOath then .failure
  else .success

/-- The block and page that the scan selects, the table that is in memory then, and
the block that it erases. -/
structure AnchorChoice where
  block : Nat
  page : Nat
  table : AnchorTable
  outdated : Option Nat

/-- What the scan makes of the blocks in which it reads an anchor.  The table in
memory is the one that was read last. -/
def chosenAnchor : List (Nat × Nat × AnchorTable) → Option AnchorChoice
  | [] => none
  | [(block, page, table)] => some ⟨block, page, table, none⟩
  | (block, page, table) :: (block', page', table') :: _ =>
      if table.previousAnchorBlock = block' then some ⟨block, page, table', some block'⟩
      else if block = table'.previousAnchorBlock then some ⟨block', page', table', some block⟩
      else none

/-- The memory holds the table, apart from the failure of the scan's erase. -/
def RingDevice.Loads {T : Type} {machine : Machine (MtdOp (UbiBuffer D)) (MtdAns (UbiBuffer D)) T}
    (device : RingDevice g machine) (state : T) (choice : AnchorChoice) (loaded : AnchorTable) :
    Prop :=
  loaded = choice.table ∨
    ∃ old, choice.outdated = some old ∧ (device.erase state old).1 ≠ .success ∧
      loaded = choice.table.logged g old

/-- What became of the flash when an outdated block, if there is one, was erased. -/
def RingDevice.Discarded {T : Type}
    {machine : Machine (MtdOp (UbiBuffer D)) (MtdAns (UbiBuffer D)) T}
    (device : RingDevice g machine) (outdated : Option Nat) (state after : T) : Prop :=
  match outdated with
  | none => device.Same state after
  | some old => ∃ middle, device.Same state middle ∧ after = (device.erase middle old).2

section Specs

variable {T : Type} {machine : Machine (MtdOp (UbiBuffer D)) (MtdAns (UbiBuffer D)) T}
  (device : RingDevice g machine) {crash : T → Prop} {halts : Prop} {ram : UbiRam D} {state : T}

theorem RingDevice.spec_anchorInitScan_blanks {blanks rest : List Nat} {found : Option AnchorFound}
    {post : Option AnchorFound → UbiRam D → T → Prop}
    (isBlock : ∀ block ∈ blanks, block < g.cfgLogBlockCount)
    (unreadable : ∀ block ∈ blanks, hasTable (device.nand state) block 0 = false)
    (safe : ∀ after, device.Same state after → crash after)
    (meets : ∀ after, device.Same state after →
      Code.spec machine crash halts (anchorInitScan g rest found) post ram after) :
    Code.spec machine crash halts (anchorInitScan g (blanks ++ rest) found) post ram
      state := by
  induction blanks generalizing state with
  | nil => exact meets state (device.same_refl _)
  | cons block blanks ih =>
      refine device.spec_anchorInitScan_skip (isBlock block List.mem_cons_self)
        (unreadable block List.mem_cons_self) safe fun middle same => ?_
      refine ih (fun other inside => isBlock other (List.mem_cons_of_mem _ inside))
        (fun other inside => ?_) (fun after more => safe after (device.same_trans same more))
        fun after more => meets after (device.same_trans same more)
      rw [device.same_nand same]
      exact unreadable other (List.mem_cons_of_mem _ inside)

/-- The second anchor decides which block is kept, as `newest`, and which one is erased. -/
def Decided (first : AnchorFound) (block page : Nat) (table : AnchorTable) (old : Nat)
    (newest : AnchorFound) : Prop :=
  first.previous = block ∧ old = block ∧ newest = first ∨
    first.previous ≠ block ∧ first.block = table.previousAnchorBlock ∧ old = first.block ∧
      newest = ⟨block, page, first.previous⟩

/-- The second anchor ends the scan. -/
theorem RingDevice.spec_foundAnchor_second {block page : Nat} {rest : List Nat}
    {first : AnchorFound} {post : Option AnchorFound → UbiRam D → T → Prop}
    (supported : g.Supported) (inRing : g.InRing block) (firstInRing : g.InRing first.block)
    (here : crash state)
    (safe : ∀ old newest, Decided first block page ram.anchorTable old newest →
      crash (device.erase state old).2)
    (meets : ∀ old newest loaded, Decided first block page ram.anchorTable old newest →
      (loaded = ram.anchorTable ∨
        (device.erase state old).1 ≠ .success ∧ loaded = ram.anchorTable.logged g old) →
      post (some newest) { ram with anchorTable := loaded } (device.erase state old).2)
    (stuck : first.previous ≠ block → first.block ≠ ram.anchorTable.previousAnchorBlock → halts) :
    Code.spec machine crash halts (foundAnchor g block page rest (some first)) post ram
      state := by
  have valid : ∀ old, g.InRing old → old ≠ invalidBlock := fun old member =>
    ((member.lt_blocks supported).trans supported.blocksSmall).ne
  simp only [foundAnchor, Code.spec_bind, Code.spec_get]
  refine ⟨here, ?_⟩
  by_cases older : first.previous = block
  · have decided : Decided first block page ram.anchorTable block first := .inl ⟨older, rfl, rfl⟩
    have safeErased := safe _ _ decided
    simp only [older, if_true, Code.spec_bind, Code.spec_pure, ne_eq, valid block inRing,
      not_false_eq_true, device.spec_mtdErase (inRing.lt_blocks supported)]
    refine ⟨here, here, safeErased, ?_⟩
    by_cases erased : (device.erase state block).1 = .success
    · simp only [erased, not_true_eq_false, if_false, Code.spec_pure]
      exact ⟨safeErased, meets block first _ decided (.inl rfl)⟩
    · simp only [erased, not_false_eq_true, if_true, Code.spec_bind, anchorLogBadBlock,
        Code.spec_modify, Code.spec_pure]
      exact ⟨safeErased, safeErased, meets block first _ decided (.inr ⟨erased, rfl⟩)⟩
  · simp only [older, if_false, Code.spec_bind, Code.spec_assert]
    refine ⟨here, fun replaced => ?_, fun wrong => stuck older wrong⟩
    have decided : Decided first block page ram.anchorTable first.block
        ⟨block, page, first.previous⟩ := .inr ⟨older, replaced, rfl, rfl⟩
    have safeErased := safe _ _ decided
    simp only [Code.spec_pure, ← replaced, ne_eq, valid _ firstInRing, not_false_eq_true, if_true,
      Code.spec_bind, device.spec_mtdErase (firstInRing.lt_blocks supported)]
    refine ⟨here, here, safeErased, ?_⟩
    by_cases erased : (device.erase state first.block).1 = .success
    · simp only [erased, not_true_eq_false, if_false, Code.spec_pure]
      exact ⟨safeErased, meets first.block _ _ decided (.inl rfl)⟩
    · simp only [erased, not_false_eq_true, if_true, Code.spec_bind, anchorLogBadBlock,
        Code.spec_modify, Code.spec_pure]
      exact ⟨safeErased, safeErased, meets first.block _ _ decided (.inr ⟨erased, rfl⟩)⟩

/-- The part of the ring up to the next block with an anchor. -/
theorem holders_cons {nand : Nand (UbiBuffer D)} {blocks : List Nat}
    {holder : Nat × Nat × AnchorTable} {more : List (Nat × Nat × AnchorTable)}
    (pages : AnchorPages g nand) (inRing : ∀ block ∈ blocks, g.InRing block)
    (first : blocks.filterMap (holderOf g nand) = holder :: more) :
    ∃ blanks rest, blocks = blanks ++ holder.1 :: rest ∧ g.InRing holder.1 ∧
      (∀ block ∈ blanks, g.InRing block ∧ hasTable nand block 0 = false) ∧
      anchorAt g nand holder.1 = some holder.2 ∧ (∀ block ∈ rest, g.InRing block) ∧
      rest.filterMap (holderOf g nand) = more := by
  obtain ⟨blanks, block, rest, rfl, missing, found, more⟩ := List.filterMap_eq_cons_iff.mp first
  obtain ⟨anchor, anchored, rfl⟩ := Option.map_eq_some_iff.mp found
  refine ⟨blanks, rest, rfl, inRing block (by simp), fun other inside => ⟨?_, ?_⟩, anchored,
    fun other inside => inRing other (by simp [inside]), more⟩
  · exact inRing other (by simp [inside])
  · refine anchorAt_eq_none pages (inRing other (by simp [inside])) ?_
    exact Option.map_eq_none_iff.mp (missing other inside)

/-- The scan over the ring, for every content of it that has an anchor. -/
theorem RingDevice.spec_anchorInitScan {post : Option AnchorFound → UbiRam D → T → Prop}
    (supported : g.Supported) (pages : AnchorPages g (device.nand state))
    (anchored : holders g (device.nand state) ≠ [])
    (safe : ∀ after, device.Same state after → crash after)
    (safeErased : ∀ choice after, chosenAnchor (holders g (device.nand state)) = some choice →
      device.Discarded choice.outdated state after → crash after)
    (meets : ∀ choice previous loaded after,
      chosenAnchor (holders g (device.nand state)) = some choice →
        device.Loads state choice loaded →
      device.Discarded choice.outdated state after →
      post (some ⟨choice.block, choice.page, previous⟩) { ram with anchorTable := loaded } after)
    (stuck : chosenAnchor (holders g (device.nand state)) = none → halts) :
    Code.spec machine crash halts (anchorInitScan g g.ringBlocks none) post ram
      state := by
  have inRing : ∀ block ∈ g.ringBlocks, g.InRing block := fun block => mem_ringBlocks.mp
  obtain ⟨first, more, split⟩ := List.exists_cons_of_ne_nil anchored
  obtain ⟨blanks, rest, ring, firstInRing, blank, found, restInRing, others⟩ :=
    holders_cons pages inRing split
  rw [ring]
  refine device.spec_anchorInitScan_blanks
    (fun block inside => (blank block inside).1.lt_blocks supported)
    (fun block inside => (blank block inside).2) safe fun second same => ?_
  refine device.spec_anchorInitScan_found (firstInRing.lt_blocks supported)
    (by rw [device.same_nand same]; exact found)
    (fun after more => safe after (device.same_trans same more)) fun third more' => ?_
  have same := device.same_trans same more'
  simp only [foundAnchor, Code.spec_bind, Code.spec_get]
  refine ⟨safe third same, ?_⟩
  cases more with
  | nil =>
      rw [split] at meets
      rw [← List.append_nil rest]
      have missing := List.filterMap_eq_nil_iff.mp others
      refine device.spec_anchorInitScan_blanks
        (fun block inside => (restInRing block inside).lt_blocks supported) (fun block inside => ?_)
        (fun after more => safe after (device.same_trans same more)) fun after more => ?_
      · rw [device.same_nand same]
        exact anchorAt_eq_none pages (restInRing block inside)
          (Option.map_eq_none_iff.mp (missing block inside))
      · exact ⟨safe after (device.same_trans same more),
          meets _ first.2.2.previousAnchorBlock first.2.2 after rfl (.inl rfl)
            (device.same_trans same more)⟩
  | cons second more =>
      obtain ⟨blanks', rest', ring', secondInRing, blank', found', _, _⟩ :=
        holders_cons pages restInRing others
      rw [ring']
      rw [split] at meets stuck safeErased
      refine device.spec_anchorInitScan_blanks
        (fun block inside => (blank' block inside).1.lt_blocks supported)
        (fun block inside => by rw [device.same_nand same]; exact (blank' block inside).2)
        (fun after again => safe after (device.same_trans same again)) fun fourth again => ?_
      have same := device.same_trans same again
      refine device.spec_anchorInitScan_found (secondInRing.lt_blocks supported)
        (by rw [device.same_nand same]; exact found')
          (fun after again => safe after (device.same_trans same again))
        fun fifth again => ?_
      have same := device.same_trans same again
      -- what is decided is the choice, and its outdated block is erased
      have choice : ∀ old newest,
          Decided ⟨first.1, first.2.1, first.2.2.previousAnchorBlock⟩ second.1 second.2.1
            second.2.2 old newest →
          ∃ previous, newest = ⟨newest.block, newest.page, previous⟩ ∧
            chosenAnchor (first :: second :: more) =
              some ⟨newest.block, newest.page, second.2.2, some old⟩ := by
        rintro old newest (⟨older, rfl, rfl⟩ | ⟨newer, replaced, rfl, rfl⟩)
        · exact ⟨_, rfl, if_pos older⟩
        · exact ⟨_, rfl, (if_neg newer).trans (if_pos replaced)⟩
      refine device.spec_foundAnchor_second supported secondInRing firstInRing
        (safe fifth same) ?_ ?_ ?_
      · intro old newest decided
        obtain ⟨previous, _, chosen⟩ := choice old newest decided
        exact safeErased _ _ chosen ⟨fifth, same, rfl⟩
      · intro old newest loaded decided loads
        rw [device.same_erase _ same] at loads
        obtain ⟨previous, found, chosen⟩ := choice old newest decided
        rw [found]
        refine meets _ previous loaded _ chosen ?_ ⟨fifth, same, rfl⟩
        exact loads.imp id fun ⟨failed, logged⟩ => ⟨old, rfl, failed, logged⟩
      · intro newer different
        exact stuck ((if_neg newer).trans (if_neg different))

/-- `ANCHOR_Init` follows the choice, or stops in its assertion if there is none. -/
theorem RingDevice.spec_anchorInit {post : Status → UbiRam D → T → Prop}
    (supported : g.Supported) (pages : AnchorPages g (device.nand state))
    (anchored : holders g (device.nand state) ≠ [])
    (safe : ∀ after, device.Same state after → crash after)
    (safeErased : ∀ choice after, chosenAnchor (holders g (device.nand state)) = some choice →
      device.Discarded choice.outdated state after → crash after)
    (meets : ∀ choice loaded after,
      chosenAnchor (holders g (device.nand state)) = some choice →
        device.Loads state choice loaded →
      device.Discarded choice.outdated state after →
      post loaded.initStatus
        { ram with
          anchorTable := loaded, indexTable := .blank, anchorBlock := choice.block,
          anchorNextPage := choice.page + 1 } after)
    (stuck : chosenAnchor (holders g (device.nand state)) = none → halts) :
    Code.spec machine crash halts (anchorInit g) post ram state := by
  simp only [anchorInit, Code.spec_bind, Code.spec_modify]
  refine ⟨safe state (device.same_refl _), ?_⟩
  refine device.spec_anchorInitScan supported pages anchored safe safeErased ?_ stuck
  intro choice previous loaded after chosen loads discarded
  have here := safeErased choice after chosen discarded
  simp only [Code.spec_bind, Code.spec_modify, Code.spec_get]
  refine ⟨here, here, ?_⟩
  have finish := meets choice loaded after chosen loads discarded
  unfold AnchorTable.initStatus at finish
  split
  · rename_i unusable
    rw [if_pos unusable] at finish
    exact ⟨here, finish⟩
  · rename_i usable
    rw [if_neg usable] at finish
    exact ⟨here, finish⟩

end Specs

/-! ## The last anchor -/

theorem mem_holders {nand : Nand (UbiBuffer D)} {block : Nat} {found : Nat × AnchorTable} :
    (block, found) ∈ holders g nand ↔ g.InRing block ∧ anchorAt g nand block = some found := by
  simp only [holders, List.mem_filterMap, mem_ringBlocks, holderOf, Option.map_eq_some_iff,
    Prod.mk.injEq]
  constructor
  · rintro ⟨other, inRing, anchor, anchored, rfl, rfl⟩
    exact ⟨inRing, anchored⟩
  · rintro ⟨inRing, anchored⟩
    exact ⟨block, inRing, found, anchored, rfl, rfl⟩

/-- A log of tables is read as one. -/
theorem anchorAt_of_log {nand : Nand (UbiBuffer D)} {block page : Nat} {table : AnchorTable}
    (log : TableLog g nand block (page + 1) (.anchor table)) :
    anchorAt g nand block = some (page, table) := by
  have segment : ∀ i < g.pagePerPhyBlock, hasTable nand block i = true ↔ i < page + 1 := by
    intro i _
    by_cases inside : i < page + 1
    · simp only [inside, iff_true]
      exact hasTable_iff.mpr (log.tables.answer_of_lt inside)
    · have blank := log.tables.blank i (by omega)
      simp [hasTable, blank, inside]
  have first : hasTable nand block 0 = true :=
    (segment 0 g.pagePerPhyBlock_pos).mpr (Nat.succ_pos page)
  have last : lastPage g nand block = page :=
    bisect_eq g.pagePerPhyBlock_pos segment (Nat.succ_pos page) log.le (by omega)
  have content : nand block page = some (tablePage (.anchor table)) := log.last
  simp only [anchorAt, first, if_true, last, content, tablePage]

/-- A block of a ring of anchors, and the newest anchor in it. -/
structure RingAnchor (g : Geometry) (nand : Nand (UbiBuffer D)) (block page : Nat)
    (table : AnchorTable) : Prop where
  pages : AnchorPages g nand
  inRing : g.InRing block
  anchored : anchorAt g nand block = some (page, table)

/-- The block is the only one of the ring with an anchor, or it is the second one of
the scan and follows the first one. -/
def AnchorRecoverable (g : Geometry) (nand : Nand (UbiBuffer D)) (block : Nat) : Prop :=
  (∃ found, holders g nand = [(block, found)]) ∨
    ∃ first found rest, holders g nand = first :: (block, found) :: rest ∧
      found.2.previousAnchorBlock = first.1 ∧ first.2.2.previousAnchorBlock ≠ block

/-- What a mount that restores the anchor erases: the previous block, unless no other
block holds an anchor. -/
def Outdated (g : Geometry) (nand : Nand (UbiBuffer D)) (block : Nat) (table : AnchorTable)
    (outdated : Option Nat) : Prop :=
  (outdated = none ∧ ∃ found, holders g nand = [(block, found)]) ∨
    outdated = some table.previousAnchorBlock

theorem AnchorPages.previous_ne {nand : Nand (UbiBuffer D)} (pages : AnchorPages g nand)
    {block page : Nat} {table : AnchorTable} (holder : (block, page, table) ∈ holders g nand) :
    table.previousAnchorBlock ≠ block := by
  obtain ⟨inRing, anchored⟩ := mem_holders.mp holder
  obtain ⟨_, _, spare, content⟩ := anchorAt_eq_some anchored
  obtain ⟨other, same, different⟩ := pages block page _ inRing content
  simp only [tablePage, Page.mk.injEq, UbiBuffer.anchor.injEq] at same
  rw [same.1]
  exact different

namespace RingAnchor

variable {nand : Nand (UbiBuffer D)} {block page : Nat} {table : AnchorTable}

theorem mem (anchor : RingAnchor g nand block page table) : (block, page, table) ∈ holders g nand :=
  mem_holders.mpr ⟨anchor.inRing, anchor.anchored⟩

theorem found_eq (anchor : RingAnchor g nand block page table) {found : Nat × AnchorTable}
    (holder : (block, found) ∈ holders g nand) : found = (page, table) := by
  have anchored := (mem_holders.mp holder).2
  rw [anchor.anchored] at anchored
  exact (Option.some.inj anchored).symm

/-- If the choice is the block of the anchor, with a table that names the same previous
block, then the block can be recovered. -/
theorem recoverable (anchor : RingAnchor g nand block page table) {choice : AnchorChoice}
    (chosen : chosenAnchor (holders g nand) = some choice) (sameBlock : choice.block = block)
    (previous : choice.table.previousAnchorBlock = table.previousAnchorBlock) :
    AnchorRecoverable g nand block := by
  subst sameBlock
  rcases shape : holders g nand with _ | ⟨⟨b₁, p₁, t₁⟩, _ | ⟨⟨b₂, p₂, t₂⟩, rest⟩⟩
  · rw [shape] at chosen
    simp [chosenAnchor] at chosen
  · rw [shape] at chosen
    obtain rfl := Option.some.inj chosen
    exact .inl ⟨_, shape⟩
  · have firstIn : (b₁, p₁, t₁) ∈ holders g nand := by simp [shape]
    have secondIn : (b₂, p₂, t₂) ∈ holders g nand := by simp [shape]
    rw [shape] at chosen
    simp only [chosenAnchor] at chosen
    split at chosen
    · rename_i older
      -- the first block is kept, with the table of the second one in memory
      obtain rfl := Option.some.inj chosen
      have found := anchor.found_eq firstIn
      simp only [Prod.mk.injEq] at found previous
      rw [← found.2] at previous
      exact absurd (previous.trans older) (anchor.pages.previous_ne secondIn)
    · rename_i newer
      split at chosen
      · rename_i replaced
        obtain rfl := Option.some.inj chosen
        exact .inr ⟨_, _, rest, shape, replaced.symm, newer⟩
      · simp at chosen

theorem chosen (anchor : RingAnchor g nand block page table)
    (recoverable : AnchorRecoverable g nand block) :
    ∃ outdated, chosenAnchor (holders g nand) = some ⟨block, page, table, outdated⟩ ∧
      Outdated g nand block table outdated := by
  rcases recoverable with ⟨found, single⟩ | ⟨first, found, rest, double, replaced, newer⟩
  · have holder : (block, found) ∈ holders g nand := by simp [single]
    obtain rfl := anchor.found_eq holder
    exact ⟨none, by rw [single, chosenAnchor], .inl ⟨rfl, _, single⟩⟩
  · have holder : (block, found) ∈ holders g nand := by simp [double]
    obtain rfl := anchor.found_eq holder
    refine ⟨some first.1, ?_, .inr (congrArg some replaced.symm)⟩
    rw [double, chosenAnchor, if_neg newer, if_pos replaced.symm]

theorem outdated_ne (anchor : RingAnchor g nand block page table) {outdated : Option Nat}
    (erased : Outdated g nand block table outdated) : outdated ≠ some block := by
  rcases erased with ⟨rfl, _⟩ | rfl
  · exact fun wrong => by cases wrong
  · exact fun same => anchor.pages.previous_ne anchor.mem (Option.some.inj same)

end RingAnchor

/-! ## What a mount restores -/

namespace RingDevice

variable {T : Type} {machine : Machine (MtdOp (UbiBuffer D)) (MtdAns (UbiBuffer D)) T}
  (device : RingDevice g machine) {state : T} {block page : Nat} {table : AnchorTable}

/-- The table, up to the entry of the previous block if that could not be erased. -/
def SameButLogged (state : T) (loaded table : AnchorTable) : Prop :=
  loaded = table ∨ (device.erase state table.previousAnchorBlock).1 ≠ .success ∧
    loaded = table.logged g table.previousAnchorBlock

/-- `ANCHOR_Init` selects the page, and loads its table. -/
def Restores (lost : UbiRam D) (state : T) (block page : Nat) (table : AnchorTable) : Prop :=
  ∃ ram after, ((anchorInit g).run lost).exec machine state = .ok ((table.initStatus, ram), after) ∧
    ram.anchorBlock = block ∧ ram.anchorNextPage = page + 1 ∧
    device.SameButLogged state ram.anchorTable table

theorem Loads.previous {choice : AnchorChoice} {loaded : AnchorTable}
    (loads : device.Loads state choice loaded) :
    loaded.previousAnchorBlock = choice.table.previousAnchorBlock := by
  rcases loads with rfl | ⟨old, _, _, rfl⟩ <;> rfl

theorem Loads.initStatus {choice : AnchorChoice} {loaded : AnchorTable}
    (loads : device.Loads state choice loaded) : loaded.initStatus = choice.table.initStatus := by
  rcases loads with rfl | ⟨old, _, _, rfl⟩ <;> rfl

/-- A mount that restores the anchor loads it, up to the entry of the previous block. -/
theorem Loads.sameButLogged {outdated : Option Nat} {loaded : AnchorTable}
    (loads : device.Loads state ⟨block, page, table, outdated⟩ loaded)
    (erased : Outdated g (device.nand state) block table outdated) :
    device.SameButLogged state loaded table := by
  rcases loads with same | ⟨old, isOld, failed, logged⟩
  · exact .inl same
  · rcases erased with ⟨none, _⟩ | previous
    · cases none.symm.trans isOld
    · obtain rfl := Option.some.inj (previous.symm.trans isOld)
      exact .inr ⟨failed, logged⟩

theorem SameButLogged.previous {loaded : AnchorTable}
    (same : device.SameButLogged state loaded table) :
    loaded.previousAnchorBlock = table.previousAnchorBlock := by
  rcases same with rfl | ⟨_, rfl⟩ <;> rfl

/-- If the anchor can be recovered, `ANCHOR_Init` restores it, and erases at most another
block. -/
theorem spec_anchorInit_recoverable {crash : T → Prop} {halts : Prop} {lost : UbiRam D}
    {post : Status → UbiRam D → T → Prop} (supported : g.Supported)
    (anchor : RingAnchor g (device.nand state) block page table)
    (recoverable : AnchorRecoverable g (device.nand state) block)
    (safe : ∀ after, device.Same state after → crash after)
    (safeErased : ∀ outdated after, Outdated g (device.nand state) block table outdated →
      device.Discarded outdated state after → crash after)
    (meets : ∀ outdated loaded after, device.Loads state ⟨block, page, table, outdated⟩ loaded →
      Outdated g (device.nand state) block table outdated →
      device.Discarded outdated state after →
      post table.initStatus
        { lost with
          anchorTable := loaded, indexTable := .blank, anchorBlock := block,
          anchorNextPage := page + 1 } after) :
    Code.spec machine crash halts (anchorInit g) post lost state := by
  obtain ⟨outdated, chosen, erased⟩ := anchor.chosen recoverable
  refine device.spec_anchorInit supported anchor.pages (List.ne_nil_of_mem anchor.mem) safe ?_ ?_
    (fun wrong => by simp [chosen] at wrong)
  · intro choice after chosen' discarded
    obtain rfl := Option.some.inj (chosen.symm.trans chosen')
    exact safeErased outdated after erased discarded
  · intro choice loaded after chosen' loads discarded
    obtain rfl := Option.some.inj (chosen.symm.trans chosen')
    rw [Loads.initStatus device loads]
    exact meets outdated loaded after loads erased discarded

/-- Whatever is selected, the block can be recovered if it is the one. -/
theorem recoverable_of_exec (supported : g.Supported)
    (anchor : RingAnchor g (device.nand state) block page table) {lost ram : UbiRam D}
    {status : Status} {after : T}
    (run : ((anchorInit g).run lost).exec machine state = .ok ((status, ram), after))
    (inBlock : ram.anchorBlock = block)
    (previous : ram.anchorTable.previousAnchorBlock = table.previousAnchorBlock) :
    AnchorRecoverable g (device.nand state) block := by
  have decided : Code.spec machine (fun _ => True) True (anchorInit g)
      (fun _ ram _ => ∃ choice, chosenAnchor (holders g (device.nand state)) = some choice ∧
        device.Loads state choice ram.anchorTable ∧ ram.anchorBlock = choice.block) lost state :=
    device.spec_anchorInit supported anchor.pages (List.ne_nil_of_mem anchor.mem)
      (fun _ _ => trivial) (fun _ _ _ _ => trivial)
      (fun choice _ _ chosen loads _ => ⟨choice, chosen, loads, rfl⟩) fun _ => trivial
  obtain ⟨choice, chosen, loads, sameBlock⟩ := Code.post_of_spec decided run
  refine anchor.recoverable chosen (sameBlock.symm.trans inBlock) ?_
  rw [← Loads.previous device loads, previous]

/-- `ANCHOR_Init` restores the anchor of a block exactly if the block can be recovered. -/
theorem restores_iff (supported : g.Supported)
    (anchor : RingAnchor g (device.nand state) block page table) (lost : UbiRam D) :
    device.Restores lost state block page table ↔
      AnchorRecoverable g (device.nand state) block := by
  constructor
  · rintro ⟨ram, after, run, inBlock, _, same⟩
    exact device.recoverable_of_exec supported anchor run inBlock
      (SameButLogged.previous device same)
  · intro recoverable
    have restored : Code.spec machine (fun _ => True) False (anchorInit g)
        (fun status ram _ => status = table.initStatus ∧ ram.anchorBlock = block ∧
          ram.anchorNextPage = page + 1 ∧ device.SameButLogged state ram.anchorTable table)
        lost state :=
      device.spec_anchorInit_recoverable supported anchor recoverable (fun _ _ => trivial)
        (fun _ _ _ _ => trivial) fun outdated loaded _ loads erased _ =>
          ⟨rfl, rfl, rfl, Loads.sameButLogged device loads erased⟩
    obtain ⟨status, ram, after, run, rfl, inBlock, nextPage, same⟩ := Code.exec_of_spec restored
    exact ⟨ram, after, run, inBlock, nextPage, same⟩

end RingDevice

/-! ## The last program -/

/-- The last program has written `table` to `page` of `block`, and it is the newest
anchor of its block. -/
structure AnchorLast (g : Geometry) (state : Faulty (UbiBuffer D)) (block page : Nat)
    (table : AnchorTable) : Prop where
  pages : AnchorPages g state.nand
  inRing : g.InRing block
  log : TableLog g state.nand block (page + 1) (.anchor table)
  last : state.lastProgram = some (block, page, .anchor table)

/-- `ANCHOR_Init` returns with the block and the page of the last program, and with a
table in memory that is the `same` as the last one. -/
def InitRestores (g : Geometry) (same : AnchorTable → AnchorTable → Prop) (lost : UbiRam D)
    (state : Faulty (UbiBuffer D)) : Prop :=
  ∃ status ram after block page table,
    ((anchorInit g).run lost).exec (faultyMachine g) state = .ok ((status, ram), after) ∧
      state.lastProgram = some (block, page, .anchor table) ∧ ram.anchorBlock = block ∧
      ram.anchorNextPage = page + 1 ∧ same ram.anchorTable table

theorem AnchorLast.ring {state : Faulty (UbiBuffer D)} {block page : Nat} {table : AnchorTable}
    (last : AnchorLast g state block page table) : RingAnchor g state.nand block page table :=
  ⟨last.pages, last.inRing, anchorAt_of_log last.log⟩

theorem AnchorLast.mem {state : Faulty (UbiBuffer D)} {block page : Nat} {table : AnchorTable}
    (last : AnchorLast g state block page table) :
    (block, page, table) ∈ holders g state.nand :=
  last.ring.mem

theorem AnchorLast.found_eq {state : Faulty (UbiBuffer D)} {block page : Nat}
    {table : AnchorTable} (last : AnchorLast g state block page table)
    {found : Nat × AnchorTable} (holder : (block, found) ∈ holders g state.nand) :
    found = (page, table) :=
  last.ring.found_eq holder

/-- The erase of another block leaves the last anchor in place. -/
theorem AnchorLast.discarded {state after : Faulty (UbiBuffer D)} {block page : Nat}
    {table : AnchorTable} (last : AnchorLast g state block page table) {outdated : Option Nat}
    (discarded : Discarded g outdated state after) (different : outdated ≠ some block) :
    AnchorLast g after block page table where
  pages := last.pages.of_le fun _ _ _ programmed => discarded.nand_le programmed
  inRing := last.inRing
  log := last.log.frame (discarded.nand_other different)
  last := discarded.lastProgram.trans last.last

theorem AnchorLast.erase {state : Faulty (UbiBuffer D)} {block page old : Nat}
    {table : AnchorTable} (last : AnchorLast g state block page table) (different : old ≠ block) :
    AnchorLast g (state.erase g old).2 block page table := by
  have gone : Discarded g (some old) state (state.erase g old).2 := ⟨state, .refl state, rfl⟩
  exact last.discarded gone fun same => different (Option.some.inj same)

/-- If the last anchor can be recovered, `ANCHOR_Init` restores it, and erases at most
another block. -/
theorem AnchorLast.spec_anchorInit {state : Faulty (UbiBuffer D)} {block page : Nat}
    {table : AnchorTable} {crash : Faulty (UbiBuffer D) → Prop} {halts : Prop} {lost : UbiRam D}
    {post : Status → UbiRam D → Faulty (UbiBuffer D) → Prop}
    (last : AnchorLast g state block page table) (supported : g.Supported)
    (recoverable : AnchorRecoverable g state.nand block)
    (safe : ∀ outdated after, AnchorLast g after block page table →
      Discarded g outdated state after → crash after)
    (meets : ∀ outdated loaded after,
      (faultyRing g D).Loads state ⟨block, page, table, outdated⟩ loaded →
      Outdated g state.nand block table outdated → AnchorLast g after block page table →
      Discarded g outdated state after →
      post table.initStatus
        { lost with
          anchorTable := loaded, indexTable := .blank, anchorBlock := block,
          anchorNextPage := page + 1 } after) :
    Code.spec (faultyMachine g) crash halts (anchorInit g) post lost state := by
  have kept : ∀ outdated after, Outdated g state.nand block table outdated →
      Discarded g outdated state after → AnchorLast g after block page table :=
    fun outdated after erased discarded =>
      last.discarded discarded (last.ring.outdated_ne erased)
  refine (faultyRing g D).spec_anchorInit_recoverable supported last.ring recoverable ?_ ?_ ?_
  · intro after same
    have nothing : Discarded g none state after := same
    exact safe none after (last.discarded nothing fun wrong => by cases wrong) nothing
  · intro outdated after erased discarded
    have discarded : Discarded g outdated state after := by cases outdated <;> exact discarded
    exact safe outdated after (kept outdated after erased discarded) discarded
  · intro outdated loaded after loads erased discarded
    have discarded : Discarded g outdated state after := by cases outdated <;> exact discarded
    exact meets outdated loaded after loads erased (kept outdated after erased discarded) discarded

/-- On a ring whose last anchor is in place, `ANCHOR_Init` restores it exactly if it
can be recovered. -/
theorem initRestores_iff {state : Faulty (UbiBuffer D)} {block page : Nat}
    {table : AnchorTable} {same : AnchorTable → AnchorTable → Prop} (supported : g.Supported)
    (last : AnchorLast g state block page table) (lost : UbiRam D)
    (reads : ∀ loaded, (faultyRing g D).SameButLogged state loaded table → same loaded table)
    (links : ∀ loaded table', same loaded table' →
      loaded.previousAnchorBlock = table'.previousAnchorBlock) :
    InitRestores g same lost state ↔ AnchorRecoverable g state.nand block := by
  constructor
  · rintro ⟨status, ram, after, block', page', table', run, programmed, inBlock, nextPage,
      loaded⟩
    obtain ⟨rfl, rfl, rfl⟩ : block' = block ∧ page' = page ∧ table' = table := by
      simpa [last.last, eq_comm] using programmed
    exact (faultyRing g D).recoverable_of_exec supported last.ring run inBlock (links _ _ loaded)
  · intro recoverable
    obtain ⟨ram, after, run, inBlock, nextPage, loaded⟩ :=
      ((faultyRing g D).restores_iff supported last.ring lost).mpr recoverable
    exact ⟨_, ram, after, block, page, table, run, last.last, inBlock, nextPage,
      reads _ loaded⟩

end OpenNfm
