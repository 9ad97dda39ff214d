import Mathlib.Data.List.Nodup
import OpenNfm.Ubi.AnchorBadBlocks

/-!
# The anchor and power loss

No program and no erase fails, but the power may be lost between any two operations of
an update or of a mount.  At most two blocks of the ring hold an anchor then, and the
newer one names the older one.  Which of them the scan meets first depends on where in
the ring the anchor moves.
-/

namespace OpenNfm

open OpenNfm.Program
open Faulty

variable {g : Geometry} {D : Type}

/-! ## A device without failures -/

/-- No operation fails, and none has failed. -/
structure Faultless {B : Type} (state : Faulty B) : Prop where
  outcomes : state.outcomes = []
  dies : ∀ die, state.failedDie die = false
  whole : ∀ block page, state.torn block page = false

namespace Faultless

variable {B : Type} {state : Faulty B}

theorem sameFlash {after : Faulty B} (faultless : Faultless state)
    (same : SameFlash state after) : Faultless after :=
  ⟨same.outcomes.trans faultless.outcomes, fun die => same.dies die (faultless.dies die),
    fun block page => same.torn ▸ faultless.whole block page⟩

theorem program (faultless : Faultless state) (block page : Nat) (content : Page B) :
    (state.program g block page content).nand = state.nand.program block page content ∧
      (state.program g block page content).lastProgram = some (block, page, content.main) ∧
      Faultless (state.program g block page content) := by
  have done : state.outcomes.headD .done = .done := by rw [faultless.outcomes]; rfl
  simp only [Faulty.program, done]
  refine ⟨trivial, trivial, by simp [faultless.outcomes], fun die => ?_, faultless.whole⟩
  simp only [Function.update_apply, faultless.dies, ite_self]

theorem erase (faultless : Faultless state) (block : Nat) :
    (state.erase g block).1 = .success ∧
      (state.erase g block).2.nand = state.nand.erase block ∧
      Faultless (state.erase g block).2 := by
  have done : state.outcomes.headD .done = .done := by rw [faultless.outcomes]; rfl
  simp only [Faulty.erase, done, true_and]
  refine ⟨by simp [faultless.outcomes], fun die => ?_, fun other page => ?_⟩
  · simp only [Function.update_apply, faultless.dies, ite_self]
  · simp only [Function.update_apply]
    split
    · rfl
    · exact faultless.whole other page

theorem discarded {outdated : Option Nat} {after : Faulty B} (faultless : Faultless state)
    (discarded : Discarded g outdated state after) : Faultless after := by
  cases outdated with
  | none => exact faultless.sameFlash discarded
  | some old =>
      obtain ⟨middle, same, rfl⟩ := discarded
      exact ((faultless.sameFlash same).erase old).2.2

end Faultless

section Specs

variable {crash : Faulty (UbiBuffer D) → Prop} {halts : Prop} {ram : UbiRam D}
  {state : Faulty (UbiBuffer D)} {block : Nat}

theorem spec_tableWrite {page : Nat} {table : UbiBuffer D}
    {post : Status → UbiRam D → Faulty (UbiBuffer D) → Prop} (faultless : Faultless state)
    (isBlock : block < g.cfgLogBlockCount) (isPage : page < g.pagePerPhyBlock)
    (blank : state.nand block page = none) :
    Code.spec (faultyMachine g) crash halts (tableWrite block page table) post ram state ↔
      crash state ∧ crash (state.program g block page (tablePage table)) ∧
        post .success ram (state.program g block page (tablePage table)) := by
  have ready := (faultless.program (g := g) block page (tablePage table)).2.2.dies
  unfold tableWrite
  rw [Code.spec_bind, spec_mtdProgram isBlock isPage blank (faultless.whole block page), if_pos rfl,
    spec_mtdWaitReady isBlock, Option.getD_some]
  unfold tablePage at ready ⊢
  simp only [ready, Bool.false_eq_true, if_false, and_self_left]

theorem spec_anchorFindNextBlock {current : Nat}
    {post : Status × Nat → UbiRam D → Faulty (UbiBuffer D) → Prop} (faultless : Faultless state)
    (none : ram.anchorTable.NoBad) (supported : g.Supported) (inRing : g.InRing current)
    (safe : crash state) (safeErased : crash (state.erase g (g.ringNext current)).2)
    (meets : post (.success, g.ringNext current) ram (state.erase g (g.ringNext current)).2) :
    Code.spec (faultyMachine g) crash halts (anchorFindNextBlock g current) post ram state := by
  have inRange := inRing.next.lt_blocks supported
  have next : (if current + 1 > g.anchorLastBlock then Geometry.anchorFirstBlock
      else current + 1) = g.ringNext current := rfl
  have success := (faultless.erase (g := g) (g.ringNext current)).1
  simp only [anchorFindNextBlock, anchorFindLoop, Code.spec_bind, next, anchorIsBadBlock,
    Code.spec_get, Code.spec_pure, isBadBlock_eq_false none supported inRange, Bool.false_eq_true,
    if_false, spec_mtdErase inRange, success, ne_eq, not_true_eq_false, false_and, inRing.next_ne,
    not_false_eq_true, if_true]
  exact ⟨safe, safe, safe, safeErased, safeErased, safeErased, safeErased, meets⟩

end Specs

/-! ## Updates -/

/-- No block of the ring but `block` and `older` holds anything in its first page. -/
def OthersBlank (g : Geometry) (nand : Nand (UbiBuffer D)) (block older : Nat) : Prop :=
  ∀ other, g.InRing other → other ≠ block → other ≠ older → nand other 0 = none

/-- Where the next anchor goes, while the ring holds no other anchors than those of its
block and of `older`. -/
structure AnchorPlace (g : Geometry) (older : Nat) (ram : UbiRam D)
    (state : Faulty (UbiBuffer D)) : Prop where
  device : Faultless state
  noBad : ram.anchorTable.NoBad
  link : ram.anchorTable.previousAnchorBlock ≠ ram.anchorBlock
  pages : AnchorPages g state.nand
  inRing : g.InRing ram.anchorBlock
  le : ram.anchorNextPage ≤ g.pagePerPhyBlock
  tables : Tables state.nand ram.anchorBlock ram.anchorNextPage
  others : OthersBlank g state.nand ram.anchorBlock older

/-- What a power failure may leave: the last anchor, and its previous block. -/
def AnchorLeft (g : Geometry) (state : Faulty (UbiBuffer D)) : Prop :=
  ∃ block page table, Faultless state ∧ table.NoBad ∧ AnchorLast g state block page table ∧
    OthersBlank g state.nand block table.previousAnchorBlock

/-- Between two updates the last anchor is right before the place for the next one. -/
structure AnchorPowered (g : Geometry) (ram : UbiRam D) (state : Faulty (UbiBuffer D)) :
    Prop where
  place : AnchorPlace g ram.anchorBlock ram state
  last : ∃ page table, ram.anchorNextPage = page + 1 ∧ table.NoBad ∧
    AnchorLast g state ram.anchorBlock page table

theorem OthersBlank.widen {nand : Nand (UbiBuffer D)} {block : Nat}
    (others : OthersBlank g nand block block) (older : Nat) : OthersBlank g nand block older :=
  fun other inRing different _ => others other inRing different different

theorem OthersBlank.program {nand : Nand (UbiBuffer D)} {block older : Nat}
    (others : OthersBlank g nand block older) (page : Nat) (content : Page (UbiBuffer D)) :
    OthersBlank g (nand.program block page content) block older := by
  intro other inRing different different'
  rw [nand.program_other _ _ _ different]
  exact others other inRing different different'

theorem OthersBlank.erase {nand : Nand (UbiBuffer D)} {block older : Nat}
    (others : OthersBlank g nand block older) (erased : Nat) :
    OthersBlank g (nand.erase erased) block older := by
  intro other inRing different different'
  by_cases same : other = erased
  · rw [same, Nand.erase_same]
  · rw [nand.erase_other _ same]
    exact others other inRing different different'

theorem OthersBlank.eraseOlder {nand : Nand (UbiBuffer D)} {block older : Nat}
    (others : OthersBlank g nand block older) :
    OthersBlank g (nand.erase older) block block := by
  intro other inRing different _
  by_cases same : other = older
  · rw [same, Nand.erase_same]
  · rw [nand.erase_other _ same]
    exact others other inRing different same

theorem AnchorPowered.left {ram : UbiRam D} {state : Faulty (UbiBuffer D)}
    (powered : AnchorPowered g ram state) : AnchorLeft g state := by
  obtain ⟨page, table, _, noBad, last⟩ := powered.last
  exact ⟨ram.anchorBlock, page, table, powered.place.device, noBad, last,
    powered.place.others.widen _⟩

/-- Writing the anchor at its place. -/
theorem AnchorPlace.written {older : Nat} {ram : UbiRam D} {state : Faulty (UbiBuffer D)}
    (place : AnchorPlace g older ram state) (supported : g.Supported)
    (room : ram.anchorNextPage < g.pagePerPhyBlock) :
    AnchorPlace g older { ram with anchorNextPage := ram.anchorNextPage + 1 }
        (state.program g ram.anchorBlock ram.anchorNextPage (tablePage (.anchor ram.anchorTable))) ∧
      AnchorLast g
        (state.program g ram.anchorBlock ram.anchorNextPage (tablePage (.anchor ram.anchorTable)))
        ram.anchorBlock ram.anchorNextPage ram.anchorTable := by
  obtain ⟨nand, last, device⟩ := place.device.program (g := g) ram.anchorBlock
    ram.anchorNextPage (tablePage (.anchor ram.anchorTable))
  have tables := place.tables.program (.anchor ram.anchorTable)
  have pages := place.pages.program place.link ram.anchorNextPage
  rw [← nand] at tables pages
  refine ⟨⟨device, place.noBad, place.link, pages, place.inRing, room, tables, ?_⟩,
    pages, place.inRing, ?_, last⟩
  · rw [nand]
    exact place.others.program _ _
  · exact ⟨place.inRing.lt_blocks supported, Nat.succ_pos _, room, tables,
      nand ▸ state.nand.program_same _ _ _⟩

/-- Erasing the older block. -/
theorem AnchorPlace.eraseOlder {older : Nat} {ram : UbiRam D} {state : Faulty (UbiBuffer D)}
    (place : AnchorPlace g older ram state) (different : older ≠ ram.anchorBlock) :
    AnchorPlace g ram.anchorBlock ram (state.erase g older).2 := by
  obtain ⟨_, nand, device⟩ := place.device.erase (g := g) older
  refine ⟨device, place.noBad, place.link, place.pages.erase older, place.inRing, place.le, ?_, ?_⟩
  · refine ⟨fun page inside => ?_, fun page outside => ?_⟩
    · rw [state.erase_nand_other different.symm]
      exact place.tables.written page inside
    · rw [state.erase_nand_other different.symm]
      exact place.tables.blank page outside
  · rw [nand]
    exact place.others.eraseOlder

/-- An anchor that is written while no other block holds one. -/
theorem AnchorPlace.powered {older : Nat} {ram : UbiRam D} {state : Faulty (UbiBuffer D)}
    {page : Nat} {table : AnchorTable} (place : AnchorPlace g older ram state)
    (only : older = ram.anchorBlock) (next : ram.anchorNextPage = page + 1) (noBad : table.NoBad)
    (last : AnchorLast g state ram.anchorBlock page table) : AnchorPowered g ram state :=
  ⟨only ▸ place, page, table, next, noBad, last⟩

/-- The memory in which the anchor has moved to the next block. -/
def movedAnchor (g : Geometry) (ram : UbiRam D) : UbiRam D :=
  { ram with
    anchorTable := { ram.anchorTable with previousAnchorBlock := ram.anchorBlock }
    anchorBlock := g.ringNext ram.anchorBlock
    anchorNextPage := 0 }

section Specs

variable {crash : Faulty (UbiBuffer D) → Prop} {halts : Prop} {ram : UbiRam D}
  {state : Faulty (UbiBuffer D)} {fuel : Nat}

theorem spec_anchorUpdate_append {post : Status → UbiRam D → Faulty (UbiBuffer D) → Prop}
    (place : AnchorPlace g ram.anchorBlock ram state) (supported : g.Supported) (pos : 0 < fuel)
    (room : ram.anchorNextPage < g.pagePerPhyBlock) (here : crash state)
    (safe : ∀ after, AnchorLeft g after → crash after)
    (meets : ∀ ram' after, AnchorPowered g ram' after → post .success ram' after) :
    Code.spec (faultyMachine g) crash halts (anchorUpdate g fuel) post ram state := by
  obtain ⟨rounds, rfl⟩ := Nat.exists_eq_succ_of_ne_zero pos.ne'
  obtain ⟨place', last⟩ := place.written supported room
  have powered := place'.powered rfl rfl place.noBad last
  have after := safe _ powered.left
  simp only [anchorUpdate, anchorUpdateLoop, Code.spec_bind, Code.spec_get, room.ne, if_false,
    Code.spec_pure, ne_eq, not_true_eq_false]
  rw [spec_tableWrite place.device (place.inRing.lt_blocks supported) room
    (place.tables.blank _ le_rfl)]
  simp only [if_true, Bool.false_eq_true, if_false, Code.spec_modify, Code.spec_bind,
    Code.spec_pure]
  exact ⟨here, here, here, here, after, after, after, meets _ _ powered⟩

/-- The block that is full is left for the next one of the ring. -/
theorem spec_anchorUpdate_move {post : Status → UbiRam D → Faulty (UbiBuffer D) → Prop}
    (powered : AnchorPowered g ram state) (supported : g.Supported) (pos : 0 < fuel)
    (full : ram.anchorNextPage = g.pagePerPhyBlock)
    (safe : ∀ after, AnchorLeft g after → crash after)
    (meets : ∀ ram' after, AnchorPowered g ram' after → post .success ram' after) :
    Code.spec (faultyMachine g) crash halts (anchorUpdate g fuel) post ram state := by
  obtain ⟨rounds, rfl⟩ := Nat.exists_eq_succ_of_ne_zero pos.ne'
  have place := powered.place
  obtain ⟨page, table, _, noBad, last⟩ := powered.last
  have moved := place.inRing.next_ne
  have inRange := place.inRing.lt_blocks supported
  have nextRange := place.inRing.next.lt_blocks supported
  have here := safe _ powered.left
  -- the next block is erased
  obtain ⟨_, nand₁, device₁⟩ := place.device.erase (g := g) (g.ringNext ram.anchorBlock)
  have last₁ := last.erase moved
  have others₁ : OthersBlank g (state.erase g (g.ringNext ram.anchorBlock)).2.nand
      ram.anchorBlock ram.anchorBlock := nand₁ ▸ place.others.erase _
  have safe₁ := safe _ ⟨_, page, table, device₁, noBad, last₁, others₁.widen _⟩
  -- the anchor is written to it
  have place₁ : AnchorPlace g ram.anchorBlock (movedAnchor g ram)
      (state.erase g (g.ringNext ram.anchorBlock)).2 :=
    { device := device₁
      noBad := place.noBad
      link := moved.symm
      pages := last₁.pages
      inRing := place.inRing.next
      le := Nat.zero_le _
      tables := Tables.ofBlank (nand₁ ▸ state.nand.blank_erase _)
      others := fun other inRing _ different => others₁ other inRing different different }
  obtain ⟨place₂, last₂⟩ := place₁.written supported g.pagePerPhyBlock_pos
  have safe₂ := safe _ ⟨_, 0, (movedAnchor g ram).anchorTable, place₂.device, place.noBad, last₂,
    place₂.others⟩
  -- the block that held the anchor so far is erased
  have place₃ := place₂.eraseOlder moved.symm
  have last₃ := last₂.erase moved.symm
  have powered₃ := place₃.powered rfl rfl place₁.noBad last₃
  have safe₃ := safe _ powered₃.left
  simp only [anchorUpdate, anchorUpdateLoop, Code.spec_bind, Code.spec_get, full, if_true,
    Code.spec_modify]
  refine ⟨here, here, spec_anchorFindNextBlock place.device place.noBad supported place.inRing here
    safe₁ ?_⟩
  simp only [if_true, Code.spec_modify, Code.spec_pure, Code.spec_bind, ne_eq, not_true_eq_false,
    if_false, Code.spec_get]
  rw [spec_tableWrite device₁ nextRange g.pagePerPhyBlock_pos (place₁.tables.blank 0 le_rfl)]
  simp only [if_true, Code.spec_bind, Code.spec_modify, Code.spec_pure, spec_mtdErase inRange]
  exact ⟨safe₁, safe₁, safe₁, safe₁, safe₂, safe₂, safe₃, safe₃, safe₃, meets _ _ powered₃⟩

/-- `ANCHOR_Update` writes the anchor; a power failure in it leaves the last anchor and
at most its previous block. -/
theorem spec_anchorUpdate {post : Status → UbiRam D → Faulty (UbiBuffer D) → Prop}
    (powered : AnchorPowered g ram state) (supported : g.Supported) (pos : 0 < fuel)
    (safe : ∀ after, AnchorLeft g after → crash after)
    (meets : ∀ ram' after, AnchorPowered g ram' after → post .success ram' after) :
    Code.spec (faultyMachine g) crash halts (anchorUpdate g fuel) post ram state := by
  by_cases full : ram.anchorNextPage = g.pagePerPhyBlock
  · exact spec_anchorUpdate_move powered supported pos full safe meets
  · exact spec_anchorUpdate_append powered.place supported pos
      (lt_of_le_of_ne powered.place.le full) (safe _ powered.left) safe meets

end Specs

/-! ## Mounts -/

/-- If two blocks hold an anchor, then the one that comes first in the scan does not name
the other one as its previous block. -/
def LowerIsOlder (g : Geometry) (nand : Nand (UbiBuffer D)) : Prop :=
  ∀ lower upper rest, holders g nand = lower :: upper :: rest →
    lower.2.2.previousAnchorBlock ≠ upper.1

theorem nodup_holders (nand : Nand (UbiBuffer D)) : (holders g nand).Nodup := by
  refine List.Nodup.filterMap ?_ List.nodup_range'
  intro block block' holder found found'
  obtain ⟨_, _, rfl⟩ := Option.map_eq_some_iff.mp found
  obtain ⟨_, _, same⟩ := Option.map_eq_some_iff.mp found'
  exact (congrArg Prod.fst same).symm

/-- Where at most the last anchor's block and its previous one hold anchors, the last
anchor can be recovered exactly if the lower of the two blocks is the older one. -/
theorem AnchorLast.recoverable_iff {state : Faulty (UbiBuffer D)} {block page : Nat}
    {table : AnchorTable} (last : AnchorLast g state block page table)
    (others : OthersBlank g state.nand block table.previousAnchorBlock) :
    AnchorRecoverable g state.nand block ↔ LowerIsOlder g state.nand := by
  have only : ∀ holder ∈ holders g state.nand,
      holder.1 = block ∧ holder.2 = (page, table) ∨ holder.1 = table.previousAnchorBlock := by
    intro holder inside
    obtain ⟨inRing, anchored⟩ := mem_holders.mp inside
    by_cases same : holder.1 = block
    · exact .inl ⟨same, last.found_eq (same ▸ inside)⟩
    · refine .inr (by_contra fun different => ?_)
      have first := (anchorAt_eq_some anchored).1
      simp [hasTable, others _ inRing same different] at first
  have distinct := nodup_holders (g := g) state.nand
  have link := last.pages.previous_ne last.mem
  have member := last.mem
  unfold AnchorRecoverable LowerIsOlder
  rcases shape : holders g state.nand with _ | ⟨first, _ | ⟨second, rest⟩⟩
  · simp [shape] at member
  · rw [shape, List.mem_singleton] at member
    subst member
    simp
  · rw [shape] at only distinct
    have different : first ≠ second := fun same => by simp [same] at distinct
    simp only [List.cons.injEq]
    rcases only first (by simp) with ⟨sameBlock, found⟩ | previous
    · -- the last anchor comes first, and names the other block
      have secondPrevious : second.1 = table.previousAnchorBlock := by
        rcases only second (by simp) with ⟨sameBlock', found'⟩ | previous
        · exact absurd (Prod.ext (sameBlock.trans sameBlock'.symm) (found.trans found'.symm))
            different
        · exact previous
      constructor
      · rintro (⟨found, single⟩ | ⟨_, found, _, ⟨rfl, rfl, rfl⟩, replaced, newer⟩)
        · simp at single
        · exact absurd secondPrevious.symm link
      · intro older
        refine absurd ?_ (older first second rest ⟨rfl, rfl, rfl⟩)
        rw [found, secondPrevious]
    · rcases only second (by simp) with ⟨rfl, found⟩ | previous'
      · constructor
        · rintro (⟨found, single⟩ | ⟨_, found, _, ⟨rfl, _, rfl⟩, replaced, newer⟩)
          · simp at single
          · rintro _ _ _ ⟨rfl, rfl, rfl⟩
            exact newer
        · intro older
          refine .inr ⟨first, second.2, rest, ⟨rfl, rfl, rfl⟩, ?_, ?_⟩
          · rw [found, previous]
          · exact older first second rest ⟨rfl, rfl, rfl⟩
      · -- two different holders cannot be the same block
        refine absurd (Prod.ext (previous.trans previous'.symm) ?_) different
        have firstIn :=
          (mem_holders.mp (shape ▸ List.mem_cons_self : first ∈ holders g state.nand)).2
        have secondIn := (mem_holders.mp (shape ▸ (by simp) : second ∈ holders g state.nand)).2
        rw [previous] at firstIn
        rw [previous', firstIn] at secondIn
        exact Option.some.inj secondIn

theorem OthersBlank.of_le {nand nand' : Nand (UbiBuffer D)} {block older : Nat}
    (others : OthersBlank g nand block older)
    (le : ∀ block page content, nand' block page = some content →
      nand block page = some content) : OthersBlank g nand' block older := by
  intro other inRing different different'
  cases content : nand' other 0 with
  | none => rfl
  | some page =>
      have programmed := le _ _ _ content
      rw [others other inRing different different'] at programmed
      simp at programmed

/-- After a mount that restores the anchor its block is the only one. -/
theorem AnchorLast.onlyBlock {state after : Faulty (UbiBuffer D)} {block page : Nat}
    {table : AnchorTable} {outdated : Option Nat}
    (last : AnchorLast g state block page table) (device : Faultless state)
    (others : OthersBlank g state.nand block table.previousAnchorBlock)
    (erased : Outdated g state.nand block table outdated)
    (discarded : Discarded g outdated state after) : OthersBlank g after.nand block block := by
  have left := others.of_le fun _ _ _ programmed => discarded.nand_le programmed
  intro other inRing different _
  by_cases previous : other = table.previousAnchorBlock
  · rcases erased with ⟨rfl, found, single⟩ | rfl
    · -- the previous block holds no anchor
      cases content : after.nand other 0 with
      | none => rfl
      | some page =>
          have programmed := discarded.nand_le content
          cases anchored : anchorAt g state.nand other with
          | none =>
              have unreadable := anchorAt_eq_none last.pages inRing anchored
              obtain ⟨held, rfl, _⟩ := last.pages other 0 page inRing programmed
              simp [hasTable, programmed, tablePage, allOnes] at unreadable
          | some found' =>
              have holder := mem_holders.mpr ⟨inRing, anchored⟩
              rw [single, List.mem_singleton] at holder
              exact absurd (congrArg Prod.fst holder) different
    · obtain ⟨middle, same, rfl⟩ := discarded
      rw [((device.sameFlash same).erase table.previousAnchorBlock).2.1, previous,
        Nand.erase_same]
  · exact left other inRing different previous

theorem spec_mount {crash : Faulty (UbiBuffer D) → Prop} {halts : Prop} {lost : UbiRam D}
    {state : Faulty (UbiBuffer D)} {post : Status → UbiRam D → Faulty (UbiBuffer D) → Prop}
    (left : AnchorLeft g state) (older : LowerIsOlder g state.nand) (supported : g.Supported)
    (safe : ∀ after, AnchorLeft g after → crash after)
    (meets : ∀ status ram after, AnchorPowered g ram after → post status ram after) :
    Code.spec (faultyMachine g) crash halts (anchorInit g) post lost state := by
  obtain ⟨block, page, table, device, noBad, last, others⟩ := left
  refine last.spec_anchorInit supported ((last.recoverable_iff others).mpr older) ?_ ?_
  · intro outdated after kept discarded
    exact safe after ⟨block, page, table, device.discarded discarded, noBad, kept,
      others.of_le fun _ _ _ programmed => discarded.nand_le programmed⟩
  · intro outdated loaded after loads erased kept discarded
    obtain rfl : loaded = table := by
      rcases loads with same | ⟨old, _, failed, _⟩
      · exact same
      · exact absurd (device.erase old).1 failed
    have place : AnchorPlace g block
        { lost with
          anchorTable := loaded, indexTable := .blank, anchorBlock := block,
          anchorNextPage := page + 1 } after :=
      { device := device.discarded discarded
        noBad := noBad
        link := kept.pages.previous_ne kept.mem
        pages := kept.pages
        inRing := kept.inRing
        le := kept.log.le
        tables := kept.log.tables
        others := last.onlyBlock device others erased discarded }
    exact meets _ _ after (place.powered rfl rfl noBad kept)

/-! ## Formats -/

theorem onReturn_formatErase {blocks : List Nat} {ram : UbiRam D} {state : Faulty (UbiBuffer D)}
    {post : Unit → UbiRam D → Faulty (UbiBuffer D) → Prop} (device : Faultless state)
    (noBad : ram.anchorTable.NoBad) (supported : g.Supported)
    (inRing : ∀ block ∈ blocks, g.InRing block)
    (meets : ∀ after, Faultless after → (∀ block ∈ blocks, after.nand.Blank block) →
      (∀ block, state.nand.Blank block → after.nand.Blank block) → post () ram after) :
    OnReturn g (anchorFormatErase g blocks) post ram state := by
  induction blocks generalizing state with
  | nil => exact ⟨trivial, meets state device nofun fun _ => id⟩
  | cons block rest ih =>
      have inRange := (inRing block List.mem_cons_self).lt_blocks supported
      obtain ⟨success, nand, device'⟩ := device.erase (g := g) block
      unfold OnReturn at ih ⊢
      simp only [anchorFormatErase, anchorIsBadBlock, Code.spec_bind, Code.spec_get,
        Code.spec_pure, isBadBlock_eq_false noBad supported inRange, if_true]
      refine ⟨trivial, trivial, onReturn_mtdErase ?_⟩
      simp only [success, ne_eq, not_true_eq_false, if_false]
      refine ih device' (fun other inside => inRing other (List.mem_cons_of_mem _ inside))
        fun after device'' blank keeps => ?_
      have erased : (state.erase g block).2.nand.Blank block := nand ▸ state.nand.blank_erase block
      refine meets after device'' (fun other inside => ?_) (fun other blank' => keeps other ?_)
      · rcases List.mem_cons.mp inside with rfl | inside
        · exact keeps _ erased
        · exact blank other inside
      · intro page
        rw [nand]
        by_cases same : other = block
        · rw [same, Nand.erase_same]
        · rw [state.nand.erase_other _ same]
          exact blank' page

theorem onReturn_format {fuel total : Nat} {ram : UbiRam D} {state : Faulty (UbiBuffer D)}
    {post : Status → UbiRam D → Faulty (UbiBuffer D) → Prop} (device : Faultless state)
    (noBad : ram.anchorTable.NoBad) (supported : g.Supported) (pos : 0 < fuel)
    (meets : ∀ ret ram' after, AnchorPowered g ram' after → post ret ram' after) :
    OnReturn g (anchorFormat g fuel total) post ram state := by
  unfold OnReturn
  simp only [anchorFormat, Code.spec_bind, Code.spec_modify]
  refine ⟨trivial, onReturn_formatErase device noBad supported (fun block => mem_ringBlocks.mp) ?_⟩
  intro after device' blank _
  have ringBlank : ∀ block, g.InRing block → after.nand.Blank block :=
    fun block inRing => blank block (mem_ringBlocks.mpr inRing)
  refine spec_anchorUpdate_append ?_ supported pos g.pagePerPhyBlock_pos trivial
    (fun _ _ => trivial) fun ram' after' => meets .success ram' after'
  exact
    { device := device'
      noBad := noBad
      link := (by decide : invalidBlock ≠ Geometry.anchorFirstBlock)
      pages := fun block page content inRing programmed => by
        rw [ringBlank block inRing page] at programmed
        simp at programmed
      inRing := inRing_first g
      le := Nat.zero_le _
      tables := Tables.ofBlank (ringBlank _ (inRing_first g))
      others := fun other inRing _ _ => ringBlank other inRing 0 }

/-! ## Runs -/

/-- A format and any number of updates and mounts, each of which may be cut by a power
failure between any two operations of the device.  With the power the memory is lost, so
that a mount may have any memory before it.  Between updates the callers change the
table, but neither its link to the previous block nor its bad blocks.  A mount is taken
only if the lower of two blocks with an anchor is the older one. -/
inductive PowerRun (g : Geometry) (fuel : Nat) :
    Option (UbiRam D) → Faulty (UbiBuffer D) → Prop
  | format {total : Nat} {ram ram' : UbiRam D} {state after : Faulty (UbiBuffer D)}
      {ret : Status} (device : Faultless state) (noBad : ram.anchorTable.NoBad)
      (run : ((anchorFormat g fuel total).run ram).exec (faultyMachine g) state =
        .ok ((ret, ram'), after)) : PowerRun g fuel (some ram') after
  | edit {ram ram' : UbiRam D} {state : Faulty (UbiBuffer D)}
      (earlier : PowerRun g fuel (some ram) state) (same : SamePlace ram ram')
      (noBad : ram'.anchorTable.badBlockTable = ram.anchorTable.badBlockTable) :
      PowerRun g fuel (some ram') state
  | update {ram ram' : UbiRam D} {state after : Faulty (UbiBuffer D)} {ret : Status}
      (earlier : PowerRun g fuel (some ram) state)
      (run : ((anchorUpdate g fuel).run ram).exec (faultyMachine g) state =
        .ok ((ret, ram'), after)) : PowerRun g fuel (some ram') after
  | updateCut {ram : UbiRam D} {state : Faulty (UbiBuffer D)}
      (earlier : PowerRun g fuel (some ram) state) (steps : Nat) :
      PowerRun g fuel none (((anchorUpdate g fuel).run ram).cut (faultyMachine g) steps state)
  | mount {memory : Option (UbiRam D)} {lost ram' : UbiRam D}
      {state after : Faulty (UbiBuffer D)} {ret : Status}
      (earlier : PowerRun g fuel memory state) (older : LowerIsOlder g state.nand)
      (run : ((anchorInit g).run lost).exec (faultyMachine g) state =
        .ok ((ret, ram'), after)) : PowerRun g fuel (some ram') after
  | mountCut {memory : Option (UbiRam D)} {state : Faulty (UbiBuffer D)}
      (earlier : PowerRun g fuel memory state) (older : LowerIsOlder g state.nand)
      (lost : UbiRam D) (steps : Nat) :
      PowerRun g fuel none (((anchorInit g).run lost).cut (faultyMachine g) steps state)

/-- What holds with the memory, or of the flash alone after a power failure. -/
def AnchorKept (g : Geometry) (memory : Option (UbiRam D)) (state : Faulty (UbiBuffer D)) :
    Prop :=
  match memory with
  | some ram => AnchorPowered g ram state
  | none => AnchorLeft g state

theorem AnchorKept.left {memory : Option (UbiRam D)} {state : Faulty (UbiBuffer D)}
    (kept : AnchorKept g memory state) : AnchorLeft g state := by
  cases memory with
  | none => exact kept
  | some ram => exact AnchorPowered.left kept

theorem AnchorPowered.edit {ram ram' : UbiRam D} {state : Faulty (UbiBuffer D)}
    (powered : AnchorPowered g ram state) (same : SamePlace ram ram')
    (noBad : ram'.anchorTable.badBlockTable = ram.anchorTable.badBlockTable) :
    AnchorPowered g ram' state := by
  obtain ⟨place, page, table, next, noBad', last⟩ := powered
  rw [← same.block] at last
  refine ⟨⟨place.device, ?_, ?_, place.pages, ?_, ?_, ?_, ?_⟩, page, table,
    same.page.trans next, noBad', last⟩
  · unfold AnchorTable.NoBad
    rw [noBad]
    exact place.noBad
  · rw [same.previous, same.block]
    exact place.link
  · exact last.inRing
  · rw [same.page]
    exact place.le
  · rw [same.page, same.block]
    exact place.tables
  · rw [same.block]
    exact place.others

theorem PowerRun.kept {fuel : Nat} {memory : Option (UbiRam D)} {state : Faulty (UbiBuffer D)}
    (supported : g.Supported) (pos : 0 < fuel) (run : PowerRun g fuel memory state) :
    AnchorKept g memory state := by
  have updates : ∀ (ram : UbiRam D) state, AnchorPowered g ram state →
      Code.spec (faultyMachine g) (AnchorLeft g) True (anchorUpdate g fuel)
        (fun _ ram' after => AnchorPowered g ram' after) ram state := fun ram state powered =>
    spec_anchorUpdate powered supported pos (fun _ => id) fun _ _ => id
  have mounts : ∀ (lost : UbiRam D) state, AnchorLeft g state → LowerIsOlder g state.nand →
      Code.spec (faultyMachine g) (AnchorLeft g) True (anchorInit g)
        (fun _ ram' after => AnchorPowered g ram' after) lost state := fun lost state left older =>
    spec_mount left older supported (fun _ => id) fun _ _ _ => id
  induction run with
  | format device noBad run =>
      rename_i total before ram' state after ret
      have formatted : OnReturn g (anchorFormat g fuel total)
          (fun _ ram' after => AnchorPowered g ram' after) before state :=
        onReturn_format device noBad supported pos fun _ _ _ => id
      have powered := Code.post_of_spec formatted run
      exact powered
  | edit earlier same noBad ih => exact AnchorPowered.edit ih same noBad
  | update earlier run ih =>
      have powered := Code.post_of_spec (updates _ _ ih) run
      exact powered
  | updateCut earlier steps ih => exact Prog.cut_of_spec (updates _ _ ih) steps
  | mount earlier older run ih =>
      have powered := Code.post_of_spec (mounts _ _ ih.left older) run
      exact powered
  | mountCut earlier older lost steps ih =>
      exact Prog.cut_of_spec (mounts lost _ ih.left older) steps

/-- After every such run, `ANCHOR_Init` leaves the last anchor in memory, with the block
and page behind it, exactly if the lower of two blocks with an anchor is the older one. -/
theorem powerRun_restores_iff {fuel : Nat} {memory : Option (UbiRam D)}
    {state : Faulty (UbiBuffer D)} (supported : g.Supported) (pos : 0 < fuel)
    (run : PowerRun g fuel memory state) (lost : UbiRam D) :
    InitRestores g Eq lost state ↔ LowerIsOlder g state.nand := by
  obtain ⟨block, page, table, device, _, last, others⟩ := (run.kept supported pos).left
  rw [← last.recoverable_iff others]
  refine initRestores_iff supported last lost ?_ fun _ _ same => congrArg _ same
  rintro loaded (same | ⟨failed, _⟩)
  · exact same
  · exact absurd (device.erase table.previousAnchorBlock).1 failed

/-! ## The move from the last block to the first one -/

/-- One update after another, with the same table. -/
def repeatUpdate (g : Geometry) (fuel : Nat) : Nat → Ubi D Unit
  | 0 => pure ()
  | count + 1 => do
      let _ ← anchorUpdate g fuel
      repeatUpdate g fuel count

theorem PowerRun.repeatUpdate {fuel count : Nat} {ram ram' : UbiRam D}
    {state after : Faulty (UbiBuffer D)} (earlier : PowerRun g fuel (some ram) state)
    (run : ((repeatUpdate g fuel count).run ram).exec (faultyMachine g) state =
      .ok (((), ram'), after)) : PowerRun g fuel (some ram') after := by
  induction count generalizing ram state with
  | zero =>
      cases run
      exact earlier
  | succ count ih =>
      obtain ⟨_, middle, state', first, rest⟩ := Code.exec_bind_eq_ok.mp run
      exact ih (earlier.update first) rest

theorem faultless_blankDevice : Faultless (blankDevice []) :=
  ⟨rfl, fun _ => rfl, fun _ _ => rfl⟩

theorem noBad_unformatted : unformatted.anchorTable.NoBad :=
  fun _ => rfl

/-- The table of the last program. -/
def lastAnchor (state : Faulty (UbiBuffer D)) : Option AnchorTable :=
  match state.lastProgram with
  | some (_, _, .anchor table) => some table
  | _ => none

/-- The memory in which the index has moved to another block. -/
def withIndexBlock (ram : UbiRam D) (block : Nat) : UbiRam D :=
  { ram with anchorTable := { ram.anchorTable with indexNewBlock := block } }

/-- The power fails when the anchor has been written to the first block of the ring and the
last one is not yet erased.  The mount then loads the anchor of the last block, which
still names the index block before. -/
theorem anchorInit_rollsBack_wrapped :
    ∃ state : Faulty (UbiBuffer Nat), PowerRun simNand 4 none state ∧
      (lastAnchor state).map AnchorTable.indexNewBlock = some 77 ∧
      (∃ ram after, ((anchorInit simNand).run unformatted).exec (faultyMachine simNand) state =
          .ok ((.success, ram), after) ∧
        ram.anchorBlock = 1 ∧ ram.anchorTable.indexNewBlock = invalidBlock) ∧
      ¬ InitRestores simNand Eq unformatted state := by
  have run : Code.returns (((anchorFormat simNand 4 989).run unformatted).exec
      (faultyMachine simNand) (blankDevice [])) (fun _ ram state =>
        Code.returns (((repeatUpdate simNand 4 191).run ram).exec (faultyMachine simNand) state)
          fun _ ram state => decide
            ((lastAnchor (((anchorUpdate simNand 4).run (withIndexBlock ram 77)).cut
              (faultyMachine simNand) 2 state)).map AnchorTable.indexNewBlock = some 77) &&
            Code.returns (((anchorInit simNand).run unformatted).exec (faultyMachine simNand)
              (((anchorUpdate simNand 4).run (withIndexBlock ram 77)).cut
                (faultyMachine simNand) 2 state))
              fun status ram _ => decide (status = .success ∧ ram.anchorBlock = 1 ∧
                ram.anchorTable.indexNewBlock = invalidBlock)) = true := by
    set_option maxRecDepth 100000 in decide +kernel
  obtain ⟨_, ram, state, formatted, updates⟩ := Code.returns_iff.mp run
  obtain ⟨_, ram, state, updated, cut⟩ := Code.returns_iff.mp updates
  obtain ⟨last, mounts⟩ := (Bool.and_eq_true_iff).mp cut
  obtain ⟨_, ram', after, mounted, facts⟩ := Code.returns_iff.mp mounts
  obtain ⟨rfl, block, index⟩ := of_decide_eq_true facts
  have earlier := (PowerRun.format faultless_blankDevice noBad_unformatted formatted).repeatUpdate
    updated
  have edited : PowerRun simNand 4 (some (withIndexBlock ram 77)) state :=
    earlier.edit ⟨rfl, rfl, rfl⟩ rfl
  have programmed := of_decide_eq_true last
  refine ⟨_, edited.updateCut 2, programmed, ⟨ram', after, mounted, block, index⟩, ?_⟩
  rintro ⟨_, ram'', _, _, _, table, mounted', last', _, _, loaded⟩
  rw [mounted] at mounted'
  cases mounted'
  rw [lastAnchor, last', Option.map_some, ← loaded, index] at programmed
  exact absurd (Option.some.inj programmed) (by decide)

/-- A power failure in an update that does not move the anchor is harmless. -/
theorem powerRun_restores_cutUpdate :
    ∃ state : Faulty (UbiBuffer Nat), PowerRun simNand 4 none state ∧
      LowerIsOlder simNand state.nand ∧ InitRestores simNand Eq unformatted state := by
  have run : Code.returns (((anchorFormat simNand 4 989).run unformatted).exec
      (faultyMachine simNand) (blankDevice [])) (fun _ ram state =>
        decide ((holders simNand (((anchorUpdate simNand 4).run ram).cut (faultyMachine simNand) 1
          state).nand).length = 1)) = true := by
    set_option maxRecDepth 100000 in decide +kernel
  obtain ⟨_, ram, state, formatted, count⟩ := Code.returns_iff.mp run
  have cut := (PowerRun.format faultless_blankDevice noBad_unformatted formatted).updateCut 1
  have older : LowerIsOlder simNand (((anchorUpdate simNand 4).run ram).cut
      (faultyMachine simNand) 1 state).nand := by
    intro lower upper rest shape
    have single := of_decide_eq_true count
    rw [shape] at single
    simp at single
  exact ⟨_, cut, older, (powerRun_restores_iff (by decide) (by decide) cut unformatted).mpr older⟩

end OpenNfm
