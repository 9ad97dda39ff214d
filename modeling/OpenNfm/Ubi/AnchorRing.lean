import Mathlib.Data.List.Nodup
import OpenNfm.Ubi.TableLog
import OpenNfm.Ubi.Anchor

/-!
# The ring of the anchor

Between two calls one block of the ring holds anchors.  While the anchor moves
to the next block, two do: the full old one and the new one, whose only anchor
names the old block.  The mount finds either form and keeps one block.
-/

namespace OpenNfm

open OpenNfm.Program

variable {g : Geometry} {D : Type}

theorem inRing_iff {block : Nat} : g.InRing block ↔ Geometry.anchorFirstBlock ≤ block ∧
    block < Geometry.anchorFirstBlock + g.anchorBlockCount := by
  rw [Geometry.InRing, g.anchorLastBlock_eq]
  unfold Geometry.anchorFirstBlock
  omega

theorem inRing_first (g : Geometry) : g.InRing Geometry.anchorFirstBlock := by
  have := g.two_le_anchorBlockCount
  rw [inRing_iff]
  omega

/-! ## A round of the update -/

/-- A round of `ANCHOR_Update` from the write on. -/
def anchorUpdateWrite (g : Geometry) (rounds : Nat) (anchorReclaimed : Bool) : Ubi D Status := do
  let ram ← get
  let ret ← tableWrite ram.anchorBlock ram.anchorNextPage (.anchor ram.anchorTable)
  if ret = .success then do
    if anchorReclaimed then
      let _ ← mtdErase ram.anchorTable.previousAnchorBlock
    modify fun ram => { ram with anchorNextPage := ram.anchorNextPage + 1 }
    pure ret
  else do
    if ret = .badblock then
      modify fun ram => { ram with anchorNextPage := g.pagePerPhyBlock }
    anchorUpdateLoop g rounds anchorReclaimed

theorem anchorUpdateLoop_eq (rounds : Nat) (anchorReclaimed : Bool) :
    (anchorUpdateLoop g (rounds + 1) anchorReclaimed : Ubi D Status) = (do
      let ram ← get
      let (found, anchorReclaimed) ←
        if ram.anchorNextPage = g.pagePerPhyBlock then do
          modify fun ram =>
            { ram with anchorTable :=
              { ram.anchorTable with previousAnchorBlock := ram.anchorBlock } }
          let (ret, next) ← anchorFindNextBlock g ram.anchorBlock
          if ret = .success then
            modify fun ram => { ram with anchorBlock := next, anchorNextPage := 0 }
          pure (ret, true)
        else pure (.success, anchorReclaimed)
      if found ≠ .success then pure found else anchorUpdateWrite g rounds anchorReclaimed) :=
  rfl

/-! ## States of the ring -/

/-- One block of the ring holds anchors, the newest of which is `anchor`. -/
structure RingSingle (g : Geometry) (nand : Nand (UbiBuffer D)) (block next : Nat)
    (anchor : AnchorTable) : Prop where
  inRing : g.InRing block
  log : TableLog g nand block next (.anchor anchor)
  others : ∀ other, g.InRing other → other ≠ block → nand other 0 = none

/-- The anchor has been written to the next block of the ring, and the full
block that it comes from is not yet erased. -/
structure RingDouble (g : Geometry) (nand : Nand (UbiBuffer D)) (block : Nat)
    (old new : AnchorTable) : Prop where
  inRing : g.InRing block
  oldLog : TableLog g nand block g.pagePerPhyBlock (.anchor old)
  newLog : TableLog g nand (g.ringNext block) 1 (.anchor new)
  previous : new.previousAnchorBlock = block
  others : ∀ other, g.InRing other → other ≠ block → other ≠ g.ringNext block →
    nand other 0 = none

/-- The two flashes differ in the ring only. -/
def RingChanged (g : Geometry) (nand nand' : Nand (UbiBuffer D)) : Prop :=
  ∀ block, ¬ g.InRing block → nand' block = nand block

/-- The anchors on the flash meet `ok`; there are two of them only when the
index block is full. -/
def RingHolds (g : Geometry) (nand : Nand (UbiBuffer D)) (ok : AnchorTable → Prop)
    (full : Prop) : Prop :=
  (∃ block next anchor, ok anchor ∧ RingSingle g nand block next anchor) ∨
    full ∧ ∃ block old new, ok old ∧ ok new ∧ RingDouble g nand block old new

theorem RingChanged.refl (nand : Nand (UbiBuffer D)) : RingChanged g nand nand :=
  fun _ _ => rfl

theorem RingChanged.trans {first second third : Nand (UbiBuffer D)}
    (change : RingChanged g first second) (change' : RingChanged g second third) :
    RingChanged g first third :=
  fun block outside => (change' block outside).trans (change block outside)

theorem RingChanged.program (nand : Nand (UbiBuffer D)) {block : Nat} (page : Nat)
    (content : Page (UbiBuffer D)) (inRing : g.InRing block) :
    RingChanged g nand (nand.program block page content) := by
  intro other outside
  funext otherPage
  exact nand.program_other _ _ _ fun same => outside (same ▸ inRing)

theorem RingChanged.erase (nand : Nand (UbiBuffer D)) {block : Nat} (inRing : g.InRing block) :
    RingChanged g nand (nand.erase block) := by
  intro other outside
  funext otherPage
  exact nand.erase_other _ fun same => outside (same ▸ inRing)

theorem RingSingle.frame {nand nand' : Nand (UbiBuffer D)} {block next : Nat}
    {anchor : AnchorTable} (ring : RingSingle g nand block next anchor)
    (same : ∀ other, g.InRing other → nand' other = nand other) :
    RingSingle g nand' block next anchor where
  inRing := ring.inRing
  log := ring.log.frame (same block ring.inRing)
  others other inRing different := by
    rw [same other inRing]
    exact ring.others other inRing different

theorem RingDouble.frame {nand nand' : Nand (UbiBuffer D)} {block : Nat}
    {old new : AnchorTable} (ring : RingDouble g nand block old new)
    (same : ∀ other, g.InRing other → nand' other = nand other) :
    RingDouble g nand' block old new where
  inRing := ring.inRing
  oldLog := ring.oldLog.frame (same block ring.inRing)
  newLog := ring.newLog.frame (same _ ring.inRing.next)
  previous := ring.previous
  others other inRing different different' := by
    rw [same other inRing]
    exact ring.others other inRing different different'

theorem RingSingle.append {nand : Nand (UbiBuffer D)} {block next : Nat}
    {anchor : AnchorTable} (ring : RingSingle g nand block next anchor)
    (room : next < g.pagePerPhyBlock) (anchor' : AnchorTable) :
    RingSingle g (nand.program block next (tablePage (.anchor anchor'))) block (next + 1)
      anchor' where
  inRing := ring.inRing
  log := ring.log.append room _
  others other inRing different := by
    rw [nand.program_other _ _ _ different]
    exact ring.others other inRing different

/-- Erasing the next block of the ring prepares the move of the anchor. -/
theorem RingSingle.eraseNext {nand : Nand (UbiBuffer D)} {block next : Nat}
    {anchor : AnchorTable} (ring : RingSingle g nand block next anchor) :
    RingSingle g (nand.erase (g.ringNext block)) block next anchor where
  inRing := ring.inRing
  log := ring.log.frame (funext fun page => nand.erase_other page ring.inRing.next_ne.symm)
  others other inRing different := by
    by_cases same : other = g.ringNext block
    · rw [same, Nand.erase_same]
    · rw [nand.erase_other _ same]
      exact ring.others other inRing different

theorem RingSingle.move {nand : Nand (UbiBuffer D)} {block : Nat}
    {anchor anchor' : AnchorTable}
    (ring : RingSingle g nand block g.pagePerPhyBlock anchor)
    (blank : nand.Blank (g.ringNext block)) (supported : g.Supported)
    (previous : anchor'.previousAnchorBlock = block) :
    RingDouble g (nand.program (g.ringNext block) 0 (tablePage (.anchor anchor'))) block anchor
      anchor' where
  inRing := ring.inRing
  oldLog := ring.log.frame
    (funext fun page => nand.program_other _ _ _ ring.inRing.next_ne.symm)
  newLog := TableLog.start (ring.inRing.next.lt_blocks supported) blank _
  previous := previous
  others other inRing different different' := by
    rw [nand.program_other _ _ _ different']
    exact ring.others other inRing different

/-- Erasing the old block ends the move. -/
theorem RingDouble.keepNew {nand : Nand (UbiBuffer D)} {block : Nat} {old new : AnchorTable}
    (ring : RingDouble g nand block old new) :
    RingSingle g (nand.erase block) (g.ringNext block) 1 new where
  inRing := ring.inRing.next
  log := ring.newLog.frame (funext fun page => nand.erase_other page ring.inRing.next_ne)
  others other inRing different := by
    by_cases same : other = block
    · rw [same, Nand.erase_same]
    · rw [nand.erase_other _ same]
      exact ring.others other inRing same different

/-- Erasing the new block takes the move back. -/
theorem RingDouble.keepOld {nand : Nand (UbiBuffer D)} {block : Nat} {old new : AnchorTable}
    (ring : RingDouble g nand block old new) :
    RingSingle g (nand.erase (g.ringNext block)) block g.pagePerPhyBlock old where
  inRing := ring.inRing
  log := ring.oldLog.frame (funext fun page => nand.erase_other page ring.inRing.next_ne.symm)
  others other inRing different := by
    by_cases same : other = g.ringNext block
    · rw [same, Nand.erase_same]
    · rw [nand.erase_other _ same]
      exact ring.others other inRing different same

theorem RingHolds.single {nand : Nand (UbiBuffer D)} {ok : AnchorTable → Prop} {full : Prop}
    {block next : Nat} {anchor : AnchorTable} (meets : ok anchor)
    (ring : RingSingle g nand block next anchor) : RingHolds g nand ok full :=
  .inl ⟨block, next, anchor, meets, ring⟩

theorem RingHolds.frame {nand nand' : Nand (UbiBuffer D)} {ok ok' : AnchorTable → Prop}
    {full full' : Prop} (ring : RingHolds g nand ok full)
    (same : ∀ other, g.InRing other → nand' other = nand other)
    (weaker : ∀ anchor, ok anchor → ok' anchor) (fuller : full → full') :
    RingHolds g nand' ok' full' := by
  rcases ring with ⟨block, next, anchor, meets, single⟩ |
    ⟨isFull, block, old, new, oldMeets, newMeets, double⟩
  · exact .inl ⟨block, next, anchor, weaker _ meets, single.frame same⟩
  · exact .inr ⟨fuller isFull, block, old, new, weaker _ oldMeets, weaker _ newMeets,
      double.frame same⟩

/-! ## Writing the anchor -/

section Specs

variable {crash : Ideal (UbiBuffer D) → Prop} {ram : UbiRam D} {state : Ideal (UbiBuffer D)}

/-- No block has been logged as bad. -/
def AnchorTable.NoBad (anchor : AnchorTable) : Prop :=
  ∀ i, anchor.badBlockTable i = invalidBlock

theorem isBadBlock_eq_false {table : Nat → Nat} (none : ∀ i, table i = invalidBlock)
    {block : Nat} (supported : g.Supported) (inRange : block < g.cfgLogBlockCount) :
    isBadBlock g table block = false := by
  have := supported.blocksSmall
  simp only [isBadBlock, List.any_eq_false, List.mem_range, decide_eq_true_eq]
  intro i _
  rw [none i, invalidBlock]
  omega

theorem wp_anchorIsBadBlock {block : Nat} {post : Bool → UbiRam D → Ideal (UbiBuffer D) → Prop}
    (none : ram.anchorTable.NoBad) (supported : g.Supported)
    (inRange : block < g.cfgLogBlockCount) :
    Code.wp (idealMachine g) crash (anchorIsBadBlock g block) post ram state ↔
      crash state ∧ post false ram state := by
  unfold anchorIsBadBlock
  rw [Code.wp_bind, Code.wp_get, Code.wp_pure, isBadBlock_eq_false none supported inRange]
  simp

theorem wp_anchorFindNextBlock {current : Nat}
    {post : Status × Nat → UbiRam D → Ideal (UbiBuffer D) → Prop}
    (none : ram.anchorTable.NoBad) (supported : g.Supported) (inRing : g.InRing current)
    (safe : crash state) (safeErased : crash (state.erase (g.ringNext current)))
    (meets : post (.success, g.ringNext current) ram (state.erase (g.ringNext current))) :
    Code.wp (idealMachine g) crash (anchorFindNextBlock g current) post ram state := by
  have inRange := inRing.next.lt_blocks supported
  have next : (if current + 1 > g.anchorLastBlock then Geometry.anchorFirstBlock
      else current + 1) = g.ringNext current := rfl
  simp only [anchorFindNextBlock, anchorFindLoop, Code.wp_bind, next,
    wp_anchorIsBadBlock none supported inRange, Bool.false_eq_true, if_false,
    wp_mtdErase inRange, ne_eq, not_true_eq_false, false_and, Code.wp_pure, inRing.next_ne,
    not_false_eq_true, if_true]
  exact ⟨safe, safe, safeErased, safeErased, safeErased, safeErased, meets⟩

/-- The anchor table that `ANCHOR_Update` writes. -/
def updatedAnchor (g : Geometry) (ram : UbiRam D) : AnchorTable :=
  if ram.anchorNextPage = g.pagePerPhyBlock then
    { ram.anchorTable with previousAnchorBlock := ram.anchorBlock }
  else ram.anchorTable

/-- `ANCHOR_Update` appends the anchor to its block, or moves it to the next
block of the ring.  The states that a power failure leaves hold the old anchor,
the new one, or both. -/
theorem wp_anchorUpdate {fuel : Nat} {anchor : AnchorTable}
    {post : Status → UbiRam D → Ideal (UbiBuffer D) → Prop}
    (none : ram.anchorTable.NoBad) (supported : g.Supported) (pos : 0 < fuel)
    (ring : RingSingle g state.nand ram.anchorBlock ram.anchorNextPage anchor)
    (safe : ∀ nand, RingChanged g state.nand nand →
      (RingHolds g nand (fun held => held = anchor ∨ held = updatedAnchor g ram) True) →
      crash ⟨nand, state.polls⟩)
    (meets : ∀ nand block next, RingChanged g state.nand nand →
      RingSingle g nand block next (updatedAnchor g ram) →
      post .success
        { ram with
          anchorBlock := block, anchorNextPage := next, anchorTable := updatedAnchor g ram }
        ⟨nand, state.polls⟩) :
    Code.wp (idealMachine g) crash (anchorUpdate g fuel) post ram state := by
  obtain ⟨rounds, rfl⟩ := Nat.exists_eq_succ_of_ne_zero pos.ne'
  have inRange := ring.inRing.lt_blocks supported
  have here : crash state :=
    safe state.nand (RingChanged.refl _) (.single (.inl rfl) ring)
  by_cases full : ram.anchorNextPage = g.pagePerPhyBlock
  · have fullRing := full ▸ ring
    have updated : updatedAnchor g ram =
        { ram.anchorTable with previousAnchorBlock := ram.anchorBlock } := if_pos full
    have nextRange := ring.inRing.next.lt_blocks supported
    have erased : RingSingle g (state.erase (g.ringNext ram.anchorBlock)).nand ram.anchorBlock
        g.pagePerPhyBlock anchor := fullRing.eraseNext
    have blank := state.nand.blank_erase (g.ringNext ram.anchorBlock)
    have previous : (updatedAnchor g ram).previousAnchorBlock = ram.anchorBlock := by
      rw [updated]
    have double := erased.move blank supported previous
    have change₁ := RingChanged.erase state.nand ring.inRing.next
    have change₂ := change₁.trans (RingChanged.program _ 0
      (tablePage (.anchor (updatedAnchor g ram))) ring.inRing.next)
    have change₃ := change₂.trans (RingChanged.erase _ ring.inRing)
    have safe₁ := safe _ change₁ (.single (.inl rfl) erased)
    have safe₂ := safe _ change₂
      (.inr ⟨trivial, _, _, _, .inl rfl, .inr rfl, double⟩)
    have safe₃ := safe _ change₃ (.single (.inr rfl) double.keepNew)
    simp only [anchorUpdate, anchorUpdateLoop, Code.wp_bind, Code.wp_get, full, if_true,
      Code.wp_modify]
    refine ⟨here, here, wp_anchorFindNextBlock none supported ring.inRing here safe₁ ?_⟩
    simp only [if_true, Code.wp_modify, Code.wp_pure, Code.wp_bind, ne_eq, not_true_eq_false,
      if_false, Code.wp_get]
    rw [wp_tableWrite ⟨nextRange, g.pagePerPhyBlock_pos⟩ (blank 0)]
    simp only [if_true, Code.wp_bind, Code.wp_modify, Code.wp_pure, wp_mtdErase inRange]
    have finish := meets _ _ _ change₃ double.keepNew
    simp only [updated] at safe₂ safe₃ finish
    exact ⟨safe₁, safe₁, safe₁, safe₁, safe₂, safe₂, safe₃, safe₃, safe₃, finish⟩
  · have updated : updatedAnchor g ram = ram.anchorTable := if_neg full
    have room : ram.anchorNextPage < g.pagePerPhyBlock := lt_of_le_of_ne ring.log.le full
    have appended := ring.append room (updatedAnchor g ram)
    have change := RingChanged.program state.nand ram.anchorNextPage
      (tablePage (.anchor (updatedAnchor g ram))) ring.inRing
    have safe₁ := safe _ change (.single (.inr rfl) appended)
    have finish := meets _ _ _ change appended
    simp only [anchorUpdate, anchorUpdateLoop, Code.wp_bind, Code.wp_get, full, if_false,
      Code.wp_pure, ne_eq, not_true_eq_false]
    rw [wp_tableWrite ⟨inRange, room⟩ ring.log.nextBlank]
    simp only [if_true, Bool.false_eq_true, if_false, Code.wp_modify, Code.wp_bind, Code.wp_pure]
    rw [updated] at safe₁ finish
    exact ⟨here, here, here, here, safe₁, safe₁, safe₁, finish⟩

/-! ## Finding the anchor -/

/-- The blocks of the ring in the order of the scan. -/
abbrev Geometry.ringBlocks (g : Geometry) : List Nat :=
  List.range' Geometry.anchorFirstBlock g.anchorBlockCount

theorem mem_ringBlocks {block : Nat} : block ∈ g.ringBlocks ↔ g.InRing block := by
  have := g.two_le_anchorBlockCount
  simp only [Geometry.ringBlocks, List.mem_range'_1, Geometry.InRing,
    Geometry.anchorLastBlock_eq, Geometry.anchorFirstBlock]
  omega

/-- The scan passes over blocks without an anchor. -/
theorem wp_anchorInitScan_skip {blanks rest : List Nat} {found : Option AnchorFound}
    {post : Option AnchorFound → UbiRam D → Ideal (UbiBuffer D) → Prop}
    (supported : g.Supported) (inRing : ∀ block ∈ blanks, g.InRing block)
    (blank : ∀ block ∈ blanks, state.nand block 0 = none) (safe : crash state)
    (meets : Code.wp (idealMachine g) crash (anchorInitScan g rest found) post ram state) :
    Code.wp (idealMachine g) crash (anchorInitScan g (blanks ++ rest) found) post ram state := by
  induction blanks with
  | nil => exact meets
  | cons block blanks ih =>
      have remaining := ih (fun other inside => inRing other (List.mem_cons_of_mem _ inside))
        (fun other inside => blank other (List.mem_cons_of_mem _ inside))
      have inRange := (inRing block List.mem_cons_self).lt_blocks supported
      simp only [List.cons_append, anchorInitScan]
      rw [Code.wp_bind]
      refine wp_tableRead_blank inRange (blank block List.mem_cons_self) (.inl rfl) safe ?_
      simp only [reduceCtorEq, if_false, Code.wp_bind, Code.wp_pure]
      exact ⟨safe, remaining⟩

/-- The first block with an anchor. -/
theorem wp_anchorInitScan_first {block next : Nat} {rest : List Nat} {anchor : AnchorTable}
    {post : Option AnchorFound → UbiRam D → Ideal (UbiBuffer D) → Prop}
    (log : TableLog g state.nand block next (.anchor anchor)) (safe : crash state)
    (meets : Code.wp (idealMachine g) crash
      (anchorInitScan g rest (some ⟨block, next - 1, anchor.previousAnchorBlock⟩)) post
      { ram with anchorTable := anchor } state) :
    Code.wp (idealMachine g) crash (anchorInitScan g (block :: rest) none) post ram state := by
  simp only [anchorInitScan]
  rw [Code.wp_bind]
  refine wp_tableRead_first log.inRange log.tables log.pos safe fun table => ?_
  simp only [if_true, Code.wp_bind]
  refine wp_tableRead log (.inl rfl) safe ?_
  simp only [loadAnchor, Code.wp_bind, Code.wp_pure, Code.wp_modify, if_true, Code.wp_get]
  exact ⟨safe, safe, safe, safe, meets⟩

/-- The second block with an anchor decides which of the two is kept. -/
theorem wp_anchorInitScan_second {block next : Nat} {rest : List Nat} {anchor : AnchorTable}
    {first : AnchorFound}
    {post : Option AnchorFound → UbiRam D → Ideal (UbiBuffer D) → Prop}
    (supported : g.Supported) (inRing : g.InRing block)
    (log : TableLog g state.nand block next (.anchor anchor)) (safe : crash state)
    (older : first.previous = block → crash (state.erase block) ∧
      post (some first) { ram with anchorTable := anchor } (state.erase block))
    (newer : first.previous ≠ block → first.block = anchor.previousAnchorBlock ∧
      g.InRing anchor.previousAnchorBlock ∧
      crash (state.erase anchor.previousAnchorBlock) ∧
      post (some ⟨block, next - 1, first.previous⟩) { ram with anchorTable := anchor }
        (state.erase anchor.previousAnchorBlock)) :
    Code.wp (idealMachine g) crash (anchorInitScan g (block :: rest) (some first)) post ram
      state := by
  have valid : ∀ other, g.InRing other → other ≠ invalidBlock := by
    intro other member
    have inRange := member.lt_blocks supported
    exact (inRange.trans supported.blocksSmall).ne
  simp only [anchorInitScan]
  rw [Code.wp_bind]
  refine wp_tableRead_first log.inRange log.tables log.pos safe fun table => ?_
  simp only [if_true, Code.wp_bind]
  refine wp_tableRead log (.inl rfl) safe ?_
  simp only [loadAnchor, Code.wp_bind, Code.wp_pure, Code.wp_modify, if_true, Code.wp_get]
  refine ⟨safe, safe, safe, safe, ?_⟩
  by_cases same : first.previous = block
  · obtain ⟨safeErased, finish⟩ := older same
    have inRange := inRing.lt_blocks supported
    simp only [same, if_true, Code.wp_bind, Code.wp_pure, ne_eq, valid block inRing,
      not_false_eq_true, wp_mtdErase inRange, not_true_eq_false, if_false]
    exact ⟨safe, safe, safeErased, safeErased, finish⟩
  · obtain ⟨replaced, oldInRing, safeErased, finish⟩ := newer same
    have inRange := oldInRing.lt_blocks supported
    simp only [same, if_false, Code.wp_bind, Code.wp_assert, Code.wp_pure, ne_eq,
      valid _ oldInRing, not_false_eq_true, if_true, wp_mtdErase inRange, not_true_eq_false]
    exact ⟨replaced, safe, safe, safe, safeErased, safeErased, finish⟩

/-- A member splits the list of the ring into what comes before and after it. -/
theorem ringBlocks_split {block : Nat} (inRing : g.InRing block) :
    ∃ before after, g.ringBlocks = before ++ block :: after ∧
      ∀ other ∈ before ++ after, g.InRing other ∧ other ≠ block := by
  obtain ⟨before, after, split⟩ := List.append_of_mem (mem_ringBlocks.mpr inRing)
  refine ⟨before, after, split, fun other inside => ⟨?_, ?_⟩⟩
  · apply mem_ringBlocks.mp
    rw [split]
    simp only [List.mem_append, List.mem_cons] at inside ⊢
    tauto
  · rintro rfl
    have distinct : (before ++ other :: after).Nodup := split ▸ List.nodup_range'
    rw [List.nodup_middle] at distinct
    exact (List.nodup_cons.mp distinct).1 inside

/-- Whatever form the ring is in, the scan ends with one block, and with the
memory of one of the anchors that the ring held. -/
theorem wp_anchorInitScan {ok : AnchorTable → Prop} {full : Prop}
    {post : Option AnchorFound → UbiRam D → Ideal (UbiBuffer D) → Prop}
    (supported : g.Supported) (ring : RingHolds g state.nand ok full)
    (safe : ∀ nand, RingChanged g state.nand nand → RingHolds g nand ok full →
      crash ⟨nand, state.polls⟩)
    (meets : ∀ nand block next previous held anchor, RingChanged g state.nand nand →
      RingSingle g nand block next held → ok held → ok anchor → (anchor = held ∨ full) →
      post (some ⟨block, next - 1, previous⟩) { ram with anchorTable := anchor }
        ⟨nand, state.polls⟩) :
    Code.wp (idealMachine g) crash (anchorInitScan g g.ringBlocks none) post ram state := by
  have here : crash state := safe state.nand (RingChanged.refl _) ring
  rcases ring with ⟨block, next, anchor, good, single⟩ |
    ⟨isFull, block, old, new, oldGood, newGood, double⟩
  · obtain ⟨before, after, split, others⟩ := ringBlocks_split single.inRing
    have blank : ∀ other ∈ before ++ after, state.nand other 0 = none :=
      fun other inside => single.others other (others other inside).1 (others other inside).2
    simp only [List.mem_append] at others blank
    rw [split]
    refine wp_anchorInitScan_skip supported (fun other inside => (others other (.inl inside)).1)
      (fun other inside => blank other (.inl inside)) here
      (wp_anchorInitScan_first single.log here ?_)
    rw [← List.append_nil after]
    refine wp_anchorInitScan_skip supported (fun other inside => (others other (.inr inside)).1)
      (fun other inside => blank other (.inr inside)) here ?_
    exact ⟨here, meets _ _ _ _ _ _ (RingChanged.refl _) single good good (.inl rfl)⟩
  · have keepNew := double.keepNew
    have keepOld := double.keepOld
    have inRing' := double.inRing.next
    have erasedOld := RingChanged.erase state.nand double.inRing
    have erasedNew := RingChanged.erase state.nand inRing'
    have safeOld := safe _ erasedNew (.single oldGood keepOld)
    have safeNew := safe _ erasedOld (.single newGood keepNew)
    obtain ⟨before, after, split, others⟩ := ringBlocks_split double.inRing
    have member : g.ringNext block ∈ before ++ after := by
      have := mem_ringBlocks.mpr inRing'
      rw [split, List.mem_append, List.mem_cons] at this
      rcases this with inside | same | inside
      · exact List.mem_append_left _ inside
      · exact absurd same double.inRing.next_ne
      · exact List.mem_append_right _ inside
    have blank : ∀ other ∈ before ++ after, other ≠ g.ringNext block →
        state.nand other 0 = none :=
      fun other inside => double.others other (others other inside).1 (others other inside).2
    have distinct : (before ++ after).Nodup := by
      have whole : (before ++ block :: after).Nodup := split ▸ List.nodup_range'
      rw [List.nodup_middle] at whole
      exact (List.nodup_cons.mp whole).2
    rw [split]
    rcases List.mem_append.mp member with inside | inside
    · -- the new block comes first in the scan
      obtain ⟨first, second, rfl⟩ := List.append_of_mem inside
      simp only [List.append_assoc, List.cons_append, List.nodup_middle, List.nodup_cons]
        at distinct
      have apart : ∀ other ∈ first ++ second, g.InRing other ∧ state.nand other 0 = none := by
        intro other within
        have outer : other ∈ (first ++ g.ringNext block :: second) ++ after := by
          simp only [List.mem_append, List.mem_cons] at within ⊢
          tauto
        refine ⟨(others other outer).1, blank other outer ?_⟩
        rintro rfl
        apply distinct.1
        simp only [List.mem_append] at within ⊢
        tauto
      simp only [List.mem_append] at apart
      rw [List.append_assoc, List.cons_append]
      refine wp_anchorInitScan_skip supported (fun other h => (apart other (.inl h)).1)
        (fun other h => (apart other (.inl h)).2) here
        (wp_anchorInitScan_first double.newLog here ?_)
      refine wp_anchorInitScan_skip supported (fun other h => (apart other (.inr h)).1)
        (fun other h => (apart other (.inr h)).2) here ?_
      refine wp_anchorInitScan_second supported double.inRing double.oldLog here
        (fun _ => ⟨safeNew, ?_⟩) (fun different => absurd double.previous different)
      exact meets _ _ _ _ _ _ erasedOld keepNew newGood oldGood (.inr isFull)
    · -- the old block comes first in the scan
      obtain ⟨first, second, rfl⟩ := List.append_of_mem inside
      rw [← List.append_assoc, List.nodup_middle, List.nodup_cons] at distinct
      have apart : ∀ other, other ∈ before ∨ other ∈ first →
          g.InRing other ∧ state.nand other 0 = none := by
        intro other within
        have outer : other ∈ before ++ (first ++ g.ringNext block :: second) := by
          simp only [List.mem_append, List.mem_cons]
          tauto
        refine ⟨(others other outer).1, blank other outer ?_⟩
        rintro rfl
        apply distinct.1
        simp only [List.mem_append]
        tauto
      refine wp_anchorInitScan_skip supported (fun other h => (apart other (.inl h)).1)
        (fun other h => (apart other (.inl h)).2) here
        (wp_anchorInitScan_first double.oldLog here ?_)
      refine wp_anchorInitScan_skip supported (fun other h => (apart other (.inr h)).1)
        (fun other h => (apart other (.inr h)).2) here ?_
      refine wp_anchorInitScan_second supported inRing' double.newLog here
        (fun _ => ⟨safeOld, ?_⟩) (fun _ => ?_)
      · exact meets _ _ _ _ _ _ erasedNew keepOld oldGood newGood (.inr isFull)
      · rw [double.previous]
        exact ⟨rfl, double.inRing, safeNew,
          meets _ _ _ _ _ _ erasedOld keepNew newGood newGood (.inl rfl)⟩

/-- A table of a formatted device. -/
structure AnchorTable.Formatted (g : Geometry) (anchor : AnchorTable) (total : Nat) :
    Prop where
  total : anchor.totalDataBlock = total
  swl : anchor.swlCurrentArea < g.areaCount
  oath : anchor.oath = anchorOath
  version : anchor.version = anchorVersion
  noBad : anchor.NoBad

/-- `ANCHOR_Init` succeeds on every form of the ring, power failures in it
included. -/
theorem wp_anchorInit {ok : AnchorTable → Prop} {full : Prop} {total : Nat}
    {post : Status → UbiRam D → Ideal (UbiBuffer D) → Prop}
    (supported : g.Supported) (ring : RingHolds g state.nand ok full)
    (formatted : ∀ anchor, ok anchor → anchor.Formatted g total) (proper : total ≠ invalidBlock)
    (safe : ∀ nand, RingChanged g state.nand nand → RingHolds g nand ok full →
      crash ⟨nand, state.polls⟩)
    (meets : ∀ nand block next held anchor, RingChanged g state.nand nand →
      RingSingle g nand block next held → ok held → ok anchor → (anchor = held ∨ full) →
      post .success
        { ram with
          anchorTable := anchor, indexTable := .blank, anchorBlock := block,
          anchorNextPage := next } ⟨nand, state.polls⟩) :
    Code.wp (idealMachine g) crash (anchorInit g) post ram state := by
  have here : crash state := safe state.nand (RingChanged.refl _) ring
  simp only [anchorInit, Code.wp_bind, Code.wp_modify]
  refine ⟨here, wp_anchorInitScan supported ring safe ?_⟩
  intro nand block next previous held anchor changed single heldOk anchorOk same
  have good := formatted anchor anchorOk
  have written : next - 1 + 1 = next := Nat.succ_pred_eq_of_pos single.log.pos
  have after := safe nand changed (.single heldOk single)
  simp only [Code.wp_modify, Code.wp_get, Code.wp_bind, good.total, proper, good.version,
    good.oath, ne_eq, not_true_eq_false, or_self, if_false, Code.wp_pure, written]
  exact ⟨after, after, after,
    meets nand block next held anchor changed single heldOk anchorOk same⟩

/-- On a device without anchors `ANCHOR_Init` fails and changes nothing on the
flash. -/
theorem wp_anchorInit_blank {post : Status → UbiRam D → Ideal (UbiBuffer D) → Prop}
    (supported : g.Supported) (blank : ∀ block, g.InRing block → state.nand block 0 = none)
    (safe : crash state)
    (meets : post .failure { ram with anchorTable := .blank, indexTable := .blank } state) :
    Code.wp (idealMachine g) crash (anchorInit g) post ram state := by
  simp only [anchorInit, Code.wp_bind, Code.wp_modify]
  refine ⟨safe, ?_⟩
  rw [← List.append_nil (List.range' Geometry.anchorFirstBlock g.anchorBlockCount)]
  refine wp_anchorInitScan_skip supported (fun block inside => mem_ringBlocks.mp inside)
    (fun block inside => blank block (mem_ringBlocks.mp inside)) safe ?_
  simp only [anchorInitScan, Code.wp_pure]
  exact ⟨safe, safe, meets⟩

end Specs

end OpenNfm
