import OpenNfm.Mtd.Worn
import OpenNfm.Ubi.AnchorRecovery
import OpenNfm.Ubi.BadBlockTable

/-!
# The ring without a usable block

When every other block of the ring is listed bad or fails to erase, the search of
`anchor_find_next_block` comes back to the block that it started from.  That block is
treated like the others before the search ends: unless it is listed bad, it is erased.
The last anchor survives if the search cannot erase it, and the next mount finds it if it is
still the newest one that it sees.
-/

namespace OpenNfm

open OpenNfm.Program

variable {g : Geometry} {D : Type} {blocks : BadBlocks}

/-- The number of steps through the ring that lead from a block to the current one. -/
def ringDistance (g : Geometry) (current block : Nat) : Nat :=
  if block < current then current - block else current + g.anchorBlockCount - block

theorem ringDistance_le (g : Geometry) {current block : Nat} (inRing : g.InRing current)
    (inRing' : g.InRing block) : ringDistance g current block ≤ g.anchorBlockCount := by
  rw [inRing_iff] at inRing inRing'
  unfold ringDistance
  unfold Geometry.anchorFirstBlock at inRing inRing'
  split <;> omega

/-- A step through the ring comes to the current block or closer to it. -/
theorem ringDistance_next {current block : Nat} (inRing : g.InRing current)
    (inRing' : g.InRing block) (apart : g.ringNext block ≠ current) :
    ringDistance g current (g.ringNext block) + 1 = ringDistance g current block := by
  have last := g.anchorLastBlock_eq
  rw [inRing_iff] at inRing inRing'
  unfold Geometry.ringNext at apart ⊢
  unfold ringDistance
  unfold Geometry.anchorFirstBlock at inRing inRing' apart ⊢
  by_cases wrap : block + 1 > g.anchorLastBlock
  · rw [if_pos wrap] at apart ⊢
    split_ifs <;> omega
  · rw [if_neg wrap] at apart ⊢
    split_ifs <;> omega

theorem ringDistance_pos {current block : Nat} (inRing' : g.InRing block)
    (inRing : g.InRing current) : 0 < ringDistance g current block := by
  rw [inRing_iff] at inRing inRing'
  unfold ringDistance
  unfold Geometry.anchorFirstBlock at inRing inRing'
  split <;> omega

/-- No block of the ring but the current one can be used. -/
def RingExhausted (g : Geometry) (blocks : BadBlocks) (table : Nat → Nat) (current : Nat) : Prop :=
  ∀ block, g.InRing block → block ≠ current →
    isBadBlock g table block = true ∨ blocks.bad block = true

theorem RingExhausted.log {table : Nat → Nat} {current : Nat} (supported : g.Supported)
    (exhausted : RingExhausted g blocks table current) (block : Nat) :
    RingExhausted g blocks (logBadBlock g table block) current := by
  intro other inRing apart
  have valid : other ≠ invalidBlock :=
    (Nat.lt_trans (inRing.lt_blocks supported) supported.blocksSmall).ne
  exact (exhausted other inRing apart).imp_left fun listed => isBadBlock_mono valid listed

/-- Blocks of the ring at the same distance are the same. -/
theorem ringDistance_inj {current block other : Nat} (inRing : g.InRing current)
    (inRing' : g.InRing block) (inRing'' : g.InRing other)
    (same : ringDistance g current block = ringDistance g current other) : block = other := by
  rw [inRing_iff] at inRing inRing' inRing''
  unfold ringDistance at same
  unfold Geometry.anchorFirstBlock at inRing inRing' inRing''
  split_ifs at same <;> omega

/-- The search on its way to the current block will come to the other block. -/
def Ahead (g : Geometry) (current block other : Nat) : Prop :=
  other = current ∨ ringDistance g current other < ringDistance g current block

/-- Which of two blocks the search meets first can be computed. -/
instance (current block other : Nat) : Decidable (Ahead g current block other) :=
  inferInstanceAs (Decidable (_ ∨ _))

theorem ahead_next {current block other : Nat} (inRing : g.InRing current)
    (inRing' : g.InRing block) (inRing'' : g.InRing other) (apart : g.ringNext block ≠ current) :
    Ahead g current block other ↔
      other = g.ringNext block ∨ Ahead g current (g.ringNext block) other := by
  have closer := ringDistance_next inRing inRing' apart
  unfold Ahead
  constructor
  · rintro (same | less)
    · exact .inr (.inl same)
    · by_cases equal : ringDistance g current other = ringDistance g current (g.ringNext block)
      · exact .inl (ringDistance_inj inRing inRing'' inRing'.next equal)
      · exact .inr (.inr (by omega))
  · rintro (rfl | same | less)
    · exact .inr (by omega)
    · exact .inl same
    · exact .inr (by omega)

theorem not_ahead_self {current block : Nat} (apart : block ≠ current) :
    ¬ Ahead g current block block := by
  rintro (same | less)
  · exact apart same
  · exact Nat.lt_irrefl _ less

/-- What is left when each unlisted block has been tried to erase: the pages of the listed
blocks, and those that a failing erase keeps. -/
def leftover (g : Geometry) (blocks : BadBlocks) (table : Nat → Nat) (nand : Nand (UbiBuffer D)) :
    Nand (UbiBuffer D) := fun block page =>
  if isBadBlock g table block = true ∨ blocks.bad block = true ∧ blocks.kept block page = true then
    nand block page
  else none

theorem leftover_congr {table table' : Nat → Nat} {nand nand' : Nand (UbiBuffer D)} {block : Nat}
    (listed : isBadBlock g table' block = isBadBlock g table block)
    (same : nand' block = nand block) :
    leftover g blocks table' nand' block = leftover g blocks table nand block := by
  unfold leftover
  rw [listed, same]

/-- The memory but for the bad block table. -/
def UbiRam.withBad (ram : UbiRam D) (table : Nat → Nat) : UbiRam D :=
  { ram with anchorTable := { ram.anchorTable with badBlockTable := table } }

/-- What the search has made of the flash when it is back at the current block: of the blocks
ahead only the leftover, and the others as they were. -/
def Searched (g : Geometry) (blocks : BadBlocks) (table : Nat → Nat) (current block : Nat)
    (nand nand' : Nand (UbiBuffer D)) : Prop :=
  ∀ other, g.InRing other → nand' other =
    if Ahead g current block other then leftover g blocks table nand other else nand other

/-- One block more, which is not the current one. -/
theorem Searched.next {table table' : Nat → Nat} {current block : Nat}
    {nand middle nand' : Nand (UbiBuffer D)} (inRing : g.InRing current) (inRing' : g.InRing block)
    (apart : g.ringNext block ≠ current)
    (tried : middle (g.ringNext block) = leftover g blocks table nand (g.ringNext block))
    (others : ∀ other, g.InRing other → other ≠ g.ringNext block → middle other = nand other ∧
      isBadBlock g table' other = isBadBlock g table other)
    (searched : Searched g blocks table' current (g.ringNext block) middle nand') :
    Searched g blocks table current block nand nand' := by
  intro other inRing''
  rw [searched other inRing'']
  by_cases here : other = g.ringNext block
  · rw [here, if_neg (not_ahead_self apart), tried,
      if_pos ((ahead_next inRing inRing' inRing'.next apart).mpr (.inl rfl))]
  · obtain ⟨same, listed⟩ := others other inRing'' here
    rw [leftover_congr listed same, same]
    exact if_congr ((ahead_next inRing inRing' inRing'' apart).trans
      (or_iff_right here)).symm rfl rfl

/-- Memory with a full anchor block, and the bad block table that lists one block. -/
def fullAnchorRam (block listed : Nat) : UbiRam Unit :=
  { (UbiRam.reset Unit).withBad fun slot => if slot = 0 then listed else invalidBlock with
    anchorBlock := block, anchorNextPage := simNand.pagePerPhyBlock }

theorem inRing_three : simNand.InRing 3 := by
  rw [inRing_iff]
  decide

end OpenNfm
