import OpenNfm.Program.PlacedItems
import Mathlib.Algebra.Order.BigOperators.Group.Finset
import Mathlib.Algebra.Group.Action.Defs

/-!
# Pages that name their owners

Values of addresses are appended to blocks, a page at a time, and each page names the address
that it was written for.  A new value leaves the page of the old one behind as a stale page.
A block is erased when all of its pages are stale.  The rules say what an append, a removal
and an erase do to the values of the addresses, and how many stale pages there are.
-/

namespace OpenNfm.Program

/-- The pages with their owners and values, how far each block is programmed, and where each
address has its value. -/
structure PageLog (V : Type) where
  pages : Nat → Nat → Option (Nat × V)
  fill : Nat → Nat
  home : Nat → Place

namespace PageLog

variable {V : Type}

/-- The value of an address. -/
def contents (log : PageLog V) (addr : Nat) : Option V :=
  (log.pages (log.home addr).1 (log.home addr).2).map Prod.snd

/-- The blocks have pages of so many addresses up to where they are programmed, and the home of
an address is a page of its own, or nowhere. -/
structure Sound (n width : Nat) (nowhere : Place) (log : PageLog V) : Prop where
  programmed : ∀ block page, (∃ entry, log.pages block page = some entry) ↔ page < log.fill block
  inWidth : ∀ block, log.fill block ≤ width
  owner : ∀ block page entry, log.pages block page = some entry → entry.1 < n
  home : ∀ addr, log.home addr = nowhere ∨
    ∃ value, log.pages (log.home addr).1 (log.home addr).2 = some (addr, value)
  blank : log.fill nowhere.1 = 0

/-! ## Steps -/

/-- A value goes to the next page of a block. -/
def append (log : PageLog V) (block addr : Nat) (value : V) : PageLog V where
  pages := programPage log.pages block (log.fill block) (addr, value)
  fill := Function.update log.fill block (log.fill block + 1)
  home := Function.update log.home addr (block, log.fill block)

/-- An address has no value any more. -/
def forget (log : PageLog V) (nowhere : Place) (addr : Nat) : PageLog V :=
  { log with home := Function.update log.home addr nowhere }

/-- The log with a block that is empty again. -/
def erase (log : PageLog V) (block : Nat) : PageLog V :=
  { log with
    pages := eraseBlock log.pages block
    fill := Function.update log.fill block 0 }

section Rules

variable {n width block addr : Nat} {nowhere : Place} {log : PageLog V} {value : V}

theorem pages_none (sound : Sound n width nowhere log) {page : Nat}
    (behind : log.fill block ≤ page) :
    log.pages block page = none := by
  cases here : log.pages block page with
  | none => rfl
  | some entry =>
      have less := (sound.programmed block page).mp ⟨entry, here⟩
      exact absurd less (Nat.not_lt.mpr behind)

theorem Sound.nowhere_blank (sound : Sound n width nowhere log) (page : Nat) :
    log.pages nowhere.1 page = none :=
  pages_none sound (sound.blank ▸ Nat.zero_le page)

/-- An address that is somewhere is on its own page. -/
theorem Sound.at_home (sound : Sound n width nowhere log) (inBlock : (log.home addr).1 = block)
    (different : block ≠ nowhere.1) :
    ∃ value, log.pages block (log.home addr).2 = some (addr, value) := by
  rcases sound.home addr with lost | ⟨value, here⟩
  · rw [lost] at inBlock
    exact absurd inBlock.symm different
  · rw [inBlock] at here
    exact ⟨value, here⟩

theorem Sound.home_lt (sound : Sound n width nowhere log) (inBlock : (log.home addr).1 = block)
    (different : block ≠ nowhere.1) : (log.home addr).2 < log.fill block := by
  obtain ⟨value, here⟩ := sound.at_home inBlock different
  exact (sound.programmed block _).mp ⟨_, here⟩

/-- No two addresses share a page. -/
theorem Sound.home_inj (sound : Sound n width nowhere log) {other : Nat}
    (mapped : log.home addr ≠ nowhere) (same : log.home addr = log.home other) : addr = other := by
  rcases sound.home addr with lost | ⟨value, here⟩
  · exact absurd lost mapped
  · rcases sound.home other with lost | ⟨value', here'⟩
    · exact absurd (same.trans lost) mapped
    · rw [same, here'] at here
      exact (Prod.mk.inj (Option.some.inj here)).1.symm

/-- Addresses without a bound are nowhere. -/
theorem Sound.unmapped (sound : Sound n width nowhere log) (outside : n ≤ addr) :
    log.home addr = nowhere := by
  rcases sound.home addr with lost | ⟨value, here⟩
  · exact lost
  · exact absurd (sound.owner _ _ _ here) (Nat.not_lt.mpr outside)

theorem Sound.contents_eq_none (sound : Sound n width nowhere log) :
    log.contents addr = none ↔ log.home addr = nowhere := by
  constructor
  · intro empty
    rcases sound.home addr with lost | ⟨value, here⟩
    · exact lost
    · rw [contents, here] at empty
      exact absurd empty (Option.some_ne_none value)
  · intro lost
    rw [contents, lost, sound.nowhere_blank]
    rfl

/-! ### Append -/

/-- The next page of a block is nobody's home. -/
theorem Sound.home_ne_next (sound : Sound n width nowhere log) (different : block ≠ nowhere.1)
    (addr : Nat) : log.home addr ≠ (block, log.fill block) := by
  intro here
  have less := sound.home_lt (congrArg Prod.fst here) different
  rw [here] at less
  exact Nat.lt_irrefl _ less

theorem Sound.append (sound : Sound n width nowhere log) (isAddr : addr < n)
    (room : log.fill block < width) (different : block ≠ nowhere.1) :
    Sound n width nowhere (log.append block addr value) where
  programmed other page := by
    by_cases same : other = block
    · subst same
      by_cases here : page = log.fill other
      · subst here
        simp only [PageLog.append, programPage_same, Function.update_self]
        exact ⟨fun _ => Nat.lt_succ_self _, fun _ => ⟨_, rfl⟩⟩
      · simp only [PageLog.append, programPage_page here, Function.update_self]
        rw [sound.programmed]
        omega
    · simp only [PageLog.append, programPage_block same, Function.update_of_ne same]
      exact sound.programmed other page
  inWidth other := by
    by_cases same : other = block
    · subst same
      simp only [PageLog.append, Function.update_self]
      exact room
    · simp only [PageLog.append, Function.update_of_ne same]
      exact sound.inWidth other
  owner other page entry here := by
    by_cases same : (other, page) = (block, log.fill block)
    · obtain ⟨rfl, rfl⟩ := Prod.mk.inj same
      simp only [PageLog.append, programPage_same] at here
      rw [← Option.some.inj here]
      exact isAddr
    · simp only [PageLog.append, programPage_other same] at here
      exact sound.owner other page entry here
  home other := by
    by_cases same : other = addr
    · subst same
      refine Or.inr ⟨value, ?_⟩
      simp only [PageLog.append, Function.update_self, programPage_same]
    · simp only [PageLog.append, Function.update_of_ne same]
      rw [programPage_other (sound.home_ne_next different other)]
      exact sound.home other
  blank := by
    simp only [PageLog.append, Function.update_of_ne (Ne.symm different)]
    exact sound.blank

/-- The address has the new value, and the others have what they had. -/
theorem Sound.contents_append (sound : Sound n width nowhere log) (different : block ≠ nowhere.1) :
    (log.append block addr value).contents = Function.update log.contents addr (some value) := by
  funext other
  by_cases same : other = addr
  · subst same
    simp only [contents, PageLog.append, Function.update_self, programPage_same, Option.map_some]
  · simp only [contents, PageLog.append, Function.update_of_ne same]
    rw [programPage_other (sound.home_ne_next different other)]

/-- A copy changes no value. -/
theorem Sound.contents_copy (sound : Sound n width nowhere log) (different : block ≠ nowhere.1)
    (here : log.pages (log.home addr).1 (log.home addr).2 = some (addr, value)) :
    (log.append block addr value).contents = log.contents := by
  rw [sound.contents_append different]
  refine Function.update_eq_self_iff.mpr ?_
  rw [contents, here]
  rfl

/-! ### Removal -/

theorem Sound.forget (sound : Sound n width nowhere log) :
    Sound n width nowhere (log.forget nowhere addr) where
  programmed := sound.programmed
  inWidth := sound.inWidth
  owner := sound.owner
  home other := by
    by_cases same : other = addr
    · subst same
      exact Or.inl (Function.update_self _ _ _)
    · simp only [PageLog.forget, Function.update_of_ne same]
      exact sound.home other
  blank := sound.blank

theorem Sound.contents_forget (sound : Sound n width nowhere log) :
    (log.forget nowhere addr).contents = Function.update log.contents addr none := by
  funext other
  by_cases same : other = addr
  · subst same
    simp only [contents, PageLog.forget, Function.update_self, sound.nowhere_blank, Option.map_none]
  · simp only [contents, PageLog.forget, Function.update_of_ne same]

/-! ### Erase -/

theorem Sound.not_home (sound : Sound n width nowhere log) (different : block ≠ nowhere.1)
    (stale : live n log.home block = 0) (addr : Nat) : (log.home addr).1 ≠ block := by
  intro here
  by_cases isAddr : addr < n
  · exact live_eq_zero.mp stale addr isAddr here
  · rw [sound.unmapped (Nat.not_lt.mp isAddr)] at here
    exact different here.symm

theorem Sound.erase (sound : Sound n width nowhere log) (different : block ≠ nowhere.1)
    (stale : live n log.home block = 0) : Sound n width nowhere (log.erase block) where
  programmed other page := by
    by_cases same : other = block
    · subst same
      simp only [PageLog.erase, eraseBlock_same, Function.update_self]
      constructor
      · rintro ⟨_, wrong⟩
        exact absurd wrong.symm (Option.some_ne_none _)
      · intro less
        exact absurd less (Nat.not_lt_zero page)
    · simp only [PageLog.erase, eraseBlock_other same, Function.update_of_ne same]
      exact sound.programmed other page
  inWidth other := by
    by_cases same : other = block
    · subst same
      simp only [PageLog.erase, Function.update_self, Nat.zero_le]
    · simp only [PageLog.erase, Function.update_of_ne same]
      exact sound.inWidth other
  owner other page entry here := by
    by_cases same : other = block
    · subst same
      simp only [PageLog.erase, eraseBlock_same] at here
      exact absurd here.symm (Option.some_ne_none _)
    · simp only [PageLog.erase, eraseBlock_other same] at here
      exact sound.owner other page entry here
  home addr := by
    simp only [PageLog.erase, eraseBlock_other (sound.not_home different stale addr)]
    exact sound.home addr
  blank := by
    simp only [PageLog.erase, Function.update_of_ne (Ne.symm different)]
    exact sound.blank

theorem Sound.contents_erase (sound : Sound n width nowhere log) (different : block ≠ nowhere.1)
    (stale : live n log.home block = 0) : (log.erase block).contents = log.contents := by
  funext addr
  simp only [contents, PageLog.erase, eraseBlock_other (sound.not_home different stale addr)]

/-! ## Stale pages -/

/-- The addresses with their home in a block have pages of it. -/
theorem Sound.live_le_fill (sound : Sound n width nowhere log) (different : block ≠ nowhere.1) :
    live n log.home block ≤ log.fill block := by
  rw [live, ← Finset.card_range (log.fill block)]
  refine Finset.card_le_card_of_injOn (fun addr => (log.home addr).2) ?_ ?_
  · intro addr member
    obtain ⟨_, here⟩ := Finset.mem_filter.mp member
    exact Finset.mem_coe.mpr (Finset.mem_range.mpr (sound.home_lt here different))
  · intro addr member other member' same
    obtain ⟨_, here⟩ := Finset.mem_filter.mp (Finset.mem_coe.mp member)
    obtain ⟨_, here'⟩ := Finset.mem_filter.mp (Finset.mem_coe.mp member')
    refine sound.home_inj (fun lost => different ?_) (Prod.ext (here.trans here'.symm) same)
    rw [← here, lost]

end Rules

section Blocks

variable {n width k : Nat} {home : Nat → Place} {blocks : Finset Nat} {count : Nat → Nat}

/-- The blocks share the addresses. -/
theorem sum_live_le (n : Nat) (home : Nat → Place) (blocks : Finset Nat) :
    ∑ block ∈ blocks, live n home block ≤ n := by
  have total : ∑ block ∈ blocks, live n home block =
      ((Finset.range n).filter fun addr => (home addr).1 ∈ blocks).card :=
    Finset.sum_card_fiberwise_eq_card_filter _ _ _
  rw [total]
  exact (Finset.card_filter_le _ _).trans (Finset.card_range n).le

/-- If the blocks hold more pages than there are addresses, the rest is stale. -/
theorem le_sum_stale (exact : ∀ block ∈ blocks, count block + live n home block = width)
    (room : n + k * width ≤ blocks.card * width) : k * width ≤ ∑ block ∈ blocks, count block := by
  have total : ∑ block ∈ blocks, count block + ∑ block ∈ blocks, live n home block =
      blocks.card * width := by
    rw [← Finset.sum_add_distrib, Finset.sum_congr rfl exact, Finset.sum_const, smul_eq_mul]
  have := sum_live_le n home blocks
  omega

/-- So many of the blocks have a stale page. -/
theorem le_card_stale (positive : 0 < width)
    (exact : ∀ block ∈ blocks, count block + live n home block = width)
    (room : n + k * width ≤ blocks.card * width) :
    k ≤ (blocks.filter fun block => 0 < count block).card := by
  have enough := le_sum_stale exact room
  have onlyStale : ∑ block ∈ blocks, count block =
      ∑ block ∈ blocks.filter fun block => 0 < count block, count block := by
    rw [Finset.sum_filter]
    refine Finset.sum_congr rfl fun block _ => ?_
    split
    · rfl
    · omega
  have bounded : ∑ block ∈ blocks.filter fun block => 0 < count block, count block ≤
      (blocks.filter fun block => 0 < count block).card * width := by
    refine (Finset.sum_le_card_nsmul _ _ width fun block member => ?_).trans_eq (smul_eq_mul _ _)
    have := exact block (Finset.mem_filter.mp member).1
    omega
  rw [onlyStale] at enough
  exact Nat.le_of_mul_le_mul_right (enough.trans bounded) positive

end Blocks

end PageLog

end OpenNfm.Program
