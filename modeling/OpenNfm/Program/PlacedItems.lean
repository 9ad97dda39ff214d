import Mathlib.Algebra.BigOperators.Group.Finset.Piecewise
import Mathlib.Algebra.Ring.Nat

/-!
# Items in erasable blocks

Each item has its value on one page of a block.  A new value goes to the next page of the
current block; when that block is full, a directory of its pages is written behind them.
A block is erased after its items have moved.  The rules say what programming one page,
closing the current block and erasing a block do to the places of the items, and how many
pages of a block are live.
-/

namespace OpenNfm.Program

/-- A block and a page. -/
abbrev Place := Nat × Nat

/-! ## Live pages -/

section Live

/-- The number of the first `n` items that are placed in a block. -/
def live (n : Nat) (place : Nat → Place) (block : Nat) : Nat :=
  ((Finset.range n).filter fun item => (place item).1 = block).card

variable {n block : Nat} {place : Nat → Place}

theorem live_eq_sum (n : Nat) (place : Nat → Place) (block : Nat) :
    live n place block = ∑ item ∈ Finset.range n, if (place item).1 = block then 1 else 0 :=
  Finset.card_filter _ _

theorem live_zero (place : Nat → Place) (block : Nat) : live 0 place block = 0 :=
  rfl

theorem live_eq_zero : live n place block = 0 ↔ ∀ item < n, (place item).1 ≠ block := by
  rw [live, Finset.card_eq_zero, Finset.filter_eq_empty_iff]
  exact ⟨fun none item isItem => none (Finset.mem_range.mpr isItem),
    fun none item member => none item (Finset.mem_range.mp member)⟩

theorem live_pos {item : Nat} (isItem : item < n) (here : (place item).1 = block) :
    0 < live n place block :=
  Nat.pos_of_ne_zero fun zero => live_eq_zero.mp zero item isItem here

theorem live_congr {place' : Nat → Place} (same : ∀ item < n, (place' item).1 = (place item).1) :
    live n place' block = live n place block := by
  refine congrArg Finset.card (Finset.filter_congr fun item member => ?_)
  rw [same item (Finset.mem_range.mp member)]

/-- One more item. -/
theorem live_succ (n : Nat) (place : Nat → Place) (block : Nat) :
    live (n + 1) place block = live n place block + if (place n).1 = block then 1 else 0 := by
  rw [live_eq_sum, live_eq_sum, Finset.sum_range_succ]

/-- An item moves. -/
theorem live_update (place : Nat → Place) {item : Nat} (isItem : item < n) (target : Place)
    (block : Nat) :
    (live n (Function.update place item target) block +
        if (place item).1 = block then 1 else 0) =
      live n place block + if target.1 = block then 1 else 0 := by
  have member := Finset.mem_range.mpr isItem
  rw [live_eq_sum, live_eq_sum, ← Finset.add_sum_erase _ _ member,
    ← Finset.add_sum_erase _ _ member, Function.update_self]
  have others : ∑ other ∈ (Finset.range n).erase item,
        (if (Function.update place item target other).1 = block then 1 else 0) =
      ∑ other ∈ (Finset.range n).erase item, if (place other).1 = block then 1 else 0 := by
    refine Finset.sum_congr rfl fun other isOther => ?_
    rw [Function.update_of_ne (Finset.ne_of_mem_erase isOther)]
  rw [others]
  omega

/-- The items of a block are on different pages. -/
theorem live_le {width : Nat}
    (inWidth : ∀ item < n, (place item).1 = block → (place item).2 < width)
    (distinct : ∀ item < n, ∀ other < n, place item = place other → item = other) :
    live n place block ≤ width := by
  rw [live, ← Finset.card_range width]
  refine Finset.card_le_card_of_injOn (fun item => (place item).2) ?_ ?_
  · intro item member
    obtain ⟨isItem, here⟩ := Finset.mem_filter.mp member
    exact Finset.mem_coe.mpr (Finset.mem_range.mpr (inWidth item (Finset.mem_range.mp isItem) here))
  · intro item member other member' same
    obtain ⟨isItem, here⟩ := Finset.mem_filter.mp (Finset.mem_coe.mp member)
    obtain ⟨isOther, here'⟩ := Finset.mem_filter.mp (Finset.mem_coe.mp member')
    exact distinct item (Finset.mem_range.mp isItem) other (Finset.mem_range.mp isOther)
      (Prod.ext (here.trans here'.symm) same)

end Live

/-! ## Pages -/

section Placed

variable {V C : Type}

/-- What the pages of the items look like: the blocks of the area have so many pages for
items, and a directory behind them.  All items are below the bound. -/
structure ItemFormat (V C : Type) where
  bound : Nat
  width : Nat
  inArea : Nat → Prop
  /-- The content of a page holds a value. -/
  holds : V → C → Prop
  /-- The content of a directory names an item for a page. -/
  names : C → Nat → Nat → Prop

/-- The current block is open: it has been programmed up to a page. -/
def IsOpen (current : Option Place) (block : Nat) : Prop :=
  ∃ page, current = some (block, page)

/-- The first `n` items hold their values at their places, except in the erased block.  A
block that was ever used is full if it is neither the current nor the erased one. -/
structure Placed (f : ItemFormat V C) (n : Nat) (place : Nat → Place) (values : Nat → V)
    (current : Option Place) (erased : Option Nat) (used : Nat → Prop)
    (pages : Nat → Nat → Option C) : Prop where
  inArea : ∀ item < n, f.inArea (place item).1 ∧ (place item).2 < f.width
  distinct : ∀ item < n, ∀ other < n, place item = place other → item = other
  stored : ∀ item < n, erased ≠ some (place item).1 →
    ∃ content, pages (place item).1 (place item).2 = some content ∧ f.holds (values item) content
  named : ∀ item < n, erased ≠ some (place item).1 → ¬ IsOpen current (place item).1 →
    ∃ content, pages (place item).1 f.width = some content ∧ f.names content (place item).2 item
  entries : ∀ block content page item, f.inArea block → pages block f.width = some content →
    page < f.width → f.names content page item → item < f.bound
  atEnd : ∀ block page, current = some (block, page) → f.inArea block ∧ page ≤ f.width ∧
    erased ≠ some block ∧ (∀ before < page, pages block before ≠ none) ∧
    ∀ behind, page ≤ behind → behind ≤ f.width → pages block behind = none
  blank : ∀ block, erased = some block → f.inArea block ∧ ∀ page ≤ f.width, pages block page = none
  whole : ∀ block, f.inArea block → ¬ IsOpen current block → erased ≠ some block → used block →
    ∀ page ≤ f.width, pages block page ≠ none

/-- A page is programmed. -/
def programPage (pages : Nat → Nat → Option C) (block page : Nat) (content : C) :
    Nat → Nat → Option C :=
  Function.update pages block (Function.update (pages block) page (some content))

/-- A block is erased. -/
def eraseBlock (pages : Nat → Nat → Option C) (block : Nat) : Nat → Nat → Option C :=
  Function.update pages block fun _ => none

section Pages

variable {pages : Nat → Nat → Option C} {block page other otherPage : Nat} {content : C}

theorem programPage_same : programPage pages block page content block page = some content := by
  rw [programPage, Function.update_self, Function.update_self]

theorem programPage_block (different : other ≠ block) :
    programPage pages block page content other = pages other :=
  Function.update_of_ne different _ _

theorem programPage_page (different : otherPage ≠ page) :
    programPage pages block page content block otherPage = pages block otherPage := by
  rw [programPage, Function.update_self, Function.update_of_ne different]

theorem programPage_other (different : (other, otherPage) ≠ (block, page)) :
    programPage pages block page content other otherPage = pages other otherPage := by
  by_cases same : other = block
  · subst same
    exact programPage_page fun here => different (by rw [here])
  · rw [programPage_block same]

theorem programPage_ne_none (programmed : pages other otherPage ≠ none) :
    programPage pages block page content other otherPage ≠ none := by
  by_cases same : (other, otherPage) = (block, page)
  · obtain ⟨rfl, rfl⟩ := Prod.mk.inj same
    rw [programPage_same]
    exact Option.some_ne_none _
  · rw [programPage_other same]
    exact programmed

theorem eraseBlock_same : eraseBlock pages block block page = none := by
  rw [eraseBlock, Function.update_self]

theorem eraseBlock_other (different : other ≠ block) :
    eraseBlock pages block other = pages other :=
  Function.update_of_ne different _ _

end Pages

/-! ### What the rules do to the places -/

variable {f : ItemFormat V C} {n block page : Nat} {place : Nat → Place} {values : Nat → V}
  {current : Option Place} {erased : Option Nat} {used : Nat → Prop} {pages : Nat → Nat → Option C}
  {content : C}

theorem isOpen_some {other : Nat} : IsOpen (some (block, page)) other ↔ other = block :=
  ⟨fun ⟨_, same⟩ => (Prod.mk.inj (Option.some.inj same)).1.symm, fun same => ⟨page, same ▸ rfl⟩⟩

theorem not_isOpen_none : ¬ IsOpen none block :=
  fun ⟨_, wrong⟩ => Option.some_ne_none _ wrong.symm

namespace Placed

theorem congr {used' : Nat → Prop} {pages' : Nat → Nat → Option C}
    (placed : Placed f n place values current erased used pages)
    (same : ∀ block, f.inArea block → pages' block = pages block)
    (uses : ∀ block, f.inArea block → used' block → used block) :
    Placed f n place values current erased used' pages' where
  inArea := placed.inArea
  distinct := placed.distinct
  stored item isItem intact := by
    rw [same _ (placed.inArea item isItem).1]
    exact placed.stored item isItem intact
  named item isItem intact closed := by
    rw [same _ (placed.inArea item isItem).1]
    exact placed.named item isItem intact closed
  entries block content page item inArea := by
    rw [same block inArea]
    exact placed.entries block content page item inArea
  atEnd block page here := by
    rw [same block (placed.atEnd block page here).1]
    exact placed.atEnd block page here
  blank block here := by
    rw [same block (placed.blank block here).1]
    exact placed.blank block here
  whole block inArea closed intact isUsed := by
    rw [same block inArea]
    exact placed.whole block inArea closed intact (uses block inArea isUsed)

theorem withValues {values' : Nat → V} (placed : Placed f n place values current erased used pages)
    (same : ∀ item < n, erased ≠ some (place item).1 → values' item = values item) :
    Placed f n place values' current erased used pages :=
  { placed with
    stored := fun item isItem intact => by
      rw [same item isItem intact]
      exact placed.stored item isItem intact }

/-- No item is on a page that is not programmed. -/
theorem place_ne {item : Nat} (placed : Placed f n place values current erased used pages)
    (isItem : item < n) (intact : erased ≠ some (place item).1) (blank : pages block page = none) :
    place item ≠ (block, page) := by
  intro here
  obtain ⟨content, programmed, _⟩ := placed.stored item isItem intact
  rw [here, blank] at programmed
  exact Option.some_ne_none _ programmed.symm

/-- A value goes to the next page of the current block: a new one for an item, or the value
of the next item. -/
theorem writeItem {n' item : Nat} {value : V} {used' : Nat → Prop}
    (placed : Placed f n place values (some (block, page)) erased used pages)
    (room : page < f.width) (others : ∀ other < n', other = item ∨ other < n)
    (holds : f.holds value content) (uses : ∀ other, used' other → other = block ∨ used other) :
    Placed f n' (Function.update place item (block, page)) (Function.update values item value)
      (some (block, page + 1)) erased used' (programPage pages block page content) := by
  obtain ⟨isArea, _, notErased, filled, behind⟩ := placed.atEnd block page rfl
  have blankHere := behind page (Nat.le_refl _) (Nat.le_of_lt room)
  have earlier : ∀ other < n', other ≠ item → other < n := fun other isOther different =>
    (others other isOther).resolve_left different
  have placeHere : Function.update place item (block, page) item = (block, page) :=
    Function.update_self _ _ _
  have placeOther : ∀ other, other ≠ item →
      Function.update place item (block, page) other = place other :=
    fun other different => Function.update_of_ne different _ _
  have apart : ∀ other < n', other ≠ item → place other ≠ (block, page) := by
    intro other isOther different here
    have intact : erased ≠ some (place other).1 := by
      rw [here]
      exact notErased
    exact placed.place_ne (earlier other isOther different) intact blankHere here
  refine ⟨?_, ?_, ?_, ?_, ?_, ?_, ?_, ?_⟩
  · intro other isOther
    by_cases same : other = item
    · rw [same, placeHere]
      exact ⟨isArea, room⟩
    · rw [placeOther other same]
      exact placed.inArea other (earlier other isOther same)
  · intro first isFirst second isSecond equal
    by_cases same : first = item <;> by_cases same' : second = item
    · rw [same, same']
    · rw [same, placeHere, placeOther second same'] at equal
      exact absurd equal.symm (apart second isSecond same')
    · rw [same', placeHere, placeOther first same] at equal
      exact absurd equal (apart first isFirst same)
    · rw [placeOther first same, placeOther second same'] at equal
      exact placed.distinct first (earlier first isFirst same) second
        (earlier second isSecond same') equal
  · intro other isOther intact
    by_cases same : other = item
    · rw [same, placeHere, Function.update_self]
      exact ⟨content, programPage_same, holds⟩
    · rw [placeOther other same] at intact ⊢
      rw [Function.update_of_ne same, programPage_other (apart other isOther same)]
      exact placed.stored other (earlier other isOther same) intact
  · intro other isOther intact closed
    rw [isOpen_some] at closed
    by_cases same : other = item
    · rw [same, placeHere] at closed
      exact absurd rfl closed
    · rw [placeOther other same] at intact closed ⊢
      rw [programPage_block closed]
      exact placed.named other (earlier other isOther same) intact (mt isOpen_some.mp closed)
  · intro block' content' page' item' inArea directory
    have unchanged : programPage pages block page content block' f.width = pages block' f.width :=
      programPage_other fun here => Nat.ne_of_gt room (Prod.mk.inj here).2
    rw [unchanged] at directory
    exact placed.entries block' content' page' item' inArea directory
  · intro block' page' here
    obtain ⟨rfl, rfl⟩ := Prod.mk.inj (Option.some.inj here)
    refine ⟨isArea, room, notErased, fun before less => ?_, fun later less => ?_⟩
    · by_cases last : before = page
      · rw [last, programPage_same]
        exact Option.some_ne_none _
      · rw [programPage_page last]
        exact filled before (by omega)
    · rw [programPage_page (by omega)]
      exact behind later (by omega)
  · intro block' here
    have different : block' ≠ block := fun same => notErased (same ▸ here)
    rw [programPage_block different]
    exact placed.blank block' here
  · intro block' inArea closed intact isUsed
    rw [isOpen_some] at closed
    rw [programPage_block closed]
    exact placed.whole block' inArea (mt isOpen_some.mp closed) intact
      ((uses block' isUsed).resolve_left closed)

/-- The directory of a full block is written. -/
theorem close (content : C) (used' : Nat → Prop)
    (placed : Placed f n place values (some (block, f.width)) erased used pages)
    (names : ∀ item < n, (place item).1 = block → f.names content (place item).2 item)
    (entries : ∀ page item, page < f.width → f.names content page item → item < f.bound)
    (uses : ∀ other, used' other → other = block ∨ used other) :
    Placed f n place values none erased used' (programPage pages block f.width content) := by
  obtain ⟨isArea, _, notErased, filled, behind⟩ := placed.atEnd block f.width rfl
  have items : ∀ other page, page < f.width →
      programPage pages block f.width content other page = pages other page :=
        fun other page isPage =>
    programPage_other fun here => Nat.ne_of_lt isPage (Prod.mk.inj here).2
  refine ⟨placed.inArea, placed.distinct, ?_, ?_, ?_, ?_, ?_, ?_⟩
  · intro item isItem intact
    rw [items _ _ (placed.inArea item isItem).2]
    exact placed.stored item isItem intact
  · intro item isItem intact _
    by_cases here : (place item).1 = block
    · rw [here]
      exact ⟨content, programPage_same, names item isItem here⟩
    · rw [programPage_block here]
      exact placed.named item isItem intact (mt isOpen_some.mp here)
  · intro block' content' page' item' inArea directory isPage named
    by_cases here : block' = block
    · rw [here, programPage_same] at directory
      exact entries page' item' isPage (Option.some.inj directory ▸ named)
    · rw [programPage_block here] at directory
      exact placed.entries block' content' page' item' inArea directory isPage named
  · intro _ _ wrong
    exact absurd wrong.symm (Option.some_ne_none _)
  · intro block' here
    have different : block' ≠ block := fun same => notErased (same ▸ here)
    rw [programPage_block different]
    exact placed.blank block' here
  · intro block' inArea _ intact isUsed
    by_cases here : block' = block
    · intro page le
      rw [here]
      rcases Nat.lt_or_eq_of_le le with isPage | rfl
      · rw [items _ _ isPage]
        exact filled page isPage
      · rw [programPage_same]
        exact Option.some_ne_none _
    · rw [programPage_block here]
      exact placed.whole block' inArea (mt isOpen_some.mp here) intact
        ((uses block' isUsed).resolve_left here)

/-- The erased block becomes the current one. -/
theorem openErased (placed : Placed f n place values none (some block) used pages)
    (unused : ∀ item < n, (place item).1 ≠ block) :
    Placed f n place values (some (block, 0)) none used pages := by
  obtain ⟨isArea, blank⟩ := placed.blank block rfl
  have intact : ∀ {other : Nat}, other ≠ block → some block ≠ some other := fun different same =>
    different (Option.some.inj same).symm
  refine ⟨placed.inArea, placed.distinct, ?_, ?_, placed.entries, ?_, ?_, ?_⟩
  · exact fun item isItem _ => placed.stored item isItem (intact (unused item isItem))
  · exact fun item isItem _ _ => placed.named item isItem (intact (unused item isItem))
      not_isOpen_none
  · intro block' page' here
    obtain ⟨rfl, rfl⟩ := Prod.mk.inj (Option.some.inj here)
    exact ⟨isArea, Nat.zero_le _, Option.some_ne_none _ ∘ Eq.symm,
      fun before less => absurd less (Nat.not_lt_zero before), fun later _ => blank later⟩
  · intro _ wrong
    exact absurd wrong.symm (Option.some_ne_none _)
  · intro block' inArea closed _
    exact placed.whole block' inArea not_isOpen_none (intact (mt isOpen_some.mpr closed))

/-- A blank block may be taken for the erased one. -/
theorem withErased {cur : Place} {next : Nat}
    (placed : Placed f n place values (some cur) none used pages) (inArea : f.inArea next)
    (other : next ≠ cur.1) (blank : ∀ page ≤ f.width, pages next page = none) :
    Placed f n place values (some cur) (some next) used pages where
  inArea := placed.inArea
  distinct := placed.distinct
  stored item isItem _ := placed.stored item isItem (Option.some_ne_none _).symm
  named item isItem _ := placed.named item isItem (Option.some_ne_none _).symm
  entries := placed.entries
  atEnd block page here := by
    obtain ⟨isArea, le, _, rest⟩ := placed.atEnd block page here
    refine ⟨isArea, le, fun same => other ?_, rest⟩
    rw [Option.some.inj same, Option.some.inj here]
  blank block here := by
    obtain rfl := Option.some.inj here
    exact ⟨inArea, blank⟩
  whole block inArea closed _ := placed.whole block inArea closed (Option.some_ne_none _).symm

/-- Nothing is placed in an area that was never used. -/
theorem start {next : Nat} (inArea : f.inArea block) (nextInArea : f.inArea next)
    (other : next ≠ block) (blank : ∀ block, f.inArea block → ∀ page, pages block page = none)
    (unused : ∀ block, f.inArea block → ¬ used block) :
    Placed f 0 place values (some (block, 0)) (some next) used pages where
  inArea item wrong := absurd wrong (Nat.not_lt_zero item)
  distinct item wrong := absurd wrong (Nat.not_lt_zero item)
  stored item wrong := absurd wrong (Nat.not_lt_zero item)
  named item wrong := absurd wrong (Nat.not_lt_zero item)
  entries block content page item isArea programmed := by
    rw [blank block isArea] at programmed
    exact absurd programmed.symm (Option.some_ne_none _)
  atEnd block page here := by
    obtain ⟨rfl, rfl⟩ := Prod.mk.inj (Option.some.inj here)
    exact ⟨inArea, Nat.zero_le _, fun same => other (Option.some.inj same),
      fun before less => absurd less (Nat.not_lt_zero before), fun page _ _ => blank _ inArea page⟩
  blank block here := by
    obtain rfl := Option.some.inj here
    exact ⟨nextInArea, fun page _ => blank _ nextInArea page⟩
  whole block isArea _ _ isUsed := absurd isUsed (unused block isArea)

/-- A block is erased.  What it has held is lost. -/
theorem erase {cur : Place} {victim : Nat}
    (placed : Placed f n place values (some cur) none used pages) (inArea : f.inArea victim)
    (other : victim ≠ cur.1) :
    Placed f n place values (some cur) (some victim) used (eraseBlock pages victim) := by
  have closed : ∀ {block : Nat}, some victim ≠ some block → block ≠ victim := fun intact same =>
    intact (congrArg some same.symm)
  refine ⟨placed.inArea, placed.distinct, ?_, ?_, ?_, ?_, ?_, ?_⟩
  · intro item isItem intact
    rw [eraseBlock_other (closed intact)]
    exact placed.stored item isItem (Option.some_ne_none _ ∘ Eq.symm)
  · intro item isItem intact closed'
    rw [eraseBlock_other (closed intact)]
    exact placed.named item isItem (Option.some_ne_none _ ∘ Eq.symm) closed'
  · intro block content page item inArea directory
    by_cases here : block = victim
    · rw [here, eraseBlock_same] at directory
      exact absurd directory.symm (Option.some_ne_none _)
    · rw [eraseBlock_other here] at directory
      exact placed.entries block content page item inArea directory
  · intro block page here
    obtain rfl := Option.some.inj here
    obtain ⟨isArea, le, _, filled, behind⟩ := placed.atEnd block page rfl
    rw [eraseBlock_other (Ne.symm other)]
    exact ⟨isArea, le, fun same => other (Option.some.inj same), filled, behind⟩
  · intro block here
    obtain rfl := Option.some.inj here
    exact ⟨inArea, fun page _ => eraseBlock_same⟩
  · intro block inArea closed' intact
    rw [eraseBlock_other (closed intact)]
    exact placed.whole block inArea closed' (Option.some_ne_none _ ∘ Eq.symm)

/-- A block without items is erased, and becomes the current one. -/
theorem restart {victim : Nat} (placed : Placed f n place values none erased used pages)
    (inArea : f.inArea victim) (intact : erased ≠ some victim)
    (unused : ∀ item < n, (place item).1 ≠ victim) :
    Placed f n place values (some (victim, 0)) erased used (eraseBlock pages victim) := by
  refine ⟨placed.inArea, placed.distinct, ?_, ?_, ?_, ?_, ?_, ?_⟩
  · intro item isItem
    rw [eraseBlock_other (unused item isItem)]
    exact placed.stored item isItem
  · intro item isItem intact' _
    rw [eraseBlock_other (unused item isItem)]
    exact placed.named item isItem intact' not_isOpen_none
  · intro block content page item inArea directory
    by_cases here : block = victim
    · rw [here, eraseBlock_same] at directory
      exact absurd directory.symm (Option.some_ne_none _)
    · rw [eraseBlock_other here] at directory
      exact placed.entries block content page item inArea directory
  · intro block page here
    obtain ⟨rfl, rfl⟩ := Prod.mk.inj (Option.some.inj here)
    exact ⟨inArea, Nat.zero_le _, intact, fun before less => absurd less (Nat.not_lt_zero before),
      fun later _ _ => eraseBlock_same⟩
  · intro block here
    have different : block ≠ victim := fun same => intact (same ▸ here)
    rw [eraseBlock_other different]
    exact placed.blank block here
  · intro block inArea closed intact'
    rw [isOpen_some] at closed
    rw [eraseBlock_other closed]
    exact placed.whole block inArea not_isOpen_none intact'

end Placed

/-! ## Counts of the pages that are not live -/

/-- The number of pages that are programmed with values in a block, if it is not erased. -/
def ItemFormat.filled (f : ItemFormat V C) : Option Place → Nat → Nat
  | some (open_, page), block => if open_ = block then page else f.width
  | none, _ => f.width

theorem filled_le (le : page ≤ f.width) (other : Nat) :
    f.filled (some (block, page)) other ≤ f.width := by
  simp only [ItemFormat.filled]
  split
  · exact le
  · exact Nat.le_refl _

/-- The number of pages of a block that are programmed with values. -/
def ItemFormat.programmed (f : ItemFormat V C) (pages : Nat → Nat → Option C) (block : Nat) : Nat :=
  ((Finset.range f.width).filter fun page => (pages block page).isSome = true).card

/-- A block is programmed from its first page on. -/
theorem ItemFormat.programmed_of_prefix (le : page ≤ f.width)
    (filled : ∀ before < page, pages block before ≠ none)
    (behind : ∀ later, page ≤ later → later < f.width → pages block later = none) :
    f.programmed pages block = page := by
  rw [ItemFormat.programmed, ← Finset.card_range page]
  refine congrArg Finset.card (Finset.ext fun other => ?_)
  rw [Finset.mem_filter, Finset.mem_range, Finset.mem_range]
  constructor
  · rintro ⟨isPage, programmed⟩
    by_contra later
    rw [behind other (Nat.not_lt.mp later) isPage] at programmed
    exact Bool.false_ne_true programmed
  · exact fun before => ⟨Nat.lt_of_lt_of_le before le,
      Option.isSome_iff_ne_none.mpr (filled other before)⟩

/-- Nothing is programmed in the erased block. -/
theorem Placed.programmed_erased
    (placed : Placed f n place values current (some block) used pages) :
    f.programmed pages block = 0 :=
  f.programmed_of_prefix (Nat.zero_le _) (fun before less => absurd less (Nat.not_lt_zero before))
    fun later _ isPage => (placed.blank block rfl).2 later (Nat.le_of_lt isPage)

/-- The current block is programmed up to its page, and a block that was ever used is full. -/
theorem Placed.programmed_filled (placed : Placed f n place values (some (block, page)) erased used
      pages) {other : Nat} (inArea : f.inArea other) (intact : erased ≠ some other)
    (touched : used other ∨ other = block) :
    f.programmed pages other = f.filled (some (block, page)) other := by
  simp only [ItemFormat.filled]
  by_cases here : block = other
  · subst here
    obtain ⟨_, le, _, filled, behind⟩ := placed.atEnd block page rfl
    rw [if_pos rfl]
    exact f.programmed_of_prefix le filled fun later before isPage =>
      behind later before (Nat.le_of_lt isPage)
  · have isUsed := touched.resolve_right (Ne.symm here)
    rw [if_neg here]
    refine f.programmed_of_prefix (Nat.le_refl _) (fun before less => ?_)
      fun later before isPage => absurd isPage (Nat.not_lt.mpr before)
    exact placed.whole other inArea (fun isOpen => here (isOpen_some.mp isOpen).symm) intact isUsed
      before (Nat.le_of_lt less)

/-- In every block but the skipped ones, a page is counted or live. -/
def Counted (f : ItemFormat V C) (n : Nat) (place : Nat → Place) (current : Option Place)
    (skipped : Nat → Prop) (counts : Nat → Nat) : Prop :=
  ∀ block, f.inArea block → ¬ skipped block →
    counts block + live n place block = f.filled current block

namespace Counted

variable {skipped : Nat → Prop} {counts : Nat → Nat}

/-- An item moves to the current block, and one more page of its old block is counted. -/
theorem moveItem {item : Nat} (counted : Counted f n place (some (block, page)) skipped counts)
    (isItem : item < n) :
    Counted f n (Function.update place item (block, page)) (some (block, page + 1)) skipped
      (Function.update counts (place item).1 (counts (place item).1 + 1)) := by
  intro other inArea kept
  have before := counted other inArea kept
  have moved := live_update place isItem (block, page) other
  simp only [ItemFormat.filled] at before ⊢
  by_cases old : (place item).1 = other
  · rw [old, Function.update_self]
    rw [if_pos old] at moved
    split at moved <;> rename_i here
    · rw [if_pos here] at before ⊢
      omega
    · rw [if_neg here] at before ⊢
      omega
  · rw [Function.update_of_ne (Ne.symm old)]
    rw [if_neg old] at moved
    split at moved <;> rename_i here
    · rw [if_pos here] at before ⊢
      omega
    · rw [if_neg here] at before ⊢
      omega

/-- The count of the block that an item is in leaves room for one more page. -/
theorem lt_width {item : Nat} (counted : Counted f n place current skipped counts)
    (isItem : item < n) (inArea : f.inArea (place item).1) (kept : ¬ skipped (place item).1) :
    counts (place item).1 < f.filled current (place item).1 := by
  have total := counted _ inArea kept
  have positive := live_pos isItem (rfl : (place item).1 = (place item).1)
  omega

theorem close (counted : Counted f n place (some (block, f.width)) skipped counts) :
    Counted f n place none skipped counts := by
  intro other inArea kept
  rw [counted other inArea kept]
  simp only [ItemFormat.filled]
  split <;> rfl

/-- An item moves between two blocks that are not counted. -/
theorem moveSkipped {item : Nat} (counted : Counted f n place none skipped counts)
    (isItem : item < n) (fromSkipped : skipped (place item).1) (toSkipped : skipped block) :
    Counted f n (Function.update place item (block, page)) none skipped counts := by
  intro other inArea kept
  have before := counted other inArea kept
  have moved := live_update place isItem (block, page) other
  have notFrom : (place item).1 ≠ other := fun here => kept (here ▸ fromSkipped)
  have notTo : (block, page).1 ≠ other := fun here => kept (here ▸ toSkipped)
  rw [if_neg notFrom, if_neg notTo] at moved
  omega

/-- Of the two blocks, one holds all that it was programmed with, and the other one is erased. -/
theorem switch {victim : Nat}
    (counted : Counted f n place none (fun other => other = victim ∨ other = block) counts)
    (all : live n place block = page) :
    Counted f n place (some (block, page)) (fun other => other = victim)
      (Function.update (Function.update counts block 0) victim 0) := by
  intro other inArea kept
  simp only [ItemFormat.filled]
  rw [Function.update_of_ne kept]
  by_cases here : block = other
  · rw [if_pos here, ← here, Function.update_self, all, Nat.zero_add]
  · rw [if_neg here, Function.update_of_ne (Ne.symm here)]
    exact counted other inArea fun isEither => isEither.elim kept fun same => here same.symm

/-- A block without items is erased, and becomes the current one. -/
theorem restart {victim : Nat} (counted : Counted f n place none skipped counts)
    (unused : live n place victim = 0) :
    Counted f n place (some (victim, 0)) skipped (Function.update counts victim 0) := by
  intro other inArea kept
  simp only [ItemFormat.filled]
  by_cases here : victim = other
  · rw [if_pos here, ← here, Function.update_self, unused]
  · rw [if_neg here, Function.update_of_ne (Ne.symm here)]
    exact counted other inArea kept

theorem congr {counts' : Nat → Nat} (counted : Counted f n place current skipped counts)
    (same : ∀ block, f.inArea block → ¬ skipped block → counts' block = counts block) :
    Counted f n place current skipped counts' := by
  intro other inArea kept
  rw [same other inArea kept]
  exact counted other inArea kept

theorem mono {skipped' : Nat → Prop} (counted : Counted f n place current skipped counts)
    (more : ∀ block, skipped block → skipped' block) :
    Counted f n place current skipped' counts :=
  fun other inArea kept => counted other inArea (mt (more other) kept)

end Counted

end Placed

end OpenNfm.Program
