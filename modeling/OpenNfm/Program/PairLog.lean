import Mathlib.Data.Nat.Bitwise
import Mathlib.Logic.Function.Basic

/-!
# Logs on two erasable blocks

A log appends entries of a fixed number of pages to a block.  When the block is full it
erases the other block of the pair and goes on there.  One entry is named from outside,
until a later one takes its place.

`Named` says that the named entry is intact and that a scan from it finds the place behind
the last entry of its block.  `Cursor` is the place of the next entry: it may have moved on
to the other block by at most so many entries, the room that is left before the named
block would be erased.
-/

namespace OpenNfm.Program

variable {P : Type}

/-! ## The blocks of a pair -/

theorem pair_ne (block : Nat) : block ^^^ 1 ≠ block := by
  intro same
  have zero : block ^^^ (block ^^^ 1) = 0 := by rw [same, Nat.xor_self]
  rw [Nat.xor_xor_cancel_left] at zero
  exact Nat.one_ne_zero zero

theorem pair_div (block : Nat) : (block ^^^ 1) / 2 = block / 2 := by
  rw [Nat.xor_div_two]
  exact Nat.xor_zero _

theorem pair_pair (block : Nat) : (block ^^^ 1) ^^^ 1 = block :=
  Nat.xor_xor_cancel_right _ _

/-! ## Entries in one block -/

/-- From page `first` on a block holds entries of `step` pages, up to page `last`. -/
structure Chain (pages : Nat → Option P) (size step first last : Nat) : Prop where
  first_dvd : step ∣ first
  last_dvd : step ∣ last
  lt : first < last
  le : last ≤ size
  starts : ∀ page, first ≤ page → page < last → step ∣ page → pages page ≠ none
  blank : ∀ page, last ≤ page → page < size → pages page = none

/-- The first `n` pages of an entry have been written from `start` on. -/
structure Appended (before : Nat → Option P) (start : Nat) (content : Nat → P) (n : Nat)
    (after : Nat → Option P) : Prop where
  written : ∀ i < n, after (start + i) = some (content i)
  rest : ∀ page, page < start ∨ start + n ≤ page → after page = before page

namespace Appended

variable {before after : Nat → Option P} {start n : Nat} {content : Nat → P}

theorem zero (pages : Nat → Option P) (start : Nat) (content : Nat → P) :
    Appended pages start content 0 pages :=
  ⟨nofun, fun _ _ => rfl⟩

theorem succ (appended : Appended before start content n after) :
    Appended before start content (n + 1)
      (Function.update after (start + n) (some (content n))) := by
  constructor
  · intro i lt
    by_cases last : i = n
    · rw [last, Function.update_self]
    · rw [Function.update_of_ne (by omega)]
      exact appended.written i (by omega)
  · intro page outside
    rw [Function.update_of_ne (by omega)]
    exact appended.rest page (by omega)

end Appended

section Entries

variable {pages after : Nat → Option P} {size step first last start n : Nat} {content : Nat → P}

theorem step_le {step first last : Nat} (first_dvd : step ∣ first) (last_dvd : step ∣ last)
    (lt : first < last) : first + step ≤ last := by
  obtain ⟨i, rfl⟩ := first_dvd
  obtain ⟨j, rfl⟩ := last_dvd
  have less : i < j := Nat.lt_of_mul_lt_mul_left lt
  calc step * i + step = step * (i + 1) := (Nat.mul_succ step i).symm
    _ ≤ step * j := Nat.mul_le_mul_left step less

/-- An entry behind the last one, complete or not, makes the chain longer. -/
theorem Chain.append (chain : Chain pages size step first last) (whole : step ∣ size)
    (room : last < size) (pos : 0 < n) (le : n ≤ step)
    (appended : Appended pages last content n after) :
    Chain after size step first (last + step) where
  first_dvd := chain.first_dvd
  last_dvd := Nat.dvd_add chain.last_dvd (Nat.dvd_refl step)
  lt := Nat.lt_of_lt_of_le chain.lt (Nat.le_add_right _ _)
  le := step_le chain.last_dvd whole room
  starts page low high multiple := by
    rcases Nat.lt_trichotomy page last with before | same | behind
    · rw [appended.rest page (.inl before)]
      exact chain.starts page low before multiple
    · have start := appended.written 0 pos
      rw [Nat.add_zero, ← same] at start
      rw [start]
      exact Option.some_ne_none _
    · have := step_le chain.last_dvd multiple behind
      omega
  blank page behind isPage := by
    rw [appended.rest page (.inr (by omega))]
    exact chain.blank page (by omega) isPage

/-- A complete entry on its own. -/
theorem Chain.single (multiple : step ∣ start) (whole : step ∣ size) (room : start < size)
    (pos : 0 < step) (blank : ∀ page, start ≤ page → page < size → pages page = none)
    (appended : Appended pages start content step after) :
    Chain after size step start (start + step) where
  first_dvd := multiple
  last_dvd := Nat.dvd_add multiple (Nat.dvd_refl step)
  lt := Nat.lt_add_of_pos_right pos
  le := step_le multiple whole room
  starts page low high multiple' := by
    rcases Nat.lt_or_eq_of_le low with behind | rfl
    · have := step_le multiple multiple' behind
      omega
    · have entry := appended.written 0 pos
      rw [Nat.add_zero] at entry
      rw [entry]
      exact Option.some_ne_none _
  blank page behind isPage := by
    rw [appended.rest page (.inr behind)]
    exact blank page (by omega) isPage

end Entries

/-! ## The named entry -/

/-- The entry of a pair of blocks that is named from outside is intact. -/
structure Named (pages : Nat → Nat → Option P) (size step pair : Nat) (content : Nat → P)
    (block first last : Nat) : Prop where
  inPair : block / 2 = pair
  chain : Chain (pages block) size step first last
  entry : ∀ i < step, pages block (first + i) = some (content i)

theorem Named.congr {pages after : Nat → Nat → Option P} {size step pair block first last : Nat}
    {content : Nat → P} (named : Named pages size step pair content block first last)
    (same : ∀ other, other / 2 = pair → after other = pages other) :
    Named after size step pair content block first last := by
  have equal := same block named.inPair
  exact ⟨named.inPair, equal ▸ named.chain, equal ▸ named.entry⟩

/-- The place for the next entry, when the named block ends at page `last`. -/
inductive Cursor (pages : Nat → Nat → Option P) (size step block last room : Nat) :
    Nat → Nat → Prop
  | here : Cursor pages size step block last room block last
  | there {page : Nat} (multiple : step ∣ page) (le : page ≤ room * step)
      (blank : ∀ other, page ≤ other → other < size → pages (block ^^^ 1) other = none) :
      Cursor pages size step block last room (block ^^^ 1) page

theorem Cursor.of_eq {pages : Nat → Nat → Option P}
    {size step block last room cursorBlock cursorPage : Nat} (onBlock : cursorBlock = block)
    (onPage : cursorPage = last) :
    Cursor pages size step block last room cursorBlock cursorPage := by
  rw [onBlock, onPage]
  exact .here

theorem Cursor.congr {pages after : Nat → Nat → Option P}
    {size step pair block last room cursorBlock cursorPage : Nat}
    (cursor : Cursor pages size step block last room cursorBlock cursorPage)
    (inPair : block / 2 = pair) (same : ∀ other, other / 2 = pair → after other = pages other) :
    Cursor after size step block last room cursorBlock cursorPage := by
  cases cursor with
  | here => exact .here
  | there multiple le blank =>
      refine .there multiple le fun other behind isPage => ?_
      rw [same _ ((pair_div block).trans inPair)]
      exact blank other behind isPage

theorem Cursor.mono {pages : Nat → Nat → Option P}
    {size step block last room more cursorBlock cursorPage : Nat}
    (cursor : Cursor pages size step block last room cursorBlock cursorPage)
    (le : room ≤ more) : Cursor pages size step block last more cursorBlock cursorPage := by
  cases cursor with
  | here => exact .here
  | there multiple bound blank =>
      exact .there multiple (Nat.le_trans bound (Nat.mul_le_mul_right step le)) blank

/-! ## Appending -/

/-- Where a full log goes on. -/
def nextPlace (size block page : Nat) : Nat × Nat :=
  if page = size then (block ^^^ 1, 0) else (block, page)

/-- The log has turned to the other block if its block is full, and `n` pages of an entry have
been written at the next place. -/
structure LogStep (size : Nat) (before : Nat → Nat → Option P) (block page : Nat)
    (content : Nat → P) (n : Nat) (after : Nat → Nat → Option P) : Prop where
  others : ∀ other, other ≠ (nextPlace size block page).1 → after other = before other
  entry : Appended (if page = size then fun _ => none else before block)
    (nextPlace size block page).2 content n (after (nextPlace size block page).1)

/-- There is room for an entry at the next place of a log. -/
structure Room (pages : Nat → Nat → Option P) (size step pair block page : Nat) : Prop where
  inPair : block / 2 = pair
  multiple : step ∣ (nextPlace size block page).2
  isPage : (nextPlace size block page).2 < size
  blank : ∀ other, (nextPlace size block page).2 ≤ other → other < size →
    (if page = size then fun _ => none else pages block) other = none

section Append

variable {before after : Nat → Nat → Option P}
  {size step pair block page first last room cursorBlock cursorPage n : Nat} {old new : Nat → P}

theorem nextPlace_div : (nextPlace size block page).1 / 2 = block / 2 := by
  unfold nextPlace
  split
  · exact pair_div block
  · rfl

theorem Room.target (space : Room before size step pair block page) :
    (nextPlace size block page).1 / 2 = pair :=
  nextPlace_div.trans space.inPair

theorem Room.fits (space : Room before size step pair block page) (whole : step ∣ size) :
    (nextPlace size block page).2 + step ≤ size :=
  step_le space.multiple whole space.isPage

/-- A complete entry can be named. -/
theorem Room.named (space : Room before size step pair block page) (whole : step ∣ size)
    (pos : 0 < step) (appended : LogStep size before block page new step after) :
    Named after size step pair new (nextPlace size block page).1 (nextPlace size block page).2
      ((nextPlace size block page).2 + step) :=
  ⟨space.target, Chain.single space.multiple whole space.isPage pos space.blank appended.entry,
    appended.entry.written⟩

/-- The next place of the cursor is erased. -/
theorem Cursor.hasRoom (cursor : Cursor before size step block last room cursorBlock cursorPage)
    (named : Named before size step pair old block first last)
    (fits : (room + 1) * step ≤ size) (pos : 0 < step) :
    Room before size step pair cursorBlock cursorPage := by
  have roomy : room * step < size := by
    rw [Nat.succ_mul] at fits
    omega
  cases cursor with
  | here =>
      by_cases full : last = size
      · refine ⟨named.inPair, ?_, ?_, ?_⟩ <;> simp only [nextPlace, full, if_true]
        · exact Nat.dvd_zero step
        · omega
        · exact fun _ _ _ => trivial
      · refine ⟨named.inPair, ?_, ?_, ?_⟩ <;> simp only [nextPlace, full, if_false]
        · exact named.chain.last_dvd
        · exact Nat.lt_of_le_of_ne named.chain.le full
        · exact named.chain.blank
  | there multiple le blank =>
      have notFull : cursorPage ≠ size := by omega
      refine ⟨(pair_div _).trans named.inPair, ?_, ?_, ?_⟩ <;>
        simp only [nextPlace, notFull, if_false]
      · exact multiple
      · omega
      · exact blank

/-- Appending keeps the named entry, and the cursor moves on by at most one entry. -/
theorem Named.append (named : Named before size step pair old block first last)
    (cursor : Cursor before size step block last room cursorBlock cursorPage)
    (whole : step ∣ size) (fits : (room + 1) * step ≤ size) (pos : 0 < step) (le : n ≤ step)
    (appended : LogStep size before cursorBlock cursorPage new n after) :
    ∃ last', Named after size step pair old block first last' ∧
      (n = step →
        Cursor after size step block last' (room + 1) (nextPlace size cursorBlock cursorPage).1
          ((nextPlace size cursorBlock cursorPage).2 + step)) := by
  have roomy : room * step < size := by
    rw [Nat.succ_mul] at fits
    omega
  obtain ⟨others, entry⟩ := appended
  have kept : block ≠ (nextPlace size cursorBlock cursorPage).1 →
      Named after size step pair old block first last := by
    intro different
    have equal := others block different
    exact ⟨named.inPair, equal ▸ named.chain, equal ▸ named.entry⟩
  cases cursor with
  | here =>
      by_cases full : last = size
      · simp only [nextPlace, full, if_true] at kept entry ⊢
        refine ⟨size, full ▸ kept (pair_ne block).symm, ?_⟩
        rintro rfl
        refine .there (by rw [Nat.zero_add]) ?_ fun page behind isPage => ?_
        · rw [Nat.zero_add]
          exact Nat.le_mul_of_pos_left _ (Nat.succ_pos room)
        · rw [entry.rest page (.inr behind)]
      · simp only [nextPlace, full, if_false] at kept entry ⊢
        rcases Nat.eq_zero_or_pos n with rfl | started
        · have same : after block = before block :=
            funext fun page => entry.rest page (by omega)
          refine ⟨last, ⟨named.inPair, same ▸ named.chain, same ▸ named.entry⟩, ?_⟩
          rintro rfl
          exact absurd pos (Nat.lt_irrefl 0)
        · have room' := Nat.lt_of_le_of_ne named.chain.le full
          refine ⟨last + step, ⟨named.inPair,
            named.chain.append whole room' started le entry, fun i isEntry => ?_⟩,
            fun _ => .here⟩
          have := step_le named.chain.first_dvd named.chain.last_dvd named.chain.lt
          rw [entry.rest _ (.inl (by omega))]
          exact named.entry i isEntry
  | there multiple bound blank =>
      have notFull : cursorPage ≠ size := by omega
      simp only [nextPlace, notFull, if_false] at kept entry ⊢
      refine ⟨last, kept (pair_ne block).symm, ?_⟩
      rintro rfl
      refine .there (Nat.dvd_add multiple (Nat.dvd_refl _)) ?_ fun page behind isPage => ?_
      · rw [Nat.succ_mul]
        exact Nat.add_le_add_right bound _
      · rw [entry.rest page (.inr behind)]
        exact blank page (by omega) isPage

end Append

end OpenNfm.Program
