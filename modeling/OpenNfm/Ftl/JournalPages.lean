import OpenNfm.Ftl.CommitFrame
import OpenNfm.Ftl.JournalSearch
import Mathlib.Algebra.Order.BigOperators.Group.Finset

/-!
# The pages behind the journal pointers

Behind the journal pointers of a root lie the data pages that `DATA_Write` has appended since,
in any distribution over the journals that the ready dice give.  Their spare areas number
them in the order of the writes.  A journal that is full has a last page without a spare
area.
-/

namespace OpenNfm.Ftl

open OpenNfm.Program

variable {l : Layout} {D : Type}

/-! ## The pages behind the root -/

/-- The page behind the data pages of each journal, after writes to the journals from the given
pages on.  A write is a journal and a logical page. -/
def endPages (heads : Nat → Nat) : List (Nat × Nat) → Nat → Nat
  | [] => heads
  | (j, _) :: rest => endPages (Function.update heads j (heads j + 1)) rest

/-- The writes are on the journals, one behind the other, and numbered from `number` on. -/
def WritesOn (l : Layout) (block : Nat → Nat) (pages : Nand (FtlPage D)) :
    Nat → (Nat → Nat) → List (Nat × Nat) → Prop
  | _, _, [] => True
  | number, heads, (j, addr) :: rest =>
      (j < l.journalBlockCount ∧ heads j < l.pagePerPhyBlock - 1 ∧
        ∃ main, pages (block j) (heads j) = some ⟨main, ⟨addr, number⟩⟩) ∧
      WritesOn l block pages (number + 1) (Function.update heads j (heads j + 1)) rest

/-- The writes have filled the journal, which has its meta page then. -/
def Filled (l : Layout) (start : Nat → Nat) (writes : List (Nat × Nat)) (j : Nat) : Prop :=
  start j ≠ l.pagePerPhyBlock - 1 ∧ endPages start writes j = l.pagePerPhyBlock - 1

/-- What the writes since a root have left in the journals, which were erased from the
pointers of the root on. -/
structure JournalsLeft (l : Layout) (block start : Nat → Nat) (writes : List (Nat × Nat))
    (pages : Nand (FtlPage D)) : Prop where
  onBlocks : ∀ j < l.journalBlockCount, l.dataStartBlock ≤ block j ∧ block j < l.capacity
  starts : ∀ j < l.journalBlockCount, start j < l.pagePerPhyBlock
  on : WritesOn l block pages 0 start writes
  full : ∀ j < l.journalBlockCount, Filled l start writes j →
    ∃ main, pages (block j) (endPages start writes j) = some ⟨main, .ones⟩
  blank : ∀ j < l.journalBlockCount, ¬ Filled l start writes j →
    ∀ page, endPages start writes j ≤ page → page < l.pagePerPhyBlock → pages (block j) page = none

section Pages

variable {block heads : Nat → Nat} {writes : List (Nat × Nat)} {number : Nat}
  {pages : Nand (FtlPage D)}

theorem le_endPages (heads : Nat → Nat) (writes : List (Nat × Nat)) (j : Nat) :
    heads j ≤ endPages heads writes j := by
  induction writes generalizing heads with
  | nil => exact Nat.le_refl _
  | cons write rest ih =>
      refine Nat.le_trans ?_ (ih (Function.update heads write.1 (heads write.1 + 1)))
      by_cases same : j = write.1
      · rw [same, Function.update_self]
        exact Nat.le_succ _
      · rw [Function.update_of_ne same]

theorem WritesOn.endPages_lt (on : WritesOn l block pages number heads writes) {j : Nat}
    (inBlock : heads j < l.pagePerPhyBlock) : endPages heads writes j < l.pagePerPhyBlock := by
  induction writes generalizing number heads with
  | nil => exact inBlock
  | cons write rest ih =>
      refine ih on.2 ?_
      by_cases same : j = write.1
      · have room := on.1.2.1
        rw [same, Function.update_self]
        omega
      · rw [Function.update_of_ne same]
        exact inBlock

/-- The next page of a journal is the end, or holds a later write. -/
theorem WritesOn.head (on : WritesOn l block pages number heads writes) (j : Nat) :
    heads j = endPages heads writes j ∨
      ∃ main addr n, pages (block j) (heads j) = some ⟨main, ⟨addr, n⟩⟩ ∧
        n < number + writes.length ∧ number ≤ n ∧
        ∀ k addr' rest, writes = (k, addr') :: rest → j ≠ k → number < n := by
  induction writes generalizing number heads with
  | nil => exact .inl rfl
  | cons write rest ih =>
      obtain ⟨⟨_, _, main, programmed⟩, later⟩ := on
      by_cases same : j = write.1
      · rw [same]
        refine .inr ⟨main, write.2, number, programmed, ?_, Nat.le_refl _, ?_⟩
        · rw [List.length_cons]
          omega
        · rintro k addr' rest' whole different
          obtain ⟨rfl, _⟩ := List.cons.inj whole
          exact absurd rfl different
      · have heads' : Function.update heads write.1 (heads write.1 + 1) j = heads j :=
          Function.update_of_ne same _ _
        refine (ih later).imp (fun atEnd => ?_) fun found => ?_
        · rw [← heads']
          exact atEnd
        · obtain ⟨main, addr, n, programmed, below, above, _⟩ := found
          rw [heads'] at programmed
          refine ⟨main, addr, n, programmed, ?_, by omega, fun _ _ _ _ _ => above⟩
          rw [List.length_cons]
          omega

/-- More programs do not matter. -/
theorem WritesOn.mono {pages' : Nand (FtlPage D)} (on : WritesOn l block pages number heads writes)
    (same : ∀ j < l.journalBlockCount, ∀ page content, pages (block j) page = some content →
      pages' (block j) page = some content) :
    WritesOn l block pages' number heads writes := by
  induction writes generalizing number heads with
  | nil => trivial
  | cons write rest ih =>
      obtain ⟨⟨isJournal, room, main, programmed⟩, later⟩ := on
      exact ⟨⟨isJournal, room, main, same _ isJournal _ _ programmed⟩, ih later⟩

/-- The journals have room for so many writes. -/
theorem WritesOn.length_le (on : WritesOn l block pages number heads writes)
    (inBlocks : ∀ j < l.journalBlockCount, heads j ≤ l.pagePerPhyBlock - 1) :
    (∑ j ∈ Finset.range l.journalBlockCount, heads j) + writes.length ≤
      l.journalBlockCount * (l.pagePerPhyBlock - 1) := by
  induction writes generalizing number heads with
  | nil =>
      have bound := Finset.sum_le_card_nsmul (Finset.range l.journalBlockCount) heads
        (l.pagePerPhyBlock - 1) fun j inside => inBlocks j (Finset.mem_range.mp inside)
      rw [Finset.card_range] at bound
      exact bound
  | cons write rest ih =>
      obtain ⟨⟨isJournal, room, _⟩, later⟩ := on
      have member := Finset.mem_range.mpr isJournal
      have more := ih later fun j isJournal => by
        by_cases same : j = write.1
        · rw [same, Function.update_self]
          exact room
        · rw [Function.update_of_ne same]
          exact inBlocks j isJournal
      have split := Finset.sum_eq_add_sum_sdiff_singleton_of_mem member heads
      rw [Finset.sum_update_of_mem member] at more
      rw [List.length_cons]
      omega

end Pages

/-! ## Writes -/

/-- The journals of a memory, when the writes have been made since the root. -/
structure Journaled (l : Layout) (hot : Bool) (block start : Nat → Nat) (writes : List (Nat × Nat))
    (ram : FtlRam) (store : UbiStore D) : Prop where
  words : ∀ j < l.journalBlockCount,
    journal hot ram j = PmNode.setBlockPage l.g (block j) (endPages start writes j)
  apart : ∀ i < l.journalBlockCount, ∀ j < l.journalBlockCount, block i = block j → i = j
  left : JournalsLeft l block start writes store.pages
  number : edition hot ram = writes.length
  cursors : CursorsInMeta l ram

section Writes

variable {hot : Bool} {block start heads : Nat → Nat} {writes : List (Nat × Nat)}
  {number fuel j addr : Nat} {ram : FtlRam} {store : UbiStore D} {pages : Nand (FtlPage D)}

theorem endPages_append (heads : Nat → Nat) (writes : List (Nat × Nat)) (j addr : Nat) :
    endPages heads (writes ++ [(j, addr)]) =
      Function.update (endPages heads writes) j (endPages heads writes j + 1) := by
  induction writes generalizing heads with
  | nil => rfl
  | cons write rest ih => exact ih _

theorem WritesOn.append {main : FtlPage D} (on : WritesOn l block pages number heads writes)
    (isJournal : j < l.journalBlockCount)
    (room : endPages heads writes j < l.pagePerPhyBlock - 1)
    (programmed : pages (block j) (endPages heads writes j) =
      some ⟨main, ⟨addr, number + writes.length⟩⟩) :
    WritesOn l block pages number heads (writes ++ [(j, addr)]) := by
  induction writes generalizing number heads with
  | nil => exact ⟨⟨isJournal, room, main, programmed⟩, trivial⟩
  | cons write rest ih =>
      refine ⟨on.1, ih on.2 room ?_⟩
      rw [List.length_cons, ← Nat.add_assoc, Nat.add_right_comm] at programmed
      exact programmed

/-- The pages of a block when its next page has been written, and the meta page if the block is
full then. -/
def appendPage (l : Layout) (row : Nat → Option (Page (FtlPage D))) (page : Nat)
    (content metaPage : Page (FtlPage D)) : Nat → Option (Page (FtlPage D)) :=
  if page + 1 = l.pagePerPhyBlock - 1 then
    Function.update (Function.update row page (some content)) (l.pagePerPhyBlock - 1)
      (some metaPage)
  else Function.update row page (some content)

theorem appendPage_page {row : Nat → Option (Page (FtlPage D))} {page : Nat}
    {content metaPage : Page (FtlPage D)} :
    appendPage l row page content metaPage page = some content := by
  unfold appendPage
  split
  · rw [Function.update_of_ne (by omega), Function.update_self]
  · rw [Function.update_self]

theorem appendPage_other {row : Nat → Option (Page (FtlPage D))} {page other : Nat}
    {content metaPage : Page (FtlPage D)} (different : other ≠ page)
    (notMeta : page + 1 = l.pagePerPhyBlock - 1 → other ≠ l.pagePerPhyBlock - 1) :
    appendPage l row page content metaPage other = row other := by
  unfold appendPage
  split
  · rename_i last
    rw [Function.update_of_ne (notMeta last), Function.update_of_ne different]
  · rw [Function.update_of_ne different]

/-- One more write to a journal that is not full. -/
theorem JournalsLeft.append {pages' : Nand (FtlPage D)} {content metaPage : FtlPage D}
    (left : JournalsLeft l block start writes pages) (isJournal : j < l.journalBlockCount)
    (room : endPages start writes j < l.pagePerPhyBlock - 1)
    (others : ∀ i < l.journalBlockCount, i ≠ j → pages' (block i) = pages (block i))
    (here : pages' (block j) = appendPage l (pages (block j)) (endPages start writes j)
      ⟨content, ⟨addr, writes.length⟩⟩ ⟨metaPage, .ones⟩) :
    JournalsLeft l block start (writes ++ [(j, addr)]) pages' := by
  have before := le_endPages start writes j
  have notFull : ¬ Filled l start writes j := fun filled => by
    have atEnd := filled.2
    omega
  have blank := left.blank j isJournal notFull
  have kept : ∀ i < l.journalBlockCount, ∀ page content, pages (block i) page = some content →
      pages' (block i) page = some content := by
    intro i isJournal' page content programmed
    by_cases same : i = j
    · subst same
      have isBefore : ∀ other, endPages start writes i ≤ other → other < l.pagePerPhyBlock →
          page ≠ other := fun other above below isOther => by
        rw [isOther, blank other above below] at programmed
        exact absurd programmed nofun
      rw [here, appendPage_other (isBefore _ (Nat.le_refl _) (by omega)) fun _ =>
        isBefore _ (by omega) (by omega)]
      exact programmed
    · rw [others i isJournal' same]
      exact programmed
  have ends := endPages_append start writes j addr
  refine ⟨left.onBlocks, left.starts, ?_, fun i isJournal' filled => ?_,
    fun i isJournal' notFilled page above below => ?_⟩
  · have appended : pages' (block j) (endPages start writes j) =
        some ⟨content, ⟨addr, 0 + writes.length⟩⟩ := by
      rw [here, appendPage_page, Nat.zero_add]
    exact (left.on.mono kept).append isJournal room appended
  · by_cases same : i = j
    · subst same
      have last := filled.2
      rw [ends, Function.update_self] at last ⊢
      rw [here, appendPage, if_pos last, last, Function.update_self]
      exact ⟨metaPage, rfl⟩
    · rw [Filled, ends, Function.update_of_ne same] at filled
      rw [ends, Function.update_of_ne same, others i isJournal' same]
      exact left.full i isJournal' filled
  · by_cases same : i = j
    · subst same
      rw [Filled, ends, Function.update_self] at notFilled
      rw [ends, Function.update_self] at above
      have notLast : ¬ endPages start writes i + 1 = l.pagePerPhyBlock - 1 := fun last =>
        notFilled ⟨by omega, last⟩
      rw [here, appendPage_other (by omega) fun last => absurd last notLast]
      exact blank page (by omega) below
    · rw [Filled, ends, Function.update_of_ne same] at notFilled
      rw [ends, Function.update_of_ne same] at above
      rw [others i isJournal' same]
      exact left.blank i isJournal' notFilled page above below

/-- The search hands back a journal with room, unless the last poll is not ready. -/
theorem onReturn_dataFindReady {rounds : Nat} {ret : Status}
    {post : Option Nat × Status → FtlRam → UbiStore D → Prop}
    (found : ∀ i polls, j ≤ i → i < j + rounds → JournalHasRoom l hot ram i →
      post (some i, .success) ram (store.withPolls polls))
    (busy : ∀ ret polls, ret ≠ .success → post (none, ret) ram (store.withPolls polls))
    (full : (∀ i, j ≤ i → i < j + rounds → ¬ JournalHasRoom l hot ram i) →
      post (none, ret) ram store) :
    OnReturn l (dataFindReady l hot rounds j ret) post ram store := by
  induction rounds generalizing j ret store with
  | zero => exact OnReturn.pure.mpr (full fun i above below => absurd below (by omega))
  | succ rounds ih =>
      rw [dataFindReady, OnReturn.bind, OnReturn.get]
      split
      · rename_i room
        rw [OnReturn.bind]
        refine OnReturn.readStatus fun ret polls => ?_
        split
        · rename_i ready
          subst ready
          exact OnReturn.pure.mpr (found j polls (Nat.le_refl _) (by omega) room)
        · rename_i notReady
          refine ih (fun i polls above below => found i polls (by omega) (by omega)) busy fun _ =>
            busy ret polls notReady
      · rename_i noRoom
        refine ih (fun i polls above below => found i polls (by omega) (by omega)) busy
          fun none => full fun i above below => ?_
        rcases Nat.eq_or_lt_of_le above with rfl | above
        · exact noRoom
        · exact none i above (by omega)

/-- The loop ends with a journal that has room, or a status that is not a success. -/
theorem onReturn_dataFindLoop {rounds : Nat} {ret : Status}
    {post : Nat × Status → FtlRam → UbiStore D → Prop}
    (someRoom : ∃ i < l.journalBlockCount, JournalHasRoom l hot ram i)
    (found : ∀ i polls, i < l.journalBlockCount → JournalHasRoom l hot ram i →
      post (i, .success) ram (store.withPolls polls))
    (failed : ∀ i ret polls, ret ≠ .success → post (i, ret) ram (store.withPolls polls)) :
    OnReturn l (dataFindLoop l hot rounds ret) post ram store := by
  induction rounds generalizing ret store with
  | zero => exact OnReturn.halt
  | succ rounds ih =>
      rw [dataFindLoop, OnReturn.bind]
      refine onReturn_dataFindReady (fun i polls _ below room => ?_) (fun ret polls notReady => ?_)
        fun none => ?_
      · exact OnReturn.pure.mpr (found i polls (by omega) room)
      · dsimp only
        split
        · exact ih found failed
        · exact OnReturn.pure.mpr (failed _ ret polls notReady)
      · obtain ⟨i, isJournal, room⟩ := someRoom
        exact absurd room (none i (Nat.zero_le i) (by omega))

theorem journal_setJournal (hot : Bool) (j word : Nat) (ram : FtlRam) :
    journal hot (setJournal hot j word ram) = Function.update (journal hot ram) j word := by
  cases hot <;> rfl

theorem edition_setJournal (hot : Bool) (j word : Nat) (ram : FtlRam) :
    edition hot (setJournal hot j word ram) = edition hot ram := by
  cases hot <;> rfl

theorem journal_numberPage (hot : Bool) (j addr : Nat) (ram : FtlRam) :
    journal hot (numberPage l hot j addr ram) = journal hot ram := by
  cases hot <;> rfl

theorem CursorsInMeta.withJournal {word : Nat} (cursors : CursorsInMeta l ram) :
    CursorsInMeta l (setJournal hot j word ram) := by
  obtain ⟨root, bdt, hdi, current, reclaim⟩ := cursors
  cases hot <;> exact ⟨root, bdt, hdi, current, reclaim⟩

theorem CursorsInMeta.numbered (cursors : CursorsInMeta l ram) :
    CursorsInMeta l (numberPage l hot j addr ram) := by
  obtain ⟨root, bdt, hdi, current, reclaim⟩ := cursors
  cases hot <;> exact ⟨root, bdt, hdi, current, reclaim⟩

/-- The page is written and mapped; the pointer and the meta page are left. -/
structure PageMapped (l : Layout) (hot : Bool) (block start : Nat → Nat) (writes : List (Nat × Nat))
    (before : UbiStore D) (j : Nat) (content : Page (FtlPage D)) (ram : FtlRam)
    (store : UbiStore D) :
    Prop where
  words : ∀ i < l.journalBlockCount,
    journal hot ram i = PmNode.setBlockPage l.g (block i) (endPages start writes i)
  others : ∀ i < l.journalBlockCount, i ≠ j → store.pages (block i) = before.pages (block i)
  here : store.pages (block j) =
    Function.update (before.pages (block j)) (endPages start writes j) (some content)
  cursors : CursorsInMeta l ram

theorem Journaled.isPage (journaled : Journaled l hot block start writes ram store)
    (isJournal : j < l.journalBlockCount) : endPages start writes j < l.pagePerPhyBlock :=
  journaled.left.on.endPages_lt (journaled.left.starts j isJournal)

/-- The update of the page mapping does not touch the journals. -/
theorem Journaled.mapped {content : Page (FtlPage D)} {block' page : Nat} (fit : l.NodesFit)
    (journaled : Journaled l hot block start writes ram store) (isJournal : j < l.journalBlockCount)
    {post : Status → FtlRam → UbiStore D → Prop}
    (meets : ∀ ret ram' after,
      PageMapped l hot block start writes store j content ram' after → post ret ram' after) :
    OnReturn l (pmtUpdate l (pmtReclaimBlocks l fuel) addr block' page) post
      (numberPage l hot j addr ram) (store.write (block j) (endPages start writes j) content) := by
  have cursors : CursorsInMeta l (numberPage l hot j addr ram) := journaled.cursors.numbered
  have begins : MetaWithin l (numberPage l hot j addr ram).journalPart
      (store.write (block j) (endPages start writes j) content) (numberPage l hot j addr ram)
      (store.write (block j) (endPages start writes j) content) := ⟨rfl, .refl _ _, cursors⟩
  refine (keepsMeta_pmtUpdate fit).spec begins (fun _ _ _ => trivial) fun ret ram' after kept => ?_
  have same := FtlRam.journalPart_journal kept.journals hot
  have pages : ∀ i < l.journalBlockCount, after.pages (block i) =
      (store.write (block j) (endPages start writes j) content).pages (block i) :=
    fun i isJournal => kept.store.pages _ (Nat.not_lt.mpr (journaled.left.onBlocks i isJournal).1)
  refine meets ret ram' after ⟨fun i isJournal => ?_, fun i isJournal' different => ?_, ?_,
    kept.cursors⟩
  · rw [same, journal_numberPage]
    exact journaled.words i isJournal
  · rw [pages i isJournal']
    exact Function.update_of_ne
      (fun sameBlock => different (journaled.apart i isJournal' j isJournal sameBlock)) _ _
  · rw [pages j isJournal]
    exact Function.update_self _ _ _

/-- The pointer moves on, and a full journal has its meta page. -/
theorem PageMapped.appended {content : FtlPage D} {ram' : FtlRam} {store' after : UbiStore D}
    (mapped : PageMapped l hot block start writes store j ⟨content, ⟨addr, writes.length⟩⟩
      ram' store')
    (metaPage : FtlPage D)
    (journaled : Journaled l hot block start writes ram store) (isJournal : j < l.journalBlockCount)
    (room : endPages start writes j < l.pagePerPhyBlock - 1)
    (others : ∀ b, b ≠ block j → after.pages b = store'.pages b)
    (here : after.pages (block j) = appendPage l (store.pages (block j)) (endPages start writes j)
      ⟨content, ⟨addr, writes.length⟩⟩ ⟨metaPage, .ones⟩)
    (number : edition hot ram' = writes.length + 1) :
    Journaled l hot block start (writes ++ [(j, addr)])
      (setJournal hot j (PmNode.setBlockPage l.g (block j) (endPages start writes j + 1)) ram')
      after := by
  refine ⟨fun i isJournal' => ?_, journaled.apart, ?_, ?_, mapped.cursors.withJournal⟩
  · rw [journal_setJournal, endPages_append]
    by_cases same : i = j
    · rw [same, Function.update_self, Function.update_self]
    · rw [Function.update_of_ne same, Function.update_of_ne same]
      exact mapped.words i isJournal'
  · refine journaled.left.append isJournal room (fun i isJournal' different => ?_) here
    rw [others _ fun sameBlock => different (journaled.apart i isJournal' j isJournal sameBlock)]
    exact mapped.others i isJournal' different
  · rw [List.length_append, edition_setJournal]
    exact number

/-- `DATA_Write` appends a page to a journal. -/
theorem onReturn_dataAppend {content : D} (fit : l.NodesFit)
    (journaled : Journaled l hot block start writes ram store) (isJournal : j < l.journalBlockCount)
    (room : endPages start writes j < l.pagePerPhyBlock - 1) :
    OnReturn l (dataAppend l fuel hot j addr content)
      (fun ret ram' after => ret = .success → edition hot ram' = writes.length + 1 →
        Journaled l hot block start (writes ++ [(j, addr)]) ram' after) ram store := by
  have isBlock := (journaled.left.onBlocks j isJournal).2
  have isPage := journaled.isPage isJournal
  have word := journaled.words j isJournal
  have onBlock : PmNode.block l.g (journal hot ram j) = block j := by
    rw [word]
    exact fit.block_word (by omega) isPage
  have onPage : PmNode.page l.g (journal hot ram j) = endPages start writes j := by
    rw [word]
    exact fit.page_word (by omega) isPage
  rw [dataAppend, OnReturn.bind, OnReturn.get]
  dsimp only
  rw [onBlock, onPage, journaled.number, OnReturn.bind, OnReturn.modifies, OnReturn.bind]
  refine OnReturn.write fun _ _ _ => ?_
  rw [dataAppended, onSuccess_success, OnReturn.bind]
  refine journaled.mapped fit isJournal fun ret ram₁ store₁ mapped => ?_
  have here : store₁.pages (block j) = Function.update (store.pages (block j))
      (endPages start writes j) (some ⟨.data content, ⟨addr, writes.length⟩⟩) := mapped.here
  by_cases success : ret = .success
  · have pointer : PmNode.page l.g (journal hot (setJournal hot j
        (PmNode.setBlockPage l.g (block j) (endPages start writes j + 1)) ram₁) j) =
        endPages start writes j + 1 := by
      rw [journal_setJournal, Function.update_self]
      exact fit.page_word (by omega) (show _ < l.pagePerPhyBlock by omega)
    rw [success, onSuccess_success, OnReturn.bind, OnReturn.bind, OnReturn.modifies, OnReturn.pure,
      OnReturn.bind, OnReturn.get, pointer]
    split
    · rename_i last
      rw [dataWriteMeta, OnReturn.bind, OnReturn.get]
      generalize journalMeta hot _ j = table
      refine OnReturn.write fun _ _ _ _ number => ?_
      rw [edition_setJournal] at number
      refine mapped.appended (.spares table) journaled isJournal room
        (fun b different => ?_) ?_ number
      · exact Function.update_of_ne different _ _
      · rw [appendPage, if_pos last, ← here]
        exact Function.update_self _ _ _
    · rename_i notLast
      refine OnReturn.pure.mpr fun _ number => ?_
      rw [edition_setJournal] at number
      refine mapped.appended .ones journaled isJournal room (fun _ _ => rfl) ?_ number
      rw [appendPage, if_neg notLast, ← here]
  · have pointer : PmNode.page l.g (journal hot ram₁ j) = endPages start writes j := by
      rw [mapped.words j isJournal]
      exact fit.page_word (by omega) isPage
    rw [onSuccess_other success, OnReturn.bind, OnReturn.pure, OnReturn.bind, OnReturn.get, pointer,
      if_neg (by omega)]
    exact OnReturn.pure.mpr fun isSuccess => absurd isSuccess success

/-- `DATA_Write` appends a page to one of the journals that are not full, if no commit comes in
between. -/
theorem onReturn_dataWrite {content : D} (fit : l.NodesFit)
    (journaled : Journaled l hot block start writes ram store)
    (someRoom : ∃ i < l.journalBlockCount, endPages start writes i < l.pagePerPhyBlock - 1) :
    OnReturn l (dataWrite l fuel addr (some content) hot)
      (fun ret ram' after => ret = .success → edition hot ram' = writes.length + 1 →
        ∃ j, Journaled l hot block start (writes ++ [(j, addr)]) ram' after) ram store := by
  have hasRoom : ∀ i < l.journalBlockCount, JournalHasRoom l hot ram i ↔
      endPages start writes i < l.pagePerPhyBlock - 1 := fun i isJournal => by
    have isBlock := (journaled.left.onBlocks i isJournal).2
    rw [JournalHasRoom, journaled.words i isJournal,
      fit.page_word (by omega) (journaled.isPage isJournal)]
  have polled : ∀ polls, Journaled l hot block start writes ram (store.withPolls polls) := fun _ =>
    ⟨journaled.words, journaled.apart, journaled.left, journaled.number, journaled.cursors⟩
  rw [dataWrite, OnReturn.bind]
  obtain ⟨i, isJournal, room⟩ := someRoom
  refine onReturn_dataFindLoop ⟨i, isJournal, (hasRoom i isJournal).mpr room⟩
    (fun i polls isJournal room => ?_) fun i ret polls failed => ?_
  · rw [OnReturn.bind, OnReturn.assert]
    refine fun _ => (onReturn_dataAppend fit (polled polls) isJournal
      ((hasRoom i isJournal).mp room)).mono fun ret ram' after appended isSuccess number => ?_
    exact ⟨i, appended isSuccess number⟩
  · rw [OnReturn.bind, OnReturn.assert]
    exact fun isSuccess => absurd isSuccess failed

/-- Successful calls of `DATA_Write` for the pages in the list, each while a journal has room and
without a commit. -/
inductive AppendRun (l : Layout) (fuel : Nat) (hot : Bool) (ram : FtlRam) (store : UbiStore D) :
    List Nat → FtlRam → UbiStore D → Prop
  | start : AppendRun l fuel hot ram store [] ram store
  | write {addrs : List Nat} {ram₁ ram₂ : FtlRam} {store₁ store₂ : UbiStore D} {addr : Nat}
      {content : D} (run : AppendRun l fuel hot ram store addrs ram₁ store₁)
      (hasRoom : dataIsFull l hot ram₁ = false)
      (call : ((dataWrite l fuel addr (some content) hot).run ram₁).exec
        (storeMachine l.g l.capacity) store₁ = .ok ((.success, ram₂), store₂))
      (noCommit : edition hot ram₂ = edition hot ram₁ + 1) :
      AppendRun l fuel hot ram store (addrs ++ [addr]) ram₂ store₂

/-- From journals that are erased behind their pointers, the pages are numbered in the order of
the writes. -/
theorem AppendRun.journaled {addrs : List Nat} {ram' : FtlRam} {store' : UbiStore D}
    (fit : l.NodesFit) (erased : Journaled l hot block start [] ram store)
    (run : AppendRun l fuel hot ram store addrs ram' store') :
    ∃ writes, writes.map Prod.snd = addrs ∧ Journaled l hot block start writes ram' store' := by
  induction run with
  | start => exact ⟨[], rfl, erased⟩
  | @write addrs ram₁ _ _ _ addr _ _ hasRoom call noCommit ih =>
      obtain ⟨writes, same, journaled⟩ := ih
      have someRoom : ∃ i < l.journalBlockCount,
          endPages start writes i < l.pagePerPhyBlock - 1 := by
        rw [dataIsFull, List.all_eq_false] at hasRoom
        obtain ⟨i, member, room⟩ := hasRoom
        have isJournal := List.mem_range.mp member
        have isBlock := (journaled.left.onBlocks i isJournal).2
        rw [decide_eq_true_iff, not_not, journaled.words i isJournal,
          fit.page_word (by omega) (journaled.isPage isJournal)] at room
        exact ⟨i, isJournal, room⟩
      rw [journaled.number] at noCommit
      obtain ⟨j, journaled'⟩ := (onReturn_dataWrite fit journaled someRoom).of_run call rfl noCommit
      refine ⟨writes ++ [(j, addr)], ?_, journaled'⟩
      rw [List.map_append, same]
      rfl

end Writes

end OpenNfm.Ftl
