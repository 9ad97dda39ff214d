import OpenNfm.Ftl.DataFrame
import OpenNfm.Program.PageLog

/-!
# The pages of the data blocks

The data blocks are a log of pages that name their logical pages.  The journals of the root are
the blocks that are programmed now, and the reclaim journals are the spare blocks; all others
are full, or have not been used since the format.  The page mapping names the homes of the
logical pages, and the dirty count of a block is the number of its stale pages.
-/

namespace OpenNfm.Ftl

open OpenNfm.Program

variable {l : Layout} {D : Type}

/-! ## The journals of the root -/

/-- The three kinds of journals: those that are written, for hot or for cold data, and the
reclaim journals. -/
inductive Role where
  | write (hot : Bool)
  | reclaim
  deriving DecidableEq

/-- The words of the journals in the root. -/
def Role.word (role : Role) (ram : FtlRam) : Nat → Nat :=
  match role with
  | .write hot => journal hot ram
  | .reclaim => ram.rootTable.reclaimJournal

theorem Role.word_of_journalPart {ram ram' : FtlRam} (same : ram'.journalPart = ram.journalPart)
    (role : Role) : role.word ram' = role.word ram := by
  cases role with
  | write hot => exact FtlRam.journalPart_journal same hot
  | reclaim => exact congrArg JournalPart.reclaimJournal same

theorem journalMeta_of_journalPart {ram ram' : FtlRam} (same : ram'.journalPart = ram.journalPart)
    (hot : Bool) : journalMeta hot ram' = journalMeta hot ram := by
  cases hot
  · exact congrArg JournalPart.coldMetaData same
  · exact congrArg JournalPart.hotMetaData same

/-! ## Places -/

/-- The place of a page that is trimmed or was never written. -/
def nowhere : Place := (invalidBlock, invalidPage)

/-- The blocks behind those of the tables. -/
def IsDataBlock (l : Layout) (block : Nat) : Prop :=
  l.dataStartBlock ≤ block ∧ block < l.capacity

/-- There are blocks for all journals, and the dirty counts of all blocks are committed. -/
structure Layout.DataFits (l : Layout) : Prop extends Layout.NodesFit l where
  journals : 0 < l.journalBlockCount
  room : l.dataStartBlock + 3 * l.journalBlockCount ≤ l.capacity
  table : l.capacity ≤ l.bdtPageCount * l.g.mppSize

/-- The pages of a block that hold data. -/
abbrev Layout.width (l : Layout) : Nat := l.pagePerPhyBlock - 1

namespace Layout.DataFits

variable {block page : Nat}

theorem lt_invalidBlock (fit : l.DataFits) (isData : IsDataBlock l block) :
    block < invalidBlock := by
  have words := fit.words
  have blocks := fit.blocks
  have pages := l.g.pagePerPhyBlock_pos
  have less : l.g.cfgLogBlockCount ≤ l.g.cfgLogBlockCount * l.g.pagePerPhyBlock :=
    Nat.le_mul_of_pos_right _ pages
  have := isData.2
  unfold invalidBlock allOnes
  omega

theorem ne_nowhere (fit : l.DataFits) (isData : IsDataBlock l block) : block ≠ nowhere.1 :=
  Nat.ne_of_lt (fit.lt_invalidBlock isData)

theorem width_pos (fit : l.DataFits) : 0 < l.width := by
  have := fit.two
  unfold Layout.width
  omega

theorem width_lt_page (fit : l.DataFits) : l.width < l.pagePerPhyBlock := fit.toNodesFit.width_lt

theorem block_data (fit : l.DataFits) (isData : IsDataBlock l block) (isPage : page ≤ l.width) :
    PmNode.block l.g (placeWord l (block, page)) = block :=
  fit.block_word (Nat.lt_add_right 2 isData.2) (Nat.lt_of_le_of_lt isPage fit.width_lt_page)

theorem page_data (fit : l.DataFits) (isData : IsDataBlock l block) (isPage : page ≤ l.width) :
    PmNode.page l.g (placeWord l (block, page)) = page :=
  fit.page_word (Nat.lt_add_right 2 isData.2) (Nat.lt_of_le_of_lt isPage fit.width_lt_page)

/-- The word of a data page names its place. -/
theorem wordPlace_pageWord (fit : l.DataFits) (isData : IsDataBlock l block)
    (isPage : page ≤ l.width) :
    wordPlace l (pageWord l block page) = (block, page) := by
  have valid : block ≠ invalidBlock := Nat.ne_of_lt (fit.lt_invalidBlock isData)
  have word : pageWord l block page = placeWord l (block, page) := if_pos valid
  rw [word, wordPlace, if_pos (placeWord_ne_invalid l _), fit.block_data isData isPage,
    fit.page_data isData isPage]

end Layout.DataFits

theorem IsDataBlock.outside {block : Nat} (isData : IsDataBlock l block) : ¬ InMeta l block :=
  Nat.not_lt.mpr isData.1

/-- A trimmed page has no place. -/
theorem wordPlace_trimmed (l : Layout) :
    wordPlace l (pageWord l invalidBlock invalidPage) = nowhere := by
  have word : pageWord l invalidBlock invalidPage = PmNode.invalid := if_neg fun wrong => wrong rfl
  rw [word, wordPlace, if_neg fun wrong => wrong rfl]
  rfl

/-! ### The words of the logical pages -/

section Words

variable {maps : PageMap} {pageAddr other word : Nat}

theorem PageMap.word_enter_self : (maps.enter l pageAddr word).word l pageAddr = word := by
  unfold PageMap.word PageMap.enter
  dsimp only
  rw [Function.update_self, Function.update_self]

theorem PageMap.word_enter_other (different : other ≠ pageAddr) :
    (maps.enter l pageAddr word).word l other = maps.word l other := by
  unfold PageMap.word PageMap.enter
  dsimp only
  by_cases sameCluster : clusterIndex l other = clusterIndex l pageAddr
  · have otherPage : pageInCluster l other ≠ pageInCluster l pageAddr := by
      intro samePage
      refine different ?_
      rw [← Nat.div_add_mod other l.pmPerNode, ← Nat.div_add_mod pageAddr l.pmPerNode]
      unfold clusterIndex at sameCluster
      unfold pageInCluster at samePage
      rw [sameCluster, samePage]
    rw [sameCluster, Function.update_self, Function.update_of_ne otherPage]
  · rw [Function.update_of_ne sameCluster]

theorem PageMap.word_onRoot {before after : UbiStore D} :
    (maps.onRoot before after).word l pageAddr = maps.word l pageAddr :=
  rfl

end Words

/-! ## The device -/

/-- The spare areas name the owners of the first pages of a block. -/
def Names (log : PageLog D) (block count : Nat) (table : Nat → Spare) : Prop :=
  ∀ page < count, ∃ value, log.pages block page = some ((table page).first, value)

/-- The pages of a block are those of the log.  A full block has a directory of its logical
pages. -/
structure PagesOn (l : Layout) (log : PageLog D) (pages : Nand (FtlPage D)) (block : Nat) :
    Prop where
  stored : ∀ page entry, log.pages block page = some entry →
    ∃ number, pages block page = some ⟨.data entry.2, ⟨entry.1, number⟩⟩
  blank : ∀ page < l.width, log.fill block ≤ page → pages block page = none
  directory : log.fill block = l.width → ∃ table spare,
    pages block l.width = some ⟨.spares table, spare⟩ ∧ Names log block l.width table
  noDirectory : log.fill block < l.width → pages block l.width = none

/-- The spare areas in memory name the owners of the pages of a block that is not full. -/
def RowOf (l : Layout) (log : PageLog D) (block : Nat) (row : Nat → Spare) : Prop :=
  log.fill block < l.width → Names log block (log.fill block) row

/-! ## The data blocks -/

/-- The journals that are in use. -/
abbrev Active : Type := Role → Nat → Prop

/-- Between the calls all journals are in use. -/
def allActive (l : Layout) : Active := fun _ j => j < l.journalBlockCount

/-- What the memory and the device say about the log of the data pages. -/
structure DataKept (l : Layout) (active : Active) (log : PageLog D) (block : Role → Nat → Nat)
    (maps : PageMap) (ram : FtlRam) (pages : Nand (FtlPage D)) : Prop where
  sound : log.Sound l.ftlCapacity l.width nowhere
  homes : ∀ addr < l.ftlCapacity, wordPlace l (maps.word l addr) = log.home addr
  outside : ∀ b, ¬ IsDataBlock l b → log.fill b = 0
  inArea : ∀ role j, active role j → IsDataBlock l (block role j)
  apart : ∀ role j role' j', active role j → active role' j' → block role j = block role' j' →
    role = role' ∧ j = j'
  words : ∀ role j, active role j →
    role.word ram j = placeWord l (block role j, log.fill (block role j))
  rows : ∀ hot j, active (.write hot) j →
    RowOf l log (block (.write hot) j) (journalMeta hot ram j)
  onDevice : ∀ b, IsDataBlock l b → PagesOn l log pages b
  counted : ∀ role j, active role j →
    ram.blockDirtyTable (block role j) + live l.ftlCapacity log.home (block role j) =
      log.fill (block role j)
  closed : ∀ b, IsDataBlock l b → (∀ role j, active role j → b ≠ block role j) →
    ram.blockDirtyTable b + live l.ftlCapacity log.home b = l.width ∧
      (log.fill b = l.width ∨ log.fill b = 0 ∧ ram.blockDirtyTable b = l.width)

section Kept

variable {active : Active} {log : PageLog D} {block : Role → Nat → Nat} {maps maps' : PageMap}
  {ram ram' : FtlRam} {pages pages' : Nand (FtlPage D)} {role : Role} {j b addr : Nat}

namespace DataKept

theorem full_le (kept : DataKept l active log block maps ram pages) (b : Nat) :
    log.fill b ≤ l.width :=
  kept.sound.inWidth b

/-- The word of a journal names its block and the page behind the last one. -/
theorem block_word (kept : DataKept l active log block maps ram pages) (fit : l.DataFits)
    (isActive : active role j) : PmNode.block l.g (role.word ram j) = block role j := by
  rw [kept.words role j isActive]
  exact fit.block_data (kept.inArea role j isActive) (kept.full_le _)

theorem page_word (kept : DataKept l active log block maps ram pages) (fit : l.DataFits)
    (isActive : active role j) : PmNode.page l.g (role.word ram j) = log.fill (block role j) := by
  rw [kept.words role j isActive]
  exact fit.page_data (kept.inArea role j isActive) (kept.full_le _)

/-- The stale pages and the valid pages of a block are no more than its pages. -/
theorem count_le (kept : DataKept l active log block maps ram pages) (isData : IsDataBlock l b) :
    ram.blockDirtyTable b + live l.ftlCapacity log.home b ≤ l.width := by
  by_cases isRole : ∃ role j, active role j ∧ b = block role j
  · obtain ⟨role, j, isActive, rfl⟩ := isRole
    rw [kept.counted role j isActive]
    exact kept.full_le _
  · refine (kept.closed b isData fun role j isActive same => isRole ⟨role, j, isActive, same⟩).1.le

/-- A logical page that has data is on a data block. -/
theorem home_isData (kept : DataKept l active log block maps ram pages)
    (mapped : log.home addr ≠ nowhere) : IsDataBlock l (log.home addr).1 := by
  by_contra notData
  rcases kept.sound.home addr with lost | ⟨value, here⟩
  · exact mapped lost
  · have less := (kept.sound.programmed _ _).mp ⟨_, here⟩
    rw [kept.outside _ notData] at less
    exact Nat.not_lt_zero _ less

/-- Code of the tables keeps the data. -/
theorem framed (kept : DataKept l active log block maps ram pages)
    (current : maps'.current = maps.current) (journals : ram'.journalPart = ram.journalPart)
    (counts : ∀ block, ¬ InMeta l block → ram'.blockDirtyTable block = ram.blockDirtyTable block)
    (same : ∀ block, ¬ InMeta l block → pages' block = pages block) :
    DataKept l active log block maps' ram' pages' where
  sound := kept.sound
  homes addr isAddr := by
    rw [PageMap.word, current]
    exact kept.homes addr isAddr
  outside := kept.outside
  inArea := kept.inArea
  apart := kept.apart
  words role j isActive := by
    rw [Role.word_of_journalPart journals]
    exact kept.words role j isActive
  rows hot j isActive := by
    rw [journalMeta_of_journalPart journals]
    exact kept.rows hot j isActive
  onDevice b isData := by
    obtain ⟨stored, blank, directory, noDirectory⟩ := kept.onDevice b isData
    rw [← same b isData.outside] at stored blank directory noDirectory
    exact ⟨stored, blank, directory, noDirectory⟩
  counted role j isActive := by
    rw [counts _ (kept.inArea role j isActive).outside]
    exact kept.counted role j isActive
  closed b isData notActive := by
    rw [counts b isData.outside]
    exact kept.closed b isData notActive

/-! ### Counts -/

/-- The count of the block that a logical page leaves. -/
theorem dropCount_eq (kept : DataKept l active log block maps ram pages) (fit : l.DataFits)
    (isAddr : addr < l.ftlCapacity) (isData : IsDataBlock l b) :
    dropCount l (maps.word l addr) ram.blockDirtyTable b =
      ram.blockDirtyTable b + if (log.home addr).1 = b then 1 else 0 := by
  have home := kept.homes addr isAddr
  unfold wordPlace at home
  unfold dropCount
  by_cases mapped : maps.word l addr ≠ PmNode.invalid
  · rw [if_pos mapped] at home ⊢
    have inBlock : PmNode.block l.g (maps.word l addr) = (log.home addr).1 := congrArg Prod.fst home
    rw [inBlock]
    by_cases here : (log.home addr).1 = b
    · have bound := kept.count_le isData
      have lives := live_pos (n := l.ftlCapacity) isAddr here
      have pages := fit.pages
      rw [here, Function.update_self, if_pos rfl, Nat.mod_eq_of_lt]
      unfold Layout.width at bound
      omega
    · rw [Function.update_of_ne (Ne.symm here), if_neg here, Nat.add_zero]
  · rw [if_neg mapped] at home ⊢
    have notHere : (log.home addr).1 ≠ b := by
      rw [← home]
      exact Ne.symm (fit.ne_nowhere isData)
    rw [if_neg notHere, Nat.add_zero]

end DataKept

/-! ### Appends -/

section Append

variable {value : D} {number : Nat} {table row : Nat → Spare} {spare : Spare}

theorem append_pages_block (c : Nat) (different : b ≠ c) :
    (log.append c addr value).pages b = log.pages b :=
  programPage_block different

theorem append_fill_block (c : Nat) (different : b ≠ c) :
    (log.append c addr value).fill b = log.fill b :=
  Function.update_of_ne different _ _

theorem append_fill_same : (log.append b addr value).fill b = log.fill b + 1 :=
  Function.update_self _ _ _

/-- The earlier pages of the block are the same. -/
theorem append_pages_earlier {page : Nat} (earlier : page < log.fill b) :
    (log.append b addr value).pages b page = log.pages b page :=
  programPage_page (Nat.ne_of_lt earlier)

theorem append_pages_last : (log.append b addr value).pages b (log.fill b) = some (addr, value) :=
  programPage_same

/-- A table that has the owner of the next page too. -/
theorem Names.append (names : Names log b (log.fill b) table)
    (last : (table (log.fill b)).first = addr) :
    Names (log.append b addr value) b (log.fill b + 1) table := by
  intro page isPage
  rcases Nat.lt_succ_iff_lt_or_eq.mp isPage with earlier | rfl
  · rw [append_pages_earlier earlier]
    exact names page earlier
  · exact ⟨value, last ▸ append_pages_last⟩

/-- The row of a block, with the owner of its new page. -/
theorem Names.append_row (names : Names log b (log.fill b) row) :
    Names (log.append b addr value) b (log.fill b + 1)
      (Function.update row (log.fill b) ⟨addr, number⟩) := by
  apply Names.append
  · intro page isPage
    rw [Function.update_of_ne (Nat.ne_of_lt isPage)]
    exact names page isPage
  · rw [Function.update_self]

theorem Names.other {c count : Nat} (names : Names log b count table) (different : b ≠ c) :
    Names (log.append c addr value) b count table := by
  intro page isPage
  rw [append_pages_block c different]
  exact names page isPage

theorem RowOf.other {c : Nat} (rowOf : RowOf l log b row) (different : b ≠ c) :
    RowOf l (log.append c addr value) b row := by
  intro notFull
  rw [append_fill_block c different] at notFull ⊢
  exact (rowOf notFull).other different

theorem PagesOn.other {c : Nat} (onDevice : PagesOn l log pages b) (different : b ≠ c)
    (same : pages' b = pages b) : PagesOn l (log.append c addr value) pages' b := by
  obtain ⟨stored, blank, directory, noDirectory⟩ := onDevice
  rw [← same] at stored blank directory noDirectory
  constructor
  · rw [append_pages_block c different]
    exact stored
  · rw [append_fill_block c different]
    exact blank
  · intro full
    rw [append_fill_block c different] at full
    obtain ⟨table, spare, programmed, names⟩ := directory full
    exact ⟨table, spare, programmed, names.other different⟩
  · rw [append_fill_block c different]
    exact noDirectory

theorem PagesOn.append (onDevice : PagesOn l log pages b) (room : log.fill b < l.width)
    (here : pages' b = appendPage l (pages b) (log.fill b) ⟨.data value, ⟨addr, number⟩⟩
      ⟨.spares table, spare⟩)
    (names : log.fill b + 1 = l.width → Names (log.append b addr value) b l.width table) :
    PagesOn l (log.append b addr value) pages' b := by
  constructor
  · intro page entry isEntry
    rw [here]
    by_cases last : page = log.fill b
    · subst last
      rw [append_pages_last] at isEntry
      rw [appendPage_page, ← Option.some.inj isEntry]
      exact ⟨number, rfl⟩
    · have before : log.pages b page = some entry := (programPage_page last).symm.trans isEntry
      obtain ⟨number', programmed⟩ := onDevice.stored page entry before
      refine ⟨number', ?_⟩
      rw [appendPage_other last]
      · exact programmed
      · rintro _ rfl
        have blank := onDevice.noDirectory room
        rw [programmed] at blank
        exact absurd blank (Option.some_ne_none _)
  · intro page isPage behind
    rw [append_fill_same] at behind
    rw [here, appendPage_other (Nat.ne_of_gt behind) fun _ => Nat.ne_of_lt isPage]
    exact onDevice.blank page isPage (Nat.le_of_succ_le behind)
  · intro full
    rw [append_fill_same] at full
    refine ⟨table, spare, ?_, names full⟩
    rw [here, appendPage, if_pos full, Function.update_self]
  · intro notFull
    rw [append_fill_same] at notFull
    rw [here, appendPage_other (Nat.ne_of_gt room) fun last => absurd last (Nat.ne_of_lt notFull)]
    exact onDevice.noDirectory room

/-- A page goes to a journal: the log has one page more, and the page mapping names it. -/
theorem DataKept.append (kept : DataKept l active log block maps ram pages) (fit : l.DataFits)
    (isActive : active role j) (isAddr : addr < l.ftlCapacity)
    (room : log.fill (block role j) < l.width)
    (entered : ∀ other < l.ftlCapacity, wordPlace l (maps'.word l other) =
      Function.update log.home addr (block role j, log.fill (block role j)) other)
    (moved : role.word ram' j = placeWord l (block role j, log.fill (block role j) + 1))
    (stays : ∀ role' j', active role' j' → (role', j') ≠ (role, j) →
      role'.word ram' j' = role'.word ram j')
    (rows : ∀ hot k, active (.write hot) k →
      RowOf l (log.append (block role j) addr value) (block (.write hot) k)
        (journalMeta hot ram' k))
    (counts : ∀ b, IsDataBlock l b →
      ram'.blockDirtyTable b = dropCount l (maps.word l addr) ram.blockDirtyTable b)
    (others : ∀ b, IsDataBlock l b → b ≠ block role j → pages' b = pages b)
    (here : pages' (block role j) = appendPage l (pages (block role j)) (log.fill (block role j))
      ⟨.data value, ⟨addr, number⟩⟩ ⟨.spares table, spare⟩)
    (names : log.fill (block role j) + 1 = l.width →
      Names (log.append (block role j) addr value) (block role j) l.width table) :
    DataKept l active (log.append (block role j) addr value) block maps' ram' pages' := by
  have isData := kept.inArea role j isActive
  have homeChange : (log.append (block role j) addr value).home =
      Function.update log.home addr (block role j, log.fill (block role j)) := rfl
  have lives := live_update log.home isAddr (block role j, log.fill (block role j))
  dsimp only at lives
  refine ⟨kept.sound.append isAddr room (fit.ne_nowhere isData), entered, fun b notData => ?_,
    kept.inArea, kept.apart, fun role' j' isActive' => ?_, rows, fun b isData' => ?_,
    fun role' j' isActive' => ?_, fun b isData' notActive => ?_⟩
  · have different : b ≠ block role j := by
      rintro rfl
      exact notData isData
    rw [append_fill_block _ different]
    exact kept.outside b notData
  · by_cases same : (role', j') = (role, j)
    · obtain ⟨rfl, rfl⟩ := Prod.mk.inj same
      rw [append_fill_same]
      exact moved
    · have different : block role' j' ≠ block role j := fun sameBlock => by
        obtain ⟨rfl, rfl⟩ := kept.apart role' j' role j isActive' isActive sameBlock
        exact same rfl
      rw [append_fill_block _ different, stays role' j' isActive' same]
      exact kept.words role' j' isActive'
  · by_cases same : b = block role j
    · rw [same]
      exact (kept.onDevice _ isData).append room here names
    · exact (kept.onDevice b isData').other same (others b isData' same)
  · have before := kept.counted role' j' isActive'
    have drop := kept.dropCount_eq fit isAddr (kept.inArea role' j' isActive')
    have change := lives (block role' j')
    rw [counts _ (kept.inArea role' j' isActive'), drop, homeChange]
    by_cases same : block role' j' = block role j
    · rw [same] at before change ⊢
      rw [append_fill_same]
      rw [if_pos rfl] at change
      omega
    · rw [append_fill_block _ same]
      rw [if_neg (Ne.symm same)] at change
      omega
  · have different : b ≠ block role j := notActive role j isActive
    obtain ⟨total, state⟩ := kept.closed b isData' notActive
    have change := lives b
    have drop := kept.dropCount_eq fit isAddr isData'
    rw [if_neg (Ne.symm different)] at change
    rw [counts b isData', drop, homeChange, append_fill_block _ different]
    refine ⟨by omega, state.imp_right fun unused => ⟨unused.1, ?_⟩⟩
    have notHome : (log.home addr).1 ≠ b := fun inBlock => by
      have less := kept.sound.home_lt inBlock (fit.ne_nowhere isData')
      rw [unused.1] at less
      exact Nat.not_lt_zero _ less
    rw [if_neg notHome, Nat.add_zero, unused.2]

end Append

/-- A page is trimmed. -/
theorem DataKept.forget (kept : DataKept l active log block maps ram pages) (fit : l.DataFits)
    (isAddr : addr < l.ftlCapacity)
    (entered : ∀ other < l.ftlCapacity, wordPlace l (maps'.word l other) =
      Function.update log.home addr nowhere other)
    (journals : ram'.journalPart = ram.journalPart)
    (counts : ∀ b, IsDataBlock l b →
      ram'.blockDirtyTable b = dropCount l (maps.word l addr) ram.blockDirtyTable b)
    (same : ∀ b, IsDataBlock l b → pages' b = pages b) :
    DataKept l active (log.forget nowhere addr) block maps' ram' pages' := by
  have homeChange : (log.forget nowhere addr).home = Function.update log.home addr nowhere := rfl
  have counted : ∀ b, IsDataBlock l b →
      ram'.blockDirtyTable b + live l.ftlCapacity (log.forget nowhere addr).home b =
        ram.blockDirtyTable b + live l.ftlCapacity log.home b := by
    intro b isData
    have change := live_update log.home isAddr nowhere b
    rw [if_neg (Ne.symm (fit.ne_nowhere isData))] at change
    rw [counts b isData, kept.dropCount_eq fit isAddr isData, homeChange]
    omega
  refine ⟨kept.sound.forget, entered, kept.outside, kept.inArea, kept.apart,
    fun role j isActive => ?_,
    fun hot j isActive => ?_, fun b isData => ?_, fun role j isActive => ?_,
    fun b isData notActive => ?_⟩
  · rw [Role.word_of_journalPart journals]
    exact kept.words role j isActive
  · rw [journalMeta_of_journalPart journals]
    exact kept.rows hot j isActive
  · obtain ⟨stored, blank, directory, noDirectory⟩ := kept.onDevice b isData
    rw [← same b isData] at stored blank directory noDirectory
    exact ⟨stored, blank, directory, noDirectory⟩
  · rw [counted _ (kept.inArea role j isActive)]
    exact kept.counted role j isActive
  · obtain ⟨total, state⟩ := kept.closed b isData notActive
    rw [counted b isData]
    refine ⟨total, state.imp_right fun unused => ⟨unused.1, ?_⟩⟩
    have notHome : (log.home addr).1 ≠ b := fun inBlock => by
      have less := kept.sound.home_lt inBlock (fit.ne_nowhere isData)
      rw [unused.1] at less
      exact Nat.not_lt_zero _ less
    rw [counts b isData, kept.dropCount_eq fit isAddr isData, if_neg notHome,
      Nat.add_zero, unused.2]

end Kept

end OpenNfm.Ftl
