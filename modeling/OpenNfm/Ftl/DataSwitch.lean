import OpenNfm.Ftl.DataCopies

/-!
# The journals behind a reclaim

When the valid pages of the dirty blocks have been copied, each of these is erased and becomes a
reclaim journal, and the reclaim journal with the copies becomes the journal of its die.  If no
page was valid, the erased blocks become the journals themselves.  Behind the last block all
journals are in use again, and no logical page has lost its data.
-/

namespace OpenNfm.Ftl

open OpenNfm.Program

variable {l : Layout} {D : Type}

/-! ## Erased blocks -/

/-- The journals are the blocks that they were before, and a block that has been erased. -/
structure Replaced (active active' : Active) (block block' : Role → Nat → Nat) (b : Nat) :
    Prop where
  cover : ∀ role j, active' role j →
    block' role j = b ∨ ∃ role' j', active role' j' ∧ block' role j = block role' j'
  used : ∀ role j, active role j → ∃ role' j', active' role' j' ∧ block role j = block' role' j'
  erased : ∃ role j, active' role j ∧ b = block' role j
  apart : ∀ role j role' j', active' role j → active' role' j' → block' role j = block' role' j' →
    role = role' ∧ j = j'

section Replaced

variable {active active' : Active} {log : PageLog D} {block block' : Role → Nat → Nat}
  {maps : PageMap} {ram ram' : FtlRam} {pages : Nand (FtlPage D)} {b c : Nat}

theorem erase_fill_same : (log.erase b).fill b = 0 :=
  Function.update_self _ _ _

theorem erase_fill_other (different : c ≠ b) : (log.erase b).fill c = log.fill c :=
  Function.update_of_ne different _ _

theorem erase_pages_other (different : c ≠ b) : (log.erase b).pages c = log.pages c :=
  eraseBlock_other different

/-- The pages of an erased block. -/
theorem PagesOn.erased (fit : l.DataFits) : PagesOn l (log.erase b) (pages.erase b) b := by
  have blank : pages.erase b b = fun _ => none := Function.update_self _ _ _
  refine ⟨fun page entry here => ?_, fun page _ _ => ?_, fun full => ?_, fun _ => ?_⟩
  · simp only [PageLog.erase, eraseBlock_same] at here
    exact absurd here.symm (Option.some_ne_none _)
  · rw [blank]
  · rw [erase_fill_same] at full
    exact absurd full (Nat.ne_of_lt fit.width_pos)
  · rw [blank]

theorem PagesOn.erase (onDevice : PagesOn l log pages c) (different : c ≠ b) :
    PagesOn l (log.erase b) (pages.erase b) c := by
  have same : pages.erase b c = pages c := Function.update_of_ne different _ _
  obtain ⟨stored, blank, directory, noDirectory⟩ := onDevice
  constructor
  · rw [erase_pages_other different, same]
    exact stored
  · rw [erase_fill_other different, same]
    exact blank
  · rw [erase_fill_other different, same]
    intro full
    obtain ⟨table, spare, programmed, names⟩ := directory full
    refine ⟨table, spare, programmed, ?_⟩
    unfold Names
    rw [erase_pages_other different]
    exact names
  · rw [erase_fill_other different, same]
    exact noDirectory

theorem RowOf.erase {row : Nat → Spare} (rowOf : RowOf l log c row) (different : c ≠ b) :
    RowOf l (log.erase b) c row := by
  unfold RowOf Names
  rw [erase_fill_other different, erase_pages_other different]
  exact rowOf

theorem RowOf.erased {row : Nat → Spare} : RowOf l (log.erase b) b row := by
  intro _ page isPage
  rw [erase_fill_same] at isPage
  exact absurd isPage (Nat.not_lt_zero page)

/-- A block without valid pages is erased and becomes a journal. -/
theorem DataKept.replace (kept : DataKept l active log block maps ram pages) (fit : l.DataFits)
    (isData : IsDataBlock l b) (idle : ∀ role j, active role j → b ≠ block role j)
    (empty : live l.ftlCapacity log.home b = 0) (replaced : Replaced active active' block block' b)
    (words : ∀ role j, active' role j →
      role.word ram' j = placeWord l (block' role j, (log.erase b).fill (block' role j)))
    (rows : ∀ hot j, active' (.write hot) j →
      RowOf l (log.erase b) (block' (.write hot) j) (journalMeta hot ram' j))
    (zero : ram'.blockDirtyTable b = 0)
    (counts : ∀ c, IsDataBlock l c → c ≠ b → ram'.blockDirtyTable c = ram.blockDirtyTable c) :
    DataKept l active' (log.erase b) block' maps ram' (pages.erase b) where
  sound := kept.sound.erase (fit.ne_nowhere isData) empty
  homes := kept.homes
  outside c notData := by
    have different : c ≠ b := by
      rintro rfl
      exact notData isData
    rw [erase_fill_other different]
    exact kept.outside c notData
  inArea role j isActive := by
    rcases replaced.cover role j isActive with same | ⟨role', j', isActive', same⟩
    · rw [same]
      exact isData
    · rw [same]
      exact kept.inArea role' j' isActive'
  apart := replaced.apart
  words := words
  rows := rows
  onDevice c isData' := by
    by_cases same : c = b
    · rw [same]
      exact PagesOn.erased fit
    · exact (kept.onDevice c isData').erase same
  counted role j isActive := by
    have sameHome : (log.erase b).home = log.home := rfl
    rcases replaced.cover role j isActive with same | ⟨role', j', isActive', same⟩
    · rw [same, zero, sameHome, empty, erase_fill_same]
    · have different : block role' j' ≠ b := Ne.symm (idle role' j' isActive')
      rw [same, counts _ (kept.inArea role' j' isActive') different, sameHome,
        erase_fill_other different]
      exact kept.counted role' j' isActive'
  closed c isData' notActive := by
    have different : c ≠ b := by
      rintro rfl
      obtain ⟨role, j, isActive, same⟩ := replaced.erased
      exact notActive role j isActive same
    rw [counts c isData' different, erase_fill_other different]
    refine kept.closed c isData' fun role j isActive same => ?_
    obtain ⟨role', j', isActive', same'⟩ := replaced.used role j isActive
    exact notActive role' j' isActive' (same.trans same')

/-- A journal that stays keeps its word. -/
theorem DataKept.word_stays {role : Role} {j : Nat}
    (kept : DataKept l active log block maps ram pages) (isActive : active role j)
    (different : block role j ≠ b) (sameWord : role.word ram' j = role.word ram j)
    (sameBlock : block' role j = block role j) :
    role.word ram' j = placeWord l (block' role j, (log.erase b).fill (block' role j)) := by
  rw [sameWord, sameBlock, erase_fill_other different]
  exact kept.words role j isActive

/-- A journal that stays keeps its row of names. -/
theorem DataKept.row_stays {hot : Bool} {j : Nat}
    (kept : DataKept l active log block maps ram pages) (isActive : active (.write hot) j)
    (different : block (.write hot) j ≠ b) (sameMeta : journalMeta hot ram' = journalMeta hot ram)
    (sameBlock : block' (.write hot) j = block (.write hot) j) :
    RowOf l (log.erase b) (block' (.write hot) j) (journalMeta hot ram' j) := by
  rw [sameMeta, sameBlock]
  exact (kept.rows hot j isActive).erase different

end Replaced

/-! ## The journal of one die -/

/-- The reclaim journal becomes the journal, and the erased block the reclaim journal. -/
def switchedBlocks (hot : Bool) (i b : Nat) (block : Role → Nat → Nat) : Role → Nat → Nat :=
  fun role j =>
    if (role, j) = (.write hot, i) then block .reclaim i
    else if (role, j) = (.reclaim, i) then b
    else block role j

/-- The erased block becomes the journal. -/
def restartedBlocks (hot : Bool) (i b : Nat) (block : Role → Nat → Nat) : Role → Nat → Nat :=
  fun role j => if (role, j) = (.write hot, i) then b else block role j

section Journal

variable {hot : Bool} {i j b : Nat} {block : Role → Nat → Nat} {role : Role}

theorem reclaimActive_succ (isJournal : i < l.journalBlockCount) :
    reclaimActive l hot (i + 1) role j ↔
      reclaimActive l hot i role j ∨ (role, j) = (.write hot, i) := by
  constructor
  · rintro ⟨inJournals, own⟩
    by_cases here : (role, j) = (.write hot, i)
    · exact Or.inr here
    · refine Or.inl ⟨inJournals, fun same => ?_⟩
      have less := own same
      have different : j ≠ i := fun sameIndex => here (by rw [same, sameIndex])
      omega
  · rintro (⟨inJournals, own⟩ | here)
    · exact ⟨inJournals, fun same => Nat.lt_succ_of_lt (own same)⟩
    · obtain ⟨rfl, rfl⟩ := Prod.mk.inj here
      exact ⟨isJournal, fun _ => Nat.lt_succ_self _⟩

theorem not_reclaimActive : ¬ reclaimActive l hot i (.write hot) i := fun wrong =>
  Nat.lt_irrefl i (wrong.2 rfl)

theorem switched_write : switchedBlocks hot i b block (.write hot) i = block .reclaim i :=
  if_pos rfl

theorem switched_reclaim : switchedBlocks hot i b block .reclaim i = b :=
  (if_neg fun wrong => by cases wrong).trans (if_pos rfl)

theorem switched_other (notWrite : (role, j) ≠ (.write hot, i))
    (notReclaim : (role, j) ≠ (.reclaim, i)) :
    switchedBlocks hot i b block role j = block role j :=
  (if_neg notWrite).trans (if_neg notReclaim)

theorem restarted_write : restartedBlocks hot i b block (.write hot) i = b :=
  if_pos rfl

theorem restarted_other (notWrite : (role, j) ≠ (.write hot, i)) :
    restartedBlocks hot i b block role j = block role j :=
  if_neg notWrite

theorem replaced_switched (isJournal : i < l.journalBlockCount)
    (idle : ∀ role j, reclaimActive l hot i role j → b ≠ block role j)
    (apart : ∀ role j role' j', reclaimActive l hot i role j → reclaimActive l hot i role' j' →
      block role j = block role' j' → role = role' ∧ j = j') :
    Replaced (reclaimActive l hot i) (reclaimActive l hot (i + 1)) block
      (switchedBlocks hot i b block) b := by
  have isSpare : reclaimActive l hot i .reclaim i := reclaim_active isJournal
  have stays : ∀ role j, reclaimActive l hot (i + 1) role j → (role, j) ≠ (.write hot, i) →
      reclaimActive l hot i role j := fun role j isActive different =>
    ((reclaimActive_succ isJournal).mp isActive).resolve_right different
  constructor
  · intro role j isActive
    by_cases isWrite : (role, j) = (.write hot, i)
    · obtain ⟨rfl, rfl⟩ := Prod.mk.inj isWrite
      exact Or.inr ⟨.reclaim, _, isSpare, switched_write⟩
    · by_cases isReclaim : (role, j) = (.reclaim, i)
      · obtain ⟨rfl, rfl⟩ := Prod.mk.inj isReclaim
        exact Or.inl switched_reclaim
      · exact Or.inr ⟨role, j, stays role j isActive isWrite, switched_other isWrite isReclaim⟩
  · intro role j isActive
    by_cases isReclaim : (role, j) = (.reclaim, i)
    · obtain ⟨rfl, rfl⟩ := Prod.mk.inj isReclaim
      exact ⟨.write hot, _, (reclaimActive_succ isJournal).mpr (Or.inr rfl), switched_write.symm⟩
    · have notWrite : (role, j) ≠ (.write hot, i) := by
        rintro same
        obtain ⟨rfl, rfl⟩ := Prod.mk.inj same
        exact not_reclaimActive isActive
      exact ⟨role, j, (reclaimActive_succ isJournal).mpr (Or.inl isActive),
        (switched_other notWrite isReclaim).symm⟩
  · exact ⟨.reclaim, i, reclaim_active isJournal, switched_reclaim.symm⟩
  · intro role j role' j' isActive isActive' same
    have here := stays role j isActive
    have here' := stays role' j' isActive'
    unfold switchedBlocks at same
    grind

theorem replaced_restarted (isJournal : i < l.journalBlockCount)
    (idle : ∀ role j, reclaimActive l hot i role j → b ≠ block role j)
    (apart : ∀ role j role' j', reclaimActive l hot i role j → reclaimActive l hot i role' j' →
      block role j = block role' j' → role = role' ∧ j = j') :
    Replaced (reclaimActive l hot i) (reclaimActive l hot (i + 1)) block
      (restartedBlocks hot i b block) b := by
  have stays : ∀ role j, reclaimActive l hot (i + 1) role j → (role, j) ≠ (.write hot, i) →
      reclaimActive l hot i role j := fun role j isActive different =>
    ((reclaimActive_succ isJournal).mp isActive).resolve_right different
  constructor
  · intro role j isActive
    by_cases isWrite : (role, j) = (.write hot, i)
    · obtain ⟨rfl, rfl⟩ := Prod.mk.inj isWrite
      exact Or.inl restarted_write
    · exact Or.inr ⟨role, j, stays role j isActive isWrite, restarted_other isWrite⟩
  · intro role j isActive
    have notWrite : (role, j) ≠ (.write hot, i) := by
      rintro same
      obtain ⟨rfl, rfl⟩ := Prod.mk.inj same
      exact not_reclaimActive isActive
    exact ⟨role, j, (reclaimActive_succ isJournal).mpr (Or.inl isActive),
      (restarted_other notWrite).symm⟩
  · exact ⟨.write hot, i, (reclaimActive_succ isJournal).mpr (Or.inr rfl), restarted_write.symm⟩
  · intro role j role' j' isActive isActive' same
    have here := stays role j isActive
    have here' := stays role' j' isActive'
    unfold restartedBlocks at same
    grind

end Journal

/-! ## The loop over the dice -/

/-- An invariant of the dirty blocks that are left holds behind the last one. -/
theorem onReturn_dataSwitchJournals {change : Nat → Nat → FtlRam → FtlRam}
    (inv : List Nat → Nat → FtlRam → UbiStore D → Prop) {post : Status → FtlRam → UbiStore D → Prop}
    {blocks : List Nat} {i : Nat} {ram : FtlRam} {store : UbiStore D}
    (step : ∀ b rest i ram store, inv (b :: rest) i ram store →
      inv rest (i + 1) (change i b ram) (store.erase b))
    (begins : inv blocks i ram store) (meets : ∀ i ram' after, inv [] i ram' after →
      post .success ram' after) :
    OnReturn l (dataSwitchJournals change blocks i .success) post ram store := by
  induction blocks generalizing i ram store with
  | nil => exact OnReturn.pure.mpr (meets i ram store begins)
  | cons b rest ih =>
      rw [dataSwitchJournals, onSuccess_success, OnReturn.bind]
      refine OnReturn.erase fun _ => ?_
      rw [onSuccess_success, OnReturn.bind, OnReturn.bind, OnReturn.modifies, OnReturn.pure]
      exact ih (step b rest i ram store begins)

/-- The dirty blocks that wait to be erased: nobody's home, and no journals. -/
structure ToErase (l : Layout) (hot : Bool) (block : Role → Nat → Nat) (log : PageLog D)
    (blocks : List Nat) (i : Nat) : Prop where
  nodup : blocks.Nodup
  inJournals : i + blocks.length = l.journalBlockCount
  isData : ∀ b ∈ blocks, IsDataBlock l b
  idle : ∀ b ∈ blocks, ∀ role j, reclaimActive l hot i role j → b ≠ block role j
  empty : ∀ b ∈ blocks, live l.ftlCapacity log.home b = 0

/-- What the end of a reclaim has in common with its beginning: the values of the logical pages, and
the journals of the other kind. -/
structure SameData (l : Layout) (hot : Bool) (log log' : PageLog D)
    (block block' : Role → Nat → Nat) :
    Prop where
  contents : log'.contents = log.contents
  others : ∀ j < l.journalBlockCount, block' (.write (!hot)) j = block (.write (!hot)) j
  fills : ∀ j < l.journalBlockCount,
    log'.fill (block (.write (!hot)) j) = log.fill (block (.write (!hot)) j)

section Steps

variable {strict : Prop} {hot : Bool} {log log₀ : PageLog D}
  {block block' block₀ : Role → Nat → Nat} {maps : PageMap} {ram : FtlRam} {store : UbiStore D}
  {i b : Nat} {rest : List Nat}

theorem ToErase.isJournal (toErase : ToErase l hot block log (b :: rest) i) :
    i < l.journalBlockCount := by
  have total := toErase.inJournals
  rw [List.length_cons] at total
  omega

/-- The other blocks wait on. -/
theorem ToErase.next (toErase : ToErase l hot block log (b :: rest) i)
    (replaced : Replaced (reclaimActive l hot i) (reclaimActive l hot (i + 1)) block block' b) :
    ToErase l hot block' (log.erase b) rest (i + 1) := by
  obtain ⟨nodup, inJournals, isData, idle, empty⟩ := toErase
  obtain ⟨fresh, nodup'⟩ := List.nodup_cons.mp nodup
  rw [List.length_cons] at inJournals
  refine ⟨nodup', by omega, fun c member => isData c (List.mem_cons_of_mem _ member),
    fun c member role j isActive same => ?_,
      fun c member => empty c (List.mem_cons_of_mem _ member)⟩
  rcases replaced.cover role j isActive with erased | ⟨role', j', isActive', here⟩
  · rw [← same.trans erased] at fresh
    exact fresh member
  · exact idle c (List.mem_cons_of_mem _ member) role' j' isActive' (same.trans here)

theorem other_active {j : Nat} (isJournal : j < l.journalBlockCount) :
    reclaimActive l hot i (.write (!hot)) j :=
  ⟨isJournal, fun wrong => by cases hot <;> exact absurd (Role.write.inj wrong) (by decide)⟩

theorem earlier_active {j : Nat} (isJournal : i < l.journalBlockCount) (earlier : j < i) :
    reclaimActive l hot i (.write hot) j :=
  ⟨Nat.lt_trans earlier isJournal, fun _ => earlier⟩

theorem write_not_ne {j : Nat} : (Role.write (!hot), j) ≠ (.write hot, i) := fun wrong => by
  have kind := Role.write.inj (Prod.mk.inj wrong).1
  cases hot <;> exact absurd kind (by decide)

/-- An erase changes no value and no journal of the other kind. -/
theorem SameData.erase {pages : Nand (FtlPage D)} (same : SameData l hot log₀ log block₀ block)
    (kept : DataKept l (reclaimActive l hot i) log block maps ram pages) (fit : l.DataFits)
    (toErase : ToErase l hot block log (b :: rest) i)
    (others : ∀ j < l.journalBlockCount, block' (.write (!hot)) j = block (.write (!hot)) j) :
    SameData l hot log₀ (log.erase b) block₀ block' where
  contents := by
    have isData := toErase.isData b List.mem_cons_self
    have empty := toErase.empty b List.mem_cons_self
    exact (kept.sound.contents_erase (fit.ne_nowhere isData) empty).trans same.contents
  others j isJournal := (others j isJournal).trans (same.others j isJournal)
  fills j isJournal := by
    have different : b ≠ block (.write (!hot)) j :=
      toErase.idle b List.mem_cons_self _ j (other_active isJournal)
    rw [same.others j isJournal] at different
    rw [erase_fill_other (Ne.symm different)]
    exact same.fills j isJournal

/-! ### The variables of the journals -/

theorem journalMeta_switchJournal {other : Bool} :
    journalMeta other (switchJournal l hot i b ram) = journalMeta other ram := by
  cases hot <;> cases other <;> rfl

theorem Role.word_switchJournal_write :
    (Role.write hot).word (switchJournal l hot i b ram) i = Role.reclaim.word ram i := by
  cases hot <;> exact Function.update_self _ _ _

theorem Role.word_switchJournal_reclaim :
    Role.reclaim.word (switchJournal l hot i b ram) i = placeWord l (b, 0) :=
  Function.update_self _ _ _

theorem Role.word_switchJournal_other {role : Role} {j : Nat}
    (notWrite : (role, j) ≠ (.write hot, i)) (notReclaim : (role, j) ≠ (.reclaim, i)) :
    role.word (switchJournal l hot i b ram) j = role.word ram j := by
  have before : role.word (setReclaimJournal i (PmNode.setBlockPage l.g b 0)
      (setJournal hot i (ram.rootTable.reclaimJournal i) ram)) j = role.word ram j := by
    rw [Role.word_setReclaimJournal_other notReclaim, Role.word_setJournal_other notWrite]
  rw [← before]
  cases role <;> rfl

theorem journalMeta_restartJournal {other : Bool} :
    journalMeta other (restartJournal l hot i b ram) = journalMeta other ram := by
  cases hot <;> cases other <;> rfl

theorem Role.word_restartJournal_write :
    (Role.write hot).word (restartJournal l hot i b ram) i = placeWord l (b, 0) := by
  cases hot <;> exact Function.update_self _ _ _

theorem Role.word_restartJournal_other {role : Role} {j : Nat}
    (notWrite : (role, j) ≠ (.write hot, i)) :
    role.word (restartJournal l hot i b ram) j = role.word ram j := by
  have before :
      role.word (setJournal hot i (PmNode.setBlockPage l.g b 0) ram) j = role.word ram j :=
    Role.word_setJournal_other notWrite
  rw [← before]
  cases role <;> rfl

theorem blockDirtyTable_restartJournal : (restartJournal l hot i b ram).blockDirtyTable =
    Function.update ram.blockDirtyTable b 0 := by
  cases hot <;> rfl

theorem blockDirtyTable_switchJournal {c : Nat}
    (onBlock : PmNode.block l.g (Role.reclaim.word ram i) = c) :
    (switchJournal l hot i b ram).blockDirtyTable =
      Function.update (Function.update ram.blockDirtyTable b 0) c 0 := by
  have moved : journal hot (setReclaimJournal i (PmNode.setBlockPage l.g b 0)
      (setJournal hot i (ram.rootTable.reclaimJournal i) ram)) i = Role.reclaim.word ram i := by
    cases hot <;> exact Function.update_self _ _ _
  have same : (setReclaimJournal i (PmNode.setBlockPage l.g b 0)
      (setJournal hot i (ram.rootTable.reclaimJournal i) ram)).blockDirtyTable =
      ram.blockDirtyTable := by
    cases hot <;> rfl
  unfold switchJournal
  dsimp only
  rw [moved, onBlock, same]

/-- The journals and the counts of data blocks are no part of the tables. -/
theorem dataStep_erase {ram' : FtlRam} (isData : IsDataBlock l b)
    (cursors : ram'.logCursors = ram.logCursors) (part : ram'.pmtPart = ram.pmtPart)
    (counts : ∀ c, c < l.dataStartBlock → ram'.blockDirtyTable c = ram.blockDirtyTable c) :
    DataStep l ram store ram' (store.erase b) :=
  ⟨cursors, part, fun c inArea => counts c inArea.2, (WithinBlocks.refl _ store).erase isData⟩

/-! ### One die -/

/-- The journals while they are replaced, one die after the other. -/
structure Replacing (l : Layout) (strict : Prop) (hot : Bool) (log₀ : PageLog D)
    (block₀ : Role → Nat → Nat) (log : PageLog D) (block : Role → Nat → Nat) (maps : PageMap)
    (blocks : List Nat) (i : Nat) (ram : FtlRam) (store : UbiStore D) : Prop where
  kept : FtlKept l strict (reclaimActive l hot i) log block maps ram store
  toErase : ToErase l hot block log blocks i
  same : SameData l hot log₀ log block₀ block
  spares : ∀ j < i, log.fill (block .reclaim j) = 0
  room : ∀ j < i, log.fill (block (.write hot) j) < l.width

/-- The reclaim journals with the copies, from the `i`-th on. -/
structure WithCopies (l : Layout) (hot : Bool) (log : PageLog D)
    (block : Role → Nat → Nat) (i : Nat) (ram : FtlRam) : Prop where
  rows : ∀ j, i ≤ j → j < l.journalBlockCount →
    RowOf l log (block .reclaim j) (journalMeta hot ram j)
  fresh : ∀ j, i ≤ j → j < l.journalBlockCount → ram.blockDirtyTable (block .reclaim j) = 0
  room : ∀ j, i ≤ j → j < l.journalBlockCount → log.fill (block .reclaim j) < l.width

/-- The journal that is next to be replaced is none of the dirty blocks. -/
theorem ToErase.ne_head {role : Role} {j : Nat}
    (toErase : ToErase l hot block log (b :: rest) i) (isActive : reclaimActive l hot i role j) :
    block role j ≠ b :=
  Ne.symm (toErase.idle b List.mem_cons_self role j isActive)

theorem ToErase.spare_ne_head {j : Nat} (toErase : ToErase l hot block log (b :: rest) i)
    (isJournal : j < l.journalBlockCount) : block .reclaim j ≠ b :=
  toErase.ne_head (reclaim_active isJournal)

/-- Behind the `i`-th die the reclaim journals are the ones they were. -/
theorem switched_later {j : Nat} (behind : i < j) :
    switchedBlocks hot i b block .reclaim j = block .reclaim j := by
  refine switched_other (fun wrong => ?_) fun wrong => ?_
  · cases wrong
  · exact absurd (Prod.mk.inj wrong).2 (Nat.ne_of_gt behind)

/-- Nothing is counted of a reclaim journal before it is the journal. -/
theorem counts_switchJournal (fit : l.DataFits)
    (kept : FtlKept l strict (reclaimActive l hot i) log block maps ram store)
    (isJournal : i < l.journalBlockCount) (copies : WithCopies l hot log block i ram) {c : Nat}
    (different : c ≠ b) :
    (switchJournal l hot i b ram).blockDirtyTable c = ram.blockDirtyTable c := by
  rw [blockDirtyTable_switchJournal (kept.data.block_word fit (reclaim_active isJournal))]
  by_cases here : c = block .reclaim i
  · rw [here, Function.update_self]
    exact (copies.fresh i (Nat.le_refl i) isJournal).symm
  · rw [Function.update_of_ne here, Function.update_of_ne different]

theorem FtlKept.switch (fit : l.DataFits)
    (kept : FtlKept l strict (reclaimActive l hot i) log block maps ram store)
    (toErase : ToErase l hot block log (b :: rest) i) (copies : WithCopies l hot log block i ram) :
    FtlKept l strict (reclaimActive l hot (i + 1)) (log.erase b) (switchedBlocks hot i b block) maps
      (switchJournal l hot i b ram) (store.erase b) := by
  have isJournal := toErase.isJournal
  have isData := toErase.isData b List.mem_cons_self
  have idle := toErase.idle b List.mem_cons_self
  have replaced := replaced_switched isJournal idle kept.data.apart
  have notSpare := toErase.spare_ne_head isJournal
  have counts : ∀ c, IsDataBlock l c → c ≠ b →
      (switchJournal l hot i b ram).blockDirtyTable c = ram.blockDirtyTable c :=
        fun c _ different =>
    counts_switchJournal fit kept isJournal copies different
  refine ⟨?_, kept.inData, ?_⟩
  · refine kept.powered.data (dataStep_erase isData ?_ ?_ ?_)
    · cases hot <;> rfl
    · cases hot <;> rfl
    · intro c isTable
      have different : c ≠ b := fun same => Nat.not_lt.mpr isData.1 (same ▸ isTable)
      exact counts_switchJournal fit kept isJournal copies different
  · refine kept.data.replace fit isData idle (toErase.empty b List.mem_cons_self) replaced
      (fun role j isActive => ?_) (fun other j isActive => ?_) ?_ counts
    · by_cases isWrite : (role, j) = (.write hot, i)
      · obtain ⟨rfl, rfl⟩ := Prod.mk.inj isWrite
        rw [Role.word_switchJournal_write, switched_write, erase_fill_other notSpare]
        exact kept.data.words .reclaim _ (reclaim_active isJournal)
      · by_cases isReclaim : (role, j) = (.reclaim, i)
        · obtain ⟨rfl, rfl⟩ := Prod.mk.inj isReclaim
          rw [Role.word_switchJournal_reclaim, switched_reclaim, erase_fill_same]
        · have isActive' := ((reclaimActive_succ isJournal).mp isActive).resolve_right isWrite
          exact kept.data.word_stays isActive' (toErase.ne_head isActive')
            (Role.word_switchJournal_other isWrite isReclaim) (switched_other isWrite isReclaim)
    · by_cases isWrite : (Role.write other, j) = (.write hot, i)
      · obtain ⟨kind, rfl⟩ := Prod.mk.inj isWrite
        obtain rfl := Role.write.inj kind
        rw [journalMeta_switchJournal, switched_write]
        exact (copies.rows _ (Nat.le_refl _) isJournal).erase notSpare
      · have isActive' := ((reclaimActive_succ isJournal).mp isActive).resolve_right isWrite
        exact kept.data.row_stays isActive' (toErase.ne_head isActive') journalMeta_switchJournal
          (switched_other isWrite fun wrong => by cases wrong)
    · rw [blockDirtyTable_switchJournal (kept.data.block_word fit (reclaim_active isJournal)),
        Function.update_of_ne (Ne.symm notSpare), Function.update_self]

theorem WithCopies.switch (fit : l.DataFits)
    (kept : FtlKept l strict (reclaimActive l hot i) log block maps ram store)
    (toErase : ToErase l hot block log (b :: rest) i) (copies : WithCopies l hot log block i ram) :
    WithCopies l hot (log.erase b) (switchedBlocks hot i b block) (i + 1)
      (switchJournal l hot i b ram) := by
  refine ⟨fun j behind isJournal => ?_, fun j behind isJournal => ?_, fun j behind isJournal => ?_⟩
  · rw [journalMeta_switchJournal, switched_later behind]
    exact (copies.rows j (Nat.le_of_succ_le behind) isJournal).erase
      (toErase.spare_ne_head isJournal)
  · rw [switched_later behind,
      counts_switchJournal fit kept toErase.isJournal copies (toErase.spare_ne_head isJournal)]
    exact copies.fresh j (Nat.le_of_succ_le behind) isJournal
  · rw [switched_later behind, erase_fill_other (toErase.spare_ne_head isJournal)]
    exact copies.room j (Nat.le_of_succ_le behind) isJournal

/-- The dirty block becomes the reclaim journal, and the one with the copies the journal. -/
theorem Replacing.switch (fit : l.DataFits)
    (replacing : Replacing l strict hot log₀ block₀ log block maps (b :: rest) i ram store)
    (copies : WithCopies l hot log block i ram) :
    Replacing l strict hot log₀ block₀ (log.erase b) (switchedBlocks hot i b block) maps
        rest (i + 1) (switchJournal l hot i b ram) (store.erase b) ∧
      WithCopies l hot (log.erase b) (switchedBlocks hot i b block) (i + 1)
        (switchJournal l hot i b ram) := by
  obtain ⟨kept, toErase, same, spares, room⟩ := replacing
  have isJournal := toErase.isJournal
  have replaced :=
    replaced_switched isJournal (toErase.idle b List.mem_cons_self) kept.data.apart
  refine ⟨⟨kept.switch fit toErase copies, toErase.next replaced, ?_, ?_, ?_⟩,
    copies.switch fit kept toErase⟩
  · refine same.erase kept.data fit toErase fun j _ => switched_other write_not_ne fun wrong => ?_
    cases wrong
  · intro j upTo
    rcases Nat.lt_succ_iff_lt_or_eq.mp upTo with earlier | rfl
    · rw [switched_other (fun wrong => by cases wrong)
        fun wrong => absurd (Prod.mk.inj wrong).2 (Nat.ne_of_lt earlier),
        erase_fill_other (toErase.spare_ne_head (Nat.lt_trans earlier isJournal))]
      exact spares j earlier
    · rw [switched_reclaim, erase_fill_same]
  · intro j upTo
    rcases Nat.lt_succ_iff_lt_or_eq.mp upTo with earlier | rfl
    · rw [switched_other (fun wrong => absurd (Prod.mk.inj wrong).2 (Nat.ne_of_lt earlier))
        (fun wrong => by cases wrong),
        erase_fill_other (toErase.ne_head (earlier_active isJournal earlier))]
      exact room j earlier
    · rw [switched_write, erase_fill_other (toErase.spare_ne_head isJournal)]
      exact copies.room _ (Nat.le_refl _) isJournal

theorem FtlKept.restart (fit : l.DataFits)
    (kept : FtlKept l strict (reclaimActive l hot i) log block maps ram store)
    (toErase : ToErase l hot block log (b :: rest) i) :
    FtlKept l strict (reclaimActive l hot (i + 1)) (log.erase b)
      (restartedBlocks hot i b block) maps (restartJournal l hot i b ram) (store.erase b) := by
  have isJournal := toErase.isJournal
  have isData := toErase.isData b List.mem_cons_self
  have idle := toErase.idle b List.mem_cons_self
  have replaced := replaced_restarted isJournal idle kept.data.apart
  refine ⟨?_, kept.inData, ?_⟩
  · refine kept.powered.data (dataStep_erase isData ?_ ?_ ?_)
    · cases hot <;> rfl
    · cases hot <;> rfl
    · intro c isTable
      have different : c ≠ b := fun same => Nat.not_lt.mpr isData.1 (same ▸ isTable)
      rw [blockDirtyTable_restartJournal, Function.update_of_ne different]
  · refine kept.data.replace fit isData idle (toErase.empty b List.mem_cons_self) replaced
      (fun role j isActive => ?_) (fun other j isActive => ?_) ?_ fun c _ different => ?_
    · by_cases isWrite : (role, j) = (.write hot, i)
      · obtain ⟨rfl, rfl⟩ := Prod.mk.inj isWrite
        rw [Role.word_restartJournal_write, restarted_write, erase_fill_same]
      · have isActive' := ((reclaimActive_succ isJournal).mp isActive).resolve_right isWrite
        exact kept.data.word_stays isActive' (toErase.ne_head isActive')
          (Role.word_restartJournal_other isWrite) (restarted_other isWrite)
    · by_cases isWrite : (Role.write other, j) = (.write hot, i)
      · obtain ⟨kind, rfl⟩ := Prod.mk.inj isWrite
        obtain rfl := Role.write.inj kind
        rw [restarted_write]
        exact RowOf.erased
      · have isActive' := ((reclaimActive_succ isJournal).mp isActive).resolve_right isWrite
        exact kept.data.row_stays isActive' (toErase.ne_head isActive') journalMeta_restartJournal
          (restarted_other isWrite)
    · rw [blockDirtyTable_restartJournal, Function.update_self]
    · rw [blockDirtyTable_restartJournal, Function.update_of_ne different]

/-- No reclaim journal has a page, and the dirty block becomes the journal. -/
theorem Replacing.restart (fit : l.DataFits)
    (replacing : Replacing l strict hot log₀ block₀ log block maps (b :: rest) i ram store)
    (unused : ∀ j < l.journalBlockCount, log.fill (block .reclaim j) = 0) :
    Replacing l strict hot log₀ block₀ (log.erase b) (restartedBlocks hot i b block) maps
        rest (i + 1) (restartJournal l hot i b ram) (store.erase b) ∧
      ∀ j < l.journalBlockCount,
        (log.erase b).fill (restartedBlocks hot i b block .reclaim j) = 0 := by
  obtain ⟨kept, toErase, same, _, room⟩ := replacing
  have isJournal := toErase.isJournal
  have replaced :=
    replaced_restarted isJournal (toErase.idle b List.mem_cons_self) kept.data.apart
  have unused' : ∀ j < l.journalBlockCount,
      (log.erase b).fill (restartedBlocks hot i b block .reclaim j) = 0 := by
    intro j isJournal'
    rw [restarted_other (fun wrong => by cases wrong),
      erase_fill_other (toErase.spare_ne_head isJournal')]
    exact unused j isJournal'
  refine ⟨⟨kept.restart fit toErase, toErase.next replaced, ?_, ?_, ?_⟩, unused'⟩
  · exact same.erase kept.data fit toErase fun j _ => restarted_other write_not_ne
  · intro j upTo
    exact unused' j (Nat.lt_of_lt_of_le upTo isJournal)
  · intro j upTo
    rcases Nat.lt_succ_iff_lt_or_eq.mp upTo with earlier | rfl
    · rw [restarted_other (fun wrong => absurd (Prod.mk.inj wrong).2 (Nat.ne_of_lt earlier)),
        erase_fill_other (toErase.ne_head (earlier_active isJournal earlier))]
      exact room j earlier
    · rw [restarted_write, erase_fill_same]
      exact fit.width_pos

/-! ## All dice -/

/-- Between the calls the reclaim journals are spare blocks, and there is room for a page of each
kind. -/
structure FtlReady (l : Layout) (strict : Prop) (log : PageLog D) (block : Role → Nat → Nat)
    (maps : PageMap) (ram : FtlRam) (store : UbiStore D) : Prop where
  kept : FtlKept l strict (allActive l) log block maps ram store
  spares : ∀ j < l.journalBlockCount, log.fill (block .reclaim j) = 0
  room : ∀ hot, ∃ j < l.journalBlockCount, log.fill (block (.write hot) j) < l.width

/-- Behind a reclaim all journals of its kind have room. -/
structure Reclaimed (l : Layout) (strict : Prop) (hot : Bool) (log₀ : PageLog D)
    (block₀ : Role → Nat → Nat) (log : PageLog D) (block : Role → Nat → Nat) (maps : PageMap)
    (ram : FtlRam) (store : UbiStore D) : Prop where
  kept : FtlKept l strict (allActive l) log block maps ram store
  same : SameData l hot log₀ log block₀ block
  spares : ∀ j < l.journalBlockCount, log.fill (block .reclaim j) = 0
  room : ∀ j < l.journalBlockCount, log.fill (block (.write hot) j) < l.width

theorem reclaimActive_all : reclaimActive l hot l.journalBlockCount = allActive l := by
  funext role j
  exact propext (and_iff_left_of_imp fun isJournal _ => isJournal)

theorem Replacing.reclaimed
    (replacing : Replacing l strict hot log₀ block₀ log block maps [] i ram store) :
    Reclaimed l strict hot log₀ block₀ log block maps ram store := by
  obtain ⟨kept, toErase, same, spares, room⟩ := replacing
  obtain rfl : i = l.journalBlockCount := toErase.inJournals
  rw [reclaimActive_all] at kept
  exact ⟨kept, same, spares, room⟩

variable {blocks : List Nat} {post : Status → FtlRam → UbiStore D → Prop}

/-- The journals with the copies are taken into use. -/
theorem Replacing.onReturn_switch (fit : l.DataFits)
    (replacing : Replacing l strict hot log₀ block₀ log block maps blocks 0 ram store)
    (copies : WithCopies l hot log block 0 ram)
    (meets : ∀ log' block' maps' ram' after,
      Reclaimed l strict hot log₀ block₀ log' block' maps' ram' after → post .success ram' after) :
    OnReturn l (dataSwitchJournals (switchJournal l hot) blocks 0 .success) post ram store := by
  let inv := fun rest i ram store => ∃ log block maps,
    Replacing l strict hot log₀ block₀ log block maps rest i ram store ∧
      WithCopies l hot (D := D) log block i ram
  refine onReturn_dataSwitchJournals inv ?_ ⟨log, block, maps, replacing, copies⟩ ?_
  · rintro b rest i ram store ⟨log, block, maps, replacing, copies⟩
    exact ⟨_, _, maps, replacing.switch fit copies⟩
  · rintro i ram' after ⟨log', block', maps', replacing', _⟩
    exact meets log' block' maps' ram' after replacing'.reclaimed

/-- The erased blocks are taken into use. -/
theorem Replacing.onReturn_restart (fit : l.DataFits)
    (replacing : Replacing l strict hot log₀ block₀ log block maps blocks 0 ram store)
    (unused : ∀ j < l.journalBlockCount, log.fill (block .reclaim j) = 0)
    (meets : ∀ log' block' maps' ram' after,
      Reclaimed l strict hot log₀ block₀ log' block' maps' ram' after → post .success ram' after) :
    OnReturn l (dataSwitchJournals (restartJournal l hot) blocks 0 .success) post ram store := by
  let inv := fun rest i ram store =>
    ∃ (log : PageLog D) (block : Role → Nat → Nat) (maps : PageMap),
    Replacing l strict hot log₀ block₀ log block maps rest i ram store ∧
      ∀ j < l.journalBlockCount, log.fill (block .reclaim j) = 0
  refine onReturn_dataSwitchJournals inv ?_ ⟨log, block, maps, replacing, unused⟩ ?_
  · rintro b rest i ram store ⟨log, block, maps, replacing, unused⟩
    exact ⟨_, _, maps, replacing.restart fit unused⟩
  · rintro i ram' after ⟨log', block', maps', replacing', _⟩
    exact meets log' block' maps' ram' after replacing'.reclaimed

end Steps

end OpenNfm.Ftl
