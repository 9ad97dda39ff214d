import OpenNfm.Ftl.JournalPages
import OpenNfm.Ftl.ReclaimSearch

/-!
# The replay of the journals

`DATA_Replay` looks at one page of each journal in a pass: the page with the next number is
replayed, but an erased page ends the replay with the pass, and the number that it restores
is overwritten at each later erased page.  So the replay is complete exactly if all journals
but the last one are full and the last one is not.
-/

namespace OpenNfm.Ftl

open OpenNfm.Program

variable {l : Layout} {D : Type}

/-! ## The updates of a replay -/

/-- The updates of the writes in their order, each with its journal pointer, and the number of
the next write at the end. -/
def replayWrites (l : Layout) (fuel : Nat) {D : Type} (hot : Bool) (block : Nat → Nat) :
    Nat → (Nat → Nat) → List (Nat × Nat) → FtlCode D Status
  | number, _, [] => do
      modify (setEdition hot number)
      pure .success
  | number, heads, (j, addr) :: rest => do
      let ret ← pmtUpdate l (pmtReclaimBlocks l fuel) addr (block j) (heads j)
      onSuccess ret do
        modify (setJournal hot j (PmNode.setBlockPage l.g (block j) (heads j + 1)))
        replayWrites l fuel hot block (number + 1) (Function.update heads j (heads j + 1)) rest

/-- The replay in front of the write with the given number. -/
structure Replaying (l : Layout) (hot : Bool) (block : Nat → Nat) (filled : Nat → Prop)
    (number : Nat) (heads : Nat → Nat) (writes : List (Nat × Nat)) (ram : FtlRam)
    (store : UbiStore D) : Prop where
  words : ∀ j < l.journalBlockCount,
    journal hot ram j = PmNode.setBlockPage l.g (block j) (heads j)
  onBlocks : ∀ j < l.journalBlockCount, l.dataStartBlock ≤ block j ∧ block j < l.capacity
  inBlocks : ∀ j < l.journalBlockCount, heads j < l.pagePerPhyBlock
  on : WritesOn l block store.pages number heads writes
  full : ∀ j < l.journalBlockCount, filled j →
    ∃ main, store.pages (block j) (endPages heads writes j) = some ⟨main, .ones⟩
  blank : ∀ j < l.journalBlockCount, ¬ filled j →
    store.pages (block j) (endPages heads writes j) = none
  cursors : CursorsInMeta l ram

section Updates

variable {hot : Bool} {block heads : Nat → Nat} {filled : Nat → Prop} {writes : List (Nat × Nat)}
  {number fuel j : Nat} {ram : FtlRam} {store : UbiStore D}

theorem journal_setEdition (hot : Bool) (value : Nat) (ram : FtlRam) :
    journal hot (setEdition hot value ram) = journal hot ram := by
  cases hot <;> rfl

theorem edition_setEdition (hot : Bool) (value : Nat) (ram : FtlRam) :
    edition hot (setEdition hot value ram) = value := by
  cases hot <;> rfl

theorem CursorsInMeta.withEdition {value : Nat} (cursors : CursorsInMeta l ram) :
    CursorsInMeta l (setEdition hot value ram) := by
  obtain ⟨root, bdt, hdi, current, reclaim⟩ := cursors
  cases hot <;> exact ⟨root, bdt, hdi, current, reclaim⟩

theorem Replaying.withEdition {value : Nat}
    (replaying : Replaying l hot block filled number heads writes ram store) :
    Replaying l hot block filled number heads writes (setEdition hot value ram) store :=
  { replaying with
    words := fun j isJournal => by
      rw [journal_setEdition]
      exact replaying.words j isJournal
    cursors := replaying.cursors.withEdition }

theorem Replaying.block_head
    (replaying : Replaying l hot block filled number heads writes ram store) (fits : l.Fits)
    (isJournal : j < l.journalBlockCount) : PmNode.block l.g (journal hot ram j) = block j := by
  have isBlock := (replaying.onBlocks j isJournal).2
  rw [replaying.words j isJournal]
  exact fits.block_word (by omega) (replaying.inBlocks j isJournal)

theorem Replaying.page_head
    (replaying : Replaying l hot block filled number heads writes ram store) (fits : l.Fits)
    (isJournal : j < l.journalBlockCount) : PmNode.page l.g (journal hot ram j) = heads j := by
  have isBlock := (replaying.onBlocks j isJournal).2
  rw [replaying.words j isJournal]
  exact fits.page_word (by omega) (replaying.inBlocks j isJournal)

/-- The update of the next write, and its journal pointer. -/
theorem Replaying.next {addr : Nat} {rest : List (Nat × Nat)} {ret : Status} {ram' : FtlRam}
    {store' : UbiStore D} (fit : l.NodesFit)
    (replaying : Replaying l hot block filled number heads ((j, addr) :: rest) ram store)
    (run : ((pmtUpdate l (pmtReclaimBlocks l fuel) addr (block j) (heads j)).run ram).exec
      (storeMachine l.g l.capacity) store = .ok ((ret, ram'), store')) :
    Replaying l hot block filled (number + 1) (Function.update heads j (heads j + 1)) rest
      (setJournal hot j (PmNode.setBlockPage l.g (block j) (heads j + 1)) ram') store' := by
  obtain ⟨words, onBlocks, inBlocks, ⟨⟨isJournal, room, _⟩, later⟩, full, blank,
    cursors⟩ := replaying
  have start : MetaWithin l ram.journalPart store ram store := ⟨rfl, .refl _ store, cursors⟩
  obtain ⟨journals, within, cursors'⟩ :=
    Code.post_of_spec (keepsMeta_pmtUpdate fit ram store start) run
  have pages : ∀ i < l.journalBlockCount, store'.pages (block i) = store.pages (block i) :=
    fun i isJournal => within.pages _ (Nat.not_lt.mpr (onBlocks i isJournal).1)
  have same := FtlRam.journalPart_journal journals hot
  refine ⟨fun i isJournal => ?_, onBlocks, fun i isJournal => ?_, ?_,
    fun i isJournal isFilled => ?_, fun i isJournal notFilled => ?_, cursors'.withJournal⟩
  · rw [journal_setJournal, same]
    by_cases here : i = j
    · rw [here, Function.update_self, Function.update_self]
    · rw [Function.update_of_ne here, Function.update_of_ne here, words i isJournal]
  · by_cases here : i = j
    · rw [here, Function.update_self]
      omega
    · rw [Function.update_of_ne here]
      exact inBlocks i isJournal
  · exact later.mono fun i isJournal page content programmed =>
      (congrFun (pages i isJournal) page).trans programmed
  · rw [pages i isJournal]
    exact full i isJournal isFilled
  · rw [pages i isJournal]
    exact blank i isJournal notFilled

/-- The pointers and the number behind the updates. -/
theorem Replaying.behind {ram' : FtlRam} {store' : UbiStore D} (fit : l.NodesFit)
    (replaying : Replaying l hot block filled number heads writes ram store)
    (run : ((replayWrites l fuel hot block number heads writes).run ram).exec
      (storeMachine l.g l.capacity) store = .ok ((.success, ram'), store')) :
    Replaying l hot block filled (number + writes.length) (endPages heads writes) [] ram' store' ∧
      edition hot ram' = number + writes.length := by
  induction writes generalizing number heads ram store with
  | nil =>
      rw [replayWrites, Code.exec_bind_eq_ok] at run
      obtain ⟨_, ram₁, after, first, last⟩ := run
      cases first
      cases last
      exact ⟨replaying.withEdition, edition_setEdition _ _ _⟩
  | cons write rest ih =>
      rw [replayWrites, Code.exec_bind_eq_ok] at run
      obtain ⟨ret', ram₁, after, first, last⟩ := run
      by_cases success : ret' = .success
      · rw [success, onSuccess_success, Code.exec_bind_eq_ok] at last
        obtain ⟨_, ram₂, after', second, last⟩ := last
        cases second
        have met := ih (replaying.next fit first) last
        rw [List.length_cons]
        rw [show number + (rest.length + 1) = number + 1 + rest.length by omega]
        exact met
      · rw [onSuccess_other success] at last
        cases last
        exact absurd rfl success

end Updates

/-! ## Passes -/

section Passes

variable {hot : Bool} {block heads : Nat → Nat} {filled : Nat → Prop} {writes : List (Nat × Nat)}
  {number fuel wanted rounds j : Nat} {ram : FtlRam} {store : UbiStore D}

/-- The run of a pass over the journals from `j` on. -/
abbrev passFrom (l : Layout) (fuel : Nat) {D : Type} (hot : Bool) (rounds j wanted : Nat)
    (ram : FtlRam) (store : UbiStore D) : Except Halt (((Nat × Status) × FtlRam) × UbiStore D) :=
  ((dataReplayPass l fuel hot rounds j wanted .success).run ram).exec
    (storeMachine l.g l.capacity) store

theorem exec_readSpare {b page : Nat} (isBlock : b < l.capacity)
    (isPage : page < l.pagePerPhyBlock) :
    ((readSpare .success b page : FtlCode D _).run ram).exec (storeMachine l.g l.capacity) store =
      .ok ((((store.pages.answer b page).status, (store.pages.answer b page).spare), ram),
        store) := by
  have step : storeMachine l.g l.capacity store (.read b page) =
      .ok (store.pages.answer b page, store) := if_pos ⟨isBlock, isPage⟩
  rw [readSpare, if_pos rfl, ubiRead, Code.exec_bind_of_ok (Code.exec_perform step)]
  rfl

/-- A pass begins with the page of the journal's pointer. -/
theorem Replaying.passFrom_succ (fits : l.Fits)
    (replaying : Replaying l hot block filled number heads writes ram store)
    (isJournal : j < l.journalBlockCount) {answer : ReadAnswer (FtlPage D)}
    (reads : store.pages.answer (block j) (heads j) = answer) :
    passFrom l fuel hot (rounds + 1) j wanted ram store =
      ((if answer.status = .success ∧ answer.spare.second ≠ wanted then
          dataReplayPass l fuel hot rounds (j + 1) wanted answer.status
        else do
          let ret ← onSuccess answer.status
            (pmtUpdate l (pmtReclaimBlocks l fuel) answer.spare.first (block j) (heads j))
          if ret = .success then do
            modify (setJournal hot j (PmNode.setBlockPage l.g (block j) (heads j + 1)))
            pure ((wanted + 1) % 2 ^ 32, ret)
          else do
            modify (setEdition hot wanted)
            dataReplayPass l fuel hot rounds (j + 1) allOnes .success).run ram).exec
        (storeMachine l.g l.capacity) store := by
  have isBlock := (replaying.onBlocks j isJournal).2
  have isPage := replaying.inBlocks j isJournal
  rw [passFrom, dataReplayPass, Code.exec_bind_of_ok (Code.exec_get ram store)]
  dsimp only
  rw [replaying.block_head fits isJournal, replaying.page_head fits isJournal,
    Code.exec_bind_of_ok (exec_readSpare isBlock isPage), reads]

/-- A page with another number is passed by. -/
theorem Replaying.passFrom_other (fits : l.Fits)
    (replaying : Replaying l hot block filled number heads writes ram store)
    (isJournal : j < l.journalBlockCount) {content : Page (FtlPage D)}
    (programmed : store.pages (block j) (heads j) = some content)
    (other : content.spare.second ≠ wanted) :
    passFrom l fuel hot (rounds + 1) j wanted ram store =
      passFrom l fuel hot rounds (j + 1) wanted ram store := by
  have reads :
      store.pages.answer (block j) (heads j) = ⟨.success, content.main, content.spare⟩ := by
    rw [Nand.answer, programmed]
  rw [replaying.passFrom_succ fits isJournal reads, if_pos ⟨rfl, other⟩]

/-- An erased page makes the wanted number the last one. -/
theorem Replaying.passFrom_erased (fits : l.Fits)
    (replaying : Replaying l hot block filled number heads writes ram store)
    (isJournal : j < l.journalBlockCount) (erased : store.pages (block j) (heads j) = none) :
    passFrom l fuel hot (rounds + 1) j wanted ram store =
      passFrom l fuel hot rounds (j + 1) allOnes (setEdition hot wanted ram) store := by
  have reads : store.pages.answer (block j) (heads j) = ⟨.failure, PageContent.ones, .ones⟩ := by
    rw [Nand.answer, erased]
  have failed : Status.failure ≠ .success := by decide
  rw [replaying.passFrom_succ fits isJournal reads, if_neg fun success => failed success.1]
  rfl

/-- The page with the wanted number is replayed. -/
theorem Replaying.passFrom_found (fits : l.Fits)
    (replaying : Replaying l hot block filled number heads writes ram store)
    (isJournal : j < l.journalBlockCount) {main : FtlPage D} {addr : Nat}
    (programmed : store.pages (block j) (heads j) = some ⟨main, ⟨addr, wanted⟩⟩) {ram' : FtlRam}
    {store' : UbiStore D}
    (run : ((pmtUpdate l (pmtReclaimBlocks l fuel) addr (block j) (heads j)).run ram).exec
      (storeMachine l.g l.capacity) store = .ok ((.success, ram'), store')) :
    passFrom l fuel hot (rounds + 1) j wanted ram store =
      .ok ((((wanted + 1) % 2 ^ 32, .success),
        setJournal hot j (PmNode.setBlockPage l.g (block j) (heads j + 1)) ram'), store') := by
  have reads : store.pages.answer (block j) (heads j) = ⟨.success, main, ⟨addr, wanted⟩⟩ := by
    rw [Nand.answer, programmed]
  rw [replaying.passFrom_succ fits isJournal reads, if_neg fun other => other.2 rfl,
    onSuccess_success, Code.exec_bind_of_ok run, if_pos rfl]
  rfl

/-- The journals from `j` up to `k` have programmed pages with other numbers. -/
theorem Replaying.passFrom_upTo (fits : l.Fits)
    (replaying : Replaying l hot block filled number heads writes ram store) {k : Nat}
    (total : j + rounds = k) (isJournal : k ≤ l.journalBlockCount) {more : Nat}
    (others : ∀ i, j ≤ i → i < k →
      ∃ content, store.pages (block i) (heads i) = some content ∧ content.spare.second ≠ wanted) :
    passFrom l fuel hot (rounds + more) j wanted ram store =
      passFrom l fuel hot more k wanted ram store := by
  induction rounds generalizing j with
  | zero =>
      obtain rfl : j = k := total
      rw [Nat.zero_add]
  | succ rounds ih =>
      obtain ⟨content, programmed, other⟩ := others j (Nat.le_refl _) (by omega)
      rw [show rounds + 1 + more = (rounds + more) + 1 by omega,
        replaying.passFrom_other fits (by omega) programmed other]
      exact ih (by omega) fun i above below => others i (by omega) below

/-- The next page of a journal is erased, or a meta page, or holds a later write. -/
theorem Replaying.head_cases
    (replaying : Replaying l hot block filled number heads writes ram store)
    (isJournal : j < l.journalBlockCount) :
    (store.pages (block j) (heads j) = none ∧ ¬ filled j) ∨
      (filled j ∧ ∃ main, store.pages (block j) (heads j) = some ⟨main, .ones⟩) ∨
      ∃ main addr n, store.pages (block j) (heads j) = some ⟨main, ⟨addr, n⟩⟩ ∧
        n < number + writes.length ∧ number ≤ n ∧
        ∀ k addr' rest, writes = (k, addr') :: rest → j ≠ k → number < n := by
  rcases replaying.on.head j with atEnd | later
  · rw [atEnd]
    by_cases isFilled : filled j
    · exact .inr (.inl ⟨isFilled, replaying.full j isJournal isFilled⟩)
    · exact .inl ⟨replaying.blank j isJournal isFilled, isFilled⟩
  · exact .inr (.inr later)

/-- No cluster holds the logical page `MAX_UINT32`. -/
theorem run_pmtUpdate_allOnes {page : Nat} (fit : l.NodesFit)
    (named : l.maxPmClusters * l.pmPerNode < 2 ^ 32) {b : Nat} :
    (pmtUpdate l (pmtReclaimBlocks l fuel) allOnes b page : FtlCode D Status).run ram =
      .halt .undefined := by
  have outside : ¬ clusterIndex l allOnes < l.maxPmClusters := by
    rw [Nat.not_lt, clusterIndex, Nat.le_div_iff_mul_le fit.perNode]
    unfold allOnes
    omega
  have noNode :
      (rootNode l (clusterIndex l allOnes) : FtlCode D Nat).run ram = .halt .undefined := by
    rw [rootNode, Code.run_get_bind, if_neg outside]
    rfl
  rw [pmtUpdate, pmtCached]
  exact Code.run_bind_of_halt (Code.run_bind_of_halt noNode)

/-- A meta page behind an erased one is taken for the page `MAX_UINT32`, and the program stops. -/
theorem Replaying.passFrom_filled (fit : l.NodesFit)
    (named : l.maxPmClusters * l.pmPerNode < 2 ^ 32)
    (replaying : Replaying l hot block filled number heads writes ram store)
    (isJournal : j < l.journalBlockCount) {main : FtlPage D}
    (programmed : store.pages (block j) (heads j) = some ⟨main, .ones⟩) :
    passFrom l fuel hot (rounds + 1) j allOnes ram store = .error .undefined := by
  have reads : store.pages.answer (block j) (heads j) = ⟨.success, main, .ones⟩ := by
    rw [Nand.answer, programmed]
  have stops : (pmtUpdate l (pmtReclaimBlocks l fuel) Spare.ones.first (block j) (heads j) :
      FtlCode D Status).run ram = .halt .undefined := run_pmtUpdate_allOnes fit named
  rw [replaying.passFrom_succ fit.toFits isJournal reads, if_neg fun other => other.2 rfl,
    onSuccess_success, Code.run_bind_of_halt stops]
  rfl

/-- The rest of a pass behind an erased page replays nothing. -/
theorem Replaying.passFrom_allOnes (fit : l.NodesFit)
    (named : l.maxPmClusters * l.pmPerNode < 2 ^ 32)
    (replaying : Replaying l hot block filled number heads writes ram store)
    (small : number + writes.length < allOnes) (total : j + rounds = l.journalBlockCount) :
    (∃ reason, passFrom l fuel hot rounds j allOnes ram store = .error reason) ∨
      ∃ ram', passFrom l fuel hot rounds j allOnes ram store =
          .ok (((allOnes, .success), ram'), store) ∧
        journal hot ram' = journal hot ram ∧
        (edition hot ram' = edition hot ram ∨ edition hot ram' = allOnes) := by
  induction rounds generalizing j ram with
  | zero => exact .inr ⟨ram, rfl, rfl, .inl rfl⟩
  | succ rounds ih =>
      have isJournal : j < l.journalBlockCount := by omega
      rcases replaying.head_cases isJournal with
        ⟨erased, _⟩ | ⟨_, main, sealed⟩ | ⟨main, addr, n, programmed, below, _⟩
      · rw [replaying.passFrom_erased fit.toFits isJournal erased]
        refine (ih replaying.withEdition (by omega)).imp_right ?_
        rintro ⟨ram', run, journals, number⟩
        refine ⟨ram', run, journals.trans (journal_setEdition _ _ _), .inr ?_⟩
        rw [edition_setEdition] at number
        exact number.elim id id
      · exact .inl ⟨_, replaying.passFrom_filled fit named isJournal sealed⟩
      · have other : n ≠ allOnes := by omega
        rw [replaying.passFrom_other fit.toFits isJournal programmed other]
        exact ih replaying (by omega)

end Passes

/-! ## The whole replay -/

section Replay

variable {hot : Bool} {block heads : Nat → Nat} {filled : Nat → Prop} {writes : List (Nat × Nat)}
  {number fuel rounds j : Nat} {ram ram' : FtlRam} {store store' : UbiStore D}

/-- The run of the replay loop. -/
abbrev replayFrom (l : Layout) (fuel : Nat) {D : Type} (hot : Bool) (rounds number : Nat)
    (ram : FtlRam) (store : UbiStore D) : Except Halt ((Status × FtlRam) × UbiStore D) :=
  ((dataReplayLoop l fuel hot rounds number .success).run ram).exec
    (storeMachine l.g l.capacity) store

theorem replayFrom_allOnes :
    replayFrom l fuel hot (rounds + 1) allOnes ram store = .ok ((.success, ram), store) := by
  rw [replayFrom, dataReplayLoop, if_neg fun other => other rfl]
  rfl

/-- The next pass, and the loop behind it. -/
theorem replayFrom_of_pass {next : Nat} (notLast : number ≠ allOnes)
    (pass : passFrom l fuel hot l.journalBlockCount 0 number ram store =
      .ok (((next, .success), ram'), store')) :
    replayFrom l fuel hot (rounds + 1) number ram store =
      replayFrom l fuel hot rounds next ram' store' := by
  rw [replayFrom, dataReplayLoop, if_pos notLast, Code.exec_bind_of_ok pass]

theorem replayFrom_of_stop {reason : Halt} (notLast : number ≠ allOnes)
    (pass : passFrom l fuel hot l.journalBlockCount 0 number ram store = .error reason) :
    replayFrom l fuel hot (rounds + 1) number ram store = .error reason := by
  rw [passFrom] at pass
  rw [replayFrom, dataReplayLoop, if_pos notLast, StateT.run_bind, Prog.exec_bind, pass]

/-- A pass with an erased page, before which no page has the wanted number, ends the replay: the
pointers stay, and if another journal follows, the number is lost or the program stops. -/
theorem Replaying.replay_erased (fit : l.NodesFit)
    (named : l.maxPmClusters * l.pmPerNode < 2 ^ 32)
    (replaying : Replaying l hot block filled number heads writes ram store)
    (small : number + writes.length < allOnes) (isJournal : j < l.journalBlockCount)
    (erased : store.pages (block j) (heads j) = none)
    (others : ∀ i < j, ∃ content, store.pages (block i) (heads i) = some content ∧
      content.spare.second ≠ number) :
    (∃ reason, replayFrom l fuel hot (rounds + 2) number ram store = .error reason) ∨
      ∃ ram', replayFrom l fuel hot (rounds + 2) number ram store = .ok ((.success, ram'), store) ∧
        journal hot ram' = journal hot ram := by
  have notLast : number ≠ allOnes := by omega
  have pass : passFrom l fuel hot l.journalBlockCount 0 number ram store =
      passFrom l fuel hot (l.journalBlockCount - (j + 1)) (j + 1) allOnes
        (setEdition hot number ram) store := by
    rw [← replaying.passFrom_erased fit.toFits isJournal erased,
      ← replaying.passFrom_upTo fit.toFits (Nat.zero_add j) (by omega) fun i _ below =>
        others i below]
    congr 1
    omega
  rcases replaying.withEdition.passFrom_allOnes fit named small
      (show j + 1 + (l.journalBlockCount - (j + 1)) = l.journalBlockCount by omega) with
    ⟨reason, stops⟩ | ⟨ram', run, journals, _⟩
  · exact .inl ⟨reason, replayFrom_of_stop notLast (pass.trans stops)⟩
  · rw [replayFrom_of_pass notLast (pass.trans run), replayFrom_allOnes]
    exact .inr ⟨ram', rfl, journals.trans (journal_setEdition _ _ _)⟩

/-- The journals are full, and the last one is not. -/
def OnlyLastOpen (l : Layout) (filled : Nat → Prop) : Prop :=
  ∀ j < l.journalBlockCount, filled j ↔ j + 1 < l.journalBlockCount

/-- Behind the last write the journals are erased or full. -/
theorem Replaying.atEnd (replaying : Replaying l hot block filled number heads [] ram store)
    (isJournal : j < l.journalBlockCount) :
    (store.pages (block j) (heads j) = none ∧ ¬ filled j) ∨
      (filled j ∧ ∃ main, store.pages (block j) (heads j) = some ⟨main, .ones⟩) := by
  by_cases isFilled : filled j
  · exact .inr ⟨isFilled, replaying.full j isJournal isFilled⟩
  · exact .inl ⟨replaying.blank j isJournal isFilled, isFilled⟩

theorem Replaying.others_filled (replaying : Replaying l hot block filled number heads [] ram store)
    (small : number < allOnes) {k : Nat} (isJournal : k ≤ l.journalBlockCount)
    (full : ∀ i < k, filled i) :
    ∀ i < k, ∃ content, store.pages (block i) (heads i) = some content ∧
      content.spare.second ≠ number := by
  intro i below
  obtain ⟨main, sealed⟩ := replaying.full i (by omega) (full i below)
  exact ⟨_, sealed, Nat.ne_of_gt small⟩

/-- When all journals are full, the loop does not end. -/
theorem Replaying.replay_full (fits : l.Fits)
    (replaying : Replaying l hot block filled number heads [] ram store) (small : number < allOnes)
    (full : ∀ j < l.journalBlockCount, filled j) :
    replayFrom l fuel hot rounds number ram store = .error .fuel := by
  have pass : passFrom l fuel hot l.journalBlockCount 0 number ram store =
      .ok (((number, .success), ram), store) := by
    have others := replaying.others_filled small (Nat.le_refl _) full
    have upTo : passFrom l fuel hot (l.journalBlockCount + 0) 0 number ram store =
        passFrom l fuel hot 0 l.journalBlockCount number ram store :=
      replaying.passFrom_upTo fits (Nat.zero_add _) (Nat.le_refl _) fun i _ below => others i below
    exact upTo
  induction rounds with
  | zero => rfl
  | succ rounds ih => rw [replayFrom_of_pass (Nat.ne_of_lt small) pass, ih]

/-- A journal behind the first one that is not full takes the number away. -/
theorem Replaying.replay_overwritten (fit : l.NodesFit)
    (named : l.maxPmClusters * l.pmPerNode < 2 ^ 32)
    (replaying : Replaying l hot block filled number heads [] ram store) (small : number < allOnes)
    (erased : store.pages (block j) (heads j) = none) (more : j + 1 < l.journalBlockCount)
    (full : ∀ i < j, filled i) :
    replayFrom l fuel hot (rounds + 2) number ram store ≠
      .ok ((.success, setEdition hot number ram), store) := by
  have notLast : number ≠ allOnes := Nat.ne_of_lt small
  have others := replaying.others_filled small (by omega) full
  have after : Replaying l hot block filled number heads [] (setEdition hot number ram) store :=
    replaying.withEdition
  obtain ⟨left, total⟩ : ∃ left, j + 2 + left = l.journalBlockCount :=
    ⟨l.journalBlockCount - (j + 2), by omega⟩
  have pass : passFrom l fuel hot l.journalBlockCount 0 number ram store =
      passFrom l fuel hot (left + 1) (j + 1) allOnes (setEdition hot number ram) store := by
    rw [← replaying.passFrom_erased fit.toFits (by omega) erased,
      ← replaying.passFrom_upTo fit.toFits (Nat.zero_add j) (by omega) fun i _ below =>
        others i below]
    congr 1
    omega
  rcases after.atEnd more with ⟨erased', _⟩ | ⟨_, main, sealed⟩
  · rw [after.passFrom_erased fit.toFits more erased'] at pass
    rcases after.withEdition.passFrom_allOnes fit named small total with
      ⟨reason, stops⟩ | ⟨ram₁, run, _, lost⟩
    · rw [replayFrom_of_stop notLast (pass.trans stops)]
      exact nofun
    · rw [replayFrom_of_pass notLast (pass.trans run), replayFrom_allOnes]
      intro same
      have same : ram₁ = setEdition hot number ram := by
        injection same with same
        injection same with same
        injection same
      rw [edition_setEdition, or_self, same, edition_setEdition] at lost
      exact notLast lost
  · rw [after.passFrom_filled fit named more sealed] at pass
    rw [replayFrom_of_stop notLast pass]
    exact nofun

/-- Behind the last write, the loop ends with the right number exactly if the last journal is
the only one that is not full. -/
theorem Replaying.replay_end (fit : l.NodesFit) (named : l.maxPmClusters * l.pmPerNode < 2 ^ 32)
    (replaying : Replaying l hot block filled number heads [] ram store)
    (small : number < allOnes) :
    replayFrom l fuel hot (rounds + 2) number ram store =
        .ok ((.success, setEdition hot number ram), store) ↔
      OnlyLastOpen l filled := by
  classical
  have journals : 0 < l.journalBlockCount := l.g.totalDieCount_pos
  by_cases allFull : ∀ j < l.journalBlockCount, filled j
  · rw [replaying.replay_full fit.toFits small allFull]
    refine ⟨nofun, fun only => ?_⟩
    have last := (only (l.journalBlockCount - 1) (by omega)).mp (allFull _ (by omega))
    omega
  · have opens : ∃ j, j < l.journalBlockCount ∧ ¬ filled j := by
      push Not at allFull
      exact allFull
    have isFirst := Nat.find_spec opens
    have full : ∀ i < Nat.find opens, filled i := fun i below => by
      by_contra notFilled
      exact Nat.find_min opens below ⟨Nat.lt_trans below isFirst.1, notFilled⟩
    generalize Nat.find opens = j at isFirst full
    obtain ⟨isJournal, notFilled⟩ := isFirst
    have erased := replaying.blank j isJournal notFilled
    by_cases isLast : j + 1 < l.journalBlockCount
    · refine iff_of_false (replaying.replay_overwritten fit named small erased isLast full) ?_
      exact fun only => notFilled ((only j isJournal).mpr isLast)
    · refine iff_of_true ?_ fun i isJournal' => ⟨fun isFilled => ?_, fun below => full i (by omega)⟩
      · have others := replaying.others_filled small (by omega) full
        have pass : passFrom l fuel hot l.journalBlockCount 0 number ram store =
            .ok (((allOnes, .success), setEdition hot number ram), store) := by
          have rest : passFrom l fuel hot 0 (j + 1) allOnes (setEdition hot number ram) store =
              .ok (((allOnes, .success), setEdition hot number ram), store) := rfl
          rw [← replaying.passFrom_erased fit.toFits isJournal erased,
            ← replaying.passFrom_upTo fit.toFits (Nat.zero_add j) (by omega) fun i _ below =>
              others i below] at rest
          rw [← rest]
          congr 1
          omega
        rw [replayFrom_of_pass (Nat.ne_of_lt small) pass, replayFrom_allOnes]
      · by_contra notBelow
        exact notFilled (show i = j by omega ▸ isFilled)

/-- The replay of the writes is complete exactly if the last journal is the only one that they
have not filled. -/
theorem Replaying.replay_iff (fit : l.NodesFit) (named : l.maxPmClusters * l.pmPerNode < 2 ^ 32)
    (replaying : Replaying l hot block filled number heads writes ram store)
    (small : number + writes.length < allOnes)
    (run : ((replayWrites l fuel hot block number heads writes).run ram).exec
      (storeMachine l.g l.capacity) store = .ok ((.success, ram'), store'))
    (enough : writes.length + 2 ≤ rounds) :
    replayFrom l fuel hot rounds number ram store = .ok ((.success, ram'), store') ↔
      OnlyLastOpen l filled := by
  classical
  induction writes generalizing number heads ram store rounds with
  | nil =>
      obtain ⟨more, rfl⟩ := Nat.exists_eq_add_of_le' enough
      have done : ((replayWrites l fuel hot block number heads []).run ram).exec
          (storeMachine l.g l.capacity) store =
            .ok ((.success, setEdition hot number ram), store) :=
        rfl
      obtain ⟨same, rfl⟩ := Prod.mk.inj (Except.ok.inj (run.symm.trans done))
      obtain ⟨_, rfl⟩ := Prod.mk.inj same
      exact replaying.replay_end fit named small
  | cons write rest ih =>
      obtain ⟨jw, addr⟩ := write
      obtain ⟨more, rfl⟩ := Nat.exists_eq_add_of_le' enough
      have isJournal : jw < l.journalBlockCount := replaying.on.1.1
      have notLast : number ≠ allOnes := by omega
      have others : ∀ i < jw, (∀ k < i + 1, store.pages (block k) (heads k) ≠ none) →
          ∃ content, store.pages (block i) (heads i) = some content ∧
            content.spare.second ≠ number := by
        intro i below programmed
        rcases replaying.head_cases (show i < l.journalBlockCount by omega) with
          ⟨erased, _⟩ | ⟨_, main, sealed⟩ | ⟨main, addr', n, content, _, _, behind⟩
        · exact absurd erased (programmed i (Nat.lt_succ_self i))
        · exact ⟨_, sealed, notLast.symm⟩
        · have later := behind jw addr rest rfl (Nat.ne_of_lt below)
          exact ⟨_, content, Nat.ne_of_gt later⟩
      by_cases stopped : ∃ i, i < jw ∧ store.pages (block i) (heads i) = none
      · have isFirst := Nat.find_spec stopped
        have before : ∀ i < Nat.find stopped, store.pages (block i) (heads i) ≠ none :=
          fun i below erased => Nat.find_min stopped below ⟨Nat.lt_trans below isFirst.1, erased⟩
        generalize Nat.find stopped = j at isFirst before
        obtain ⟨below, erased⟩ := isFirst
        have notFilled : ¬ filled j := by
          rcases replaying.head_cases (show j < l.journalBlockCount by omega) with
            ⟨_, open_⟩ | ⟨_, main, sealed⟩ | ⟨main, addr', n, content, _⟩
          · exact open_
          · exact absurd (erased.symm.trans sealed) nofun
          · exact absurd (erased.symm.trans content) nofun
        refine iff_of_false (fun complete => ?_) fun only =>
          notFilled ((only j (by omega)).mpr (by omega))
        rcases replaying.replay_erased fit named small (by omega) erased fun i isBefore =>
            others i (by omega) fun k isBelow => before k (by omega) with
          ⟨reason, stops⟩ | ⟨ram₁, ends, journals⟩
        · exact absurd (complete.symm.trans stops) nofun
        · obtain ⟨same, _⟩ := Prod.mk.inj (Except.ok.inj (complete.symm.trans ends))
          obtain ⟨_, rfl⟩ := Prod.mk.inj same
          obtain ⟨behind, _⟩ := replaying.behind fit run
          have isEnd := behind.page_head fit.toFits isJournal
          rw [journals, replaying.page_head fit.toFits isJournal] at isEnd
          have later := le_endPages (Function.update heads jw (heads jw + 1)) rest jw
          rw [Function.update_self] at later
          rw [endPages] at isEnd
          omega
      · obtain ⟨_, _, main, programmed⟩ := replaying.on.1
        rw [replayWrites, Code.exec_bind_eq_ok] at run
        obtain ⟨ret, ram₁, store₁, update, run⟩ := run
        by_cases success : ret = .success
        · subst success
          rw [onSuccess_success, Code.exec_bind_eq_ok] at run
          obtain ⟨_, ram₂, store₂, pointer, run⟩ := run
          cases pointer
          have pass : passFrom l fuel hot l.journalBlockCount 0 number ram store =
              passFrom l fuel hot (l.journalBlockCount - (jw + 1) + 1) jw number ram store := by
            rw [← replaying.passFrom_upTo fit.toFits (Nat.zero_add jw) (by omega) fun i _ below =>
              others i below fun k isBelow erased => stopped ⟨k, by omega, erased⟩]
            congr 1
            omega
          rw [replaying.passFrom_found fit.toFits isJournal programmed update,
            Nat.mod_eq_of_lt (show number + 1 < 2 ^ 32 by unfold allOnes at small; omega)] at pass
          rw [List.length_cons] at small
          rw [List.length_cons, show more + (rest.length + 1 + 2) =
            more + (rest.length + 2) + 1 by omega, replayFrom_of_pass notLast pass]
          exact ih (replaying.next fit update) (by omega) run (by omega)
        · rw [onSuccess_other success] at run
          cases run
          exact absurd rfl success

end Replay

/-! ## The spare areas in memory -/

section Metas

variable {hot : Bool} {rounds j b page : Nat} {ram : FtlRam} {store : UbiStore D}

theorem journal_setJournalMeta (hot : Bool) (j page : Nat) (spare : Spare) (ram : FtlRam) :
    journal hot (setJournalMeta hot j page spare ram) = journal hot ram := by
  cases hot <;> rfl

theorem edition_setJournalMeta (hot : Bool) (j page : Nat) (spare : Spare) (ram : FtlRam) :
    edition hot (setJournalMeta hot j page spare ram) = edition hot ram := by
  cases hot <;> rfl

/-- The loop over the pages of a journal returns, whatever is programmed. -/
theorem completes_dataBuildMeta {post : Status → FtlRam → UbiStore D → Prop}
    (isBlock : b < l.capacity) (total : page + rounds = l.pagePerPhyBlock)
    (meets : ∀ ram' after, journal hot ram' = journal hot ram → edition hot ram' = edition hot ram →
      post .success ram' after) :
    Completes l (dataBuildMeta l hot j b rounds page .success) post ram store := by
  induction rounds generalizing page ram store with
  | zero => exact Completes.pure.mpr (meets ram store rfl rfl)
  | succ rounds ih =>
      have isPage : page < l.g.pagePerPhyBlock := by
        rw [Layout.pagePerPhyBlock] at total
        omega
      rw [dataBuildMeta, Completes.bind, readSpare, if_pos rfl, Completes.bind]
      refine (spec_ubiRead isBlock isPage).mpr ⟨trivial, Completes.pure.mpr ?_⟩
      cases read : store.pages b page with
      | some content =>
          rw [Nand.answer, read]
          dsimp only
          rw [if_pos rfl, Completes.bind, Completes.modifies]
          exact ih (by omega) fun ram' after journals number =>
            meets ram' after (journals.trans (journal_setJournalMeta _ _ _ _ _))
              (number.trans (edition_setJournalMeta _ _ _ _ _))
      | none =>
          rw [Nand.answer, read]
          dsimp only
          rw [if_neg (by decide : Status.failure ≠ .success)]
          split
          · rename_i last
            rw [last] at read
            rw [Completes.bind, dataWriteMeta, Completes.bind, Completes.get,
              Completes.write isBlock (last ▸ isPage) read]
            exact ih (by omega) meets
          · exact Completes.pure.mpr (meets ram store rfl rfl)

theorem completes_dataBuildMetas {post : Status → FtlRam → UbiStore D → Prop}
    (total : j + rounds = l.journalBlockCount)
    (onBlocks : ∀ i < l.journalBlockCount, PmNode.block l.g (journal hot ram i) < l.capacity)
    (meets : ∀ ram' after, journal hot ram' = journal hot ram → edition hot ram' = edition hot ram →
      post .success ram' after) :
    Completes l (dataBuildMetas l hot rounds j .success) post ram store := by
  induction rounds generalizing j ram store with
  | zero => exact Completes.pure.mpr (meets ram store rfl rfl)
  | succ rounds ih =>
      rw [dataBuildMetas, Completes.bind, Completes.get, Completes.bind]
      refine completes_dataBuildMeta (onBlocks j (by omega)) (Nat.zero_add _)
        fun ram' after journals number => ?_
      refine ih (by omega) (fun i isJournal => ?_) fun ram'' after' journals' number' =>
        meets ram'' after' (journals'.trans journals) (number'.trans number)
      rw [journals]
      exact onBlocks i isJournal

end Metas

/-! ## `DATA_Replay` -/

/-- The replay does exactly the updates of the writes in their order, leaves each pointer behind
the data pages of its journal, and restores the number of the next write. -/
def ReplaysAll (l : Layout) (fuel : Nat) (hot : Bool) (block start : Nat → Nat)
    (writes : List (Nat × Nat)) (ram : FtlRam) (store : UbiStore D) : Prop :=
  ∃ ram₁ store₁ ram₂ store₂,
    ((replayWrites l fuel hot block 0 start writes).run ram).exec
      (storeMachine l.g l.capacity) store = .ok ((.success, ram₁), store₁) ∧
    replayFrom l fuel hot fuel 0 ram store = .ok ((.success, ram₁), store₁) ∧
    ((dataReplay l fuel hot).run ram).exec (storeMachine l.g l.capacity) store =
      .ok ((.success, ram₂), store₂) ∧
    (∀ j < l.journalBlockCount,
      journal hot ram₂ j = PmNode.setBlockPage l.g (block j) (endPages start writes j)) ∧
    edition hot ram₂ = writes.length

/-- The device and the root in memory at a mount, with the writes that were made since the root.
The updates of these writes succeed. -/
structure ReplayStart (l : Layout) (fuel : Nat) (hot : Bool) (block start : Nat → Nat)
    (writes : List (Nat × Nat)) (ram : FtlRam) (store : UbiStore D) : Prop where
  words : ∀ j < l.journalBlockCount, journal hot ram j = PmNode.setBlockPage l.g (block j) (start j)
  left : JournalsLeft l block start writes store.pages
  cursors : CursorsInMeta l ram
  updates : ∃ ram₁ store₁,
    ((replayWrites l fuel hot block 0 start writes).run ram).exec
      (storeMachine l.g l.capacity) store = .ok ((.success, ram₁), store₁)

/-- Between two calls the cursors are in their blocks. -/
theorem NodesPowered.cursorsInMeta {strict : Prop} {maps : PageMap} {ram : FtlRam}
    {store : UbiStore D} (fit : l.NodesFit) (powered : NodesPowered l strict maps ram store) :
    CursorsInMeta l ram := by
  obtain ⟨place, nodes, current, reclaimBlock, ⟨tables, ⟨start, block, next, root, hdiLast, bdtLast,
    image, cursors⟩, _⟩, atRest⟩ := powered
  obtain ⟨inArea, _⟩ := atRest.kept.placed.atEnd current.1 current.2 rfl
  refine ⟨cursors.atRoot.block ▸ image.log.inPair, ?_,
    cursors.hdiBlock ▸ image.names.hdi.inPair, ?_, ?_⟩
  · have inPair : InPair 0 (PmNode.block l.g root.bdtCurrentJournal) := image.names.bdt.inPair
    have place := cursors.bdt
    generalize ram.bdtCurrentBlock = b, ram.bdtCurrentPage = p at place ⊢
    cases place with
    | here => exact inPair
    | there multiple le blank => exact (pair_div _).trans inPair
  · rw [atRest.current_block fit]
    exact inArea
  · have reclaimArea : IsPmtBlock l reclaimBlock := (atRest.kept.placed.blank reclaimBlock rfl).1
    rw [atRest.reclaim, fit.block_place reclaimArea l.g.pagePerPhyBlock_pos]
    exact reclaimArea

theorem ReplayStart.replaying {hot : Bool} {block start : Nat → Nat} {writes : List (Nat × Nat)}
    {fuel : Nat} {ram : FtlRam} {store : UbiStore D}
    (begins : ReplayStart l fuel hot block start writes ram store) :
    Replaying l hot block (Filled l start writes) 0 start writes ram store where
  words := begins.words
  onBlocks := begins.left.onBlocks
  inBlocks := begins.left.starts
  on := begins.left.on
  full := begins.left.full
  blank j isJournal notFilled := begins.left.blank j isJournal notFilled _ (Nat.le_refl _)
    (begins.left.on.endPages_lt (begins.left.starts j isJournal))
  cursors := begins.cursors

/-- The journals have fewer pages than there are numbers. -/
theorem JournalsLeft.length_lt {block start : Nat → Nat} {writes : List (Nat × Nat)}
    {pages : Nand (FtlPage D)} (left : JournalsLeft l block start writes pages) (fits : l.Fits) :
    writes.length < allOnes := by
  have room := left.on.length_le fun j isJournal => Nat.le_sub_one_of_lt (left.starts j isJournal)
  have journals : l.journalBlockCount ≤ l.g.cfgLogBlockCount := by
    unfold Layout.journalBlockCount Geometry.totalDieCount Geometry.totalDieShift
      Geometry.cfgLogBlockCount
    exact Nat.pow_le_pow_right (by omega) (by omega)
  have pages : l.journalBlockCount * (l.pagePerPhyBlock - 1) ≤
      l.g.cfgLogBlockCount * l.g.pagePerPhyBlock :=
    Nat.mul_le_mul journals (Nat.sub_le _ _)
  have words := fits.words
  unfold allOnes
  omega

/-- The replay is complete if and only if the writes have filled all journals but the last
one. -/
theorem dataReplay_complete_iff {hot : Bool} {block start : Nat → Nat} {writes : List (Nat × Nat)}
    {fuel : Nat} {ram : FtlRam} {store : UbiStore D} (fit : l.NodesFit)
    (named : l.maxPmClusters * l.pmPerNode < 2 ^ 32)
    (begins : ReplayStart l fuel hot block start writes ram store)
    (enough : writes.length + 2 ≤ fuel) :
    ReplaysAll l fuel hot block start writes ram store ↔
      OnlyLastOpen l (Filled l start writes) := by
  have replaying := begins.replaying
  have small := begins.left.length_lt fit.toFits
  obtain ⟨ram₁, store₁, updates⟩ := begins.updates
  have complete := replaying.replay_iff fit named (by omega) updates enough
  constructor
  · rintro ⟨ram₁', store₁', _, _, updates', replay, _⟩
    obtain ⟨same, rfl⟩ := Prod.mk.inj (Except.ok.inj (updates'.symm.trans updates))
    obtain ⟨_, rfl⟩ := Prod.mk.inj same
    exact complete.mp replay
  · intro only
    have replay := complete.mpr only
    obtain ⟨behind, number⟩ := replaying.behind fit updates
    have metas : Completes l (dataBuildMetas l hot l.journalBlockCount 0 .success)
        (fun ret ram' _ => ret = .success ∧ journal hot ram' = journal hot ram₁ ∧
          edition hot ram' = edition hot ram₁) ram₁ store₁ := by
      refine completes_dataBuildMetas (Nat.zero_add _) (fun i isJournal => ?_)
        fun ram' after journals number => ⟨rfl, journals, number⟩
      rw [behind.block_head fit.toFits isJournal]
      exact (begins.left.onBlocks i isJournal).2
    obtain ⟨ret, ram₂, store₂, run, rfl, journals, same⟩ := Code.exec_of_spec metas
    refine ⟨ram₁, store₁, ram₂, store₂, updates, replay, ?_, fun j isJournal => ?_, ?_⟩
    · rw [dataReplay, Code.exec_bind_of_ok replay]
      exact run
    · rw [journals]
      exact behind.words j isJournal
    · rw [same, number, Nat.zero_add]

/-! ## Devices with a few writes -/

/-- Whether a journal is filled can be computed. -/
instance (start : Nat → Nat) (writes : List (Nat × Nat)) (j : Nat) :
    Decidable (Filled l start writes j) :=
  inferInstanceAs (Decidable (_ ∧ _))

/-- The test of `WritesOn`. -/
def writesOn (l : Layout) (block : Nat → Nat) (pages : Nand (FtlPage D)) :
    Nat → (Nat → Nat) → List (Nat × Nat) → Bool
  | _, _, [] => true
  | number, heads, (j, addr) :: rest =>
      (decide (j < l.journalBlockCount ∧ heads j < l.pagePerPhyBlock - 1) &&
        (pages (block j) (heads j)).any fun content => decide (content.spare = ⟨addr, number⟩)) &&
      writesOn l block pages (number + 1) (Function.update heads j (heads j + 1)) rest

theorem writesOn_eq_true {block heads : Nat → Nat} {pages : Nand (FtlPage D)} {number : Nat}
    {writes : List (Nat × Nat)} (test : writesOn l block pages number heads writes = true) :
    WritesOn l block pages number heads writes := by
  induction writes generalizing number heads with
  | nil => trivial
  | cons write rest ih =>
      obtain ⟨j, addr⟩ := write
      rw [writesOn, Bool.and_eq_true, Bool.and_eq_true] at test
      obtain ⟨⟨place, found⟩, later⟩ := test
      obtain ⟨isJournal, room⟩ := of_decide_eq_true place
      obtain ⟨⟨main, spare⟩, programmed, same⟩ := (Option.any_eq_true _ _).mp found
      obtain rfl : spare = ⟨addr, number⟩ := of_decide_eq_true same
      exact ⟨⟨isJournal, room, main, programmed⟩, ih later⟩

/-- The test of what the writes have left in a journal. -/
def journalLeft (l : Layout) (block start : Nat → Nat) (writes : List (Nat × Nat))
    (pages : Nand (FtlPage D)) (j : Nat) : Bool :=
  decide (l.dataStartBlock ≤ block j ∧ block j < l.capacity ∧ start j < l.pagePerPhyBlock) &&
    if Filled l start writes j then
      (pages (block j) (endPages start writes j)).any fun content => decide (content.spare = .ones)
    else
      (List.range l.pagePerPhyBlock).all fun page =>
        decide (page < endPages start writes j) || (pages (block j) page).isNone

theorem journalsLeft_of_test {block start : Nat → Nat} {writes : List (Nat × Nat)}
    {pages : Nand (FtlPage D)}
    (each : (List.range l.journalBlockCount).all (journalLeft l block start writes pages) = true)
    (on : writesOn l block pages 0 start writes = true) :
    JournalsLeft l block start writes pages := by
  have tested : ∀ j < l.journalBlockCount,
      (l.dataStartBlock ≤ block j ∧ block j < l.capacity ∧ start j < l.pagePerPhyBlock) ∧
        (if Filled l start writes j then
          (pages (block j) (endPages start writes j)).any fun content =>
            decide (content.spare = .ones)
        else
          (List.range l.pagePerPhyBlock).all fun page =>
            decide (page < endPages start writes j) || (pages (block j) page).isNone) = true := by
    intro j isJournal
    have test := List.all_eq_true.mp each j (List.mem_range.mpr isJournal)
    rw [journalLeft, Bool.and_eq_true] at test
    exact ⟨of_decide_eq_true test.1, test.2⟩
  refine
    { onBlocks := fun j isJournal => ⟨(tested j isJournal).1.1, (tested j isJournal).1.2.1⟩
      starts := fun j isJournal => (tested j isJournal).1.2.2
      on := writesOn_eq_true on
      full := fun j isJournal filled => ?_
      blank := fun j isJournal notFilled page behind inBlock => ?_ }
  · have test := (tested j isJournal).2
    rw [if_pos filled] at test
    obtain ⟨⟨main, spare⟩, programmed, same⟩ := (Option.any_eq_true _ _).mp test
    obtain rfl : spare = .ones := of_decide_eq_true same
    exact ⟨main, programmed⟩
  · have test := (tested j isJournal).2
    rw [if_neg notFilled] at test
    have blank := List.all_eq_true.mp test page (List.mem_range.mpr inBlock)
    rcases Bool.or_eq_true_iff.mp blank with before | none
    · exact absurd (of_decide_eq_true before) (Nat.not_lt.mpr behind)
    · exact Option.isNone_iff_eq_none.mp none

/-- The memory of a mount with the journals on the first data blocks, and all nodes on one
block. -/
def mountedRam (l : Layout) (start : Nat → Nat) : FtlRam :=
  { FtlRam.reset with
    rootCurrentBlock := Layout.rootBlock0
    hdiCurrentBlock := Layout.hdiBlock0
    pmCacheOriginLocation := fun _ => PmNode.invalid
    pmCacheCluster := fun _ => invalidCluster
    rootTable :=
      { Root.reset with
        hotJournal := fun j => PmNode.setBlockPage l.g (l.dataStartBlock + j) (start j)
        pmtCurrentBlock := PmNode.setBlockPage l.g Layout.pmtStartBlock 0
        pmtReclaimBlock := PmNode.setBlockPage l.g (Layout.pmtStartBlock + 1) 0
        pageMappingNodes := fun cluster => PmNode.setBlockPage l.g Layout.pmtStartBlock cluster } }

/-- The pages behind writes to the journals, with the meta pages of those that are full. -/
def writtenPages (l : Layout) : Nat → (Nat → Nat) → List (Nat × Nat) → Nand (FtlPage Nat)
  | _, _, [] => fun _ _ => none
  | number, heads, (j, addr) :: rest => fun block page =>
      if block = l.dataStartBlock + j ∧ page = heads j then
        some ⟨.data number, ⟨addr, number⟩⟩
      else if block = l.dataStartBlock + j ∧ page = l.pagePerPhyBlock - 1 ∧ page = heads j + 1 then
        some ⟨.spares fun _ => ⟨addr, number⟩, .ones⟩
      else writtenPages l (number + 1) (Function.update heads j (heads j + 1)) rest block page

/-- The device at the mount. -/
def writtenTo (l : Layout) (start : Nat → Nat) (writes : List (Nat × Nat)) : UbiStore Nat :=
  { UbiStore.erased with
    pages := fun block page =>
      if block = Layout.pmtStartBlock then some ⟨.node fun _ => PmNode.invalid, ⟨page, 0⟩⟩
      else writtenPages l 0 start writes block page }

theorem replayStart_writtenTo {start : Nat → Nat} {writes : List (Nat × Nat)} {fuel : Nat}
    (cursors : CursorsInMeta l (mountedRam l start))
    (each : (List.range l.journalBlockCount).all (journalLeft l (l.dataStartBlock + ·) start writes
      (writtenTo l start writes).pages) = true)
    (on : writesOn l (l.dataStartBlock + ·) (writtenTo l start writes).pages 0 start writes = true)
    (updates : Code.returns (((replayWrites l fuel true (l.dataStartBlock + ·) 0 start
      writes).run (mountedRam l start)).exec (storeMachine l.g l.capacity)
        (writtenTo l start writes))
      (fun ret _ _ => decide (ret = .success)) = true) :
    ReplayStart l fuel true (l.dataStartBlock + ·) start writes (mountedRam l start)
      (writtenTo l start writes) := by
  refine ⟨fun _ _ => rfl, journalsLeft_of_test each on, cursors, ?_⟩
  obtain ⟨ret, ram', after, run, success⟩ := Code.returns_iff.mp updates
  rw [of_decide_eq_true success] at run
  exact ⟨ram', after, run⟩

theorem cursorsInMeta_mountedRam (start : Nat → Nat) :
    CursorsInMeta (simLayout 0x10000) (mountedRam (simLayout 0x10000) start) := by
  have erased : CursorsInMeta (simLayout 0x10000) (mountedRam (simLayout 0x10000) fun _ => 0) :=
    ⟨by decide, by decide, by decide, ⟨by decide, by decide⟩, ⟨by decide, by decide⟩⟩
  exact ⟨erased.root, erased.bdt, erased.hdi, erased.current, erased.reclaim⟩

/-- The journals have one more data page each, and the last one has all of them. -/
def lastEmpty (j : Nat) : Nat :=
  if j < 7 then 30 else 0

/-- Each journal is written, some logical pages are written twice, and the last journal stays
open. -/
def fillingWrites : List (Nat × Nat) :=
  [(7, 100), (0, 7), (2, 8), (7, 7), (1, 9), (3, 7), (5, 100), (4, 11), (6, 12), (7, 8)]

/-- The writes have filled all journals but the last one, and are replayed. -/
theorem dataReplay_complete_filled :
    ReplaysAll (simLayout 0x10000) 12 true ((simLayout 0x10000).dataStartBlock + ·) lastEmpty
      fillingWrites (mountedRam (simLayout 0x10000) lastEmpty)
      (writtenTo (simLayout 0x10000) lastEmpty fillingWrites) := by
  have begins : ReplayStart (simLayout 0x10000) 12 true ((simLayout 0x10000).dataStartBlock + ·)
      lastEmpty fillingWrites (mountedRam (simLayout 0x10000) lastEmpty)
      (writtenTo (simLayout 0x10000) lastEmpty fillingWrites) :=
    replayStart_writtenTo (cursorsInMeta_mountedRam _)
      (by set_option maxRecDepth 100000 in decide +kernel)
      (by set_option maxRecDepth 100000 in decide +kernel)
      (by set_option maxRecDepth 100000 in decide +kernel)
  have last : ∀ j < 8, Filled (simLayout 0x10000) lastEmpty fillingWrites j ↔ j + 1 < 8 := by
    decide
  exact (dataReplay_complete_iff nodesFit_simLayout (by decide) begins (by decide)).mpr last

/-- Die 0 was busy, and the page is on the second journal.  The erased first journal ends the
replay: the page is lost. -/
theorem dataReplay_misses_write :
    ReplayStart (simLayout 0x10000) 3 true ((simLayout 0x10000).dataStartBlock + ·) (fun _ => 0)
        [(1, 7)] (mountedRam (simLayout 0x10000) fun _ => 0)
        (writtenTo (simLayout 0x10000) (fun _ => 0) [(1, 7)]) ∧
      ¬ ReplaysAll (simLayout 0x10000) 3 true ((simLayout 0x10000).dataStartBlock + ·) (fun _ => 0)
        [(1, 7)] (mountedRam (simLayout 0x10000) fun _ => 0)
        (writtenTo (simLayout 0x10000) (fun _ => 0) [(1, 7)]) := by
  refine ⟨replayStart_writtenTo (cursorsInMeta_mountedRam _)
    (by set_option maxRecDepth 100000 in decide +kernel)
    (by set_option maxRecDepth 100000 in decide +kernel)
    (by set_option maxRecDepth 100000 in decide +kernel), ?_⟩
  rintro ⟨_, _, ram, _, _, _, replayed, _, number⟩
  have run : Code.returns (((dataReplay (simLayout 0x10000) 3 true).run
      (mountedRam (simLayout 0x10000) fun _ => 0)).exec
        (storeMachine (simLayout 0x10000).g (simLayout 0x10000).capacity)
        (writtenTo (simLayout 0x10000) (fun _ => 0) [(1, 7)]))
      (fun _ ram _ => decide (edition true ram = allOnes)) = true := by
    set_option maxRecDepth 100000 in decide +kernel
  rw [replayed] at run
  have lost : edition true ram = allOnes := of_decide_eq_true run
  rw [lost] at number
  exact absurd number (by decide)

end OpenNfm.Ftl
