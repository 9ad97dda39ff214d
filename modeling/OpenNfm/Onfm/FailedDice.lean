import Mathlib.Algebra.Ring.Nat
import OpenNfm.Ftl.JournalSearch
import OpenNfm.Mtd.PolledDice
import OpenNfm.Onfm.Stack
import OpenNfm.Program.Simulation
import OpenNfm.Ubi.Operations

/-!
# Journal writes and failed dice

`DATA_Write` polls the dice of its journals through the code of the UBI layer, and hands its page to
`UBI_Write`.  A poll can report that an earlier program of the die has failed.  The page of that
program is kept in `dice_hold`, for `UBI_Write` to recover when it writes to the same die.  But
`DATA_Write` leaves that die alone and writes to another one, and `UBI_Write` then takes the held
page for a page that is done.
-/

namespace OpenNfm

open OpenNfm.Program

/-! ## Areas on a device that is polled -/

section Areas

variable {g : Geometry} {D α : Type}

/-- The code does nothing but read the flash. -/
def ReadsFlash (code : Ubi D α) : Prop :=
  Code.Only (fun op => ∃ block page, op = .read block page) code

theorem readsFlash_mtdRead {block page : Nat} : ReadsFlash (mtdRead block page : Ubi D _) :=
  .perform ⟨block, page, rfl⟩

theorem readsFlash_tableSearch {block rounds head tail : Nat} :
    ReadsFlash (tableSearch block rounds head tail : Ubi D Nat) := by
  induction rounds generalizing head tail with
  | zero => exact .halt _
  | succ rounds ih =>
      exact .ite (.bind readsFlash_mtdRead fun _ => .ite ih ih) (.bind .assert fun _ => .pure _)

theorem readsFlash_tableRead {block page : Nat} :
    ReadsFlash (tableRead g block page : Ubi D _) := by
  have last : ∀ mid, ReadsFlash (do
      let answer ← mtdRead block mid
      if answer.status = .success then
        if answer.spare.first = allOnes then pure (.failure, invalidPage, answer.main)
        else pure (.success, mid, answer.main)
      else pure (answer.status, invalidPage, answer.main) :
        Ubi D (Status × Nat × UbiBuffer D)) :=
    fun mid => .bind readsFlash_mtdRead fun _ => .ite (.ite (.pure _) (.pure _)) (.pure _)
  exact .ite (.bind readsFlash_tableSearch last) (.bind readsFlash_tableSearch last)

theorem readsFlash_loadArea {buffer : UbiBuffer D} : ReadsFlash (loadArea buffer) := by
  cases buffer with
  | area | ones => exact .pure _
  | index | anchor | data => exact .halt _

theorem readsFlash_areaRead {area : Nat} : ReadsFlash (areaRead g area : Ubi D Status) := by
  refine .bind .get fun ram => .ite (.bind .assert fun _ => .bind readsFlash_tableRead fun _ =>
    .bind readsFlash_loadArea fun _ => .bind .modifies fun _ => .bind (.pure _) fun _ => ?_)
    (.bind (.pure _) fun _ => ?_)
  all_goals exact .bind .modifies fun _ => .pure _

theorem readsFlash_areaGetBlock {logicalBlock : Nat} :
    ReadsFlash (areaGetBlock g logicalBlock : Ubi D Nat) :=
  .bind readsFlash_areaRead fun _ => .bind .get fun _ => .pure _

theorem readsFlash_areaGetEc {logicalBlock : Nat} :
    ReadsFlash (areaGetEc g logicalBlock : Ubi D EraseCount) :=
  .bind readsFlash_areaRead fun _ => .bind .get fun _ => .pure _

/-- The static variables know the newest area tables on the flash. -/
structure AreasKnown (g : Geometry) (nand : Nand (UbiBuffer D)) (view : UbiView)
    (ram : UbiRam D) : Prop where
  areas : AreasLogged g nand ram.indexTable view
  offsets : OffsetsKnown g ram view (· < g.areaCount)
  fits : CacheFits ram view (· < g.areaCount)

/-- The tables are known between two calls of the layer. -/
theorem UbiReady.areasKnown {nand : Nand (UbiBuffer D)} {ram : UbiRam D} {view : UbiView}
    {store : Store D} (ready : UbiReady g nand ram view store) : AreasKnown g nand view ram :=
  ⟨ready.committed.maps.areas, ready.committed.offsets, ready.committed.fits⟩

theorem AreasKnown.cache {nand : Nand (UbiBuffer D)} {view : UbiView} {ram : UbiRam D} {area : Nat}
    (known : AreasKnown g nand view ram) (isArea : area < g.areaCount) :
    AreasKnown g nand view (ram.cache area (view.tables area)) :=
  ⟨known.areas, known.offsets, cacheFits_cache isArea⟩

/-- What the layer reads, it reads the same on a device without failures. -/
theorem ReadsFlash.exec {code : Ubi D α} {ram ram' : UbiRam D} {dice : PolledDice (UbiBuffer D)}
    {value : α} (reads : ReadsFlash code)
    (holds : Code.wp (idealMachine g) (fun _ => True) code (fun value' ram'' after =>
      value' = value ∧ ram'' = ram' ∧ after = ⟨dice.nand, []⟩) ram ⟨dice.nand, []⟩) :
    (code.run ram).exec (polledMachine g) dice = .ok ((value, ram'), dice) := by
  have alike : ∀ (state : Ideal (UbiBuffer D)) (state' : PolledDice (UbiBuffer D)) op
      (answer : MtdAns (UbiBuffer D) op) after, (∃ block page, op = .read block page) →
        state = ⟨dice.nand, []⟩ ∧ state' = dice → idealMachine g state op = .ok (answer, after) →
          ∃ after', polledMachine g state' op = .ok (answer, after') ∧
            after = ⟨dice.nand, []⟩ ∧ after' = dice := by
    rintro state state' op answer after ⟨block, page, rfl⟩ ⟨rfl, rfl⟩ step
    simp only [idealMachine] at step
    simp only [polledMachine]
    split at step
    · rename_i inside
      obtain ⟨rfl, rfl⟩ := Prod.mk.inj (Except.ok.inj step)
      exact ⟨_, if_pos inside, rfl, rfl⟩
    · cases step
  obtain ⟨result, after, run, rfl, rfl, rfl⟩ := Prog.exec_of_wp holds
  obtain ⟨after', run', -, rfl⟩ := Prog.exec_of_everywhere (reads ram) alike ⟨rfl, rfl⟩ run
  exact run'

section Known

variable {dice : PolledDice (UbiBuffer D)} {view : UbiView} {ram : UbiRam D} {block : Nat}

/-- The memory when the area of the block is cached. -/
def UbiRam.cacheOf (g : Geometry) (view : UbiView) (ram : UbiRam D) (block : Nat) : UbiRam D :=
  ram.cache (g.areaIndex block) (view.tables (g.areaIndex block))

theorem exec_areaGetBlock (supported : g.Supported) (known : AreasKnown g dice.nand view ram)
    (isBlock : block < g.ubiCapacity) :
    ((areaGetBlock g block).run ram).exec (polledMachine g) dice =
      .ok (((rawEntry g view block).block, ram.cacheOf g view block), dice) :=
  readsFlash_areaGetBlock.exec (wp_areaGetBlock supported known.areas known.offsets known.fits
    (areaIndex_lt supported isBlock) trivial ⟨rfl, rfl, rfl⟩)

theorem exec_areaGetEc (supported : g.Supported) (known : AreasKnown g dice.nand view ram)
    (isBlock : block < g.ubiCapacity) :
    ((areaGetEc g block).run ram).exec (polledMachine g) dice =
      .ok (((rawEntry g view block).ec, ram.cacheOf g view block), dice) :=
  readsFlash_areaGetEc.exec (wp_areaGetEc supported known.areas known.offsets known.fits
    (areaIndex_lt supported isBlock) trivial ⟨rfl, rfl, rfl⟩)

theorem AreasKnown.cacheOf (supported : g.Supported) (known : AreasKnown g dice.nand view ram)
    (isBlock : block < g.ubiCapacity) :
    AreasKnown g dice.nand view (ram.cacheOf g view block) :=
  known.cache (areaIndex_lt supported isBlock)

end Known

end Areas

/-! ## The layer on a device that is polled -/

namespace Ftl

/-- The static variables of the UBI layer, and the device whose dice are polled. -/
abbrev DiceState (D : Type) : Type :=
  UbiRam (FtlPage D) × PolledDice (UbiBuffer (FtlPage D))

section Calls

variable {g : Geometry} {D : Type} [Zero D] {fuel source block page : Nat} {view : UbiView}
  {state : DiceState D}

/-- The functions of the UBI layer on a device whose dice are polled. -/
def diceMachine (g : Geometry) (fuel source : Nat) : Machine (UbiOp D) (UbiAns D) (DiceState D) :=
  servedBy (serveUbi g fuel source) (polledMachine g)

/-- The state after a poll of the die of a log block. -/
def polledBlock (g : Geometry) (view : UbiView) (state : DiceState D) (block : Nat)
    (answer : Status) : DiceState D :=
  (state.1.cacheOf g view block,
    state.2.poll (Faulty.dieOf g (rawEntry g view block).block) answer)

/-- The log block has a physical block of the device. -/
structure BlockMapped (g : Geometry) (view : UbiView) (block : Nat) : Prop where
  isBlock : block < g.ubiCapacity
  onDevice : (rawEntry g view block).block < g.cfgLogBlockCount

theorem BlockMapped.proper (mapped : BlockMapped g view block) (supported : g.Supported) :
    (rawEntry g view block).block ≠ invalidBlock :=
  (mapped.onDevice.trans supported.blocksSmall).ne

/-- A poll answers what the die reports. -/
theorem diceMachine_readStatus (supported : g.Supported)
    (known : AreasKnown g state.2.nand view state.1) (mapped : BlockMapped g view block) :
    diceMachine g fuel source state (.readStatus block) =
      .ok (state.2.answers.headD .success,
        polledBlock g view state block (state.2.answers.headD .success)) := by
  obtain ⟨ram, dice⟩ := state
  refine servedBy_eq_ok.mpr ?_
  rw [serveUbi, OpenNfm.ubiReadStatus,
    Code.exec_bind_of_ok (exec_areaGetBlock supported known mapped.isBlock), Code.assert,
    if_pos (mapped.proper supported)]
  exact Code.exec_perform (if_pos mapped.onDevice)

/-- The buffer of a held page is handed back. -/
def released (dice : PolledDice (UbiBuffer (FtlPage D))) (held : DieHoldPage (FtlPage D)) :
    PolledDice (UbiBuffer (FtlPage D)) :=
  if held.phyBlock ≠ invalidBlock then
    match held.buffer with
    | some buffer => dice.free buffer.address
    | none => dice
  else dice

omit [Zero D] in
theorem released_nand (dice : PolledDice (UbiBuffer (FtlPage D)))
    (held : DieHoldPage (FtlPage D)) : (released dice held).nand = dice.nand := by
  unfold released
  split
  · split <;> rfl
  · rfl

/-- Another page is in the first slot. -/
def holding (ram : UbiRam (FtlPage D)) (held : DieHoldPage (FtlPage D)) : UbiRam (FtlPage D) :=
  { ram with diceHold := Function.update ram.diceHold 0 held }

omit [Zero D] in
theorem holding_holding (ram : UbiRam (FtlPage D)) (first second : DieHoldPage (FtlPage D)) :
    holding (holding ram first) second = holding ram second := by
  rw [holding, holding, Function.update_idem]
  rfl

omit [Zero D] in
theorem exec_ubiReleaseHeld {ram : UbiRam (FtlPage D)} {dice : PolledDice (UbiBuffer (FtlPage D))}
    (hold : HoldFits g ram.diceHold) :
    ∃ held, ((ubiReleaseHeld 0).run ram).exec (polledMachine g) dice =
      .ok (((), holding ram held), released dice (ram.diceHold 0)) := by
  rw [ubiReleaseHeld, Code.exec_bind_of_ok (Code.exec_get ram dice), released]
  by_cases free : (ram.diceHold 0).phyBlock = invalidBlock
  · refine ⟨ram.diceHold 0, ?_⟩
    rw [if_neg (not_not_intro free), if_neg (not_not_intro free), holding,
      Function.update_eq_self]
    rfl
  · obtain ⟨buffer, isBuffer⟩ := Option.ne_none_iff_exists'.mp (hold.buffer free)
    have step : polledMachine g dice (.bufFree buffer.address) =
      .ok ((), dice.free buffer.address) := rfl
    rw [if_pos free, if_pos free, isBuffer]
    exact ⟨_, Code.exec_bind_of_ok (Code.exec_perform step)⟩

/-- A write to a die that is ready programs its page, and holds it in place of the page that was
held before. -/
theorem diceMachine_write {content : FtlPage D} {spare : Spare} (supported : g.Supported)
    (pos : 0 < fuel) (known : AreasKnown g state.2.nand view state.1)
    (mapped : BlockMapped g view block) (hold : HoldFits g state.1.diceHold)
    (isPage : page < g.pagePerPhyBlock)
    (ready : state.2.waited (Faulty.dieOf g (rawEntry g view block).block) = .success) :
    diceMachine g fuel source state (.write block page content (some spare) true) =
      .ok (.success, holding ((state.1.cacheOf g view block).cacheOf g view block)
          ⟨block, (rawEntry g view block).block, (rawEntry g view block).ec, page,
            some ⟨source, .data content⟩, spare⟩,
        (released state.2 (state.1.diceHold 0)).program (rawEntry g view block).block page
          ⟨.data content, spare⟩) := by
  obtain ⟨ram, dice⟩ := state
  obtain ⟨rounds, rfl⟩ := Nat.exists_eq_succ_of_ne_zero pos.ne'
  have known' := known.cacheOf supported mapped.isBlock
  have isPage' : page ≠ invalidPage := (isPage.trans supported.pagesSmall).ne
  have waits : polledMachine g dice (.waitReady (rawEntry g view block).block) =
      .ok (.success, dice) := by
    simp only [polledMachine, if_pos mapped.onDevice, ready]
  obtain ⟨held, releases⟩ : ∃ held, ((ubiReleaseHeld 0).run
      ((ram.cacheOf g view block).cacheOf g view block)).exec (polledMachine g) dice =
        .ok (((), holding ((ram.cacheOf g view block).cacheOf g view block) held),
          released dice (ram.diceHold 0)) := exec_ubiReleaseHeld hold
  have programs : polledMachine g (released dice (ram.diceHold 0))
      (.program (rawEntry g view block).block page (.data content) (some spare)) =
        .ok (.success, (released dice (ram.diceHold 0)).program (rawEntry g view block).block page
          ⟨.data content, spare⟩) := if_pos ⟨mapped.onDevice, isPage⟩
  refine servedBy_eq_ok.mpr ?_
  rw [serveUbi, OpenNfm.ubiWrite,
    Code.exec_bind_of_ok (exec_areaGetBlock supported known mapped.isBlock),
    Code.exec_bind_of_ok (exec_areaGetEc supported known' mapped.isBlock), Code.assert,
    if_pos (mapped.proper supported)]
  -- the die is ready, and what was held is released whatever its own die has reported
  refine (Code.exec_bind_of_ok (Code.exec_perform waits)).trans ?_
  have settled : ((ubiWriteRecoverHeld g (rounds + 1) (rawEntry g view block).block (rounds + 1)
      .success 0).run ((ram.cacheOf g view block).cacheOf g view block)).exec (polledMachine g)
        dice = .ok (((.success, 0), (ram.cacheOf g view block).cacheOf g view block), dice) := rfl
  refine (Code.exec_bind_of_ok settled).trans ?_
  refine (Code.exec_bind_of_ok releases).trans ?_
  simp only [ne_eq, isPage', not_false_eq_true, and_self, if_true]
  refine (Code.exec_bind_of_ok (Code.exec_perform programs)).trans ?_
  exact congrArg (fun ram' => Except.ok ((Status.success, ram'),
      (released dice (ram.diceHold 0)).program (rawEntry g view block).block page
        ⟨.data content, spare⟩)) (holding_holding _ held _)

end Calls

/-! ## Writes to the journals -/

section Journals

variable {l : Layout} {D : Type} [Zero D] {hot : Bool} {ram : FtlRam} {ubiFuel source : Nat}
  {view : UbiView} {ubi : UbiRam (FtlPage D)} {state : DiceState D}

/-- The log block of a journal. -/
abbrev journalBlock (l : Layout) (hot : Bool) (ram : FtlRam) (j : Nat) : Nat :=
  PmNode.block l.g (journal hot ram j)

/-- The die of a journal. -/
def journalDie (l : Layout) (hot : Bool) (ram : FtlRam) (view : UbiView) (j : Nat) : Nat :=
  Faulty.dieOf l.g (rawEntry l.g view (journalBlock l hot ram j)).block

/-- The journal of the first die that is ready. -/
def readyJournal (l : Layout) (hot : Bool) (ram : FtlRam) (answers : List Status) : Nat :=
  selectedJournal (openJournals l hot ram l.journalBlockCount 0) answers

/-- The polls of the search, up to the first die that is ready. -/
def searchLog (l : Layout) (hot : Bool) (ram : FtlRam) (answers : List Status) :
    List (Nat × Status) :=
  pollLog (openJournals l hot ram l.journalBlockCount 0) answers

/-- The log blocks of the journals have physical blocks. -/
def JournalsMapped (l : Layout) (hot : Bool) (ram : FtlRam) (view : UbiView) : Prop :=
  ∀ j < l.journalBlockCount, BlockMapped l.g view (journalBlock l hot ram j)

/-- The polls of the journals through the code of the UBI layer. -/
def journalPolls (ubiFuel source : Nat) (supported : l.g.Supported)
    (mapped : JournalsMapped l hot ram view) :
    PolledBy l hot ram (diceMachine l.g ubiFuel source (D := D)) where
  Fits state := AreasKnown l.g state.2.nand view state.1
  answers state := state.2.answers
  poll state j answer := polledBlock l.g view state (journalBlock l hot ram j) answer
  fits_poll known isJournal := known.cacheOf supported (mapped _ isJournal).isBlock
  answers_poll := rfl
  step known isJournal := diceMachine_readStatus supported known (mapped _ isJournal)

/-- What polls change: the dice have reported. -/
theorem journalPolls_dice (supported : l.g.Supported) (mapped : JournalsMapped l hot ram view)
    (state : DiceState D) (log : List (Nat × Status)) :
    ((journalPolls ubiFuel source supported mapped).polls state log).2 =
      { state.2 with
        answers := state.2.answers.drop log.length
        reports := (log.map fun polled => (journalDie l hot ram view polled.1, polled.2)).reverse ++
          state.2.reports } := by
  induction log generalizing state with
  | nil => rfl
  | cons polled log ih =>
      rw [PolledBy.polls, List.foldl_cons, ← PolledBy.polls, ih, List.map_cons, List.reverse_cons,
        List.append_assoc]
      simp only [journalPolls, polledBlock, PolledDice.poll, List.drop_tail, List.length_cons]
      rfl

theorem journalPolls_hold (supported : l.g.Supported) (mapped : JournalsMapped l hot ram view)
    (state : DiceState D) (log : List (Nat × Status)) :
    ((journalPolls ubiFuel source supported mapped).polls state log).1.diceHold =
      state.1.diceHold := by
  induction log generalizing state with
  | nil => rfl
  | cons polled log ih =>
      rw [PolledBy.polls, List.foldl_cons, ← PolledBy.polls, ih]
      rfl

/-- The search has ended at the poll of a journal with room whose die is ready. -/
structure Selected (l : Layout) (ubiFuel source : Nat) (hot : Bool) (ram : FtlRam) (j : Nat)
    (after : DiceState D) : Prop where
  isJournal : j < l.journalBlockCount
  hasRoom : JournalHasRoom l hot ram j
  ready : ∃ before, diceMachine l.g ubiFuel source before
    (.readStatus (journalBlock l hot ram j)) = .ok (.success, after)

/-- No failed page is lost: the pages whose dice have reported the failure are still held, and
their buffers are not handed back. -/
def KeepsFailed (g : Geometry) (state after : DiceState D) : Prop :=
  ∀ slot < g.totalDieCount, ∀ buffer, (state.1.diceHold slot).phyBlock ≠ invalidBlock →
    (state.1.diceHold slot).buffer = some buffer →
    (Faulty.dieOf g (state.1.diceHold slot).phyBlock, .badblock) ∈ state.2.reports →
      after.1.diceHold slot = state.1.diceHold slot ∧ buffer.address ∉ after.2.freed

/-- The page goes to journal `j`: the page at its pointer is programmed, the row of the journal
names it, and no failed page is lost. -/
structure WritesPage (l : Layout) (ubiFuel source : Nat) (hot : Bool) (ram : FtlRam)
    (view : UbiView) (j addr : Nat) (content : D) (state written : DiceState D) : Prop where
  writes : diceMachine l.g ubiFuel source state (.write (journalBlock l hot ram j)
      (PmNode.page l.g (journal hot ram j)) (.data content) (some ⟨addr, edition hot ram⟩) true) =
    .ok (.success, written)
  programs : written.2.nand = state.2.nand.program
    (rawEntry l.g view (journalBlock l hot ram j)).block (PmNode.page l.g (journal hot ram j))
    ⟨.data (.data content), ⟨addr, edition hot ram⟩⟩
  row : journalMeta hot (numberPage l hot j addr ram) =
    Function.update (journalMeta hot ram) j (Function.update (journalMeta hot ram j)
      (PmNode.page l.g (journal hot ram j)) ⟨addr, edition hot ram⟩)
  keeps : KeepsFailed l.g state written

/-- Whenever the search ends, `DATA_Write` goes on to program the page of a journal with room
whose die has answered ready, and loses no page that has failed. -/
def WritesSelected (l : Layout) (ubiFuel source : Nat) (hot : Bool) (ram : FtlRam)
    (view : UbiView) (state : DiceState D) : Prop :=
  ∀ fuel,
    ((dataFindLoop l hot fuel .success).run ram).exec (diceMachine l.g ubiFuel source) state =
      .error .fuel ∨
    ∃ j after,
      ((dataFindLoop l hot fuel .success).run ram).exec (diceMachine l.g ubiFuel source) state =
        .ok (((j, .success), ram), after) ∧
      Selected l ubiFuel source hot ram j after ∧
      ∀ addr content,
        ((dataWrite l fuel addr (some content) hot).run ram).exec
            (diceMachine l.g ubiFuel source) state =
          (programJournal l fuel hot ram j addr content).exec (diceMachine l.g ubiFuel source)
            after ∧
        ∃ written, WritesPage l ubiFuel source hot ram view j addr content after written

/-- No die that reports a failed program before the first die is ready is the one of the held
page. -/
def HeldUnreported (l : Layout) (hot : Bool) (ram : FtlRam) (view : UbiView)
    (held : DieHoldPage (FtlPage D)) (answers : List Status) : Prop :=
  held.phyBlock ≠ invalidBlock →
    ∀ polled ∈ searchLog l hot ram answers,
      polled.2 = .badblock → journalDie l hot ram view polled.1 ≠ Faulty.dieOf l.g held.phyBlock

omit [Zero D] in
/-- A write to a die that is ready loses the page in the first slot if its die has reported a
failure. -/
theorem keepsFailed_iff {g : Geometry} {state written : DiceState D}
    (hold : HoldFits g state.1.diceHold)
    (frees : written.2.freed = (released state.2 (state.1.diceHold 0)).freed) :
    KeepsFailed g state written ↔ ((state.1.diceHold 0).phyBlock ≠ invalidBlock →
      (Faulty.dieOf g (state.1.diceHold 0).phyBlock, Status.badblock) ∉ state.2.reports) := by
  constructor
  · intro keeps held reported
    obtain ⟨buffer, isBuffer⟩ := Option.ne_none_iff_exists'.mp (hold.buffer held)
    refine (keeps 0 g.totalDieCount_pos buffer held isBuffer reported).2 ?_
    rw [frees, released, if_pos held, isBuffer]
    exact List.mem_cons_self
  · intro unreported slot isSlot buffer held _ reported
    by_cases first : slot = 0
    · subst first
      exact absurd reported (unreported held)
    · exact absurd (hold.others slot isSlot first) held

/-- What has been reported behind the search. -/
theorem mem_reports_iff {log : List (Nat × Status)} {j die : Nat} :
    (die, Status.badblock) ∈ ((log ++ [(j, Status.success)]).map fun polled =>
        (journalDie l hot ram view polled.1, polled.2)).reverse ++ ([] : List (Nat × Status)) ↔
      ∃ polled ∈ log, polled.2 = .badblock ∧ journalDie l hot ram view polled.1 = die := by
  rw [List.append_nil, List.mem_reverse, List.map_append, List.mem_append, List.mem_map]
  constructor
  · rintro (⟨polled, inside, same⟩ | last)
    · obtain ⟨sameDie, failed⟩ := Prod.mk.inj same
      exact ⟨polled, inside, failed, sameDie⟩
    · simp at last
  · rintro ⟨polled, inside, failed, rfl⟩
    exact .inl ⟨polled, inside, by rw [failed]⟩

/-- A write to a journal whose die is ready loses no failed page exactly if the die of the page
that is held has not reported a failure. -/
theorem writesPage_iff {j addr : Nat} {content : D} (supported : l.g.Supported)
    (pos : 0 < ubiFuel) (mapped : BlockMapped l.g view (journalBlock l hot ram j))
    (known : AreasKnown l.g state.2.nand view state.1) (hold : HoldFits l.g state.1.diceHold)
    (ready : state.2.waited (journalDie l hot ram view j) = .success) :
    (∃ written, WritesPage l ubiFuel source hot ram view j addr content state written) ↔
      ((state.1.diceHold 0).phyBlock ≠ invalidBlock →
        (Faulty.dieOf l.g (state.1.diceHold 0).phyBlock, Status.badblock) ∉ state.2.reports) := by
  obtain ⟨written, writes, programs, frees⟩ : ∃ written,
      diceMachine l.g ubiFuel source state (.write (journalBlock l hot ram j)
          (PmNode.page l.g (journal hot ram j)) (.data content) (some ⟨addr, edition hot ram⟩)
          true) = .ok (.success, written) ∧
        written.2.nand = state.2.nand.program
          (rawEntry l.g view (journalBlock l hot ram j)).block (PmNode.page l.g (journal hot ram j))
          ⟨.data (.data content), ⟨addr, edition hot ram⟩⟩ ∧
        written.2.freed = (released state.2 (state.1.diceHold 0)).freed := by
    refine ⟨_, diceMachine_write supported pos known mapped hold
      (Nat.mod_lt _ l.g.pagePerPhyBlock_pos) ready, ?_, rfl⟩
    exact congrArg (fun nand => Nand.program nand _ _ _) (released_nand _ _)
  rw [← keepsFailed_iff hold frees]
  constructor
  · rintro ⟨other, writes', -, -, keeps⟩
    obtain ⟨-, rfl⟩ := Prod.mk.inj (Except.ok.inj (writes.symm.trans writes'))
    exact keeps
  · intro keeps
    exact ⟨written, writes, programs, journalMeta_numberPage j addr, keeps⟩

section Search

variable (supported : l.g.Supported) (mapped : JournalsMapped l hot ram view)

/-- The state when the search has ended. -/
def searched (ubiFuel source : Nat) (state : DiceState D) : DiceState D :=
  (journalPolls ubiFuel source supported mapped).polls state
    (searchLog l hot ram state.2.answers ++ [(readyJournal l hot ram state.2.answers, .success)])

theorem readyJournal_open (room : ∃ j < l.journalBlockCount, JournalHasRoom l hot ram j)
    (answers : List Status) : readyJournal l hot ram answers < l.journalBlockCount ∧
      JournalHasRoom l hot ram (readyJournal l hot ram answers) := by
  have member := mem_openJournals.mp (selectedJournal_mem (pollsPerRound_pos room) answers)
  rw [Nat.zero_add] at member
  exact ⟨member.1.2, member.2⟩

theorem searched_hold (ubiFuel source : Nat) (state : DiceState D) :
    (searched supported mapped ubiFuel source state).1.diceHold =
    state.1.diceHold :=
  journalPolls_hold supported mapped state _

/-- The die that was polled last is ready. -/
theorem searched_waited : (searched supported mapped ubiFuel source state).2.waited
    (journalDie l hot ram view (readyJournal l hot ram state.2.answers)) = .success := by
  rw [searched, PolledBy.polls_append]
  exact PolledDice.waited_poll _ _

theorem fits_searchLog (room : ∃ j < l.journalBlockCount, JournalHasRoom l hot ram j)
    (known : AreasKnown l.g state.2.nand view state.1) :
    (journalPolls ubiFuel source supported mapped).Fits
      ((journalPolls ubiFuel source supported mapped).polls state
        (searchLog l hot ram state.2.answers)) := by
  refine PolledBy.fits_polls _ known fun polled inside => ?_
  have member := mem_openJournals.mp (mem_pollLog (pollsPerRound_pos room) inside)
  rw [Nat.zero_add] at member
  exact member.1.2

theorem searched_known (room : ∃ j < l.journalBlockCount, JournalHasRoom l hot ram j)
    (known : AreasKnown l.g state.2.nand view state.1) :
    AreasKnown l.g (searched supported mapped ubiFuel source state).2.nand view
      (searched supported mapped ubiFuel source state).1 := by
  rw [searched, PolledBy.polls_append]
  exact PolledBy.fits_poll _ (fits_searchLog supported mapped room known)
    (readyJournal_open room _).1

theorem searched_selected (room : ∃ j < l.journalBlockCount, JournalHasRoom l hot ram j)
    (known : AreasKnown l.g state.2.nand view state.1) :
    Selected l ubiFuel source hot ram (readyJournal l hot ram state.2.answers)
      (searched supported mapped ubiFuel source state) := by
  obtain ⟨isJournal, hasRoom⟩ := readyJournal_open room state.2.answers
  have step := (journalPolls ubiFuel source supported mapped).step
    (fits_searchLog supported mapped room known) isJournal
  have ready : ((journalPolls ubiFuel source supported mapped).answers
      ((journalPolls ubiFuel source supported mapped).polls state
        (searchLog l hot ram state.2.answers))).headD .success = .success := by
    rw [PolledBy.answers_polls]
    exact headD_drop_pollLog _
  rw [ready] at step
  refine ⟨isJournal, hasRoom, _, step.trans ?_⟩
  rw [searched, PolledBy.polls_append]
  rfl

theorem mem_searched_reports (first : state.2.reports = []) {die : Nat} :
    (die, Status.badblock) ∈ (searched supported mapped ubiFuel source state).2.reports ↔
      ∃ polled ∈ searchLog l hot ram state.2.answers, polled.2 = .badblock ∧
        journalDie l hot ram view polled.1 = die := by
  rw [searched, journalPolls_dice, first]
  exact mem_reports_iff

/-- The search selects if no round of polls ends with a failed program. -/
theorem exec_search (ubiFuel source : Nat) (state : DiceState D)
    (room : ∃ j < l.journalBlockCount, JournalHasRoom l hot ram j)
    (known : AreasKnown l.g state.2.nand view state.1)
    (ends : RoundsEndBusy (pollsPerRound l hot ram) state.2.answers) :
    ∃ rounds, ∀ fuel, ((dataFindLoop l hot fuel .success).run ram).exec
        (diceMachine l.g ubiFuel source) state =
      if fuel ≤ rounds then .error .fuel
      else .ok (((readyJournal l hot ram state.2.answers, .success), ram),
        searched supported mapped ubiFuel source state) :=
  ((journalPolls ubiFuel source supported mapped).exec_dataFindLoop known room).1 ends

/-- What the write behind a search does, by the polls of the search. -/
theorem writesPage_searched_iff {addr : Nat} {content : D} (pos : 0 < ubiFuel)
    (first : state.2.reports = []) (known : AreasKnown l.g state.2.nand view state.1)
    (hold : HoldFits l.g state.1.diceHold)
    (room : ∃ j < l.journalBlockCount, JournalHasRoom l hot ram j) :
    (∃ written, WritesPage l ubiFuel source hot ram view
      (readyJournal l hot ram state.2.answers) addr content
      (searched supported mapped ubiFuel source state) written) ↔
        HeldUnreported l hot ram view (state.1.diceHold 0) state.2.answers := by
  have isOpen := readyJournal_open room state.2.answers
  have sameHold := searched_hold supported mapped ubiFuel source state
  rw [← sameHold] at hold
  rw [writesPage_iff supported pos (mapped _ isOpen.1)
    (searched_known supported mapped room known) hold (searched_waited supported mapped), sameHold]
  refine imp_congr_right fun _ => ?_
  rw [mem_searched_reports supported mapped first]
  constructor
  · exact fun none polled inside failed same => none ⟨polled, inside, failed, same⟩
  · exact fun others reported => reported.elim fun polled found =>
      others polled found.1 found.2.1 found.2.2

end Search

/-- `DATA_Write` writes to the journal that it has selected and loses no failed page, in every
state with room and for all answers of the dice, exactly if no round of polls in which no die has
become ready ends with a failed program, and no die that reports a failed program on the way is
the one of the page that is held. -/
theorem dataWrite_writesSelected_iff (supported : l.g.Supported)
    (mapped : JournalsMapped l hot ram view) (pos : 0 < ubiFuel)
    (first : state.2.reports = []) (known : AreasKnown l.g state.2.nand view state.1)
    (hold : HoldFits l.g state.1.diceHold)
    (room : ∃ j < l.journalBlockCount, JournalHasRoom l hot ram j) :
    WritesSelected l ubiFuel source hot ram view state ↔
      RoundsEndBusy (pollsPerRound l hot ram) state.2.answers ∧
        HeldUnreported l hot ram view (state.1.diceHold 0) state.2.answers := by
  by_cases ends : RoundsEndBusy (pollsPerRound l hot ram) state.2.answers
  · obtain ⟨rounds, search⟩ := exec_search supported mapped ubiFuel source state room known ends
    rw [and_iff_right ends]
    constructor
    · intro selects
      rcases selects (rounds + 1) with stops | ⟨j, after, run, -, goes⟩
      · rw [search, if_neg (Nat.not_succ_le_self rounds)] at stops
        cases stops
      · rw [search, if_neg (Nat.not_succ_le_self rounds)] at run
        cases run
        exact (writesPage_searched_iff supported mapped pos first known hold room).mp (goes 0 0).2
    · intro unreported fuel
      by_cases early : fuel ≤ rounds
      · exact .inl ((search fuel).trans (if_pos early))
      · have run := (search fuel).trans (if_neg early)
        exact .inr ⟨_, _, run, searched_selected supported mapped room known, fun addr content =>
          ⟨exec_dataWrite run,
            (writesPage_searched_iff supported mapped pos first known hold room).mpr unreported⟩⟩
  · refine iff_of_false (fun selects => ?_) fun both => ends both.1
    have fails : PolledBy.Fails (diceMachine l.g ubiFuel source) hot ram state .success :=
      ((journalPolls ubiFuel source supported mapped).exec_dataFindLoop known room).2 ends
    obtain ⟨fuel, j, last, after, notReady, run⟩ := fails
    rcases selects fuel with stops | ⟨j', after', run', -⟩
    · rw [run] at stops
      cases stops
    · rw [run] at run'
      cases run'
      exact notReady rfl

end Journals

/-! ## A mounted device -/

section Example

/-- Each log block is on the physical block of the same number, and each area has one table. -/
def straightView (g : Geometry) : UbiView where
  free := []
  tables area offset := ⟨area * g.cfgPhyBlockPerArea + offset, (0 : Nat)⟩
  next _ := 1

/-- The area tables are on the last blocks of the device. -/
def straightFlash (g : Geometry) : Nand (UbiBuffer (FtlPage Nat)) := fun block page =>
  if page = 0
    then some (tablePage (.area ((straightView g).tables (g.cfgLogBlockCount - 1 - block))))
  else none

/-- The static variables of the layer, with a page that is held. -/
def straightRam (g : Geometry) (held : Nat) : UbiRam (FtlPage Nat) :=
  { UbiRam.reset (FtlPage Nat) with
    indexTable := { (UbiRam.reset (FtlPage Nat)).indexTable with
      areaIndex := fun area => ⟨g.cfgLogBlockCount - 1 - area, (0 : Nat)⟩ }
    cachedAreaNumber := invalidArea
    diceHold := fun slot => if slot = 0 then ⟨held, held, (0 : Nat), 3, some ⟨7, .ones⟩, ⟨0, 0⟩⟩
      else ⟨0, invalidBlock, (0 : Nat), 0, none, ⟨0, 0⟩⟩ }

/-- The mounted device, with the answers to the coming polls. -/
def straightState (held : Nat) (answers : List Status) : DiceState Nat :=
  (straightRam simNand held, .start (straightFlash simNand) answers fun _ => .success)

theorem areasKnown_straight (held : Nat) (answers : List Status) :
    AreasKnown simNand (straightState held answers).2.nand (straightView simNand)
      (straightState held answers).1 where
  areas area isArea := by
    have few : simNand.areaCount < simNand.cfgLogBlockCount := by decide
    have back : simNand.cfgLogBlockCount - 1 - (simNand.cfgLogBlockCount - 1 - area) = area := by
      omega
    have table : straightFlash simNand (simNand.cfgLogBlockCount - 1 - area) 0 =
        some (tablePage (.area ((straightView simNand).tables area))) := by
      rw [straightFlash, if_pos rfl, back]
    refine ⟨?_, Nat.one_pos, (by decide : 1 ≤ simNand.pagePerPhyBlock),
      ⟨fun page inside => ?_, fun page outside => ?_⟩, table⟩
    · show simNand.cfgLogBlockCount - 1 - area < simNand.cfgLogBlockCount
      omega
    · obtain rfl : page = 0 := Nat.lt_one_iff.mp inside
      exact ⟨_, table⟩
    · exact if_neg (Nat.one_le_iff_ne_zero.mp outside)
  offsets _ isArea := ⟨isArea, rfl⟩
  fits wrong := absurd rfl wrong

theorem holdFits_straight {held : Nat} (isBlock : held < simNand.ubiCapacity)
    (answers : List Status) : HoldFits simNand (straightState held answers).1.diceHold where
  others slot _ other := congrArg DieHoldPage.phyBlock (if_neg other)
  buffer _ := Option.some_ne_none _
  logBlock slot := by
    by_cases first : slot = 0
    · subst first
      exact isBlock
    · show (ite (slot = 0) _ _ : DieHoldPage (FtlPage Nat)).logBlock < _
      rw [if_neg first]
      exact Nat.zero_lt_of_lt isBlock

/-- The hot journals of the simulated device behind a format. -/
def freshJournals : FtlRam :=
  { FtlRam.reset with
    rootTable :=
      { Root.reset with
        hotJournal := fun j =>
          PmNode.setBlockPage simNand ((simLayout 0x10000).dataStartBlock + j) 0 } }

theorem journalsMapped_straight :
    JournalsMapped (simLayout 0x10000) true freshJournals (straightView simNand) := by
  have mapped : ∀ j < 8,
      journalBlock (simLayout 0x10000) true freshJournals j < simNand.ubiCapacity ∧
        (rawEntry simNand (straightView simNand)
          (journalBlock (simLayout 0x10000) true freshJournals j)).block <
            simNand.cfgLogBlockCount := by decide
  exact fun j isJournal => ⟨(mapped j isJournal).1, (mapped j isJournal).2⟩

/-- A round of busy dice, a second one in which the die of the second journal reports a failure,
and then a die that is ready.  The held page is on the die of the first journal. -/
theorem dataWrite_writesSelected_busy :
    WritesSelected (simLayout 0x10000) 1 5 true freshJournals (straightView simNand)
      (straightState 19 (List.replicate 9 .dieBusy ++ [.badblock, .success])) := by
  refine (dataWrite_writesSelected_iff (by decide) journalsMapped_straight (by decide) rfl
    (areasKnown_straight _ _) (holdFits_straight (by decide) _) ⟨0, by decide, by decide⟩).mpr
    ⟨?_, fun _ => by decide⟩
  intro n enough _
  have perRound : pollsPerRound (simLayout 0x10000) true freshJournals = 8 := by decide
  rw [perRound] at enough ⊢
  have length : (n + 1) * 8 ≤ 11 := enough
  obtain rfl : n = 0 := by omega
  rfl

/-- Seven dice are busy and the last one reports a failed program: the write stops.  And if the
first die reports the failure of the page that is held and the second one is ready, the write goes
to the second one and the held page is lost. -/
theorem dataWrite_stops_failedProgram :
    (Code.halted (((dataWrite (simLayout 0x10000) 1 0 (some 0) true).run freshJournals).exec
        (diceMachine simNand 1 5)
        (straightState 19 (List.replicate 7 .dieBusy ++ [.badblock]))) = some .assertion ∧
      ¬ WritesSelected (simLayout 0x10000) 1 5 true freshJournals (straightView simNand)
        (straightState 19 (List.replicate 7 .dieBusy ++ [.badblock]))) ∧
    ¬ WritesSelected (simLayout 0x10000) 1 5 true freshJournals (straightView simNand)
      (straightState 19 [.badblock, .success]) := by
  have conditions : ∀ answers, WritesSelected (simLayout 0x10000) 1 5 true freshJournals
      (straightView simNand) (straightState 19 answers) →
        RoundsEndBusy (pollsPerRound (simLayout 0x10000) true freshJournals) answers ∧
          HeldUnreported (simLayout 0x10000) true freshJournals (straightView simNand)
            ((straightState 19 answers).1.diceHold 0) answers := fun answers =>
    (dataWrite_writesSelected_iff (by decide) journalsMapped_straight (by decide) rfl
      (areasKnown_straight _ _) (holdFits_straight (by decide) _) ⟨0, by decide, by decide⟩).mp
  refine ⟨⟨by decide +kernel, fun writes => ?_⟩, fun writes => ?_⟩
  · exact absurd ((conditions _ writes).1 0 (by decide) (by decide)) (by decide)
  · refine (conditions _ writes).2 (by decide) (0, .badblock) ?_ rfl (by decide)
    decide

end Example

end Ftl

end OpenNfm
