import OpenNfm.Ftl.DataFormat
import OpenNfm.Ftl.NodeCounts

/-!
# The FTL as an array of pages

A format and a mount leave logical pages without data.  Behind them every order of writes, trims,
reads and flushes answers like an array of pages, whatever is reclaimed and committed on the way,
if the reclaims of the page mapping table take blocks that are free.
-/

namespace OpenNfm.Ftl

open OpenNfm.Program

variable {l : Layout} {D : Type}

/-! ## Reclaims of the page mapping table -/

/-- The reclaims take blocks that are free. -/
abbrev freeReclaim (l : Layout) (fuel : Nat) : FtlCode D Status :=
  reclaimWhere l (targetIsFree l) fuel

theorem dataReclaim_free {fuel : Nat} (fit : l.NodesFit) :
    DataReclaim (D := D) l False (freeReclaim l fuel) where
  toGoodReclaim := good_targetIsFree fit
  inside _ _ := keeps_reclaimWhere (pmtBlocks_area fit.inCapacity) fit.toFits
  counts _ := keepsCounts_reclaimWhere fit

/-! ## Mount -/

section Mount

variable {strict : Prop} {log : PageLog D} {block : Role → Nat → Nat} {maps : PageMap}
  {ram : FtlRam} {store : UbiStore D} {fuel : Nat}

/-- A journal whose pages are all erased is not replayed. -/
theorem FtlKept.onReturn_dataReplayPass {hot : Bool} {rounds j wanted : Nat}
    {post : Nat × Status → FtlRam → UbiStore D → Prop}
    (kept : FtlKept l strict (allActive l) log block maps ram store) (fit : l.DataFits)
    (room : ∀ j < l.journalBlockCount, log.fill (block (.write hot) j) < l.width)
    (total : j + rounds = l.journalBlockCount)
    (meets : ∀ ram' last, FtlKept l strict (allActive l) log block maps ram' store →
      (0 < rounds → last = allOnes) → (rounds = 0 → last = wanted) →
        post (last, .success) ram' store) :
    OnReturn l (dataReplayPass l fuel hot rounds j wanted .success) post ram store := by
  induction rounds generalizing j wanted ram with
  | zero =>
      exact OnReturn.pure.mpr (meets ram wanted kept (fun wrong => absurd wrong (Nat.lt_irrefl 0))
        fun _ => rfl)
  | succ rounds ih =>
      have isJournal : j < l.journalBlockCount := by omega
      have isActive : allActive l (.write hot) j := isJournal
      have onBlock : PmNode.block l.g (journal hot ram j) = block (.write hot) j :=
        kept.data.block_word fit isActive
      have onPage : PmNode.page l.g (journal hot ram j) = log.fill (block (.write hot) j) :=
        kept.data.page_word fit isActive
      have blank := (kept.data.onDevice _ (kept.data.inArea _ j isActive)).blank _
        (room j isJournal) (Nat.le_refl _)
      have failed : Status.failure ≠ .success := by decide
      rw [dataReplayPass, OnReturn.bind, OnReturn.get]
      dsimp only
      rw [onBlock, onPage, OnReturn.bind, readSpare, if_pos rfl, OnReturn.bind]
      refine OnReturn.read fun _ _ => ?_
      rw [Nand.answer, blank, OnReturn.pure]
      dsimp only
      rw [if_neg fun success => failed success.1, OnReturn.bind, onSuccess_other failed,
        OnReturn.pure, if_neg failed, OnReturn.bind, OnReturn.modifies]
      refine ih kept.setEdition (by omega) fun ram' last kept' more none => ?_
      refine meets ram' last kept' (fun _ => ?_) fun wrong => absurd wrong (Nat.succ_ne_zero rounds)
      rcases Nat.eq_zero_or_pos rounds with done | rest
      · exact none done
      · exact more rest

theorem FtlKept.onReturn_dataBuildMetas {hot : Bool} {rounds j : Nat}
    {post : Status → FtlRam → UbiStore D → Prop}
    (kept : FtlKept l strict (allActive l) log block maps ram store) (fit : l.DataFits)
    (unused : ∀ j < l.journalBlockCount, log.fill (block (.write hot) j) = 0)
    (total : j + rounds = l.journalBlockCount) (meets : post .success ram store) :
    OnReturn l (dataBuildMetas l hot rounds j .success) post ram store := by
  induction rounds generalizing j with
  | zero => exact OnReturn.pure.mpr meets
  | succ rounds ih =>
      have isJournal : j < l.journalBlockCount := by omega
      have isActive : allActive l (.write hot) j := isJournal
      have onBlock : PmNode.block l.g (journal hot ram j) = block (.write hot) j :=
        kept.data.block_word fit isActive
      have blank := (kept.data.onDevice _ (kept.data.inArea _ j isActive)).blank 0 fit.width_pos
        (Nat.le_of_eq (unused j isJournal))
      have failed : Status.failure ≠ .success := by decide
      obtain ⟨pages, more⟩ : ∃ pages, l.pagePerPhyBlock = pages + 1 :=
        ⟨l.pagePerPhyBlock - 1, by have := fit.two; omega⟩
      have notLast : 0 ≠ l.pagePerPhyBlock - 1 := Nat.ne_of_lt fit.width_pos
      rw [dataBuildMetas, OnReturn.bind, OnReturn.get, onBlock, OnReturn.bind, more, dataBuildMeta,
        OnReturn.bind, readSpare, if_pos rfl, OnReturn.bind]
      refine OnReturn.read fun _ _ => ?_
      rw [Nand.answer, blank, OnReturn.pure]
      dsimp only
      rw [if_neg failed, if_neg notLast, OnReturn.pure]
      exact ih (by omega)

/-- Nothing is replayed behind a format. -/
theorem FtlKept.onReturn_dataReplay {hot : Bool} {post : Status → FtlRam → UbiStore D → Prop}
    (kept : FtlKept l strict (allActive l) log block maps ram store) (fit : l.DataFits)
    (unused : ∀ j < l.journalBlockCount, log.fill (block (.write hot) j) = 0)
    (meets : ∀ ram', FtlKept l strict (allActive l) log block maps ram' store →
      post .success ram' store) :
    OnReturn l (dataReplay l fuel hot) post ram store := by
  have room : ∀ j < l.journalBlockCount, log.fill (block (.write hot) j) < l.width :=
    fun j isJournal => by
      rw [unused j isJournal]
      exact fit.width_pos
  have more : (0 : Nat) ≠ allOnes := by decide
  rw [dataReplay, OnReturn.bind]
  cases fuel with
  | zero => exact OnReturn.halt
  | succ rounds =>
      rw [dataReplayLoop, if_pos more, OnReturn.bind]
      refine kept.onReturn_dataReplayPass fit room (Nat.zero_add _) fun ram' last kept' ends _ => ?_
      dsimp only
      rw [ends fit.journals]
      cases rounds with
      | zero => exact OnReturn.halt
      | succ rounds =>
          rw [dataReplayLoop, if_neg fun wrong => wrong rfl, OnReturn.pure]
          exact kept'.onReturn_dataBuildMetas fit unused (Nat.zero_add _) (meets ram' kept')

/-- No reclaim is needed while a journal has room. -/
theorem FtlKept.onReturn_reclaimIfFull {hot : Bool} {post : Status → FtlRam → UbiStore D → Prop}
    (kept : FtlKept l strict (allActive l) log block maps ram store) (fit : l.DataFits)
    (unused : ∀ j < l.journalBlockCount, log.fill (block (.write hot) j) = 0)
    (meets : post .success ram store) :
    OnReturn l (reclaimIfFull l fuel hot .success) post ram store := by
  have notFull : ¬ dataIsFull l hot ram = true := fun full => by
    have first := (kept.dataIsFull_iff fit).mp full 0 fit.journals
    rw [unused 0 fit.journals] at first
    exact Nat.ne_of_lt fit.width_pos first
  rw [reclaimIfFull, OnReturn.bind, OnReturn.get, if_neg notFull]
  exact OnReturn.pure.mpr meets

/-- What a format leaves on the device and in memory. -/
structure FtlFormatted (l : Layout) (ram : FtlRam) (store : UbiStore D) : Prop where
  journals : JournalsFormatted l ram store
  logs : LogsLeft l store ram.tables
  nodes : NodesLeft l False emptyMap.durable store
  last : store.lastRoot = some ram.rootTable

theorem onReturn_ftlFormat_formatted (fit : l.DataFits) (three : ThreeTables l)
    (blank : BlankStore store) :
    OnReturn l (ftlFormat l) (fun ret ram' after => ret = .success → FtlFormatted l ram' after) ram
      store := by
  have logs : OnReturn l (ftlFormat l) (fun ret ram' after =>
      ret = .success → LogsLeft l after ram'.tables) ram store := by
    refine onReturn_ftlFormat fit.toFits three
      (fun pair _ block _ page => blank.pages block page) ?_
      fun ret ram' after powered success => (powered success).left
    rw [UbiStore.rootWrites, blank.history]
    rfl
  have nodes : OnReturn l (ftlFormat l) (fun ret ram' after => ret = .success →
      NodesLeft l False emptyMap.durable after ∧ after.lastRoot = some ram'.rootTable) ram store :=
    onReturn_ftlFormat_nodes fit.toNodesFit three blank.pages blank.history
      fun ret ram' after left success => ⟨(left success False).1, (left success False).2.1⟩
  have journals : OnReturn l (ftlFormat l) (fun _ ram' after => JournalsFormatted l ram' after) ram
      store := onReturn_ftlFormat_journals fit blank.pages
  refine ((journals.and logs).and nodes).mono fun ret ram' after holds success => ?_
  obtain ⟨⟨journals, left⟩, named⟩ := holds
  exact ⟨journals, left success, (named success).1, (named success).2⟩

/-- `FTL_Init` behind a format: no logical page has data. -/
theorem FtlFormatted.onReturn_ftlInit {lost : FtlRam} {post : Status → FtlRam → UbiStore D → Prop}
    (formatted : FtlFormatted l ram store) (fit : l.DataFits) (three : ThreeTables l)
    (ordered : RootsOrdered l store)
    (known : ∀ root, store.lastRoot = some root → MetaKnown l root lost)
    (meets : ∀ ram' after, FtlReady l False (emptyLog D) (formatBlock l) emptyMap ram' after →
      post .success ram' after) :
    OnReturn l (ftlInit l fuel) post lost store := by
  have powered : OnReturn l (ftlInitTables l) (fun ret ram' after => ret = .success ∧
      NodesPowered l False emptyMap ram' after) lost store :=
    onReturn_ftlInitTables fit.toNodesFit three formatted.nodes ordered known
      fun _ _ powered => ⟨rfl, powered⟩
  have loaded : OnReturn l (ftlInitTables l) (fun _ ram' after =>
      JournalsFormatted l ram' after) lost store :=
    spec_ftlInitTables_mounted fit.toFits three formatted.logs ordered (fun _ _ => trivial)
      fun root ram' after _ loaded => formatted.journals.mounted fit loaded formatted.last
  simp only [ftlInit, OnReturn, Code.spec_bind, onSuccess_success, spec_ubiInit]
  refine ⟨trivial, (powered.and loaded).mono ?_⟩
  rintro ret ram₁ store₁ ⟨⟨rfl, nodes⟩, journals⟩
  have kept : FtlKept l False (allActive l) (emptyLog D) (formatBlock l) emptyMap ram₁ store₁ :=
    ⟨nodes, fun _ _ => ⟨Or.inl rfl, Or.inl rfl⟩, journals.dataKept fit⟩
  rw [onSuccess_success]
  refine kept.onReturn_dataReplay fit (fun _ _ => rfl) fun ram₂ kept₂ => ?_
  rw [onSuccess_success]
  refine kept₂.onReturn_dataReplay fit (fun _ _ => rfl) fun ram₃ kept₃ => ?_
  rw [onSuccess_success, Code.spec_bind]
  refine kept₃.onReturn_reclaimIfFull fit (fun _ _ => rfl) ?_
  refine kept₃.onReturn_reclaimIfFull fit (fun _ _ => rfl) ?_
  exact meets ram₃ store₁ ⟨kept₃, fun _ _ => rfl, fun _ => ⟨0, fit.journals, fit.width_pos⟩⟩

end Mount

/-! ## Calls -/

/-- The calls of the FTL. -/
inductive FtlCall (D : Type) where
  | write (addr : Nat) (content : D)
  | trim (addr count : Nat)
  | read (addr : Nat)
  | flush

/-- What a call answers: a status, or a status with the page that was read. -/
inductive FtlAnswer (D : Type) where
  | done (ret : Status)
  | page (ret : Status) (content : FtlPage D)

namespace FtlCall

/-- The pages of the call are inside the capacity. -/
def InRange (l : Layout) : FtlCall D → Prop
  | .write addr _ => addr < l.ftlCapacity
  | .trim addr count => addr + count ≤ l.ftlCapacity
  | .read addr => addr < l.ftlCapacity
  | .flush => True

/-- A call, as the code answers it. -/
def code (l : Layout) (reclaim : FtlCode D Status) (fuel : Nat) (zero : D) :
    FtlCall D → FtlCode D (FtlAnswer D)
  | .write addr content => do
      let ret ← ftlWriteWith l reclaim fuel addr (some content)
      pure (.done ret)
  | .trim addr count => do
      let ret ← ftlTrimWith l reclaim fuel count addr
      pure (.done ret)
  | .read addr => do
      let (ret, content) ← ftlReadWith l reclaim zero addr
      pure (.page ret content)
  | .flush => do
      let ret ← ftlFlushWith l reclaim
      pure (.done ret)

/-! An array of pages, some of which have data. -/

/-- What a call changes in an array of pages. -/
def apply (call : FtlCall D) (pages : Nat → Option D) : Nat → Option D :=
  match call with
  | .write addr content => Function.update pages addr (some content)
  | .trim addr count => fun other =>
      if addr ≤ other ∧ other < addr + count then none else pages other
  | .read _ => pages
  | .flush => pages

/-- The answer of an array of pages. -/
def answer (zero : D) (pages : Nat → Option D) : FtlCall D → FtlAnswer D
  | .read addr => .page .success (.data ((pages addr).getD zero))
  | _ => .done .success

end FtlCall

section Calls

variable {strict : Prop} {log : PageLog D} {block : Role → Nat → Nat} {maps : PageMap}
  {ram : FtlRam} {store : UbiStore D} {fuel : Nat} {reclaim reclaim' : FtlCode D Status} {zero : D}
  {call : FtlCall D}

theorem agrees_code {E : Type} {machine : Machine (UbiOp D) (UbiAns D) E}
    (agrees : Code.Agrees machine reclaim reclaim') :
    Code.Agrees machine (call.code l reclaim fuel zero) (call.code l reclaim' fuel zero) := by
  cases call with
  | write addr content => exact .bind (agrees_ftlWriteWith agrees) fun _ => .refl _
  | trim addr count => exact .bind (agrees_ftlTrimWith agrees) fun _ => .refl _
  | read addr => exact .bind (agrees_ftlReadWith agrees) fun _ => .refl _
  | flush => exact .bind (agrees_ftlFlushWith agrees) fun _ => .refl _

/-- A call answers like the array, and is ready for the next one. -/
theorem FtlReady.onReturn_code {post : FtlAnswer D → FtlRam → UbiStore D → Prop}
    (ready : FtlReady l strict log block maps ram store) (fit : l.DataFits) (three : ThreeTables l)
    (good : DataReclaim l strict reclaim) (inRange : call.InRange l)
    (meets : ∀ log' block' maps' ram' after, FtlReady l strict log' block' maps' ram' after →
      log'.contents = call.apply log.contents →
      post (call.answer zero log.contents) ram' after) :
    OnReturn l (call.code l reclaim fuel zero) post ram store := by
  cases call with
  | write addr content =>
      rw [FtlCall.code, OnReturn.bind]
      refine ready.onReturn_ftlWriteWith fit three good inRange
        fun log' block' maps' ram' after ready' contents => ?_
      exact OnReturn.pure.mpr (meets log' block' maps' ram' after ready' contents)
  | trim addr count =>
      rw [FtlCall.code, OnReturn.bind]
      refine ready.onReturn_ftlTrimWith fit three good inRange
        fun log' block' maps' ram' after ready' contents => ?_
      exact OnReturn.pure.mpr (meets log' block' maps' ram' after ready' contents)
  | read addr =>
      rw [FtlCall.code, OnReturn.bind]
      refine ready.onReturn_ftlReadWith fit three good inRange fun maps' ram' after ready' => ?_
      exact OnReturn.pure.mpr (meets log block maps' ram' after ready' rfl)
  | flush =>
      rw [FtlCall.code, OnReturn.bind]
      refine ready.onReturn_ftlFlushWith fit three good fun maps' ram' after ready' => ?_
      exact OnReturn.pure.mpr (meets log block maps' ram' after ready' rfl)

end Calls

/-! ## Runs -/

/-- A format, a mount, and then any calls, with the array of pages that the calls make.  The memory
in front of the mount has the clusters of the current block, as a format leaves it. -/
inductive FtlRun (l : Layout) (reclaim : FtlCode D Status) (fuel : Nat) (zero : D) :
    FtlRam → UbiStore D → (Nat → Option D) → Prop
  | mount {ram formatted lost ram' : FtlRam} {store mid after : UbiStore D} {ret : Status}
      (blank : BlankStore store)
      (format : ((ftlFormat l).run ram).exec (storeMachine l.g l.capacity) store =
        .ok ((.success, formatted), mid))
      (ordered : RootsOrdered l mid)
      (isKnown : ∀ root, mid.lastRoot = some root → MetaKnown l root lost)
      (run : ((ftlInit l fuel).run lost).exec (storeMachine l.g l.capacity) mid =
        .ok ((ret, ram'), after)) :
      FtlRun l reclaim fuel zero ram' after fun _ => none
  | call {ram ram' : FtlRam} {store after : UbiStore D} {pages : Nat → Option D} {call : FtlCall D}
      {answer : FtlAnswer D} (earlier : FtlRun l reclaim fuel zero ram store pages)
      (inRange : call.InRange l)
      (run : ((call.code l reclaim fuel zero).run ram).exec (storeMachine l.g l.capacity) store =
        .ok ((answer, ram'), after)) :
      FtlRun l reclaim fuel zero ram' after (call.apply pages)

section Runs

variable {ram ram' : FtlRam} {store after : UbiStore D} {fuel : Nat}
  {reclaim reclaim' : FtlCode D Status} {zero : D} {pages : Nat → Option D} {call : FtlCall D}
  {answer : FtlAnswer D}

theorem FtlRun.agrees (agrees : Agrees l reclaim reclaim')
    (run : FtlRun l reclaim fuel zero ram store pages) :
    FtlRun l reclaim' fuel zero ram store pages := by
  induction run with
  | mount blank format ordered isKnown run => exact .mount blank format ordered isKnown run
  | call earlier inRange run ih => exact ih.call inRange (agrees_code agrees _ _ _ run)

/-- Every run is ready for a call, and the log has the pages of the array. -/
theorem FtlRun.ready (fit : l.DataFits) (three : ThreeTables l)
    (run : FtlRun l (freeReclaim l fuel) fuel zero ram store pages) :
    ∃ log block maps, FtlReady l False log block maps ram store ∧ log.contents = pages := by
  induction run with
  | mount blank format ordered isKnown run =>
      have formatted := (onReturn_ftlFormat_formatted fit three blank).of_run format rfl
      have mounted : OnReturn l (ftlInit l fuel) (fun _ ram' after => ∃ log block maps,
          FtlReady l False log block maps ram' after ∧ log.contents = fun _ => none) _ _ :=
        formatted.onReturn_ftlInit fit three ordered isKnown
          fun ram' after ready => ⟨_, _, _, ready, rfl⟩
      exact mounted.of_run run
  | call earlier inRange run ih =>
      rename_i ram ram' store after pages call answer
      obtain ⟨log, block, maps, ready, rfl⟩ := ih
      have called : OnReturn l (call.code l (freeReclaim l fuel) fuel zero) (fun _ ram' after =>
          ∃ log' block' maps', FtlReady l False log' block' maps' ram' after ∧
            log'.contents = call.apply log.contents) ram store :=
        ready.onReturn_code fit three (dataReclaim_free fit.toNodesFit) inRange
          fun log' block' maps' ram' after ready' contents =>
            ⟨log', block', maps', ready', contents⟩
      exact called.of_run run

theorem FtlRun.answers (fit : l.DataFits) (three : ThreeTables l)
    (run : FtlRun l (freeReclaim l fuel) fuel zero ram store pages) (inRange : call.InRange l)
    (exec : ((call.code l (freeReclaim l fuel) fuel zero).run ram).exec
      (storeMachine l.g l.capacity) store = .ok ((answer, ram'), after)) :
    answer = call.answer zero pages := by
  obtain ⟨log, block, maps, ready, rfl⟩ := run.ready fit three
  have called : OnReturn l (call.code l (freeReclaim l fuel) fuel zero)
      (fun answer _ _ => answer = call.answer zero log.contents) ram store :=
    ready.onReturn_code fit three (dataReclaim_free fit.toNodesFit) inRange
      fun _ _ _ _ _ _ _ => rfl
  exact called.of_run exec

/-- Every call of a run answers like an array of pages: a write or a trim succeeds and changes its
pages, and a read gets the data of the last write, or zeros. -/
theorem ftlRun_refines (fit : l.DataFits) (three : ThreeTables l)
    (run : FtlRun l (freeReclaim l fuel) fuel zero ram store pages) (inRange : call.InRange l)
    (exec : ((call.code l (freeReclaim l fuel) fuel zero).run ram).exec
      (storeMachine l.g l.capacity) store = .ok ((answer, ram'), after)) :
    FtlRun l (pmtReclaimBlocks l fuel) fuel zero ram' after (call.apply pages) ∧
      answer = call.answer zero pages :=
  ⟨(run.call inRange exec).agrees agrees_reclaimWhere, run.answers fit three inRange exec⟩

/-- The calls come to their end, and the state that they leave passes the test. -/
def returningCalls (l : Layout) (reclaim : FtlCode D Status) (fuel : Nat) (zero : D)
    (test : FtlRam → UbiStore D → Bool) : List (FtlCall D) → FtlRam → UbiStore D → Bool
  | [], ram, store => test ram store
  | call :: rest, ram, store =>
      Code.returns (((call.code l reclaim fuel zero).run ram).exec (storeMachine l.g l.capacity)
        store) fun _ ram' after => returningCalls l reclaim fuel zero test rest ram' after

theorem FtlRun.returningCalls {test : FtlRam → UbiStore D → Bool} {calls : List (FtlCall D)}
    (run : FtlRun l reclaim fuel zero ram store pages) (inRange : ∀ call ∈ calls, call.InRange l)
    (returns : returningCalls l reclaim fuel zero test calls ram store = true) :
    ∃ ram' after, FtlRun l reclaim fuel zero ram' after
      (calls.foldl (fun pages call => call.apply pages) pages) ∧ test ram' after = true := by
  induction calls generalizing ram store pages with
  | nil => exact ⟨ram, store, run, returns⟩
  | cons call rest ih =>
      obtain ⟨_, _, _, ran, returns⟩ := Code.returns_iff.mp returns
      have called := run.call (inRange call List.mem_cons_self) ran
      exact ih called (fun other listed => inRange other (List.mem_cons_of_mem _ listed)) returns

end Runs

/-! ## Devices that fit -/

theorem dataFits_simLayout : (simLayout 0x10000).DataFits where
  toNodesFit := nodesFit_simLayout
  journals := by decide
  room := by decide
  table := by decide

/-- A device of 128 blocks with four pages each, and one journal of each kind. -/
def smallBlocks : Layout where
  g :=
    { simNand with
      pagePerBlockShift := 2
      planePerDieShift := 0
      diePerChipShift := 0
      chipCountShift := 0 }
  bdtPageCount := 1
  capacity := 100
  nodeCaches := 0x10000

theorem dataFits_smallBlocks : smallBlocks.DataFits where
  toNodesFit := ⟨⟨by decide, by decide, by decide⟩, by decide, by decide, by decide, by decide,
    by decide, by decide, by decide, by decide⟩
  journals := by decide
  room := by decide
  table := by decide

theorem threeTables_smallBlocks : ThreeTables smallBlocks :=
  ⟨by decide, by decide, by decide⟩

/-- Whether a call is in the range can be computed. -/
instance FtlCall.decidableInRange (l : Layout) : (call : FtlCall D) → Decidable (call.InRange l)
  | .write _ _ => inferInstanceAs (Decidable (_ < _))
  | .trim _ _ => inferInstanceAs (Decidable (_ ≤ _))
  | .read _ => inferInstanceAs (Decidable (_ < _))
  | .flush => .isTrue trivial

/-- The journal is filled three times.  At the second time all pages of its first block are
outdated, and the block becomes the journal again. -/
def journalCalls : List (FtlCall Nat) :=
  [.write 3 7, .write 3 8, .write 4 5, .write 3 9, .write 5 6, .trim 4 1, .write 3 10, .flush,
    .write 4 1, .write 6 1, .write 3 2]

/-- What the array of pages has behind these calls. -/
def journalPages : Nat → Option Nat :=
  journalCalls.foldl (fun pages call => call.apply pages) fun _ => none

/-- A format, a mount and the calls, behind which a page can be read. -/
theorem ftlRun_smallBlocks :
    ∃ ram store answer ram' after,
      FtlRun smallBlocks (freeReclaim smallBlocks 4) 4 0 ram store journalPages ∧
        (((FtlCall.read 3).code smallBlocks (freeReclaim smallBlocks 4) 4 0).run ram).exec
          (storeMachine smallBlocks.g smallBlocks.capacity) store =
            .ok ((answer, ram'), after) := by
  have run : (let machine := storeMachine (D := Nat) smallBlocks.g smallBlocks.capacity
      Code.returns (((ftlFormat smallBlocks).run .reset).exec machine .erased) fun ret ram store =>
        decide (ret = .success ∧ store.roots ≤ 2 ^ 32) &&
          (store.lastRoot.all fun root => metaKnown smallBlocks root ram) &&
          Code.returns (((ftlInit smallBlocks 4).run ram).exec machine store) fun _ ram store =>
        returningCalls smallBlocks (freeReclaim smallBlocks 4) 4 0 (fun ram store =>
          Code.returns ((((FtlCall.read 3).code smallBlocks (freeReclaim smallBlocks 4) 4 0).run
            ram).exec machine store) fun _ _ _ => true) journalCalls ram store) = true := by
    set_option maxRecDepth 100000 in decide +kernel
  obtain ⟨_, ram, store, format, test⟩ := Code.returns_iff.mp run
  obtain ⟨facts, mounts⟩ := Bool.and_eq_true_iff.mp test
  obtain ⟨success, known⟩ := Bool.and_eq_true_iff.mp facts
  obtain ⟨rfl, few⟩ := of_decide_eq_true success
  obtain ⟨_, ram₁, store₁, mount, calls⟩ := Code.returns_iff.mp mounts
  have mounted : FtlRun smallBlocks (freeReclaim smallBlocks 4) 4 0 ram₁ store₁ fun _ => none := by
    refine .mount erased_blank format (.inr (.inl few)) (fun root last => ?_) mount
    rw [last] at known
    exact metaKnown_eq_true known
  obtain ⟨ram₂, store₂, called, reads⟩ := mounted.returningCalls (by decide) calls
  obtain ⟨answer, ram₃, store₃, read, _⟩ := Code.returns_iff.mp reads
  exact ⟨ram₂, store₂, answer, ram₃, store₃, called, read⟩

/-- The page that was written last is read. -/
theorem ftlRun_refines_smallBlocks :
    ∃ ram store, FtlRun smallBlocks (pmtReclaimBlocks smallBlocks 4) 4 0 ram store
        ((FtlCall.read 3).apply journalPages) ∧
      (FtlAnswer.page .success (.data 2) : FtlAnswer Nat) =
        (FtlCall.read 3).answer 0 journalPages := by
  obtain ⟨ram, store, answer, ram', after, run, exec⟩ := ftlRun_smallBlocks
  have refines := ftlRun_refines dataFits_smallBlocks threeTables_smallBlocks run (by decide) exec
  exact ⟨ram', after, refines.1, rfl⟩

end OpenNfm.Ftl
