import OpenNfm.Ftl.LogFormat

/-!
# Runs of commits and mounts

Any number of commits and mounts, each of which may be cut by a power failure, keep the
newest root and the tables that it names, if three tables of dirty counts fit in a block
and no edition has wrapped where a mount compares two of them.  With two tables to a
block, the commit behind a mount erases the block that the newest root still names.
-/

namespace OpenNfm.Ftl

open OpenNfm.Program

variable {l : Layout} {D : Type}

/-! ## Runs -/

/-- What the rest of the FTL does between two commits: it changes the memory and the blocks
behind the tables, but not the places where the logs go on. -/
structure WorkStep (l : Layout) (ram : FtlRam) (store : UbiStore D) (ram' : FtlRam)
    (after : UbiStore D) : Prop where
  cursors : ram'.logCursors = ram.logCursors
  within : WithinBlocks (BehindTables l) store after

/-- An erased device. -/
structure BlankStore (store : UbiStore D) : Prop where
  pages : ∀ block page, store.pages block page = none
  history : store.history = []

/-- A format, and any number of commits and mounts, which a power failure cuts between any
two calls of the UBI layer.  With the power the memory is lost, so that a mount may have any
memory before it.  The tables are those that were committed together with the newest root:
a commit that is cut before its root is written leaves the tables before, and one that is
cut behind it is a whole commit and then a loss of power.

No write fails on this device, so that a commit can only fail where `PMT_Commit` finds no
block to reclaim.  It has then written a page of hot data counts that no root names, and the
caller gets the failure: a run goes on only behind a commit that has succeeded. -/
inductive LogRun (l : Layout) (fuel : Nat) :
    Option FtlRam → UbiStore D → LogTables → Prop
  | format {ram ram' : FtlRam} {store after : UbiStore D} (blank : BlankStore store)
      (run : ((ftlFormat l).run ram).exec (storeMachine l.g l.capacity) store =
        .ok ((.success, ram'), after)) : LogRun l fuel (some ram') after ram'.tables
  | work {ram ram' : FtlRam} {store after : UbiStore D} {tables : LogTables}
      (earlier : LogRun l fuel (some ram) store tables) (step : WorkStep l ram store ram' after) :
      LogRun l fuel (some ram') after tables
  | commit {ram ram' : FtlRam} {store after : UbiStore D} {tables : LogTables}
      (earlier : LogRun l fuel (some ram) store tables)
      (run : ((dataCommit l (pmtReclaimBlocks l fuel)).run ram).exec
        (storeMachine l.g l.capacity) store =
        .ok ((.success, ram'), after)) : LogRun l fuel (some ram') after ram'.tables
  | commitCut {ram : FtlRam} {store : UbiStore D} {tables : LogTables}
      (earlier : LogRun l fuel (some ram) store tables) (steps : Nat)
      (noRoot : (((dataCommit l (pmtReclaimBlocks l fuel)).run ram).cut
        (storeMachine l.g l.capacity) steps store).roots = store.roots) :
      LogRun l fuel none
        (((dataCommit l (pmtReclaimBlocks l fuel)).run ram).cut (storeMachine l.g l.capacity) steps
          store) tables
  | powerOff {ram : FtlRam} {store : UbiStore D} {tables : LogTables}
      (earlier : LogRun l fuel (some ram) store tables) : LogRun l fuel none store tables
  | mount {memory : Option FtlRam} {lost ram' : FtlRam} {store after : UbiStore D}
      {tables : LogTables} {ret : Status} (earlier : LogRun l fuel memory store tables)
      (ordered : RootsOrdered l store)
      (run : ((ftlInitTables l).run lost).exec (storeMachine l.g l.capacity) store =
        .ok ((ret, ram'), after)) : LogRun l fuel (some ram') after tables
  | mountCut {memory : Option FtlRam} {store : UbiStore D} {tables : LogTables}
      (earlier : LogRun l fuel memory store tables) (ordered : RootsOrdered l store)
      (lost : FtlRam) (steps : Nat) :
      LogRun l fuel none
        (((ftlInitTables l).run lost).cut (storeMachine l.g l.capacity) steps store) tables

/-- What holds with the memory, or of the device alone after a power failure. -/
def LogsKept (l : Layout) (memory : Option FtlRam) (store : UbiStore D) (tables : LogTables) :
    Prop :=
  match memory with
  | some ram => LogsPowered l ram store tables
  | none => LogsLeft l store tables

theorem LogsKept.left {memory : Option FtlRam} {store : UbiStore D} {tables : LogTables}
    (kept : LogsKept l memory store tables) : LogsLeft l store tables := by
  cases memory with
  | none => exact kept
  | some ram => exact LogsPowered.left kept

theorem LogsPowered.work {ram ram' : FtlRam} {store after : UbiStore D} {tables : LogTables}
    (powered : LogsPowered l ram store tables) (step : WorkStep l ram store ram' after) :
    LogsPowered l ram' after tables := by
  obtain ⟨start, block, next, root, hdiLast, bdtLast, image, cursors⟩ := powered
  have moved := cursors.bdt.congr image.names.bdt.inPair fun other inPair =>
    step.within.pages other (not_behind inPair (by omega))
  have cursors' : Cursors l ram after start block next root hdiLast bdtLast 2 :=
    { cursors with bdt := moved }
  exact ⟨start, block, next, root, hdiLast, bdtLast, image.behind step.within,
    cursors'.congr step.cursors⟩

theorem BlankStore.pair {store : UbiStore D} (blank : BlankStore store) (pair : Nat) :
    BlankPair store pair :=
  fun block _ page => blank.pages block page

theorem BlankStore.rootWrites {store : UbiStore D} (blank : BlankStore store) :
    store.rootWrites = [] := by
  rw [UbiStore.rootWrites, blank.history]
  rfl

theorem LogRun.kept {fuel : Nat} {memory : Option FtlRam} {store : UbiStore D}
    {tables : LogTables} (fits : l.Fits) (three : ThreeTables l)
    (run : LogRun l fuel memory store tables) : LogsKept l memory store tables := by
  have mounts : ∀ (lost : FtlRam) store tables, LogsLeft (D := D) l store tables →
      RootsOrdered l store →
      Code.spec (storeMachine l.g l.capacity) (fun after => LogsLeft l after tables) True
        (ftlInitTables l) (fun _ ram' after => LogsPowered l ram' after tables) lost store :=
    fun lost store tables left ordered =>
      spec_ftlInitTables fits three left ordered (fun _ => id) fun _ _ => id
  induction run with
  | format blank run =>
      rename_i before ram' store after
      have formatted : OnReturn l (ftlFormat l)
          (fun ret ram' after => ret = .success → LogsPowered l ram' after ram'.tables) before
          store :=
        onReturn_ftlFormat fits three (fun pair _ => blank.pair pair) blank.rootWrites
          fun _ _ _ => id
      exact Code.post_of_spec formatted run rfl
  | work earlier step ih => exact LogsPowered.work ih step
  | commit earlier run ih =>
      rename_i before ram' store after tables
      have committed : OnReturn l (dataCommit l (pmtReclaimBlocks l fuel))
          (fun ret ram' after => ret = .success → LogsPowered l ram' after ram'.tables) before
          store :=
        spec_dataCommit fits three ih (fun _ _ => trivial) fun _ _ _ => id
      exact Code.post_of_spec committed run rfl
  | commitCut earlier steps noRoot ih =>
      rename_i before store tables
      have cut : Code.spec (storeMachine l.g l.capacity)
          (fun after => after.roots = store.roots → LogsLeft l after tables) True
          (dataCommit l (pmtReclaimBlocks l fuel)) (fun _ _ _ => True) before store :=
        spec_dataCommit fits three ih (fun _ => id) fun _ _ _ _ => trivial
      exact Prog.cut_of_spec cut steps noRoot
  | powerOff earlier ih => exact LogsPowered.left ih
  | mount earlier ordered run ih =>
      have powered := Code.post_of_spec (mounts _ _ _ ih.left ordered) run
      exact powered
  | mountCut earlier ordered lost steps ih =>
      exact Prog.cut_of_spec (mounts lost _ _ ih.left ordered) steps

/-! ## Recovery -/

/-- The pages that a root names hold the tables. -/
structure HoldsTables (l : Layout) (store : UbiStore D) (root : Root) (tables : LogTables) :
    Prop where
  bdt : ∀ i < l.bdtPageCount, store.pages (PmNode.block l.g root.bdtCurrentJournal)
    (PmNode.page l.g root.bdtCurrentJournal + i) = some (bdtContent l tables.counts i)
  hdi : store.pages (PmNode.block l.g root.hdiCurrentJournal)
    (PmNode.page l.g root.hdiCurrentJournal) = some (hdiContent tables.values 0)

theorem NamesTables.holds {store : UbiStore D} {tables : LogTables} {root : Root}
    {hdiLast bdtLast : Nat} (names : NamesTables l store tables root hdiLast bdtLast) :
    HoldsTables l store root tables :=
  ⟨names.bdt.entry, names.hdi.entry 0 Nat.one_pos⟩

/-- A root as it was loaded and written again: only its place and its edition are new. -/
def Root.SameAs (root loaded : Root) : Prop :=
  { loaded with rootCurrentJournal := root.rootCurrentJournal, rootEdition := root.rootEdition } =
    root

/-- From any memory, `ROOT_Init` loads the root that was last completely written, and the
pages that it names hold the tables, before the mount and behind it. -/
def RootRecovered (l : Layout) (store : UbiStore D) (tables : LogTables) : Prop :=
  ∃ root, store.lastRoot = some root ∧ HoldsTables l store root tables ∧
    ∀ lost, ∃ ram after, ((rootInit l).run lost).exec (storeMachine l.g l.capacity) store =
        .ok ((.success, ram), after) ∧
      root.SameAs ram.rootTable ∧ HoldsTables l after ram.rootTable tables

theorem LogsLeft.recovered {store : UbiStore D} {tables : LogTables} (fits : l.Fits)
    (left : LogsLeft l store tables) (ordered : RootsOrdered l store) :
    RootRecovered l store tables := by
  obtain ⟨start, block, next, root, hdiLast, bdtLast, image⟩ := left
  refine ⟨root, image.log.last, image.names.holds, fun lost => ?_⟩
  have atRoot : AtRoot (foundRoot lost start block next root) start block next := ⟨rfl, rfl, rfl⟩
  obtain ⟨_, _, _, image', _⟩ := image.withRoot atRoot image.names image.maps
  have found : Code.spec (storeMachine l.g l.capacity) (fun _ => True) False (rootInit l)
      (fun ret ram after => ret = .success ∧ root.SameAs ram.rootTable ∧
        HoldsTables l after ram.rootTable tables) lost store :=
    spec_rootInit image.log fits ordered trivial trivial trivial
      ⟨rfl, rfl, image'.names.bdt.entry, image'.names.hdi.entry 0 Nat.one_pos⟩
  obtain ⟨_, ram, after, run, rfl, same, holds⟩ := Code.exec_of_spec found
  exact ⟨ram, after, run, same, holds⟩

/-- After every such run, `ROOT_Init` loads the root that was last completely written,
and the tables that were committed together with it are intact. -/
theorem logRun_recovers {fuel : Nat} {memory : Option FtlRam} {store : UbiStore D}
    {tables : LogTables} (fits : l.Fits) (three : ThreeTables l)
    (run : LogRun l fuel memory store tables) (ordered : RootsOrdered l store) :
    RootRecovered l store tables :=
  (run.kept fits three).left.recovered fits ordered

/-! ## Two tables to a block -/

/-- A device with blocks of four pages and 4096 log blocks, whose dirty counts fill two
pages of 2048 bytes. -/
def twoTables : Layout where
  g :=
    { simNand with
      sectorPerPageShift := 2
      pagePerBlockShift := 2
      blockPerPlaneShift := 12
      planePerDieShift := 0
      diePerChipShift := 0
      chipCountShift := 0 }
  bdtPageCount := 2
  capacity := 3840
  nodeCaches := 0x10000

theorem erased_blank : BlankStore (.erased : UbiStore D) :=
  ⟨fun _ _ => rfl, rfl⟩

/-- The dirty counts that the newest root names are not there. -/
def LostCounts (l : Layout) (store : UbiStore D) : Prop :=
  ∃ root, store.lastRoot = some root ∧
    store.pages (PmNode.block l.g root.bdtCurrentJournal)
      (PmNode.page l.g root.bdtCurrentJournal) = none

theorem LostCounts.not_recovered {store : UbiStore D} {tables : LogTables}
    (lost : LostCounts l store) (pos : 0 < l.bdtPageCount) : ¬ RootRecovered l store tables := by
  obtain ⟨root, last, blank⟩ := lost
  rintro ⟨root', last', holds, _⟩
  obtain rfl : root = root' := Option.some.inj (last.symm.trans last')
  have programmed := holds.bdt 0 pos
  rw [Nat.add_zero, blank] at programmed
  exact Option.some_ne_none _ programmed.symm

/-- The test of `LostCounts`. -/
def lostCounts (l : Layout) (store : UbiStore D) : Bool :=
  match store.lastRoot with
  | some root => (store.pages (PmNode.block l.g root.bdtCurrentJournal)
      (PmNode.page l.g root.bdtCurrentJournal)).isNone
  | none => false

theorem lostCounts_eq_true {store : UbiStore D} (test : lostCounts l store = true) :
    LostCounts l store := by
  unfold lostCounts at test
  cases last : store.lastRoot with
  | none => simp [last] at test
  | some root =>
      rw [last] at test
      exact ⟨root, last, Option.isNone_iff_eq_none.mp test⟩

/-- Format, mount, commit, and mount again.  The power fails in the next commit, right
behind the erase for the dirty counts: it is the block that the newest root names. -/
theorem dataCommit_erases_named_counts :
    ∃ (store : UbiStore Nat) (tables : LogTables),
      twoTables.bdtPageCount ∣ twoTables.pagePerPhyBlock ∧ LogRun twoTables 1 none store tables ∧
        LostCounts twoTables store ∧ ¬ RootRecovered twoTables store tables := by
  have run : Code.returns (((ftlFormat twoTables).run .reset).exec
        (storeMachine twoTables.g twoTables.capacity) (.erased : UbiStore Nat)) (fun ret _ store =>
      decide (ret = .success ∧ store.roots ≤ 2 ^ 32) &&
        Code.returns (((ftlInitTables twoTables).run .reset).exec
          (storeMachine twoTables.g twoTables.capacity) store) fun _ ram store =>
      Code.returns (((dataCommit twoTables (pmtReclaimBlocks twoTables 1)).run ram).exec
          (storeMachine twoTables.g twoTables.capacity) store) fun ret _ store =>
      decide (ret = .success ∧ store.roots ≤ 2 ^ 32) &&
        Code.returns (((ftlInitTables twoTables).run .reset).exec
          (storeMachine twoTables.g twoTables.capacity) store) fun _ ram store =>
      decide ((((dataCommit twoTables (pmtReclaimBlocks twoTables 1)).run ram).cut
          (storeMachine twoTables.g twoTables.capacity) 2 store).roots = store.roots) &&
        lostCounts twoTables (((dataCommit twoTables (pmtReclaimBlocks twoTables 1)).run ram).cut
          (storeMachine twoTables.g twoTables.capacity) 2 store)) = true := by
    set_option maxRecDepth 100000 in decide +kernel
  obtain ⟨_, _, _, format, test⟩ := Code.returns_iff.mp run
  obtain ⟨facts, run⟩ := Bool.and_eq_true_iff.mp test
  obtain ⟨rfl, few⟩ := of_decide_eq_true facts
  obtain ⟨_, _, _, mount, run⟩ := Code.returns_iff.mp run
  obtain ⟨_, _, _, commit, test⟩ := Code.returns_iff.mp run
  obtain ⟨facts, run⟩ := Bool.and_eq_true_iff.mp test
  obtain ⟨rfl, few'⟩ := of_decide_eq_true facts
  obtain ⟨_, _, _, mount', test⟩ := Code.returns_iff.mp run
  obtain ⟨noRoot, lost⟩ := Bool.and_eq_true_iff.mp test
  have formatted : LogRun twoTables 1 _ _ _ := .format erased_blank format
  have committed := ((formatted.mount (.inr (.inl few)) mount).commit commit).powerOff
  have cut := (committed.mount (.inr (.inl few')) mount').commitCut 2 (of_decide_eq_true noRoot)
  have lost := lostCounts_eq_true lost
  exact ⟨_, _, by decide, cut, lost, lost.not_recovered (by decide)⟩

/-- The count of dirty pages of block 7 in memory. -/
def countBlock (count : Nat) (ram : FtlRam) : FtlRam :=
  { ram with blockDirtyTable := Function.update ram.blockDirtyTable 7 count }

/-- With the tables of the simulated device, of which thirty-two fit in a block: format, mount,
and a commit of three dirty pages.  The power fails in the next commit, of four, behind the
erase for the dirty counts, and behind the next mount the tables of the first one are there. -/
theorem logRun_recovers_simLayout :
    ∃ (store : UbiStore Nat) (ram : FtlRam) (tables : LogTables),
      LogRun (simLayout 0x10000) 1 (some ram) store tables ∧ tables.counts 7 = 3 ∧
        RootRecovered (simLayout 0x10000) store tables := by
  have run : (let l := simLayout 0x10000
      let machine := storeMachine (D := Nat) l.g l.capacity
      Code.returns (((ftlFormat l).run .reset).exec machine .erased) fun ret _ store =>
        decide (ret = .success ∧ store.roots ≤ 2 ^ 32) &&
          Code.returns (((ftlInitTables l).run .reset).exec machine store) fun _ ram store =>
        Code.returns (((dataCommit l (pmtReclaimBlocks l 1)).run (countBlock 3 ram)).exec machine
            store) fun ret ram store =>
          let cut := ((dataCommit l (pmtReclaimBlocks l 1)).run (countBlock 4 ram)).cut machine 2
            store
          decide (ret = .success ∧ ram.blockDirtyTable 7 = 3 ∧ cut.roots = store.roots ∧
            cut.roots ≤ 2 ^ 32) &&
          Code.returns (((ftlInitTables l).run .reset).exec machine cut) fun _ _ store =>
            decide (store.roots ≤ 2 ^ 32)) = true := by
    set_option maxRecDepth 100000 in decide +kernel
  obtain ⟨_, ram, store, format, test⟩ := Code.returns_iff.mp run
  obtain ⟨facts, run⟩ := Bool.and_eq_true_iff.mp test
  obtain ⟨rfl, few⟩ := of_decide_eq_true facts
  obtain ⟨_, ram₁, store₁, mount, run⟩ := Code.returns_iff.mp run
  obtain ⟨_, ram₂, store₂, commit, test⟩ := Code.returns_iff.mp run
  obtain ⟨facts, run⟩ := Bool.and_eq_true_iff.mp test
  obtain ⟨rfl, three, noRoot, few'⟩ := of_decide_eq_true facts
  obtain ⟨_, ram₃, store₃, mount', few''⟩ := Code.returns_iff.mp run
  have counted : ∀ count ram (store : UbiStore Nat),
      WorkStep (simLayout 0x10000) ram store (countBlock count ram) store :=
    fun _ _ store => ⟨rfl, .refl _ store⟩
  have formatted : LogRun (simLayout 0x10000) 1 _ _ _ := .format erased_blank format
  have mounted := formatted.mount (.inr (.inl few)) mount
  have committed := (mounted.work (counted 3 _ _)).commit commit
  have cut := (committed.work (counted 4 _ _)).commitCut 2 noRoot
  have again := cut.mount (.inr (.inl few')) mount'
  have fits : (simLayout 0x10000).Fits := ⟨by decide, by decide, by decide⟩
  have tables : ThreeTables (simLayout 0x10000) := ⟨by decide, by decide, by decide⟩
  exact ⟨store₃, ram₃, ram₂.tables, again, three,
    logRun_recovers fits tables again (.inr (.inl (of_decide_eq_true few'')))⟩

end OpenNfm.Ftl
