import OpenNfm.Ubi.AnchorRecovery

/-!
# The anchor on a device with bad blocks

Programs of anchor pages and erases of anchor blocks may fail, in any pattern.  A run
consists of a format and of updates that return success, with edits of the table
between them.  Every block that such a run leaves keeps its readable pages, so that
any number of blocks of the ring may hold an anchor.
-/

namespace OpenNfm

open OpenNfm.Program
open Faulty

variable {g : Geometry} {D : Type}

/-! ## Runs that return -/

/-- What holds of a run if it returns. -/
abbrev OnReturn {α : Type} (g : Geometry) (code : Ubi D α)
    (post : α → UbiRam D → Faulty (UbiBuffer D) → Prop) (ram : UbiRam D)
    (state : Faulty (UbiBuffer D)) : Prop :=
  Code.spec (faultyMachine g) (fun _ => True) True code post ram state

section Rules

variable {ram : UbiRam D} {state : Faulty (UbiBuffer D)} {block : Nat}

theorem onReturn_mtdErase {post : Status → UbiRam D → Faulty (UbiBuffer D) → Prop}
    (meets : post (state.erase g block).1 ram (state.erase g block).2) :
    OnReturn g (mtdErase block) post ram state := by
  by_cases isBlock : block < g.cfgLogBlockCount
  · exact (spec_mtdErase isBlock).mpr ⟨trivial, trivial, meets⟩
  · have step : faultyMachine g state (.erase block) = .error .assertion := if_neg isBlock
    exact (Prog.spec_call_of_error step).mpr ⟨trivial, trivial⟩

/-- A table is written to a page that was blank; if the program fails, the page holds
the table or stays blank. -/
theorem onReturn_tableWrite {page : Nat} {table : UbiBuffer D}
    {post : Status → UbiRam D → Faulty (UbiBuffer D) → Prop}
    (written : state.nand block page = none → state.torn block page = false →
      ∀ after, after.nand = state.nand.program block page (tablePage table) →
        after.lastProgram = some (block, page, table) → post .success ram after)
    (failed : ∀ after, after.nand = state.nand ∨
      after.nand = state.nand.program block page (tablePage table) → post .badblock ram after) :
    OnReturn g (tableWrite block page table) post ram state := by
  by_cases accepted : block < g.cfgLogBlockCount ∧ page < g.pagePerPhyBlock ∧
      (state.nand block page).isNone ∧ state.torn block page = false
  · obtain ⟨isBlock, isPage, isBlank, whole⟩ := accepted
    have blank : state.nand block page = none := by simpa using isBlank
    unfold OnReturn tableWrite
    rw [Code.spec_bind, spec_mtdProgram isBlock isPage blank whole, if_pos rfl,
      spec_mtdWaitReady isBlock]
    refine ⟨trivial, trivial, trivial, ?_⟩
    cases outcome : state.outcomes.headD .done with
    | done =>
        simp only [Faulty.program, outcome, Function.update_self, Bool.false_eq_true, if_false]
        exact written blank whole _ rfl rfl
    | failed kept =>
        simp only [Faulty.program, outcome, Function.update_self, if_true]
        refine failed _ ?_
        by_cases readable : kept page = true
        · exact .inr (by simp [readable, tablePage])
        · exact .inl (by simp [readable])
  · have step : faultyMachine g state (.program block page table (some ⟨0, 0⟩)) =
        .error .assertion := by
      simp only [faultyMachine]
      exact if_neg accepted
    unfold OnReturn tableWrite
    rw [Code.spec_bind]
    exact (Prog.spec_call_of_error step).mpr ⟨trivial, trivial⟩

end Rules

/-! ## Moving through the ring -/

/-- The block and page for the next anchor, and the link in the table, are the same. -/
structure SamePlace (ram ram' : UbiRam D) : Prop where
  block : ram'.anchorBlock = ram.anchorBlock
  page : ram'.anchorNextPage = ram.anchorNextPage
  previous : ram'.anchorTable.previousAnchorBlock = ram.anchorTable.previousAnchorBlock

theorem SamePlace.refl (ram : UbiRam D) : SamePlace ram ram :=
  ⟨rfl, rfl, rfl⟩

theorem SamePlace.trans {first second third : UbiRam D} (same : SamePlace first second)
    (same' : SamePlace second third) : SamePlace first third :=
  ⟨same'.block.trans same.block, same'.page.trans same.page,
    same'.previous.trans same.previous⟩

theorem AnchorPages.erase {state : Faulty (UbiBuffer D)} (pages : AnchorPages g state.nand)
    (block : Nat) : AnchorPages g (state.erase g block).2.nand :=
  pages.of_le fun _ page _ programmed => state.erase_nand_le page programmed

theorem onReturn_anchorFindLoop {current rounds block : Nat}
    {post : Status × Nat → UbiRam D → Faulty (UbiBuffer D) → Prop} {ram : UbiRam D}
    {state : Faulty (UbiBuffer D)} (inRing : g.InRing block) (pages : AnchorPages g state.nand)
    (meets : ∀ ret next ram' after, g.InRing next → AnchorPages g after.nand →
      (ret = .success → after.nand.Blank next) → SamePlace ram ram' → post (ret, next) ram' after) :
    OnReturn g (anchorFindLoop g current rounds block) post ram state := by
  induction rounds generalizing block ram state with
  | zero => exact ⟨trivial, trivial⟩
  | succ rounds ih =>
      have next : (if block + 1 > g.anchorLastBlock then Geometry.anchorFirstBlock
          else block + 1) = g.ringNext block := rfl
      have step : ∀ ret ram' after, AnchorPages g after.nand →
          (ret = .success → after.nand.Blank (g.ringNext block)) → SamePlace ram ram' →
          OnReturn g (if ret ≠ .success ∧ g.ringNext block ≠ current then
            anchorFindLoop g current rounds (g.ringNext block)
            else pure (ret, g.ringNext block)) post ram' after := by
        intro ret ram' after pages' erased same
        split
        · exact ih inRing.next pages' fun ret' next' ram'' after' inRing' pages'' blank same' =>
            meets ret' next' ram'' after' inRing' pages'' blank (same.trans same')
        · exact ⟨trivial, meets ret _ ram' after inRing.next pages' erased same⟩
      unfold OnReturn at step ⊢
      simp only [anchorFindLoop, Code.spec_bind, next, anchorIsBadBlock, Code.spec_get,
        Code.spec_pure]
      refine ⟨trivial, trivial, ?_⟩
      split
      · rw [Code.spec_bind]
        exact ⟨trivial, step _ _ _ pages (fun wrong => Status.noConfusion wrong) (.refl ram)⟩
      · simp only [Code.spec_bind]
        refine onReturn_mtdErase ?_
        split
        · rename_i failed
          simp only [anchorLogBadBlock, Code.spec_bind, Code.spec_modify, Code.spec_pure]
          exact ⟨trivial, trivial, step _ _ _ (pages.erase _) (fun erased => absurd erased failed)
            ⟨rfl, rfl, rfl⟩⟩
        · rw [Code.spec_bind]
          exact ⟨trivial, step _ _ _ (pages.erase _) state.erase_blank (.refl ram)⟩

/-- The block that is found is another one, and it is blank. -/
theorem onReturn_anchorFindNextBlock {current : Nat}
    {post : Status × Nat → UbiRam D → Faulty (UbiBuffer D) → Prop} {ram : UbiRam D}
    {state : Faulty (UbiBuffer D)} (inRing : g.InRing current)
    (pages : AnchorPages g state.nand)
    (meets : ∀ ret next ram' after, AnchorPages g after.nand → SamePlace ram ram' →
      (ret = .success → g.InRing next ∧ next ≠ current ∧ after.nand.Blank next) →
      post (ret, next) ram' after) :
    OnReturn g (anchorFindNextBlock g current) post ram state := by
  unfold OnReturn
  rw [anchorFindNextBlock, Code.spec_bind]
  refine onReturn_anchorFindLoop inRing pages
    fun ret next ram' after inRing' pages' blank same => ?_
  simp only
  split
  · rename_i moved
    exact ⟨trivial, meets ret next ram' after pages' same
      fun success => ⟨inRing', moved, blank success⟩⟩
  · exact ⟨trivial, meets .failure current ram' after pages' same
      fun wrong => absurd wrong (by decide)⟩

/-- Where the next anchor goes: to the next block, or to a page behind which nothing
is programmed. -/
structure Appending (g : Geometry) (ram : UbiRam D) (state : Faulty (UbiBuffer D)) : Prop where
  pages : AnchorPages g state.nand
  inRing : g.InRing ram.anchorBlock
  le : ram.anchorNextPage ≤ g.pagePerPhyBlock
  place : ram.anchorNextPage ≠ g.pagePerPhyBlock →
    ram.anchorTable.previousAnchorBlock ≠ ram.anchorBlock ∧
      (state.nand ram.anchorBlock ram.anchorNextPage = none →
        state.torn ram.anchorBlock ram.anchorNextPage = false →
        Tables state.nand ram.anchorBlock ram.anchorNextPage)

/-- The anchor of the last program is right before the place for the next one. -/
structure AnchorRunning (g : Geometry) (ram : UbiRam D) (state : Faulty (UbiBuffer D)) :
    Prop where
  place : ∃ page table, ram.anchorNextPage = page + 1 ∧
    AnchorLast g state ram.anchorBlock page table
  link : ram.anchorTable.previousAnchorBlock ≠ ram.anchorBlock

theorem AnchorPages.program {nand : Nand (UbiBuffer D)} (pages : AnchorPages g nand)
    {block : Nat} {table : AnchorTable} (link : table.previousAnchorBlock ≠ block) (page : Nat) :
    AnchorPages g (nand.program block page (tablePage (.anchor table))) := by
  intro other page' content inRing programmed
  by_cases sameBlock : other = block
  · subst sameBlock
    by_cases samePage : page' = page
    · subst samePage
      rw [Nand.program_same] at programmed
      exact ⟨table, (Option.some.inj programmed).symm, link⟩
    · rw [nand.program_otherPage _ _ samePage] at programmed
      exact pages other page' content inRing programmed
  · rw [nand.program_other _ _ _ sameBlock] at programmed
    exact pages other page' content inRing programmed

/-- What a successful write leaves, whether or not the previous block is erased. -/
theorem Appending.written {ram ram' : UbiRam D} {state after : Faulty (UbiBuffer D)}
    (appending : Appending g ram state) (room : ram.anchorNextPage ≠ g.pagePerPhyBlock)
    (blank : state.nand ram.anchorBlock ram.anchorNextPage = none)
    (whole : state.torn ram.anchorBlock ram.anchorNextPage = false)
    (programmed : ∀ block page content, after.nand block page = some content →
      state.nand.program ram.anchorBlock ram.anchorNextPage
        (tablePage (.anchor ram.anchorTable)) block page = some content)
    (kept : after.nand ram.anchorBlock = state.nand.program ram.anchorBlock ram.anchorNextPage
      (tablePage (.anchor ram.anchorTable)) ram.anchorBlock)
    (last : after.lastProgram =
      some (ram.anchorBlock, ram.anchorNextPage, .anchor ram.anchorTable))
    (supported : g.Supported) (same : ram'.anchorBlock = ram.anchorBlock)
    (next : ram'.anchorNextPage = ram.anchorNextPage + 1)
    (table : ram'.anchorTable = ram.anchorTable) : AnchorRunning g ram' after := by
  obtain ⟨link, tables⟩ := appending.place room
  have log : TableLog g (state.nand.program ram.anchorBlock ram.anchorNextPage
      (tablePage (.anchor ram.anchorTable))) ram.anchorBlock (ram.anchorNextPage + 1)
      (.anchor ram.anchorTable) :=
    { inRange := appending.inRing.lt_blocks supported
      pos := Nat.succ_pos _
      le := lt_of_le_of_ne appending.le room
      tables := (tables blank whole).program _
      last := state.nand.program_same _ _ _ }
  refine ⟨⟨ram.anchorNextPage, ram.anchorTable, next, ?_⟩, by rwa [same, table]⟩
  rw [same]
  exact ⟨(appending.pages.program link _).of_le programmed, appending.inRing, log.frame kept, last⟩

/-! ## Updates -/

/-- A program that failed makes the anchor move on. -/
theorem Appending.failed {ram : UbiRam D} {state after : Faulty (UbiBuffer D)}
    (appending : Appending g ram state) (room : ram.anchorNextPage ≠ g.pagePerPhyBlock)
    (left : after.nand = state.nand ∨ after.nand = state.nand.program ram.anchorBlock
      ram.anchorNextPage (tablePage (.anchor ram.anchorTable))) :
    Appending g { ram with anchorNextPage := g.pagePerPhyBlock } after where
  pages := by
    rcases left with same | programmed
    · rw [same]
      exact appending.pages
    · rw [programmed]
      exact appending.pages.program (appending.place room).1 _
  inRing := appending.inRing
  le := le_rfl
  place full := absurd rfl full

theorem onReturn_anchorUpdateLoop {rounds : Nat} {reclaimed : Bool}
    {post : Status → UbiRam D → Faulty (UbiBuffer D) → Prop} {ram : UbiRam D}
    {state : Faulty (UbiBuffer D)} (supported : g.Supported) (appending : Appending g ram state)
    (meets : ∀ ret ram' after, (ret = .success → AnchorRunning g ram' after) →
      post ret ram' after) :
    OnReturn g (anchorUpdateLoop g rounds reclaimed) post ram state := by
  induction rounds generalizing reclaimed ram state with
  | zero => exact ⟨trivial, trivial⟩
  | succ rounds ih =>
      have write : ∀ (reclaimed : Bool) ram state, Appending g ram state →
          ram.anchorNextPage ≠ g.pagePerPhyBlock →
          OnReturn g (do
            let ram ← get
            let ret ← tableWrite ram.anchorBlock ram.anchorNextPage (.anchor ram.anchorTable)
            if ret = .success then do
              if reclaimed then
                let _ ← mtdErase ram.anchorTable.previousAnchorBlock
              modify fun ram => { ram with anchorNextPage := ram.anchorNextPage + 1 }
              pure ret
            else do
              if ret = .badblock then
                modify fun ram => { ram with anchorNextPage := g.pagePerPhyBlock }
              anchorUpdateLoop g rounds reclaimed) post ram state := by
        intro reclaimed ram state appending room
        unfold OnReturn
        simp only [Code.spec_bind, Code.spec_get]
        refine ⟨trivial, onReturn_tableWrite ?_ ?_⟩
        · intro blank whole after programmed last
          simp only [if_true]
          split
          · rw [Code.spec_bind]
            refine onReturn_mtdErase ?_
            simp only [Code.spec_bind, Code.spec_modify, Code.spec_pure]
            refine ⟨trivial, trivial, meets _ _ _ fun _ => ?_⟩
            refine appending.written room blank whole ?_ ?_ ?_ supported rfl rfl rfl
            · intro block page content held
              rw [← programmed]
              exact after.erase_nand_le page held
            · rw [after.erase_nand_other (appending.place room).1.symm, programmed]
            · rw [erase_lastProgram, last]
          · simp only [Code.spec_bind, Code.spec_modify, Code.spec_pure]
            refine ⟨trivial, trivial, meets _ _ _ fun _ => ?_⟩
            refine appending.written room blank whole ?_ ?_ last supported rfl rfl rfl
            · intro block page content held
              rwa [← programmed]
            · rw [programmed]
        · intro after left
          simp only [reduceCtorEq, if_false, if_true, Code.spec_bind, Code.spec_modify]
          exact ⟨trivial, ih (appending.failed room left)⟩
      unfold OnReturn at write ⊢
      simp only [anchorUpdateLoop, Code.spec_bind, Code.spec_get]
      refine ⟨trivial, ?_⟩
      by_cases full : ram.anchorNextPage = g.pagePerPhyBlock
      · simp only [full, if_true, Code.spec_bind, Code.spec_modify]
        refine ⟨trivial, onReturn_anchorFindNextBlock appending.inRing appending.pages ?_⟩
        intro ret next ram' after pages same found
        by_cases success : ret = .success
        · obtain ⟨inRing, moved, blank⟩ := found success
          simp only [success, if_true, Code.spec_bind, Code.spec_modify, Code.spec_pure, ne_eq,
            not_true_eq_false, if_false]
          have start : Appending g { ram' with anchorBlock := next, anchorNextPage := 0 } after :=
            { pages := pages
              inRing := inRing
              le := Nat.zero_le _
              place := fun _ => ⟨same.previous.trans_ne moved.symm,
                fun _ _ => Tables.ofBlank blank⟩ }
          have finish := write true _ after start g.pagePerPhyBlock_pos.ne
          simp only [Code.spec_bind, if_true] at finish
          exact ⟨trivial, trivial, finish⟩
        · simp only [success, if_false, Code.spec_bind, Code.spec_pure, ne_eq, not_false_eq_true,
            if_true]
          exact ⟨trivial, trivial, meets ret ram' after fun wrong => absurd wrong success⟩
      · simp only [full, if_false, Code.spec_bind, Code.spec_pure, ne_eq, not_true_eq_false]
        have finish := write reclaimed ram state appending full
        simp only [Code.spec_bind] at finish
        exact ⟨trivial, finish⟩

theorem AnchorRunning.appending {ram : UbiRam D} {state : Faulty (UbiBuffer D)}
    (running : AnchorRunning g ram state) : Appending g ram state := by
  obtain ⟨page, table, next, last⟩ := running.place
  refine ⟨last.pages, last.inRing, next ▸ last.log.le, fun _ => ⟨running.link, fun _ _ => ?_⟩⟩
  rw [next]
  exact last.log.tables

theorem onReturn_anchorUpdate {fuel : Nat} {post : Status → UbiRam D → Faulty (UbiBuffer D) → Prop}
    {ram : UbiRam D} {state : Faulty (UbiBuffer D)} (supported : g.Supported)
    (appending : Appending g ram state)
    (meets : ∀ ret ram' after, (ret = .success → AnchorRunning g ram' after) →
      post ret ram' after) :
    OnReturn g (anchorUpdate g fuel) post ram state :=
  onReturn_anchorUpdateLoop supported appending meets

/-! ## Formats -/

/-- A ring that may be formatted: it holds only anchors, and nothing in its first block
if that block's first page is blank. -/
structure FormatReady (g : Geometry) (state : Faulty (UbiBuffer D)) : Prop where
  pages : AnchorPages g state.nand
  first : state.nand Geometry.anchorFirstBlock 0 = none →
    state.torn Geometry.anchorFirstBlock 0 = false → state.nand.Blank Geometry.anchorFirstBlock

theorem FormatReady.erase {state : Faulty (UbiBuffer D)} (ready : FormatReady g state)
    (block : Nat) : FormatReady g (state.erase g block).2 where
  pages := ready.pages.erase block
  first := by
    intro blank whole
    by_cases success : (state.erase g block).1 = .success
    · by_cases same : Geometry.anchorFirstBlock = block
      · rw [same]
        exact state.erase_blank success
      · intro page
        rw [state.erase_nand_other same] at blank ⊢
        refine ready.first blank ?_ page
        revert whole
        unfold Faulty.erase
        split <;> simp [Function.update_of_ne same]
    · cases outcome : state.outcomes.headD .done with
      | done => simp [Faulty.erase, List.headD_eq_head?_getD ▸ outcome] at success
      | failed kept =>
          by_cases same : Geometry.anchorFirstBlock = block
          · simp only [Faulty.erase, outcome, ← same, Function.update_self] at blank whole
            by_cases keeps : kept 0 = true
            · simp only [keeps, if_true] at blank whole
              intro page
              cases content : (state.erase g block).2.nand Geometry.anchorFirstBlock page with
              | none => rfl
              | some left =>
                  have held := state.erase_nand_le page content
                  rw [ready.first blank whole page] at held
                  simp at held
            · simp [keeps] at whole
          · intro page
            simp only [Faulty.erase, outcome, Function.update_of_ne same] at blank whole ⊢
            exact ready.first blank whole page

theorem onReturn_anchorFormatErase {blocks : List Nat}
    {post : Unit → UbiRam D → Faulty (UbiBuffer D) → Prop} {ram : UbiRam D}
    {state : Faulty (UbiBuffer D)} (ready : FormatReady g state)
    (meets : ∀ ram' after, FormatReady g after → SamePlace ram ram' → post () ram' after) :
    OnReturn g (anchorFormatErase g blocks) post ram state := by
  induction blocks generalizing ram state with
  | nil => exact ⟨trivial, meets ram state ready (.refl ram)⟩
  | cons block rest ih =>
      unfold OnReturn at ih ⊢
      simp only [anchorFormatErase, anchorIsBadBlock, Code.spec_bind, Code.spec_get,
        Code.spec_pure]
      refine ⟨trivial, trivial, ?_⟩
      split
      · rw [Code.spec_bind]
        refine onReturn_mtdErase ?_
        split
        · simp only [Code.spec_bind, anchorLogBadBlock, Code.spec_modify]
          refine ⟨trivial, ih (ready.erase block) fun ram' after ready' same => ?_⟩
          exact meets ram' after ready' ⟨same.block, same.page, same.previous⟩
        · exact ih (ready.erase block) meets
      · exact ih ready meets

theorem onReturn_anchorFormat {fuel total : Nat}
    {post : Status → UbiRam D → Faulty (UbiBuffer D) → Prop} {ram : UbiRam D}
    {state : Faulty (UbiBuffer D)} (supported : g.Supported) (ready : FormatReady g state)
    (meets : ∀ ret ram' after, (ret = .success → AnchorRunning g ram' after) →
      post ret ram' after) :
    OnReturn g (anchorFormat g fuel total) post ram state := by
  unfold OnReturn
  simp only [anchorFormat, Code.spec_bind, Code.spec_modify]
  refine ⟨trivial, onReturn_anchorFormatErase ready fun ram' after ready' same => ?_⟩
  refine onReturn_anchorUpdate supported ⟨ready'.pages, ?_, ?_,
    fun _ => ⟨?_, fun blank whole => ?_⟩⟩ meets
  · rw [same.block]
    exact inRing_first g
  · rw [same.page]
    exact Nat.zero_le _
  · rw [same.previous, same.block]
    exact (by decide : invalidBlock ≠ Geometry.anchorFirstBlock)
  · rw [same.block, same.page] at blank whole ⊢
    exact Tables.ofBlank (ready'.first blank whole)

/-! ## Runs -/

/-- The table, up to the entry of the previous block if that could not be erased. -/
def SameButLogged (g : Geometry) (state : Faulty (UbiBuffer D)) (loaded table : AnchorTable) :
    Prop :=
  loaded = table ∨ (state.erase g table.previousAnchorBlock).1 ≠ .success ∧
    loaded = table.logged g table.previousAnchorBlock

/-- The block of the last program can be recovered. -/
def LastRecoverable (g : Geometry) (state : Faulty (UbiBuffer D)) : Prop :=
  ∃ block page table, state.lastProgram = some (block, page, .anchor table) ∧
    AnchorRecoverable g state.nand block

/-- A format, and any number of updates and mounts, all of which return success.
Between them the callers change the table, but not its link to the previous block.
A mount may have any memory before it; it is taken only if the last anchor can be
recovered. -/
inductive AnchorRun (g : Geometry) (fuel : Nat) : UbiRam D → Faulty (UbiBuffer D) → Prop
  | format {total : Nat} {ram ram' : UbiRam D} {state after : Faulty (UbiBuffer D)}
      (ready : FormatReady g state)
      (run : ((anchorFormat g fuel total).run ram).exec (faultyMachine g) state =
        .ok ((.success, ram'), after)) : AnchorRun g fuel ram' after
  | edit {ram ram' : UbiRam D} {state : Faulty (UbiBuffer D)}
      (earlier : AnchorRun g fuel ram state) (same : SamePlace ram ram') :
      AnchorRun g fuel ram' state
  | update {ram ram' : UbiRam D} {state after : Faulty (UbiBuffer D)}
      (earlier : AnchorRun g fuel ram state)
      (run : ((anchorUpdate g fuel).run ram).exec (faultyMachine g) state =
        .ok ((.success, ram'), after)) : AnchorRun g fuel ram' after
  | mount {ram lost ram' : UbiRam D} {state after : Faulty (UbiBuffer D)}
      (earlier : AnchorRun g fuel ram state) (recoverable : LastRecoverable g state)
      (run : ((anchorInit g).run lost).exec (faultyMachine g) state =
        .ok ((.success, ram'), after)) : AnchorRun g fuel ram' after

theorem SameButLogged.previous {state : Faulty (UbiBuffer D)} {loaded table : AnchorTable}
    (same : SameButLogged g state loaded table) :
    loaded.previousAnchorBlock = table.previousAnchorBlock :=
  RingDevice.SameButLogged.previous (faultyRing g D) same

theorem AnchorRun.running {fuel : Nat} {ram : UbiRam D} {state : Faulty (UbiBuffer D)}
    (supported : g.Supported) (run : AnchorRun g fuel ram state) : AnchorRunning g ram state := by
  induction run with
  | format ready run =>
      rename_i total before ram' state after
      have kept : OnReturn g (anchorFormat g fuel total) (fun ret ram' after => ret = .success →
          AnchorRunning g ram' after) before state :=
        onReturn_anchorFormat supported ready fun ret ram' after returned => returned
      exact Code.post_of_spec kept run rfl
  | edit earlier same ih =>
      obtain ⟨page, table, next, last⟩ := ih.place
      refine ⟨⟨page, table, same.page.trans next, ?_⟩, ?_⟩
      · rw [same.block]
        exact last
      · rw [same.previous, same.block]
        exact ih.link
  | update earlier run ih =>
      rename_i before ram' state after
      have kept : OnReturn g (anchorUpdate g fuel) (fun ret ram' after => ret = .success →
          AnchorRunning g ram' after) before state :=
        onReturn_anchorUpdate supported ih.appending fun ret ram' after returned => returned
      exact Code.post_of_spec kept run rfl
  | mount earlier recoverable run ih =>
      rename_i ram lost ram' state after
      obtain ⟨page, table, next, last⟩ := ih.place
      obtain ⟨block, page', table', programmed, recoverable⟩ := recoverable
      obtain ⟨rfl, rfl, rfl⟩ : ram.anchorBlock = block ∧ page = page' ∧ table = table' := by
        simpa [last.last] using programmed
      have mounted : OnReturn g (anchorInit g) (fun _ ram' after => AnchorRunning g ram' after)
          lost state := by
        refine last.spec_anchorInit supported recoverable (fun _ _ _ _ => trivial) ?_
        intro outdated loaded after loads _ kept _
        exact ⟨⟨page, table, rfl, kept⟩,
          (RingDevice.Loads.previous _ loads).trans_ne (kept.pages.previous_ne kept.mem)⟩
      have running := Code.post_of_spec mounted run
      exact running

/-- After every such run, `ANCHOR_Init` selects the block and the page of the last
successful write and loads its table exactly if its block can be recovered. -/
theorem anchorRun_restores_iff {fuel : Nat} {ram : UbiRam D} {state : Faulty (UbiBuffer D)}
    (supported : g.Supported) (run : AnchorRun g fuel ram state) (lost : UbiRam D) :
    InitRestores g (SameButLogged g state) lost state ↔ LastRecoverable g state := by
  obtain ⟨page, table, _, last⟩ := (run.running supported).place
  have restored : InitRestores g (SameButLogged g state) lost state ↔
      AnchorRecoverable g state.nand ram.anchorBlock :=
    initRestores_iff supported last lost (fun _ same => same) fun _ _ => SameButLogged.previous
  refine restored.trans ⟨?_, ?_⟩
  · intro recoverable
    exact ⟨_, page, table, last.last, recoverable⟩
  · rintro ⟨block, page', table', programmed, recoverable⟩
    obtain ⟨rfl, rfl, rfl⟩ : ram.anchorBlock = block ∧ page = page' ∧ table = table' := by
      simpa [last.last] using programmed
    exact recoverable

/-! ## A device that fails twice -/

/-- The memory after a mount that has found no anchor. -/
def unformatted : UbiRam Nat :=
  { UbiRam.reset Nat with anchorTable := .blank, indexTable := .blank }

/-- A blank device with the given outcomes. -/
def blankDevice (outcomes : List Outcome) : Faulty (UbiBuffer Nat) where
  nand _ _ := none
  torn _ _ := false
  outcomes := outcomes
  failedDie _ := false
  polls := []
  lastProgram := none

theorem formatReady_blankDevice (g : Geometry) (outcomes : List Outcome) :
    FormatReady g (blankDevice outcomes) :=
  ⟨fun _ _ _ _ programmed => (nomatch programmed), fun _ _ _ => rfl⟩

/-- A program after which the page is not readable. -/
def tornProgram : Outcome := .failed fun _ => false

/-- The erases and the program of a format, and an update whose first two programs fail. -/
def failsTwice : List Outcome :=
  List.replicate 7 .done ++ [tornProgram, .done, tornProgram, .done, .done, .done]

/-- After an update that succeeds in its third block, the mount stops in its assertion:
the anchor in block 3 names block 2 as the previous one, in which nothing is readable,
and the anchor of the format is still in block 1. -/
theorem anchorInit_halts_failsTwice :
    ∃ ram state, AnchorRun simNand 4 ram state ∧
      (state.lastProgram.map fun last => (last.1, last.2.1)) = some (3, 0) ∧
      ((anchorInit simNand).run unformatted).exec (faultyMachine simNand) state =
        .error .assertion ∧
      ¬ InitRestores simNand (SameButLogged simNand state) unformatted state := by
  have run : Code.returns (((anchorFormat simNand 4 989).run unformatted).exec
      (faultyMachine simNand) (blankDevice failsTwice)) (fun status ram state =>
        Code.returns (((anchorUpdate simNand 4).run ram).exec (faultyMachine simNand) state)
          fun status' _ state' => decide (status = .success ∧ status' = .success ∧
            (state'.lastProgram.map fun last => (last.1, last.2.1)) = some (3, 0) ∧
            Code.halted (((anchorInit simNand).run unformatted).exec (faultyMachine simNand)
              state') = some .assertion)) = true := by
    set_option maxRecDepth 100000 in decide +kernel
  obtain ⟨_, ram, state, formatted, updates⟩ := Code.returns_iff.mp run
  obtain ⟨_, ram', state', updated, facts⟩ := Code.returns_iff.mp updates
  obtain ⟨rfl, rfl, last, halts⟩ := of_decide_eq_true facts
  have stops := Code.halted_eq_some.mp halts
  refine ⟨ram', state', (AnchorRun.format (formatReady_blankDevice _ _) formatted).update updated,
    last, stops, ?_⟩
  rintro ⟨status, ram, after, block, page, table, returns, _⟩
  rw [stops] at returns
  cases returns

/-- The erases and the program of a format, and an update of which the first program and
the erase of the previous block fail. -/
def failsAround : List Outcome :=
  List.replicate 7 .done ++ [tornProgram, .done, .done, .failed fun _ => true]

/-- The update has moved on to block 2, the anchor of the format is still in block 1, and
the last anchor is restored. -/
theorem anchorRun_restores_failsAround : ∃ ram state, AnchorRun simNand 4 ram state ∧
    (holders simNand state.nand).map (fun found => (found.1, found.2.2.previousAnchorBlock)) =
      [(1, invalidBlock), (2, 1)] ∧ LastRecoverable simNand state ∧
      InitRestores simNand (SameButLogged simNand state) unformatted state := by
  have run : Code.returns (((anchorFormat simNand 4 989).run unformatted).exec
      (faultyMachine simNand) (blankDevice failsAround)) (fun status ram state =>
        Code.returns (((anchorUpdate simNand 4).run ram).exec (faultyMachine simNand) state)
          fun status' ram' state' => decide (status = .success ∧ status' = .success ∧
            ram'.anchorBlock = 2 ∧ (holders simNand state'.nand).map
              (fun found => (found.1, found.2.2.previousAnchorBlock)) =
                [(1, invalidBlock), (2, 1)])) = true := by
    set_option maxRecDepth 100000 in decide +kernel
  obtain ⟨_, ram, state, formatted, updates⟩ := Code.returns_iff.mp run
  obtain ⟨_, ram', state', updated, facts⟩ := Code.returns_iff.mp updates
  obtain ⟨rfl, rfl, place, held⟩ := of_decide_eq_true facts
  have reached := (AnchorRun.format (formatReady_blankDevice _ _) formatted).update updated
  obtain ⟨page, table, _, last⟩ := (reached.running (by decide)).place
  obtain ⟨first, _, shape, isFirst, tail⟩ := List.map_eq_cons_iff.mp held
  obtain ⟨second, rfl, isSecond⟩ := List.map_eq_singleton_iff.mp tail
  obtain ⟨firstBlock, firstLink⟩ := Prod.mk.inj isFirst
  obtain ⟨secondBlock, secondLink⟩ := Prod.mk.inj isSecond
  have recoverable : AnchorRecoverable simNand state'.nand ram'.anchorBlock := by
    refine .inr ⟨first, second.2, [], ?_, ?_, ?_⟩
    · rw [shape, place, ← secondBlock]
    · rw [secondLink, firstBlock]
    · rw [firstLink, place]
      decide
  have lastRecoverable : LastRecoverable simNand state' :=
    ⟨_, page, table, last.last, recoverable⟩
  exact ⟨ram', state', reached, held, lastRecoverable,
    (anchorRun_restores_iff (by decide) reached unformatted).mpr lastRecoverable⟩

end OpenNfm
