import OpenNfm.Ubi.TableLog

/-!
# Looking up the newest table

`TABLE_Read` searches a block for its last table, or reads the page that its caller knows.
Behind the tables a page may be erased, or unreadable because the power failed while it was
written, and two reads of it need not agree.  The device of this file answers such reads by
an oracle.
-/

namespace OpenNfm

open OpenNfm.Program

section TableLookup

variable {g : Geometry} {D : Type}

/-! ## A device with unreadable pages -/

/-- An answer to the read of a page without a table: the read fails, or the footprint is all
ones. -/
structure NoTable (D : Type) where
  answer : ReadAnswer (UbiBuffer D)
  noFootprint : answer.status ≠ .success ∨ answer.spare.first = allOnes

/-- The answers to the reads of pages that are not programmed: by the number of reads before,
the block and the page. -/
abbrev NoTables (D : Type) := Nat → Nat → Nat → NoTable D

/-- An array whose reads fail in turn, with the number of reads. -/
structure Decayed (D : Type) where
  nand : Nand (UbiBuffer D)
  reads : Nat

/-- The answer to a read when so many reads came before. -/
def Decayed.answer (noTables : NoTables D) (state : Decayed D) (block page : Nat) :
    ReadAnswer (UbiBuffer D) :=
  match state.nand block page with
  | some content => ⟨.success, content.main, content.spare⟩
  | none => (noTables state.reads block page).answer

theorem Decayed.answer_of_some {noTables : NoTables D} {state : Decayed D} {block page : Nat}
    {content : Page (UbiBuffer D)} (programmed : state.nand block page = some content) :
    state.answer noTables block page = ⟨.success, content.main, content.spare⟩ := by
  rw [answer, programmed]

theorem Decayed.answer_of_none {noTables : NoTables D} {state : Decayed D} {block page : Nat}
    (blank : state.nand block page = none) :
    state.answer noTables block page = (noTables state.reads block page).answer := by
  rw [answer, blank]

theorem NoTable.not_showsTable (noTable : NoTable D) : ¬ noTable.answer.ShowsTable :=
  fun shows => noTable.noFootprint.elim (absurd shows.1) shows.2

/-- The device whose pages answer a read as they were programmed, and by the oracle when they
were not. -/
def decayedMachine (g : Geometry) (noTables : NoTables D) :
    Machine (MtdOp (UbiBuffer D)) (MtdAns (UbiBuffer D)) (Decayed D)
  | state, .read block page =>
      if block < g.cfgLogBlockCount ∧ page < g.pagePerPhyBlock then
        .ok (state.answer noTables block page, { state with reads := state.reads + 1 })
      else .error .assertion
  | state, .program block page main spare =>
      if block < g.cfgLogBlockCount ∧ page < g.pagePerPhyBlock ∧
          (state.nand block page).isNone then
        .ok (.success,
          { state with nand := state.nand.program block page ⟨main, spare.getD .ones⟩ })
      else .error .assertion
  | state, .erase block =>
      if block < g.cfgLogBlockCount then
        .ok (.success, { state with nand := state.nand.erase block })
      else .error .assertion
  | state, .waitReady block =>
      if block < g.cfgLogBlockCount then .ok (.success, state) else .error .assertion
  | state, .readStatus block =>
      if block < g.cfgLogBlockCount then .ok (.success, state) else .error .assertion
  | state, .checkBlock block =>
      if block < g.cfgLogBlockCount then .ok (.success, state) else .error .assertion
  | state, .bufFree _ => .ok ((), state)

/-- A block whose first pages were written by `TABLE_Write`, one after the other.  In between,
anything may happen that leaves the block alone. -/
inductive WrittenTables (g : Geometry) (noTables : NoTables D) (block : Nat) :
    List (UbiBuffer D) → UbiRam D → Decayed D → Prop
  | erased {ram : UbiRam D} {state : Decayed D} (inRange : block < g.cfgLogBlockCount)
      (blank : state.nand.Blank block) : WrittenTables g noTables block [] ram state
  | write {tables : List (UbiBuffer D)} {table : UbiBuffer D} {ram ram' : UbiRam D}
      {state after : Decayed D} (before : WrittenTables g noTables block tables ram state)
      (run : ((tableWrite block tables.length table).run ram).exec (decayedMachine g noTables)
        state = .ok ((.success, ram'), after)) :
      WrittenTables g noTables block (tables ++ [table]) ram' after
  | other {tables : List (UbiBuffer D)} {ram ram' : UbiRam D} {state after : Decayed D}
      (before : WrittenTables g noTables block tables ram state)
      (same : after.nand block = state.nand block) :
      WrittenTables g noTables block tables ram' after

/-! ## What is in a written block -/

/-- The block holds the tables in its first pages, and nothing behind them. -/
structure HoldsTables (g : Geometry) (nand : Nand (UbiBuffer D)) (block : Nat)
    (tables : List (UbiBuffer D)) : Prop where
  inRange : block < g.cfgLogBlockCount
  fits : tables.length ≤ g.pagePerPhyBlock
  page : ∀ page, nand block page = tables[page]?.map tablePage

theorem exec_tableWrite {noTables : NoTables D} {block page : Nat} {table : UbiBuffer D}
    {ram ram' : UbiRam D} {state after : Decayed D}
    (run : ((tableWrite block page table).run ram).exec (decayedMachine g noTables) state =
      .ok ((.success, ram'), after)) :
    page < g.pagePerPhyBlock ∧
      after.nand = state.nand.program block page (tablePage table) := by
  unfold tableWrite at run
  obtain ⟨ret, ram₁, middle, programmed, waited⟩ := Code.exec_bind_eq_ok.mp run
  by_cases accepted : block < g.cfgLogBlockCount ∧ page < g.pagePerPhyBlock ∧
      (state.nand block page).isNone
  · have step : decayedMachine g noTables state (.program block page table (some ⟨0, 0⟩)) =
        .ok (.success,
          { state with nand := state.nand.program block page (tablePage table) }) :=
      if_pos accepted
    rw [mtdProgram, Code.exec_perform step] at programmed
    cases programmed
    have ready : decayedMachine g noTables
        { state with nand := state.nand.program block page (tablePage table) }
        (.waitReady block) = .ok (.success, _) := if_pos accepted.1
    rw [if_pos rfl, mtdWaitReady, Code.exec_perform ready] at waited
    cases waited
    exact ⟨accepted.2.1, rfl⟩
  · have step : decayedMachine g noTables state (.program block page table (some ⟨0, 0⟩)) =
        .error .assertion := if_neg accepted
    have refused : ((mtdProgram block page table (some ⟨0, 0⟩) :
        Ubi D Status).run ram).exec (decayedMachine g noTables) state = .error .assertion := by
      show (Prog.call _ _).exec _ _ = _
      simp only [Prog.exec, step]
    rw [refused] at programmed
    cases programmed

theorem WrittenTables.holds {noTables : NoTables D} {block : Nat} {tables : List (UbiBuffer D)}
    {ram : UbiRam D} {state : Decayed D}
    (written : WrittenTables g noTables block tables ram state) :
    HoldsTables g state.nand block tables := by
  induction written with
  | erased inRange blank =>
      exact ⟨inRange, Nat.zero_le _, fun page => by rw [blank page]; rfl⟩
  | @write tables table ram ram' state after before run ih =>
      obtain ⟨room, programmed⟩ := exec_tableWrite run
      refine ⟨ih.inRange, by rw [List.length_append]; exact room, fun page => ?_⟩
      rw [programmed]
      by_cases last : page = tables.length
      · rw [last, Nand.program_same, List.getElem?_concat_length]
        rfl
      · rw [Nand.program_otherPage _ _ _ last, ih.page]
        rcases Nat.lt_or_gt_of_ne last with inside | outside
        · rw [List.getElem?_append_left inside]
        · rw [List.getElem?_eq_none (Nat.le_of_lt outside), List.getElem?_eq_none]
          rw [List.length_append]
          exact outside
  | other before same ih => exact ⟨ih.inRange, ih.fits, fun page => same ▸ ih.page page⟩

theorem showsTable_tablePage {table : UbiBuffer D} :
    (⟨.success, (tablePage table).main, (tablePage table).spare⟩ :
      ReadAnswer (UbiBuffer D)).ShowsTable :=
  ⟨rfl, (show (0 : Nat) ≠ allOnes by decide)⟩

/-- On this device the search finds the last table, whatever the other pages answer. -/
theorem HoldsTables.searchable {noTables : NoTables D} {nand : Nand (UbiBuffer D)} {block : Nat}
    {tables : List (UbiBuffer D)} (holds : HoldsTables g nand block tables) :
    Searchable g (decayedMachine g noTables) (fun state => state.nand = nand) block
      tables.length := by
  rintro state rfl page isPage
  refine ⟨_, _, if_pos ⟨holds.inRange, isPage⟩, rfl, ?_⟩
  have content := holds.page page
  by_cases inside : page < tables.length
  · rw [List.getElem?_eq_getElem inside] at content
    rw [Decayed.answer_of_some content]
    exact iff_of_true showsTable_tablePage inside
  · rw [List.getElem?_eq_none (Nat.le_of_not_lt inside)] at content
    rw [Decayed.answer_of_none content]
    exact iff_of_false (noTables state.reads block page).not_showsTable inside

/-! ## The lookup -/

/-- What `TABLE_Read` hands back for the answer of the page that it reads. -/
def tableAnswer (page : Nat) (answer : ReadAnswer (UbiBuffer D)) :
    Status × Nat × UbiBuffer D :=
  if answer.status = .success then
    if answer.spare.first = allOnes then (.failure, invalidPage, answer.main)
    else (.success, page, answer.main)
  else (answer.status, invalidPage, answer.main)

theorem tableAnswer_of_showsTable {page : Nat} {answer : ReadAnswer (UbiBuffer D)}
    (shows : answer.ShowsTable) : tableAnswer page answer = (.success, page, answer.main) := by
  rw [tableAnswer, if_pos shows.1, if_neg shows.2]

theorem tableAnswer_of_noTable (page : Nat) {answer : ReadAnswer (UbiBuffer D)}
    (noTable : ¬ answer.ShowsTable) : ∃ ret, ret ≠ .success ∧
      tableAnswer page answer = (ret, invalidPage, answer.main) := by
  unfold tableAnswer
  split
  · rename_i read
    split
    · exact ⟨.failure, Status.noConfusion, rfl⟩
    · rename_i footprint
      exact absurd ⟨read, footprint⟩ noTable
  · rename_i failed
    exact ⟨answer.status, failed, rfl⟩

theorem tableRead_eq (block page : Nat) :
    (tableRead g block page : Ubi D (Status × Nat × UbiBuffer D)) =
      ((if page ≠ invalidPage then tableSearch block 1 page page
        else tableSearch block (g.pagePerPhyBlock + 1) 0 g.pagePerPhyBlock) >>= fun mid =>
          mtdRead block mid >>= fun answer => pure (tableAnswer mid answer)) := by
  have last : ∀ mid, (mtdRead block mid >>= fun answer =>
      if answer.status = .success then
        if answer.spare.first = allOnes then pure (.failure, invalidPage, answer.main)
        else pure (.success, mid, answer.main)
      else pure (answer.status, invalidPage, answer.main) : Ubi D _) =
      mtdRead block mid >>= fun answer => pure (tableAnswer mid answer) := by
    refine fun mid => congrArg _ (funext fun answer => ?_)
    unfold tableAnswer
    split
    · split <;> rfl
    · rfl
  unfold tableRead
  by_cases known : page ≠ invalidPage
  · simp only [if_pos known, last]
  · simp only [if_neg known, last]

/-- A page that the caller knows is read, and no other. -/
theorem tableRead_known {block page : Nat} (known : page ≠ invalidPage) (ram : UbiRam D) :
    (tableRead g block page).run ram =
      .call (.read block page) fun answer => .ret (tableAnswer page answer, ram) := by
  have middle : (page + page) / 2 = page := by omega
  have search : (tableSearch block 1 page page : Ubi D Nat) = pure page := by
    unfold tableSearch
    simp only [middle, ne_eq, not_true_eq_false, and_self, if_false, Code.assert, true_or, if_true]
    rfl
  rw [tableRead_eq, if_pos known, search]
  rfl

/-- The search reads the page of the last table, or the first page of a block without one. -/
theorem HoldsTables.exec_tableRead (noTables : NoTables D) {block : Nat}
    {tables : List (UbiBuffer D)} {state : Decayed D}
    (holds : HoldsTables g state.nand block tables) (ram : UbiRam D) :
    ∃ before after : Decayed D, before.nand = state.nand ∧
      ((tableRead g block invalidPage).run ram).exec (decayedMachine g noTables) state =
        .ok ((tableAnswer (tables.length - 1)
          (before.answer noTables block (tables.length - 1)), ram), after) := by
  have isPage : tables.length - 1 < g.pagePerPhyBlock := by
    have := holds.fits
    have := g.pagePerPhyBlock_pos
    omega
  have run : Code.wp (decayedMachine g noTables) (fun _ => True) (tableRead g block invalidPage)
      (fun result ram' _ => ram' = ram ∧ ∃ before : Decayed D, before.nand = state.nand ∧
        result = tableAnswer (tables.length - 1)
          (before.answer noTables block (tables.length - 1))) ram state := by
    rw [tableRead_eq, if_neg (not_not.mpr rfl), Code.wp_bind]
    refine holds.searchable.wp_tableSearch g.pagePerPhyBlock_pos le_rfl holds.fits (.inl rfl)
      (by omega) (fun _ _ => trivial) rfl fun after same => ?_
    have step : decayedMachine g noTables after (.read block (tables.length - 1)) =
        .ok (after.answer noTables block (tables.length - 1), _) := if_pos ⟨holds.inRange, isPage⟩
    rw [Code.wp_bind, mtdRead, Code.wp_perform_of_step step, Code.wp_pure]
    exact ⟨trivial, trivial, trivial, rfl, after, same, rfl⟩
  obtain ⟨⟨result, ram'⟩, after, run, rfl, before, same, rfl⟩ := Prog.exec_of_wp run
  exact ⟨before, after, same, run⟩

/-- Behind any number of tables that were written to the pages of a block from its first on,
the search returns the last of them and its page, an error if there is none, and a known page
is read as it is. -/
theorem tableRead_findsNewest {noTables : NoTables D} {block : Nat} {tables : List (UbiBuffer D)}
    {ram : UbiRam D} {state : Decayed D}
    (written : WrittenTables g noTables block tables ram state) :
    (∀ newest, tables.getLast? = some newest → ∃ after,
      ((tableRead g block invalidPage).run ram).exec (decayedMachine g noTables) state =
        .ok (((.success, tables.length - 1, newest), ram), after)) ∧
    (tables = [] → ∃ ret buffer after,
      ((tableRead g block invalidPage).run ram).exec (decayedMachine g noTables) state =
        .ok (((ret, invalidPage, buffer), ram), after) ∧ ret ≠ .success) ∧
    ∀ page, page ≠ invalidPage → (tableRead g block page).run ram =
      .call (.read block page) fun answer => .ret (tableAnswer page answer, ram) := by
  have holds := written.holds
  obtain ⟨before, after, same, run⟩ := holds.exec_tableRead noTables ram
  refine ⟨fun newest last => ?_, fun empty => ?_, fun page known => tableRead_known known ram⟩
  · have content : before.nand block (tables.length - 1) = some (tablePage newest) := by
      rw [same, holds.page, ← List.getLast?_eq_getElem?, last]
      rfl
    rw [Decayed.answer_of_some content, tableAnswer_of_showsTable showsTable_tablePage] at run
    exact ⟨after, run⟩
  · have blank : before.nand block (tables.length - 1) = none := by
      rw [same, holds.page, empty]
      rfl
    rw [Decayed.answer_of_none blank] at run
    obtain ⟨ret, failed, answer⟩ := tableAnswer_of_noTable (tables.length - 1)
      (noTables before.reads block (tables.length - 1)).not_showsTable
    exact ⟨ret, _, after, answer ▸ run, failed⟩

/-- Behind the tables, every other read fails and the others find an empty page. -/
def everyOtherFails (D : Type) : NoTables D := fun reads _ _ =>
  if reads % 2 = 0 then ⟨⟨.failure, .ones, ⟨0, 0⟩⟩, .inl Status.noConfusion⟩
  else ⟨⟨.success, .ones, .ones⟩, .inr rfl⟩

/-- Two tables in block 7 of the simulated device. -/
theorem tableRead_findsNewest_simNand :
    ∃ (ram : UbiRam Nat) (state : Decayed Nat),
      WrittenTables simNand (everyOtherFails Nat) 7 [.data 1, .data 2] ram state ∧ ∃ after,
        ((tableRead simNand 7 invalidPage).run ram).exec
          (decayedMachine simNand (everyOtherFails Nat)) state =
            .ok (((.success, 1, .data 2), ram), after) := by
  have erased :
      WrittenTables simNand (everyOtherFails Nat) 7 [] (.reset Nat) ⟨fun _ _ => none, 0⟩ :=
    .erased (by decide) fun _ => rfl
  have written : WrittenTables simNand (everyOtherFails Nat) 7 [.data 1, .data 2] _ _ :=
    (erased.write rfl).write rfl
  exact ⟨_, _, written, (tableRead_findsNewest written).1 (.data 2) rfl⟩

end TableLookup

end OpenNfm
