import OpenNfm.Mtd.Rules
import OpenNfm.Ubi.Tables

/-!
# Blocks as logs of tables

A block that holds tables is programmed from its first page on, each page with
a footprint, and only the newest table counts.  `TableLog` states this of the
flash; `tableRead` finds the newest table, and `tableWrite` appends one.
-/

namespace OpenNfm

open OpenNfm.Program

variable {g : Geometry} {D : Type}

/-! ## Logs on the flash -/

/-- The page as `tableWrite` programs it. -/
def tablePage (table : UbiBuffer D) : Page (UbiBuffer D) :=
  ⟨table, ⟨0, 0⟩⟩

/-- Nothing is programmed in the block. -/
def Nand.Blank {B : Type} (nand : Nand B) (block : Nat) : Prop :=
  ∀ page, nand block page = none

theorem Nand.blank_erase {B : Type} (nand : Nand B) (block : Nat) :
    (nand.erase block).Blank block :=
  fun page => nand.erase_same block page

/-- The first `count` pages of the block hold tables and the others are
blank. -/
structure Tables (nand : Nand (UbiBuffer D)) (block count : Nat) : Prop where
  written : ∀ page < count, ∃ table, nand block page = some (tablePage table)
  blank : ∀ page, count ≤ page → nand block page = none

/-- The block holds `next` tables, of which `newest` is the last one. -/
structure TableLog (g : Geometry) (nand : Nand (UbiBuffer D)) (block next : Nat)
    (newest : UbiBuffer D) : Prop where
  inRange : block < g.cfgLogBlockCount
  pos : 0 < next
  le : next ≤ g.pagePerPhyBlock
  tables : Tables nand block next
  last : nand block (next - 1) = some (tablePage newest)

theorem Tables.ofBlank {nand : Nand (UbiBuffer D)} {block : Nat} (blank : nand.Blank block) :
    Tables nand block 0 :=
  ⟨fun _ impossible => absurd impossible (Nat.not_lt_zero _), fun page _ => blank page⟩

theorem Tables.program {nand : Nand (UbiBuffer D)} {block count : Nat}
    (tables : Tables nand block count) (table : UbiBuffer D) :
    Tables (nand.program block count (tablePage table)) block (count + 1) where
  written page inside := by
    by_cases same : page = count
    · exact ⟨table, by rw [same, Nand.program_same]⟩
    · rw [Nand.program_otherPage nand block _ same]
      exact tables.written page (by omega)
  blank page outside := by
    rw [Nand.program_otherPage nand block _ (by omega)]
    exact tables.blank page (by omega)

/-- Programming the first page of a blank block starts a log. -/
theorem TableLog.start {nand : Nand (UbiBuffer D)} {block : Nat}
    (inRange : block < g.cfgLogBlockCount) (blank : nand.Blank block) (table : UbiBuffer D) :
    TableLog g (nand.program block 0 (tablePage table)) block 1 table where
  inRange := inRange
  pos := Nat.one_pos
  le := g.pagePerPhyBlock_pos
  tables := (Tables.ofBlank blank).program table
  last := Nand.program_same nand block 0 _

/-- Programming the next page appends to a log. -/
theorem TableLog.append {nand : Nand (UbiBuffer D)} {block next : Nat}
    {newest : UbiBuffer D} (log : TableLog g nand block next newest)
    (room : next < g.pagePerPhyBlock) (table : UbiBuffer D) :
    TableLog g (nand.program block next (tablePage table)) block (next + 1) table where
  inRange := log.inRange
  pos := Nat.succ_pos next
  le := room
  tables := log.tables.program table
  last := Nand.program_same nand block next _

/-- A log depends only on the flash of its own block. -/
theorem TableLog.frame {nand nand' : Nand (UbiBuffer D)} {block next : Nat}
    {newest : UbiBuffer D} (log : TableLog g nand block next newest)
    (same : nand' block = nand block) : TableLog g nand' block next newest where
  inRange := log.inRange
  pos := log.pos
  le := log.le
  tables := ⟨fun page inside => same ▸ log.tables.written page inside,
    fun page outside => same ▸ log.tables.blank page outside⟩
  last := same ▸ log.last

theorem TableLog.nextBlank {nand : Nand (UbiBuffer D)} {block next : Nat}
    {newest : UbiBuffer D} (log : TableLog g nand block next newest) :
    nand block next = none :=
  log.tables.blank next le_rfl

theorem TableLog.firstProgrammed {nand : Nand (UbiBuffer D)} {block next : Nat}
    {newest : UbiBuffer D} (log : TableLog g nand block next newest) :
    nand block 0 ≠ none := by
  obtain ⟨table, holds⟩ := log.tables.written 0 log.pos
  simp [holds]

/-! ## Reading and writing a log -/

section Specs

variable {R : Type} {crash : Ideal (UbiBuffer D) → Prop} {ram : UbiRam D}
  {state : Ideal (UbiBuffer D)} {block : Nat}

theorem wp_tableWrite {page : Nat} {table : UbiBuffer D}
    {post : Status → UbiRam D → Ideal (UbiBuffer D) → Prop}
    (inRange : g.HasPage block page) (blank : state.nand block page = none) :
    Code.wp (idealMachine g) crash (tableWrite block page table) post ram state ↔
      crash state ∧ crash (state.program block page (tablePage table)) ∧
        post .success ram (state.program block page (tablePage table)) := by
  unfold tableWrite
  rw [Code.wp_bind, wp_mtdProgram inRange blank]
  simp only [if_true, Option.getD_some]
  rw [wp_mtdWaitReady inRange.1]
  simp [tablePage]

theorem Tables.answer_of_lt {nand : Nand (UbiBuffer D)} {count : Nat}
    (tables : Tables nand block count) {page : Nat} (inside : page < count) :
    (nand.answer block page).status = .success ∧
      (nand.answer block page).spare.first ≠ allOnes := by
  obtain ⟨table, holds⟩ := tables.written page inside
  simp [Nand.answer, holds, tablePage, allOnes]

theorem Tables.answer_of_le {nand : Nand (UbiBuffer D)} {count : Nat}
    (tables : Tables nand block count) {page : Nat} (outside : count ≤ page) :
    nand.answer block page = ⟨.failure, .ones, .ones⟩ := by
  simp [Nand.answer, tables.blank page outside, PageContent.ones]

/-- The answer shows a table. -/
def ReadAnswer.ShowsTable {B : Type} (answer : ReadAnswer B) : Prop :=
  answer.status = .success ∧ answer.spare.first ≠ allOnes

/-- What the search needs of a device, whatever else its reads change: exactly the first
`count` pages of the block show a table. -/
def Searchable {E : Type} (g : Geometry)
    (machine : Machine (MtdOp (UbiBuffer D)) (MtdAns (UbiBuffer D)) E) (kept : E → Prop)
    (block count : Nat) : Prop :=
  ∀ state, kept state → ∀ page < g.pagePerPhyBlock, ∃ answer after,
    machine state (.read block page) = .ok (answer, after) ∧ kept after ∧
      (answer.ShowsTable ↔ page < count)

/-- The search ends at the last page that shows a table, and at the first page if none does. -/
theorem Searchable.wp_tableSearch {E : Type} {kept crash : E → Prop} {state : E}
    {machine : Machine (MtdOp (UbiBuffer D)) (MtdAns (UbiBuffer D)) E}
    {count rounds head tail : Nat} {post : Nat → UbiRam D → E → Prop}
    (searchable : Searchable g machine kept block count)
    (ordered : head < tail) (tailLe : tail ≤ g.pagePerPhyBlock)
    (countLe : count ≤ tail) (headLt : head = 0 ∨ head < count)
    (enough : tail - head ≤ rounds) (safe : ∀ after, kept after → crash after)
    (here : kept state) (meets : ∀ after, kept after → post (count - 1) ram after) :
    Code.wp machine crash (tableSearch block rounds head tail) post ram state := by
  induction rounds generalizing head tail state with
  | zero => omega
  | succ rounds ih =>
      unfold tableSearch
      by_cases inner : (head + tail) / 2 ≠ head ∧ (head + tail) / 2 ≠ tail
      · have midLt : (head + tail) / 2 < g.pagePerPhyBlock := by omega
        obtain ⟨answer, after, step, still, shows⟩ := searchable state here _ midLt
        simp only [inner, if_true, ne_eq, not_false_eq_true, and_self]
        rw [Code.wp_bind, mtdRead, Code.wp_perform_of_step step, Code.wp_ite]
        refine ⟨safe state here, safe after still, ?_⟩
        by_cases inside : (head + tail) / 2 < count
        · have isTable : answer.status = .success ∧ ¬answer.spare.first = allOnes :=
            shows.mpr inside
          rw [if_pos isTable]
          exact ih (by omega) tailLe countLe (.inr inside) (by omega) still
        · have noTable : ¬(answer.status = .success ∧ ¬answer.spare.first = allOnes) :=
            fun isTable => inside (shows.mp isTable)
          rw [if_neg noTable]
          exact ih (by omega) (by omega) (by omega) headLt (by omega) still
      · simp only [inner, if_false]
        rw [Code.wp_bind, Code.wp_assert, Code.wp_pure]
        have last : (head + tail) / 2 = count - 1 := by omega
        exact ⟨by omega, safe state here, safe state here, last ▸ meets state here⟩

theorem Tables.searchable {count : Nat} (tables : Tables state.nand block count)
    (inRange : block < g.cfgLogBlockCount) :
    Searchable g (idealMachine g) (· = state) block count := by
  rintro _ rfl page isPage
  refine ⟨_, _, if_pos ⟨inRange, isPage⟩, rfl, fun shows => ?_, tables.answer_of_lt⟩
  by_contra outside
  rw [tables.answer_of_le (Nat.le_of_not_lt outside)] at shows
  exact Status.noConfusion shows.1

/-- The search ends at the last programmed page. -/
theorem wp_tableSearch {count rounds head tail : Nat}
    {post : Nat → UbiRam D → Ideal (UbiBuffer D) → Prop}
    (tables : Tables state.nand block count) (inRange : block < g.cfgLogBlockCount)
    (ordered : head < tail) (tailLe : tail ≤ g.pagePerPhyBlock)
    (countLe : count ≤ tail) (headLt : head = 0 ∨ head < count)
    (enough : tail - head ≤ rounds)
    (safe : crash state) (meets : post (count - 1) ram state) :
    Code.wp (idealMachine g) crash (tableSearch block rounds head tail) post ram state := by
  refine (tables.searchable inRange).wp_tableSearch ordered tailLe countLe headLt enough ?_ rfl ?_
  · rintro _ rfl
    exact safe
  · rintro _ rfl
    exact meets

/-- Reading the newest table of a log, found by the search or at the page that
the caller knows. -/
theorem wp_tableRead {next page : Nat} {newest : UbiBuffer D}
    {post : Status × Nat × UbiBuffer D → UbiRam D → Ideal (UbiBuffer D) → Prop}
    (log : TableLog g state.nand block next newest)
    (asked : page = invalidPage ∨ page = next - 1)
    (safe : crash state) (meets : post (.success, next - 1, newest) ram state) :
    Code.wp (idealMachine g) crash (tableRead g block page) post ram state := by
  have lastRange : g.HasPage block (next - 1) :=
    ⟨log.inRange, by have := log.pos; have := log.le; omega⟩
  have answer : state.nand.answer block (next - 1) = ⟨.success, newest, ⟨0, 0⟩⟩ := by
    simp [Nand.answer, log.last, tablePage]
  have finish : ∀ mid, mid = next - 1 →
      Code.wp (idealMachine g) crash (do
        let answer ← mtdRead block mid
        if answer.status = .success then
          if answer.spare.first = allOnes then
            pure (Status.failure, invalidPage, answer.main)
          else pure (.success, mid, answer.main)
        else pure (answer.status, invalidPage, answer.main)) post ram state := by
    rintro mid rfl
    rw [Code.wp_bind, wp_mtdRead lastRange, answer]
    simp only [if_true, if_neg (show (0 : Nat) ≠ allOnes by decide)]
    rw [Code.wp_pure]
    exact ⟨safe, safe, meets⟩
  by_cases search : page = invalidPage
  · simp only [tableRead, search, ne_eq, not_true_eq_false, if_false]
    rw [Code.wp_bind]
    exact wp_tableSearch log.tables log.inRange g.pagePerPhyBlock_pos le_rfl log.le
      (.inl rfl) (by omega) safe (finish _ rfl)
  · have known : page = next - 1 := asked.resolve_left search
    simp only [tableRead, ne_eq, search, not_false_eq_true, if_true]
    rw [Code.wp_bind]
    unfold tableSearch
    simp only [ne_eq, show (page + page) / 2 = page by omega, not_true_eq_false, and_self,
      if_false]
    rw [Code.wp_bind, Code.wp_assert, Code.wp_pure]
    exact ⟨.inl rfl, safe, safe, finish _ known⟩

/-- Reading a block whose first page is blank. -/
theorem wp_tableRead_blank {page : Nat}
    {post : Status × Nat × UbiBuffer D → UbiRam D → Ideal (UbiBuffer D) → Prop}
    (inRange : block < g.cfgLogBlockCount)
    (blank : state.nand block 0 = none)
    (asked : page = 0 ∨ page = invalidPage ∧ state.nand.Blank block)
    (safe : crash state) (meets : post (.failure, invalidPage, .ones) ram state) :
    Code.wp (idealMachine g) crash (tableRead g block page) post ram state := by
  have firstRange : g.HasPage block 0 := ⟨inRange, g.pagePerPhyBlock_pos⟩
  have answer : state.nand.answer block 0 = ⟨.failure, .ones, .ones⟩ := by
    simp [Nand.answer, blank, PageContent.ones]
  have finish : ∀ mid, mid = 0 →
      Code.wp (idealMachine g) crash (do
        let answer ← mtdRead block mid
        if answer.status = .success then
          if answer.spare.first = allOnes then
            pure (Status.failure, invalidPage, answer.main)
          else pure (.success, mid, answer.main)
        else pure (answer.status, invalidPage, answer.main)) post ram state := by
    rintro mid rfl
    rw [Code.wp_bind, wp_mtdRead firstRange, answer]
    simp only [reduceCtorEq, if_false]
    rw [Code.wp_pure]
    exact ⟨safe, safe, meets⟩
  rcases asked with rfl | ⟨rfl, allBlank⟩
  · simp only [tableRead, if_pos (show (0 : Nat) ≠ invalidPage by decide)]
    rw [Code.wp_bind]
    unfold tableSearch
    simp only [ne_eq, Nat.add_zero, Nat.zero_div, not_true_eq_false, and_self, if_false]
    rw [Code.wp_bind, Code.wp_assert, Code.wp_pure]
    exact ⟨.inl rfl, safe, safe, finish _ rfl⟩
  · simp only [tableRead, ne_eq, not_true_eq_false, if_false]
    rw [Code.wp_bind]
    exact wp_tableSearch (Tables.ofBlank allBlank) inRange g.pagePerPhyBlock_pos le_rfl
      (Nat.zero_le _) (.inl rfl) (by omega) safe (finish _ rfl)

/-- Reading the first page of a log. -/
theorem wp_tableRead_first {count : Nat}
    {post : Status × Nat × UbiBuffer D → UbiRam D → Ideal (UbiBuffer D) → Prop}
    (inRange : block < g.cfgLogBlockCount)
    (tables : Tables state.nand block count) (pos : 0 < count)
    (safe : crash state) (meets : ∀ table, post (.success, 0, table) ram state) :
    Code.wp (idealMachine g) crash (tableRead g block 0) post ram state := by
  obtain ⟨table, holds⟩ := tables.written 0 pos
  have answer : state.nand.answer block 0 = ⟨.success, table, ⟨0, 0⟩⟩ := by
    simp [Nand.answer, holds, tablePage]
  simp only [tableRead, if_pos (show (0 : Nat) ≠ invalidPage by decide)]
  rw [Code.wp_bind]
  unfold tableSearch
  simp only [ne_eq, Nat.add_zero, Nat.zero_div, not_true_eq_false, and_self, if_false]
  rw [Code.wp_bind, Code.wp_assert, Code.wp_pure, Code.wp_bind,
    wp_mtdRead ⟨inRange, g.pagePerPhyBlock_pos⟩, answer]
  simp only [if_true, if_neg (show (0 : Nat) ≠ allOnes by decide)]
  rw [Code.wp_pure]
  exact ⟨.inl trivial, safe, safe, safe, safe, meets table⟩

end Specs

end OpenNfm
