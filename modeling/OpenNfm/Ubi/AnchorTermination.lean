import OpenNfm.Mtd.Answers
import OpenNfm.Ubi.AnchorExhausted

/-!
# Does an anchor update return?

`ANCHOR_Update` on a device that answers each program and erase as it likes.  A block whose
erase fails is entered in the bad block table, one whose program fails is not; so the
update goes on as long as programs fail and the erases of the ring do not.
-/

namespace OpenNfm

open OpenNfm.Program

variable {g : Geometry} {D : Type} {answers : Answers}

/-! ## The blocks that a search can try -/

/-- The blocks of the ring that are not listed bad. -/
def unlistedRing (g : Geometry) (table : Nat → Nat) : Finset Nat :=
  g.ringBlocks.toFinset.filter fun block => isBadBlock g table block = false

/-- The unlisted blocks that a search passes between a block and the current one. -/
def unlistedAhead (g : Geometry) (table : Nat → Nat) (current block : Nat) : Finset Nat :=
  (unlistedRing g table).filter fun other =>
    other ≠ current ∧ ringDistance g current other < ringDistance g current block

theorem mem_unlistedRing {table : Nat → Nat} {block : Nat} :
    block ∈ unlistedRing g table ↔ g.InRing block ∧ isBadBlock g table block = false := by
  rw [unlistedRing, Finset.mem_filter, List.mem_toFinset, mem_ringBlocks]

theorem mem_unlistedAhead {table : Nat → Nat} {current block other : Nat} :
    other ∈ unlistedAhead g table current block ↔
      (g.InRing other ∧ isBadBlock g table other = false) ∧ other ≠ current ∧
        ringDistance g current other < ringDistance g current block := by
  rw [unlistedAhead, Finset.mem_filter, mem_unlistedRing]

/-- From the current block on, the search passes all others. -/
theorem unlistedAhead_self {table : Nat → Nat} {current : Nat} (inRing : g.InRing current) :
    unlistedAhead g table current current = (unlistedRing g table).erase current := by
  ext other
  rw [mem_unlistedAhead, Finset.mem_erase, mem_unlistedRing]
  refine ⟨fun inside => ⟨inside.2.1, inside.1⟩, fun inside => ⟨inside.2, inside.1, ?_⟩⟩
  have apart := inside.1
  have inRing' := inside.2.1
  rw [inRing_iff] at inRing inRing'
  unfold ringDistance
  unfold Geometry.anchorFirstBlock at inRing inRing'
  split_ifs <;> omega

/-- A step of the search passes one block. -/
theorem mem_unlistedAhead_next {table : Nat → Nat} {current block other : Nat}
    (inRing : g.InRing current) (inRing' : g.InRing block)
    (apart : g.ringNext block ≠ current) :
    other ∈ unlistedAhead g table current block ↔
      other = g.ringNext block ∧ isBadBlock g table other = false ∨
        other ∈ unlistedAhead g table current (g.ringNext block) := by
  have closer := ringDistance_next inRing inRing' apart
  rw [mem_unlistedAhead, mem_unlistedAhead]
  constructor
  · rintro ⟨⟨otherInRing, unlisted⟩, otherApart, ahead⟩
    rcases Nat.lt_succ_iff_lt_or_eq.mp (closer ▸ ahead) with further | here
    · exact .inr ⟨⟨otherInRing, unlisted⟩, otherApart, further⟩
    · exact .inl ⟨ringDistance_inj inRing otherInRing inRing'.next here, unlisted⟩
  · rintro (⟨rfl, unlisted⟩ | ⟨there, otherApart, further⟩)
    · exact ⟨⟨inRing'.next, unlisted⟩, apart, by omega⟩
    · exact ⟨there, otherApart, by omega⟩

/-- Right before the current block nothing is left to pass. -/
theorem unlistedAhead_of_next {table : Nat → Nat} {current block : Nat}
    (inRing : g.InRing current) (inRing' : g.InRing block) (last : g.ringNext block = current) :
    (unlistedAhead g table current block).card = 0 := by
  rw [Finset.card_eq_zero, Finset.eq_empty_iff_forall_notMem]
  intro other inside
  rw [mem_unlistedAhead] at inside
  have pos := ringDistance_pos inside.1.1 inRing
  have near : ringDistance g current block ≤ 1 := by
    have ring := g.anchorLastBlock_eq
    rw [inRing_iff] at inRing inRing'
    unfold Geometry.ringNext at last
    unfold ringDistance
    unfold Geometry.anchorFirstBlock at inRing inRing' last
    split_ifs at last ⊢ <;> omega
  omega

theorem unlistedAhead_next_of_listed {table : Nat → Nat} {current block : Nat}
    (inRing : g.InRing current) (inRing' : g.InRing block) (apart : g.ringNext block ≠ current)
    (listed : isBadBlock g table (g.ringNext block) = true) :
    unlistedAhead g table current block = unlistedAhead g table current (g.ringNext block) := by
  ext other
  rw [mem_unlistedAhead_next inRing inRing' apart]
  refine or_iff_right fun here => ?_
  rw [here.1, listed] at here
  exact absurd here.2.symm Bool.false_ne_true

theorem unlistedAhead_next_of_unlisted {table : Nat → Nat} {current block : Nat}
    (inRing : g.InRing current) (inRing' : g.InRing block) (apart : g.ringNext block ≠ current)
    (unlisted : isBadBlock g table (g.ringNext block) = false) :
    (unlistedAhead g table current block).card =
      (unlistedAhead g table current (g.ringNext block)).card + 1 := by
  rw [← Finset.card_insert_of_notMem (a := g.ringNext block)]
  · congr 1
    ext other
    rw [mem_unlistedAhead_next inRing inRing' apart, Finset.mem_insert]
    refine or_congr_left ⟨And.left, fun here => ⟨here, here ▸ unlisted⟩⟩
  · rw [mem_unlistedAhead]
    exact fun inside => absurd inside.2.2 (Nat.lt_irrefl _)

/-- Logging the block that was passed changes nothing for those ahead. -/
theorem unlistedAhead_log {table : Nat → Nat} {current block : Nat} (supported : g.Supported) :
    unlistedAhead g (logBadBlock g table block) current block =
      unlistedAhead g table current block := by
  ext other
  rw [mem_unlistedAhead, mem_unlistedAhead]
  refine and_congr_left fun further => and_congr_right fun inRing => ?_
  have valid : other ≠ invalidBlock :=
    (Nat.lt_trans (inRing.lt_blocks supported) supported.blocksSmall).ne
  have apart : other ≠ block := fun same => absurd (same ▸ further.2) (Nat.lt_irrefl _)
  rw [isBadBlock_logBadBlock_other apart valid]

/-! ## The table after failures -/

/-- Behind `n` erases, the table lists the blocks that failed, as far as it had room. -/
structure LogsFailures (g : Geometry) (answers : Answers) (start : Nat → Nat) (n : Nat)
    (table : Nat → Nat) : Prop where
  unlisted : (unlistedRing g table).card =
    (unlistedRing g start).card - min (answers.failures n) (badBlockRoom g start)
  room : badBlockRoom g table = badBlockRoom g start - answers.failures n

theorem LogsFailures.success {start table : Nat → Nat} {n : Nat}
    (logs : LogsFailures g answers start n table) (erased : answers.erases n = true) :
    LogsFailures g answers start (n + 1) table := by
  have same : answers.failures (n + 1) = answers.failures n := by
    rw [answers.failures_succ, if_pos erased, Nat.add_zero]
  exact ⟨same ▸ logs.unlisted, same ▸ logs.room⟩

theorem LogsFailures.failure {start table : Nat → Nat} {n block : Nat}
    (logs : LogsFailures g answers start n table) (supported : g.Supported)
    (failed : answers.erases n = false) (inRing : g.InRing block)
    (unlisted : isBadBlock g table block = false) :
    LogsFailures g answers start (n + 1) (logBadBlock g table block) := by
  have more : answers.failures (n + 1) = answers.failures n + 1 := by
    rw [answers.failures_succ, failed]
    rfl
  have valid : block ≠ invalidBlock :=
    (Nat.lt_trans (inRing.lt_blocks supported) supported.blocksSmall).ne
  have room := logs.room
  have count := logs.unlisted
  have inside : block ∈ unlistedRing g table := mem_unlistedRing.mpr ⟨inRing, unlisted⟩
  have pos := Finset.card_pos.mpr ⟨block, inside⟩
  refine ⟨?_, by rw [badBlockRoom_logBadBlock valid unlisted, room, more]; omega⟩
  by_cases full : badBlockRoom g table = 0
  · rw [logBadBlock_full full, count, more]
    omega
  · have rest :
        unlistedRing g (logBadBlock g table block) = (unlistedRing g table).erase block := by
      ext other
      rw [mem_unlistedRing, Finset.mem_erase, mem_unlistedRing]
      by_cases same : other = block
      · subst same
        rw [isBadBlock_logBadBlock (Nat.pos_of_ne_zero full)]
        simp
      · simp only [ne_eq, same, not_false_eq_true, true_and]
        refine and_congr_right fun otherInRing => ?_
        have otherValid : other ≠ invalidBlock :=
          (Nat.lt_trans (otherInRing.lt_blocks supported) supported.blocksSmall).ne
        rw [isBadBlock_logBadBlock_other same otherValid]
    rw [rest, Finset.card_erase_of_mem inside, count, more]
    omega

/-! ## The search -/

/-- Erases that fail one after another. -/
theorem Answers.fails_succ (answers : Answers) {n m : Nat} (first : answers.erases n = false)
    (rest : ∀ i < m, answers.erases (n + 1 + i) = false) :
    ∀ i < m + 1, answers.erases (n + i) = false := by
  intro i before
  cases i with
  | zero => exact first
  | succ i =>
      have later := rest i (Nat.lt_of_succ_lt_succ before)
      rwa [Nat.add_right_comm] at later

section Search

variable {halts : Prop} {ram : UbiRam D} {calls : MtdCalls (UbiBuffer D)}

/-- The search finds the first block ahead whose erase succeeds, or ends with an error at
the current block. -/
theorem Answers.spec_anchorFindLoop {start : Nat → Nat} {current rounds block n : Nat}
    {post : Status × Nat → UbiRam D → MtdCalls (UbiBuffer D) → Prop} (supported : g.Supported)
    (inRing : g.InRing current) (inRing' : g.InRing block)
    (enough : ringDistance g current block ≤ rounds) (erases : eraseCount calls = n)
    (logs : LogsFailures g answers start n ram.anchorTable.badBlockTable)
    (found : ∀ j < (unlistedAhead g ram.anchorTable.badBlockTable current block).card,
      (∀ i < j, answers.erases (n + i) = false) → answers.erases (n + j) = true →
      ∀ next table calls', g.InRing next → next ≠ current → isBadBlock g table next = false →
        LogsFailures g answers start (n + j + 1) table → eraseCount calls' = n + j + 1 →
        programCount calls' = programCount calls → post (.success, next) (ram.withBad table) calls')
    (none : (∀ i < (unlistedAhead g ram.anchorTable.badBlockTable current block).card,
        answers.erases (n + i) = false) →
      ∀ ret table calls', programCount calls' = programCount calls →
        post (ret, current) (ram.withBad table) calls') :
    Code.spec answers.oracle.machine (fun _ => True) halts (anchorFindLoop g current rounds block)
      post ram calls := by
  induction rounds generalizing block ram calls n with
  | zero => exact absurd (ringDistance_pos inRing' inRing) (Nat.not_lt.mpr enough)
  | succ rounds ih =>
      have next : (if block + 1 > g.anchorLastBlock then Geometry.anchorFirstBlock
          else block + 1) = g.ringNext block := rfl
      simp only [anchorFindLoop, Code.spec_bind, next, anchorIsBadBlock, Code.spec_get,
        Code.spec_pure]
      refine ⟨trivial, trivial, ?_⟩
      by_cases here : g.ringNext block = current
      · -- no block is left, whatever the erase of the current one reports
        have last := none (by
          rw [unlistedAhead_of_next inRing inRing' here]
          exact fun i wrong => absurd wrong (Nat.not_lt_zero i))
        rw [here]
        have step : ∀ ret table calls', programCount calls' = programCount calls →
            Code.spec answers.oracle.machine (fun _ => True) halts
              (if ret ≠ .success ∧ current ≠ current then
                anchorFindLoop g current rounds current
              else pure (ret, current)) post (ram.withBad table) calls' := by
          intro ret table calls' programs
          rw [if_neg (fun both => both.2 rfl)]
          exact ⟨trivial, last ret table calls' programs⟩
        split
        · rw [Code.spec_bind, Code.spec_pure]
          exact ⟨trivial, step _ ram.anchorTable.badBlockTable calls rfl⟩
        · simp only [Code.spec_bind, Answers.spec_mtdErase]
          split
          · simp only [Code.spec_bind, anchorLogBadBlock, Code.spec_modify, Code.spec_pure]
            exact ⟨trivial, trivial, step _ (logBadBlock g ram.anchorTable.badBlockTable current) _
              rfl⟩
          · rw [Code.spec_bind, Code.spec_pure]
            exact ⟨trivial, step _ ram.anchorTable.badBlockTable _ rfl⟩
      · have closer := ringDistance_next inRing inRing' here
        by_cases listed : isBadBlock g ram.anchorTable.badBlockTable (g.ringNext block) = true
        · rw [if_pos listed, Code.spec_bind, Code.spec_pure, if_pos ⟨by decide, here⟩]
          rw [unlistedAhead_next_of_listed inRing inRing' here listed] at found none
          exact ⟨trivial, ih inRing'.next (by omega) erases logs found none⟩
        · have unlisted :
              isBadBlock g ram.anchorTable.badBlockTable (g.ringNext block) = false := by
            simpa using listed
          have ahead := unlistedAhead_next_of_unlisted inRing inRing' here unlisted
          rw [if_neg listed]
          simp only [Code.spec_bind, Answers.spec_mtdErase, Answers.eraseStatus, erases]
          cases erased : answers.erases n with
          | true =>
              rw [if_pos rfl, if_neg (not_not.mpr rfl), Code.spec_bind, Code.spec_pure,
                if_neg (fun both => both.1 rfl)]
              refine ⟨trivial, trivial,
                found 0 (by omega) (fun i wrong => absurd wrong (Nat.not_lt_zero i))
                erased _ ram.anchorTable.badBlockTable _ inRing'.next here unlisted
                (logs.success erased) ?_ rfl⟩
              rw [eraseCount, erases]
          | false =>
              rw [if_neg Bool.false_ne_true, if_pos (by decide)]
              simp only [Code.spec_bind, anchorLogBadBlock, Code.spec_modify, Code.spec_pure]
              rw [if_pos ⟨by decide, here⟩]
              refine ⟨trivial, trivial, ih inRing'.next (by omega)
                (show eraseCount _ = n + 1 by rw [eraseCount, erases])
                (logs.failure supported erased inRing'.next unlisted) ?_ ?_⟩
              · intro j inside before after other table calls' otherInRing apart good logs'
                  count programs
                have shift : n + (j + 1) = n + 1 + j := by omega
                rw [unlistedAhead_log supported] at inside
                exact found (j + 1) (by omega) (answers.fails_succ erased before) (shift ▸ after)
                  other table calls' otherInRing apart good (shift ▸ logs') (shift ▸ count) programs
              · intro all ret table calls' programs
                refine none (ahead ▸ answers.fails_succ erased fun i before => all i ?_) ret table
                  calls' programs
                rwa [unlistedAhead_log supported]

theorem Answers.spec_anchorFindNextBlock {start : Nat → Nat} {current n : Nat}
    {post : Status × Nat → UbiRam D → MtdCalls (UbiBuffer D) → Prop} (supported : g.Supported)
    (inRing : g.InRing current) (erases : eraseCount calls = n)
    (logs : LogsFailures g answers start n ram.anchorTable.badBlockTable)
    (found : ∀ j < ((unlistedRing g ram.anchorTable.badBlockTable).erase current).card,
      (∀ i < j, answers.erases (n + i) = false) → answers.erases (n + j) = true →
      ∀ next table calls', g.InRing next → isBadBlock g table next = false →
        LogsFailures g answers start (n + j + 1) table → eraseCount calls' = n + j + 1 →
        programCount calls' = programCount calls → post (.success, next) (ram.withBad table) calls')
    (none : (∀ i < ((unlistedRing g ram.anchorTable.badBlockTable).erase current).card,
        answers.erases (n + i) = false) →
      ∀ table calls', programCount calls' = programCount calls →
        post (.failure, current) (ram.withBad table) calls') :
    Code.spec answers.oracle.machine (fun _ => True) halts (anchorFindNextBlock g current) post ram
      calls := by
  rw [anchorFindNextBlock, Code.spec_bind]
  rw [← unlistedAhead_self inRing] at found none
  refine Answers.spec_anchorFindLoop supported inRing inRing
    ((ringDistance_le g inRing inRing).trans (Nat.le_succ _)) erases logs ?_ ?_
  · intro j inside before after next table calls' inRing' apart good logs' count programs
    dsimp only
    rw [if_pos apart]
    exact ⟨trivial, found j inside before after next table calls' inRing' good logs' count programs⟩
  · intro all ret table calls' programs
    dsimp only
    rw [if_neg (not_not.mpr rfl)]
    exact ⟨trivial, none all table calls' programs⟩

end Search

/-! ## The loop -/

/-- How many blocks a search can try behind `n` erases: the blocks of the ring that are not
listed bad by then, without the current one. -/
def Answers.triesLeft (answers : Answers) (g : Geometry) (table : Nat → Nat) (current n : Nat) :
    Nat :=
  (unlistedRing g table).card - min (answers.failures n) (badBlockRoom g table) -
    if n = 0 ∧ isBadBlock g table current = true then 0 else 1

/-- At the start or behind a successful erase, the erases of all blocks that can be tried
fail. -/
def Answers.RingFails (answers : Answers) (g : Geometry) (table : Nat → Nat) (current : Nat) :
    Prop :=
  ∃ n, (n = 0 ∨ answers.erases (n - 1) = true) ∧
    ∀ i < answers.triesLeft g table current n, answers.erases (n + i) = false

/-- The update is about to search the ring. -/
structure Searching (g : Geometry) (answers : Answers) (start : UbiRam D) (ram : UbiRam D)
    (calls : MtdCalls (UbiBuffer D)) : Prop where
  inRing : g.InRing ram.anchorBlock
  full : ram.anchorNextPage = g.pagePerPhyBlock
  logs : LogsFailures g answers start.anchorTable.badBlockTable (eraseCount calls)
    ram.anchorTable.badBlockTable
  tries : ((unlistedRing g ram.anchorTable.badBlockTable).erase ram.anchorBlock).card =
    answers.triesLeft g start.anchorTable.badBlockTable start.anchorBlock (eraseCount calls)
  begun : eraseCount calls = 0 ∨ answers.erases (eraseCount calls - 1) = true

/-- The last program of the run was done; it was that of the anchor table. -/
def AnchorWritten (answers : Answers) (ram : UbiRam D) (calls : MtdCalls (UbiBuffer D)) : Prop :=
  answers.programs (programCount calls - 1) = .done ∧
    lastProgram calls =
      some (ram.anchorBlock, ram.anchorNextPage - 1, .anchor ram.anchorTable)

section Loop

variable {halts : Prop} {ram start : UbiRam D} {calls : MtdCalls (UbiBuffer D)}
  {post : Status → UbiRam D → MtdCalls (UbiBuffer D) → Prop}

theorem Answers.spec_tableWrite {block page : Nat} {table : UbiBuffer D}
    (done : answers.programs (programCount calls) = .done → ∀ calls',
      programCount calls' = programCount calls + 1 →
        lastProgram calls' = some (block, page, table) →
      post .success ram calls')
    (bad : answers.programs (programCount calls) ≠ .done → ∀ calls',
      programCount calls' = programCount calls + 1 → eraseCount calls' = eraseCount calls →
      post .badblock ram calls') :
    Code.spec answers.oracle.machine (fun _ => True) halts (tableWrite block page table) post ram
      calls := by
  have program : ∀ status, answers.oracle calls (.program block page table (some ⟨0, 0⟩)) = status →
      answers.oracle.machine calls (.program block page table (some ⟨0, 0⟩)) =
        .ok (status, ⟨.program block page table (some ⟨0, 0⟩), status⟩ :: calls) := by
    rintro _ rfl
    rfl
  have wait : ∀ status, (if answers.programs (programCount calls) = .done then .success
      else .badblock) = status →
      answers.oracle.machine (⟨.program block page table (some ⟨0, 0⟩), .success⟩ :: calls)
        (.waitReady block) = .ok (status, ⟨.waitReady block, status⟩ ::
          ⟨.program block page table (some ⟨0, 0⟩), .success⟩ :: calls) := by
    rintro _ rfl
    rfl
  rw [tableWrite, Code.spec_bind]
  cases result : answers.programs (programCount calls) with
  | done =>
      refine (Code.spec_perform_of_step (program .success ?_)).mpr ⟨trivial, trivial, ?_⟩
      · simp only [Answers.oracle, result, reduceCtorEq, if_false]
      · rw [if_pos rfl]
        exact (Code.spec_perform_of_step (wait .success (if_pos result))).mpr
          ⟨trivial, trivial, done result _ rfl rfl⟩
  | refused =>
      refine (Code.spec_perform_of_step (program .badblock ?_)).mpr ⟨trivial, trivial, ?_⟩
      · simp only [Answers.oracle, result, if_true]
      · rw [if_neg (by decide)]
        exact ⟨trivial, bad (by rw [result]; decide) _ rfl rfl⟩
  | failed =>
      refine (Code.spec_perform_of_step (program .success ?_)).mpr ⟨trivial, trivial, ?_⟩
      · simp only [Answers.oracle, result, reduceCtorEq, if_false]
      · rw [if_pos rfl]
        exact (Code.spec_perform_of_step
          (wait .badblock (if_neg (by rw [result]; decide)))).mpr
          ⟨trivial, trivial, bad (by rw [result]; decide) _ rfl rfl⟩

theorem Answers.spec_anchorUpdateWrite {rounds : Nat} {reclaimed : Bool}
    (written : ∀ ram' calls', programCount calls' = programCount calls + 1 →
      AnchorWritten answers ram' calls' → post .success ram' calls')
    (again : answers.programs (programCount calls) ≠ .done → ∀ calls',
      programCount calls' = programCount calls + 1 → eraseCount calls' = eraseCount calls →
      Code.spec answers.oracle.machine (fun _ => True) halts
        (anchorUpdateLoop g rounds reclaimed) post
        { ram with anchorNextPage := g.pagePerPhyBlock } calls') :
    Code.spec answers.oracle.machine (fun _ => True) halts (anchorUpdateWrite g rounds reclaimed)
      post ram calls := by
  simp only [anchorUpdateWrite, Code.spec_bind, Code.spec_get]
  refine ⟨trivial, Answers.spec_tableWrite ?_ ?_⟩
  · intro done calls' count last
    have newest : answers.programs (programCount calls' - 1) = .done := by
      rw [count, Nat.add_sub_cancel, done]
    rw [if_pos rfl]
    split
    · simp only [Code.spec_bind, Answers.spec_mtdErase, Code.spec_modify, Code.spec_pure]
      exact ⟨trivial, trivial, written _ _ count ⟨newest, last⟩⟩
    · simp only [Code.spec_bind, Code.spec_modify, Code.spec_pure]
      exact ⟨trivial, trivial, written _ _ count ⟨newest, last⟩⟩
  · intro failed calls' count erases
    simp only [reduceCtorEq, if_false, if_true, Code.spec_bind, Code.spec_modify]
    exact ⟨trivial, again failed calls' count erases⟩

/-- One round of an update that is about to search the ring. -/
theorem Answers.spec_anchorUpdateLoop_searching {rounds : Nat} {reclaimed : Bool}
    (supported : g.Supported) (searching : Searching g answers start ram calls)
    (given : (∀ i < answers.triesLeft g start.anchorTable.badBlockTable start.anchorBlock
        (eraseCount calls), answers.erases (eraseCount calls + i) = false) →
      ∀ ram' calls', programCount calls' = programCount calls → post .failure ram' calls')
    (written : ∀ ram' calls', programCount calls' = programCount calls + 1 →
      AnchorWritten answers ram' calls' → post .success ram' calls')
    (again : answers.programs (programCount calls) ≠ .done →
      ∀ j < answers.triesLeft g start.anchorTable.badBlockTable start.anchorBlock
          (eraseCount calls),
        (∀ i < j, answers.erases (eraseCount calls + i) = false) →
        answers.erases (eraseCount calls + j) = true →
        ∀ ram' calls', Searching g answers start ram' calls' →
          programCount calls' = programCount calls + 1 →
          eraseCount calls' = eraseCount calls + j + 1 →
          Code.spec answers.oracle.machine (fun _ => True) halts (anchorUpdateLoop g rounds true)
            post ram' calls') :
    Code.spec answers.oracle.machine (fun _ => True) halts
      (anchorUpdateLoop g (rounds + 1) reclaimed) post ram calls := by
  simp only [anchorUpdateLoop, Code.spec_bind, Code.spec_get, searching.full, if_true,
    Code.spec_modify]
  refine ⟨trivial, trivial, Answers.spec_anchorFindNextBlock supported searching.inRing rfl
    searching.logs ?_ ?_⟩
  · intro j inside before after next table calls' inRing good logs count programs
    rw [searching.tries] at inside
    have unlisted := mem_unlistedRing.mpr ⟨inRing, good⟩
    have write : Code.spec answers.oracle.machine (fun _ => True) halts
        (anchorUpdateWrite g rounds true) post
        { ram with
          anchorTable := { ram.anchorTable with
            previousAnchorBlock := ram.anchorBlock, badBlockTable := table }
          anchorBlock := next, anchorNextPage := 0 } calls' := by
      refine Answers.spec_anchorUpdateWrite
        (fun ram' calls'' more last => written ram' calls'' (by rw [more, programs]) last) ?_
      intro failed calls'' more same
      refine again (programs ▸ failed) j inside before after _ calls'' ⟨inRing, rfl, ?_, ?_, ?_⟩
        (by rw [more, programs]) (by rw [same, count])
      · rw [same, count]
        exact logs
      · rw [same, count, Finset.card_erase_of_mem unlisted, logs.unlisted, Answers.triesLeft,
          if_neg (fun wrong => Nat.succ_ne_zero _ wrong.1)]
      · rw [same, count]
        exact .inr after
    rw [anchorUpdateWrite] at write
    simp only [Code.spec_bind, Code.spec_modify, Code.spec_pure, ne_eq, not_true_eq_false, if_false,
      if_true, UbiRam.withBad] at write ⊢
    exact ⟨trivial, trivial, write⟩
  · intro all table calls' programs
    rw [searching.tries] at all
    simp only [Code.spec_bind, Code.spec_pure, reduceCtorEq, if_false, ne_eq, not_false_eq_true,
      if_true]
    exact ⟨trivial, trivial, given all _ calls' programs⟩

/-- The first round writes at once, if the current block is not full. -/
theorem Answers.spec_anchorUpdate_start {fuel : Nat} (inRing : g.InRing start.anchorBlock)
    (written : answers.programs 0 = .done → ∀ ram' calls', AnchorWritten answers ram' calls' →
      post .success ram' calls')
    (search : ∀ rounds reclaimed ram calls, fuel ≤ rounds → Searching g answers start ram calls →
      (∀ n < programCount calls, answers.programs n ≠ .done) → programCount calls ≤ 1 →
      eraseCount calls = 0 →
      Code.spec answers.oracle.machine (fun _ => True) halts
        (anchorUpdateLoop g rounds reclaimed) post ram calls) :
    Code.spec answers.oracle.machine (fun _ => True) halts (anchorUpdate g (fuel + 1)) post start
      [] := by
  have none : answers.failures 0 = 0 := rfl
  have searching : ∀ calls page, eraseCount calls = 0 → page = g.pagePerPhyBlock →
      Searching g answers start { start with anchorNextPage := page } calls := by
    intro calls page erases full
    refine ⟨inRing, full, ?_, ?_, .inl erases⟩
    · rw [erases]
      exact ⟨by rw [none, Nat.zero_min, Nat.sub_zero], by rw [none, Nat.sub_zero]⟩
    · rw [erases, Answers.triesLeft, none, Nat.zero_min, Nat.sub_zero]
      cases listed : isBadBlock g start.anchorTable.badBlockTable start.anchorBlock with
      | true =>
          rw [if_pos ⟨rfl, rfl⟩, Finset.erase_eq_of_notMem, Nat.sub_zero]
          rw [mem_unlistedRing, listed]
          exact fun wrong => absurd wrong.2.symm Bool.false_ne_true
      | false =>
          rw [if_neg (fun wrong => absurd wrong.2 Bool.false_ne_true),
            Finset.card_erase_of_mem (mem_unlistedRing.mpr ⟨inRing, listed⟩)]
  by_cases full : start.anchorNextPage = g.pagePerPhyBlock
  · exact search (fuel + 1) false start [] (Nat.le_succ _) (searching [] _ rfl full)
      (fun n wrong => absurd wrong (Nat.not_lt_zero n)) (Nat.zero_le _) rfl
  · have write : Code.spec answers.oracle.machine (fun _ => True) halts
        (anchorUpdateWrite g fuel false) post start [] := by
      refine Answers.spec_anchorUpdateWrite (fun ram' calls' count last => ?_) ?_
      · have done := last.1
        rw [count] at done
        exact written done ram' calls' last
      · intro failed calls' count erases
        refine search fuel false _ calls' le_rfl (searching calls' _ erases rfl) ?_ count.le erases
        intro n before
        rw [count] at before
        rw [Nat.lt_one_iff.mp before]
        exact failed
    rw [anchorUpdateWrite] at write
    simp only [anchorUpdate, anchorUpdateLoop, Code.spec_bind, Code.spec_get, full, if_false,
      Code.spec_pure, ne_eq, not_true_eq_false] at write ⊢
    exact ⟨trivial, trivial, write⟩

/-- Some coming program is done within the rounds, or some coming search fails. -/
def Ends (g : Geometry) (answers : Answers) (start : UbiRam D)
    (calls : MtdCalls (UbiBuffer D)) (rounds : Nat) : Prop :=
  (∃ n, programCount calls ≤ n ∧ n < programCount calls + rounds ∧ answers.programs n = .done) ∨
    ∃ n, eraseCount calls ≤ n ∧ n < eraseCount calls + rounds ∧
      (n = 0 ∨ answers.erases (n - 1) = true) ∧
      ∀ i < answers.triesLeft g start.anchorTable.badBlockTable start.anchorBlock n,
        answers.erases (n + i) = false

/-- What an update is meant to hand back: success when the table was written, an error when
no program was done. -/
def ReportsWrite (answers : Answers) (ret : Status) (ram : UbiRam D)
    (calls : MtdCalls (UbiBuffer D)) : Prop :=
  (ret = .success → AnchorWritten answers ram calls) ∧
    (ret ≠ .success → ∀ n < programCount calls, answers.programs n ≠ .done)

theorem Answers.spec_anchorUpdateLoop_ends {rounds : Nat} {reclaimed : Bool}
    (supported : g.Supported) (searching : Searching g answers start ram calls)
    (notDone : ∀ n < programCount calls, answers.programs n ≠ .done)
    (ends : Ends g answers start calls rounds) :
    Code.spec answers.oracle.machine (fun _ => True) False
      (anchorUpdateLoop g rounds reclaimed) (ReportsWrite answers) ram calls := by
  induction rounds generalizing reclaimed ram calls with
  | zero => rcases ends with ⟨n, le, lt, -⟩ | ⟨n, le, lt, -⟩ <;> omega
  | succ rounds ih =>
      refine Answers.spec_anchorUpdateLoop_searching supported searching ?_ ?_ ?_
      · intro all ram' calls' programs
        exact ⟨fun wrong => absurd wrong (by decide), fun _ => programs ▸ notDone⟩
      · intro ram' calls' count last
        exact ⟨fun _ => last, fun wrong => absurd rfl wrong⟩
      · intro failed j inside before after ram' calls' searching' programs erases
        refine ih searching' ?_ ?_
        · intro n less
          rw [programs] at less
          rcases Nat.lt_succ_iff_lt_or_eq.mp less with earlier | rfl
          · exact notDone n earlier
          · exact failed
        · unfold Ends
          rw [programs, erases]
          rcases ends with ⟨n, le, lt, done⟩ | ⟨n, le, lt, begun, all⟩
          · have apart : n ≠ programCount calls := fun same => failed (same ▸ done)
            exact .inl ⟨n, by omega, by omega, done⟩
          · refine .inr ⟨n, ?_, by omega, begun, all⟩
            by_contra early
            rcases Nat.eq_or_lt_of_le le with rfl | later
            · rw [all j inside] at after
              exact absurd after Bool.false_ne_true
            · have erased := begun.resolve_left (by omega)
              obtain ⟨i, place⟩ := Nat.exists_eq_add_of_le (Nat.le_sub_one_of_lt later)
              rw [place, before i (by omega)] at erased
              exact absurd erased Bool.false_ne_true

/-- No program is done and no search fails: the update goes on for any number of rounds. -/
theorem Answers.spec_anchorUpdateLoop_stuck {rounds : Nat} {reclaimed : Bool}
    (supported : g.Supported) (searching : Searching g answers start ram calls)
    (notDone : ∀ n, answers.programs n ≠ .done)
    (holds : ¬ answers.RingFails g start.anchorTable.badBlockTable start.anchorBlock) :
    Code.spec answers.oracle.machine (fun _ => True) True
      (anchorUpdateLoop g rounds reclaimed) (fun _ _ _ => False) ram calls := by
  induction rounds generalizing reclaimed ram calls with
  | zero => exact ⟨trivial, trivial⟩
  | succ rounds ih =>
      refine Answers.spec_anchorUpdateLoop_searching supported searching ?_ ?_ ?_
      · intro all
        exact absurd ⟨eraseCount calls, searching.begun, all⟩ holds
      · intro ram' calls' count last
        exact notDone _ last.1
      · intro failed j inside before after ram' calls' searching' programs erases
        exact ih searching'

end Loop

/-- `ANCHOR_Update` returns, and reports whether the table was written. -/
def AnchorUpdateReturns (g : Geometry) (answers : Answers) (ram : UbiRam D) : Prop :=
  ∃ fuel ret ram' calls,
    ((anchorUpdate g fuel).run ram).exec (Answers.oracle answers).machine [] =
      .ok ((ret, ram'), calls) ∧ ReportsWrite answers ret ram' calls

theorem not_anchorUpdateReturns {ram : UbiRam D} (supported : g.Supported)
    (inRing : g.InRing ram.anchorBlock) (notDone : ∀ n, answers.programs n ≠ .done)
    (holds : ¬ answers.RingFails g ram.anchorTable.badBlockTable ram.anchorBlock) :
    ¬ AnchorUpdateReturns g answers ram := by
  rintro ⟨fuel, ret, ram', calls, run, -⟩
  cases fuel with
  | zero => cases run
  | succ fuel =>
      have stuck : Code.spec answers.oracle.machine (fun _ => True) True
          (anchorUpdate g (fuel + 1)) (fun _ _ _ => False) ram [] :=
        Answers.spec_anchorUpdate_start inRing (fun done => absurd done (notDone 0))
          fun rounds reclaimed ram' calls' _ searching _ _ _ =>
            Answers.spec_anchorUpdateLoop_stuck supported searching notDone holds
      exact Code.post_of_spec stuck run

/-- An update returns just when some program of the anchor is done, or when at some point
the erases of all other blocks that are not listed bad fail. -/
theorem anchorUpdateReturns_iff {ram : UbiRam D} (supported : g.Supported)
    (inRing : g.InRing ram.anchorBlock) :
    AnchorUpdateReturns g answers ram ↔
      (∃ n, answers.programs n = .done) ∨
        answers.RingFails g ram.anchorTable.badBlockTable ram.anchorBlock := by
  constructor
  · intro returns
    by_contra neither
    obtain ⟨notDone, holds⟩ := not_or.mp neither
    exact not_anchorUpdateReturns supported inRing (not_exists.mp notDone) holds returns
  · intro ends
    have rounds : ∃ fuel, (∃ n < fuel, answers.programs n = .done) ∨ ∃ n < fuel,
        (n = 0 ∨ answers.erases (n - 1) = true) ∧
        ∀ i < answers.triesLeft g ram.anchorTable.badBlockTable ram.anchorBlock n,
          answers.erases (n + i) = false := by
      rcases ends with ⟨n, done⟩ | ⟨n, fails⟩
      · exact ⟨n + 1, .inl ⟨n, Nat.lt_succ_self n, done⟩⟩
      · exact ⟨n + 1, .inr ⟨n, Nat.lt_succ_self n, fails⟩⟩
    obtain ⟨fuel, bounded⟩ := rounds
    have whole : Code.spec answers.oracle.machine (fun _ => True) False
        (anchorUpdate g (fuel + 1)) (ReportsWrite answers) ram [] := by
      refine Answers.spec_anchorUpdate_start inRing
        (fun _ ram' calls' last => ⟨fun _ => last, fun wrong => absurd rfl wrong⟩) ?_
      intro rounds reclaimed ram' calls enough searching notDone programs erases
      refine Answers.spec_anchorUpdateLoop_ends supported searching notDone ?_
      unfold Ends
      rw [erases]
      rcases bounded with ⟨n, less, done⟩ | ⟨n, less, fails⟩
      · refine .inl ⟨n, ?_, by omega, done⟩
        by_contra early
        exact notDone n (Nat.lt_of_not_le early) done
      · exact .inr ⟨n, Nat.zero_le n, by omega, fails⟩
    obtain ⟨ret, ram', calls, run, reports⟩ := Code.exec_of_spec whole
    exact ⟨fuel + 1, ret, ram', calls, run, reports⟩

/-! ## A ring that programs badly -/

/-- Erases succeed, and programs fail or are done. -/
def programsOnly (result : ProgramResult) : Answers :=
  ⟨fun _ => result, fun _ => true⟩

/-- Some erases fail, and only the tenth program is done. -/
def tenthDone : Answers where
  programs n := if n = 9 then .done else if n % 2 = 0 then .failed else .refused
  erases n := n % 3 = 0

theorem anchorUpdateReturns_done :
    AnchorUpdateReturns simNand tenthDone (fullAnchorRam 3 2) :=
  (anchorUpdateReturns_iff (by decide) inRing_three).mpr (.inl ⟨9, rfl⟩)

theorem failures_programsOnly (result : ProgramResult) (n : Nat) :
    (programsOnly result).failures n = 0 := by
  simp [Answers.failures, programsOnly]

/-- With erases that succeed and programs that fail, an update goes through the ring for
ever. -/
theorem anchorUpdate_never_returns :
    ¬ AnchorUpdateReturns simNand (programsOnly .failed) (fullAnchorRam 3 invalidBlock) := by
  have all : unlistedRing simNand (fullAnchorRam 3 invalidBlock).anchorTable.badBlockTable =
      simNand.ringBlocks.toFinset := by
    refine Finset.filter_true_of_mem fun block inside => ?_
    rw [List.mem_toFinset, mem_ringBlocks] at inside
    exact isBadBlock_eq_false (fun _ => ite_self _) (by decide) (inside.lt_blocks (by decide))
  have holds : ¬ (programsOnly .failed).RingFails simNand
      (fullAnchorRam 3 invalidBlock).anchorTable.badBlockTable
        (fullAnchorRam 3 invalidBlock).anchorBlock := by
    rintro ⟨n, -, fails⟩
    refine Bool.noConfusion (fails 0 ?_ : true = false)
    rw [Answers.triesLeft, all, failures_programsOnly, Nat.zero_min, Nat.sub_zero]
    have six : simNand.ringBlocks.toFinset.card = 6 := by decide
    rw [six]
    split <;> decide
  exact not_anchorUpdateReturns (by decide) inRing_three
    (fun _ done => ProgramResult.noConfusion done) holds

end OpenNfm
