import OpenNfm.Ftl.CommitFailures

/-!
# Failures in formats and mounts

`DATA_Format` always hands back a success.  When the erase for a journal fails, the
journals from there on keep the words that the root table in memory has had before, and
the format of the other tables goes on.  `FTL_Init` drops the status of the reclaim of the
hot journals when the cold journals are full as well.  The UBI layer is arbitrary here: an
oracle answers the calls.
-/

namespace OpenNfm.Ftl

open OpenNfm.Program OpenNfm.Program.Code

variable {l : Layout} {D : Type}

/-- The block was erased with success. -/
def Erased (calls : UbiCalls D) (block : Nat) : Prop :=
  ∃ dieIndex, (⟨.erase block dieIndex, Status.success⟩ : Called (UbiOp D) (UbiAns D)) ∈ calls

/-- The page was written with success. -/
def Wrote (calls : UbiCalls D) (block page : Nat) (main : FtlPage D) : Prop :=
  ∃ spare async,
    (⟨.write block page main spare async, Status.success⟩ : Called (UbiOp D) (UbiAns D)) ∈ calls

/-- No write has failed. -/
def WritesSucceeded (calls : UbiCalls D) : Prop :=
  ∀ block page main spare async (ret : Status),
    (⟨.write block page main spare async, ret⟩ : Called (UbiOp D) (UbiAns D)) ∈ calls →
      ret = .success

section Calls

variable {oracle : UbiOracle D} {ram : FtlRam} {calls calls' : UbiCalls D}

theorem Wrote.mono {block page : Nat} {main : FtlPage D} (wrote : Wrote calls block page main)
    (more : calls ⊆ calls') : Wrote calls' block page main := by
  obtain ⟨spare, async, member⟩ := wrote
  exact ⟨spare, async, more member⟩

theorem erased_cons {call : Called (UbiOp D) (UbiAns D)} {block : Nat} :
    Erased (call :: calls) block ↔
      (∃ dieIndex, call = ⟨.erase block dieIndex, Status.success⟩) ∨ Erased calls block := by
  unfold Erased
  simp only [List.mem_cons, exists_or, eq_comm (b := call)]

theorem erased_erase {other dieIndex block : Nat} {ret : Status} :
    Erased ((⟨.erase other dieIndex, ret⟩ : Called (UbiOp D) (UbiAns D)) :: calls) block ↔
      (other = block ∧ ret = .success) ∨ Erased calls block := by
  rw [erased_cons]
  refine or_congr_left ⟨?_, ?_⟩
  · rintro ⟨_, same⟩
    cases same
    exact ⟨rfl, rfl⟩
  · rintro ⟨rfl, rfl⟩
    exact ⟨dieIndex, rfl⟩

theorem erased_write {other page block : Nat} {main : FtlPage D} {spare : Option Spare}
    {async : Bool} {ret : Status} :
    Erased ((⟨.write other page main spare async, ret⟩ : Called (UbiOp D) (UbiAns D)) :: calls)
      block ↔ Erased calls block := by
  rw [erased_cons]
  refine or_iff_right ?_
  rintro ⟨_, same⟩
  cases same

theorem WritesSucceeded.erase {block dieIndex : Nat} {ret : Status}
    (succeeded : WritesSucceeded calls) :
    WritesSucceeded ((⟨.erase block dieIndex, ret⟩ : Called (UbiOp D) (UbiAns D)) :: calls) := by
  intro block page main spare async ret member
  rcases List.mem_cons.mp member with same | member
  · cases same
  · exact succeeded _ _ _ _ _ _ member

theorem WritesSucceeded.write {block page : Nat} {main : FtlPage D} {spare : Option Spare}
    {async : Bool} (succeeded : WritesSucceeded calls) :
    WritesSucceeded
      ((⟨.write block page main spare async, Status.success⟩ : Called (UbiOp D) (UbiAns D)) ::
        calls) := by
  intro block page main spare async ret member
  rcases List.mem_cons.mp member with same | member
  · cases same
    rfl
  · exact succeeded _ _ _ _ _ _ member

end Calls

/-! ## The journals -/

/-- The journals of the root table in the order in which they are formatted. -/
def journalEntry (l : Layout) (ram : FtlRam) (i : Nat) : Nat :=
  if i < l.journalBlockCount then ram.rootTable.hotJournal i
  else if i < 2 * l.journalBlockCount then ram.rootTable.coldJournal (i - l.journalBlockCount)
  else ram.rootTable.reclaimJournal (i - 2 * l.journalBlockCount)

/-- The setter enters a word for one of the journals from `base` on. -/
def SetsEntry (l : Layout) (set : Nat → Nat → FtlRam → FtlRam) (base : Nat) : Prop :=
  ∀ j < l.journalBlockCount, ∀ word ram, ∀ i < 3 * l.journalBlockCount,
    journalEntry l (set j word ram) i = if i = base + j then word else journalEntry l ram i

theorem setsEntry_hot : SetsEntry l (setJournal true) 0 := by
  intro j isJournal word ram i isEntry
  simp only [journalEntry, setJournal, if_true, Function.update_apply, Nat.zero_add]
  by_cases first : i < l.journalBlockCount
  · rw [if_pos first, if_pos first]
  · rw [if_neg first, if_neg first, if_neg (by omega : i ≠ j)]

theorem setsEntry_cold : SetsEntry l (setJournal false) l.journalBlockCount := by
  intro j isJournal word ram i isEntry
  simp only [journalEntry, setJournal, Bool.false_eq_true, if_false, Function.update_apply]
  split
  · rw [if_neg (by omega)]
  · split
    · by_cases same : i = l.journalBlockCount + j
      · rw [if_pos same, if_pos (by omega)]
      · rw [if_neg same, if_neg (by omega)]
    · rw [if_neg (by omega)]

theorem setsEntry_reclaim : SetsEntry l setReclaimJournal (2 * l.journalBlockCount) := by
  intro j isJournal word ram i isEntry
  simp only [journalEntry, setReclaimJournal, Function.update_apply]
  split
  · rw [if_neg (by omega)]
  · split
    · rw [if_neg (by omega)]
    · by_cases same : i = 2 * l.journalBlockCount + j
      · rw [if_pos same, if_pos (by omega)]
      · rw [if_neg same, if_neg (by omega)]

/-- The first `k` of `n` journals have got a block, and the others have their old words. -/
structure JournalsSet (l : Layout) (old : FtlRam) (n block : Nat) (ret : Status) (ram : FtlRam)
    (calls : UbiCalls D) (k : Nat) : Prop where
  le : k ≤ n
  next : block = l.dataStartBlock + k
  all : ret = .success ↔ k = n
  entries : ∀ i < 3 * l.journalBlockCount, journalEntry l ram i =
    if i < k then PmNode.setBlockPage l.g (l.dataStartBlock + i) 0 else journalEntry l old i
  erased : ∀ block, Erased calls block ↔ l.dataStartBlock ≤ block ∧ block < l.dataStartBlock + k
  writes : WritesSucceeded calls

section DataFormat

variable {oracle : UbiOracle D} {old ram : FtlRam} {calls : UbiCalls D}

/-- One more journal has got a block. -/
theorem JournalsSet.erase {set : Nat → Nat → FtlRam → FtlRam} {base j block dieIndex : Nat}
    (sets : SetsEntry l set base) (isJournal : j < l.journalBlockCount)
    (before : JournalsSet l old (base + j) block .success ram calls (base + j)) :
    JournalsSet l old (base + (j + 1)) (block + 1) .success
      (setDirtyCount block 0 (set j (PmNode.setBlockPage l.g block 0) ram))
      (⟨.erase block dieIndex, Status.success⟩ :: calls) (base + (j + 1)) where
  le := Nat.le_refl _
  next := by rw [before.next]; rfl
  all := iff_of_true rfl rfl
  entries := by
    intro i isEntry
    have entry := sets j isJournal (PmNode.setBlockPage l.g block 0) ram i isEntry
    refine Eq.trans entry ?_
    rcases Nat.lt_trichotomy i (base + j) with lower | rfl | higher
    · rw [if_neg (Nat.ne_of_lt lower), before.entries i isEntry, if_pos lower, if_pos (by omega)]
    · rw [if_pos rfl, if_pos (by omega), before.next]
    · rw [if_neg (Nat.ne_of_gt higher), before.entries i isEntry, if_neg (by omega),
        if_neg (by omega)]
  erased := by
    intro other
    rw [erased_erase, before.erased, before.next, and_iff_left rfl]
    omega
  writes := before.writes.erase

/-- The erase for a journal has failed. -/
theorem JournalsSet.failed {n block dieIndex k : Nat} {ret : Status} (failed : ret ≠ .success)
    (before : JournalsSet l old n block .success ram calls k) :
    JournalsSet l old (n + 1) block ret ram (⟨.erase block dieIndex, ret⟩ :: calls) k where
  le := Nat.le_succ_of_le before.le
  next := before.next
  all := iff_of_false failed (by have := before.le; omega)
  entries := before.entries
  erased := by
    intro other
    rw [erased_erase, before.erased]
    exact or_iff_right fun wrong => failed wrong.2
  writes := before.writes.erase

theorem yields_dataFormatBlocks {set : Nat → Nat → FtlRam → FtlRam} {base rounds j block k : Nat}
    {ret : Status} {post : Nat × Status → FtlRam → UbiCalls D → Prop} (sets : SetsEntry l set base)
    (total : j + rounds = l.journalBlockCount)
    (before : JournalsSet l old (base + j) block ret ram calls k)
    (meets : ∀ block ret ram' calls' k,
      JournalsSet l old (base + l.journalBlockCount) block ret ram'
      calls' k → post (block, ret) ram' calls') :
    Yields oracle (dataFormatBlocks l set rounds j block ret) post ram calls := by
  induction rounds generalizing j block k ret ram calls with
  | zero =>
      obtain rfl : j = l.journalBlockCount := total
      exact Yields.pure.mpr (meets _ _ _ _ _ before)
  | succ rounds ih =>
      rw [dataFormatBlocks, Yields.bind]
      by_cases success : ret = .success
      · subst success
        obtain rfl : k = base + j := before.all.mp rfl
        rw [onSuccess_success, ubiErase, Yields.perform]
        generalize oracle calls (.erase block block) = answer
        by_cases erased : answer = .success
        · subst erased
          rw [if_pos rfl, Yields.bind, Yields.modifies]
          exact ih (by omega) (before.erase sets (by omega))
        · rw [if_neg erased]
          exact ih (by omega) (before.failed erased)
      · rw [onSuccess_other success, Yields.pure, if_neg success]
        refine ih (by omega) { before with
          le := Nat.le_succ_of_le before.le
          all := ?_ }
        have notAll := mt before.all.mpr success
        have := before.le
        exact iff_of_false success (by omega)

/-- The erases of `DATA_Format`, whose status is dropped. -/
theorem yields_dataFormat {post : Status → FtlRam → UbiCalls D → Prop}
    (writes : WritesSucceeded calls) (noErase : ∀ block, ¬ Erased calls block)
    (meets : ∀ block ret ram' calls' k,
      JournalsSet l ram (3 * l.journalBlockCount) block ret ram' calls' k →
        post .success ram' calls') :
    Yields oracle (dataFormat l) post ram calls := by
  simp only [dataFormat, Yields.bind, Yields.modifies]
  have start : JournalsSet l ram (0 + 0) l.dataStartBlock .success
      { ram with
        blockDirtyTable := fun i =>
          if i < l.g.cfgLogBlockCount then l.maxDirtyPages else ram.blockDirtyTable i } calls 0 :=
    { le := Nat.le_refl _
      next := rfl
      all := iff_of_true rfl rfl
      entries := fun i _ => (if_neg (Nat.not_lt_zero i)).symm
      erased := fun block => iff_of_false (noErase block) (by omega)
      writes := writes }
  refine yields_dataFormatBlocks setsEntry_hot (Nat.zero_add _) start ?_
  intro block ret ram' calls' k hot
  rw [Nat.zero_add, ← Nat.add_zero l.journalBlockCount] at hot
  refine yields_dataFormatBlocks setsEntry_cold (Nat.zero_add _) hot ?_
  intro block ret ram' calls' k cold
  rw [← Nat.two_mul, ← Nat.add_zero (2 * l.journalBlockCount)] at cold
  refine yields_dataFormatBlocks setsEntry_reclaim (Nat.zero_add _) cold ?_
  intro block ret ram' calls' k all
  rw [show 2 * l.journalBlockCount + l.journalBlockCount = 3 * l.journalBlockCount by omega] at all
  exact Yields.pure.mpr (meets _ _ _ _ _ all)

end DataFormat

/-! ## The tables -/

/-- The format of a table: the journals are kept, no block behind the tables is erased, and
all writes were successful. -/
structure FormatStep (l : Layout) (ram : FtlRam) (calls : UbiCalls D) (ram' : FtlRam)
    (calls' : UbiCalls D) : Prop where
  more : calls ⊆ calls'
  entries : ∀ i, journalEntry l ram' i = journalEntry l ram i
  erased : ∀ block, l.dataStartBlock ≤ block → (Erased calls' block ↔ Erased calls block)
  writes : WritesSucceeded calls'

namespace FormatStep

variable {ram ram' : FtlRam} {calls calls' : UbiCalls D}

theorem refl (ram : FtlRam) (writes : WritesSucceeded calls) : FormatStep l ram calls ram calls :=
  ⟨fun _ => id, fun _ => rfl, fun _ _ => Iff.rfl, writes⟩

theorem trans {ram'' : FtlRam} {calls'' : UbiCalls D} (first : FormatStep l ram calls ram' calls')
    (second : FormatStep l ram' calls' ram'' calls'') : FormatStep l ram calls ram'' calls'' :=
  ⟨fun _ member => second.more (first.more member),
    fun i => (second.entries i).trans (first.entries i),
    fun block behind => (second.erased block behind).trans (first.erased block behind),
    second.writes⟩

theorem memory {ram'' : FtlRam} (step : FormatStep l ram calls ram' calls')
    (same : ∀ i, journalEntry l ram'' i = journalEntry l ram' i) :
    FormatStep l ram calls ram'' calls' :=
  { step with entries := fun i => (same i).trans (step.entries i) }

theorem erase {block dieIndex : Nat} {ret : Status} (step : FormatStep l ram calls ram' calls')
    (isTable : block < Layout.pmtStartBlock) :
    FormatStep l ram calls ram' (⟨.erase block dieIndex, ret⟩ :: calls') where
  more := List.subset_cons_of_subset _ step.more
  entries := step.entries
  erased other behind := by
    rw [erased_erase, step.erased other behind]
    refine or_iff_right fun same => ?_
    have : Layout.pmtStartBlock ≤ l.dataStartBlock := Nat.le_add_right _ _
    omega
  writes := step.writes.erase

theorem write {block page : Nat} {main : FtlPage D} {spare : Option Spare} {async : Bool}
    (step : FormatStep l ram calls ram' calls') :
    FormatStep l ram calls ram'
      (⟨.write block page main spare async, Status.success⟩ :: calls') where
  more := List.subset_cons_of_subset _ step.more
  entries := step.entries
  erased other behind := erased_write.trans (step.erased other behind)
  writes := step.writes.write

end FormatStep

section Tables

variable {oracle : UbiOracle D} {ram : FtlRam} {calls : UbiCalls D}
  {post : Status → FtlRam → UbiCalls D → Prop}

theorem wrote_head {block page : Nat} {main : FtlPage D} {spare : Option Spare} {async : Bool} :
    Wrote ((⟨.write block page main spare async, Status.success⟩ : Called (UbiOp D) (UbiAns D)) ::
      calls) block page main :=
  ⟨spare, async, List.mem_cons_self⟩

theorem zero_ne_pages (l : Layout) : 0 ≠ l.pagePerPhyBlock :=
  Nat.ne_of_lt l.g.pagePerPhyBlock_pos

theorem yields_hdiFormat (writes : WritesSucceeded calls)
    (meets : ∀ ret ram' calls', (ret = .success → FormatStep l ram calls ram' calls' ∧
      ∃ values, Wrote calls' Layout.hdiBlock0 0 (.hotHash values)) → post ret ram' calls') :
    Yields oracle (hdiFormat l) post ram calls := by
  simp only [hdiFormat, Yields.bind, Yields.modifies, ubiErase, Yields.perform]
  refine yields_onSuccess (fun _ => ?_) fun failed => meets _ _ _ fun success =>
    absurd success failed
  simp only [hdiCommit, turnLog, setHdiCursor, zero_ne_pages l, if_false, Yields.bind, Yields.get,
    Yields.pure, onSuccess_success, ubiWrite, Yields.perform]
  generalize oracle _ (.write _ _ _ _ _) = answer
  refine yields_onSuccess (fun success => ?_) fun failed => meets _ _ _ fun success =>
    absurd success failed
  subst success
  simp only [Yields.bind, Yields.modifies, Yields.pure]
  refine meets _ _ _ fun _ => ⟨?_, _, wrote_head⟩
  exact (((FormatStep.refl ram writes).erase (by decide)).write).memory fun _ => rfl

/-- The nodes of the first `n` clusters are written. -/
def NodesWritten (l : Layout) (ram : FtlRam) (calls : UbiCalls D) (n : Nat) : Prop :=
  ∀ cluster < n, ∃ block page, Wrote calls block page (.node fun _ => PmNode.invalid) ∧
    ram.rootTable.pageMappingNodes cluster = PmNode.setBlockPage l.g block page

theorem NodesWritten.mono {ram ram' : FtlRam} {calls calls' : UbiCalls D} {n : Nat}
    (written : NodesWritten l ram calls n) (more : calls ⊆ calls')
    (same : ∀ cluster < n,
      ram'.rootTable.pageMappingNodes cluster = ram.rootTable.pageMappingNodes cluster) :
    NodesWritten l ram' calls' n := by
  intro cluster lt
  obtain ⟨block, page, wrote, word⟩ := written cluster lt
  exact ⟨block, page, wrote.mono more, (same cluster lt).trans word⟩

theorem yields_pmtFormatNode {first : FtlRam} {before : UbiCalls D} {cluster block page : Nat}
    (step : FormatStep l first before ram calls) (written : NodesWritten l ram calls cluster)
    (meets : ∀ ret ram' calls', (ret = .success → FormatStep l first before ram' calls' ∧
      NodesWritten l ram' calls' (cluster + 1)) → post ret ram' calls') :
    Yields oracle (pmtFormatNode l cluster block page) post ram calls := by
  simp only [pmtFormatNode, Yields.bind, ubiWrite, Yields.perform]
  generalize oracle _ (.write _ _ _ _ _) = answer
  refine yields_onSuccess (fun success => ?_) fun failed => meets _ _ _ fun success =>
    absurd success failed
  subst success
  simp only [Yields.bind, Yields.modifies, Yields.pure]
  refine meets _ _ _ fun _ => ⟨step.write.memory fun _ => rfl, fun other lt => ?_⟩
  rcases Nat.lt_or_eq_of_le (Nat.le_of_lt_succ lt) with lower | rfl
  · obtain ⟨block', page', wrote, word⟩ := written other lower
    refine ⟨block', page', wrote.mono (List.subset_cons_self _ _), ?_⟩
    exact (Function.update_of_ne (Nat.ne_of_lt lower) _ _).trans word
  · exact ⟨block, page, wrote_head, Function.update_self _ _ _⟩

theorem yields_pmtFormatMeta {first : FtlRam} {before : UbiCalls D} {block n : Nat}
    (step : FormatStep l first before ram calls) (written : NodesWritten l ram calls n)
    (meets : ∀ ret ram' calls', (ret = .success → FormatStep l first before ram' calls' ∧
      NodesWritten l ram' calls' n) → post ret ram' calls') :
    Yields oracle (pmtFormatMeta l block) post ram calls := by
  simp only [pmtFormatMeta, Yields.bind, Yields.get, ubiWrite, Yields.perform]
  generalize oracle _ (.write _ _ _ _ _) = answer
  refine yields_onSuccess (fun success => ?_) fun failed => meets _ _ _ fun success =>
    absurd success failed
  subst success
  simp only [Yields.bind, Yields.modifies, Yields.pure]
  exact meets _ _ _ fun _ => ⟨step.write.memory fun _ => rfl,
    written.mono (List.subset_cons_self _ _) fun _ _ => rfl⟩

theorem yields_pmtFormatClusters {first : FtlRam} {before : UbiCalls D}
    {rounds cluster block page : Nat} {post : Status × Nat × Nat → FtlRam → UbiCalls D → Prop}
    (step : FormatStep l first before ram calls) (written : NodesWritten l ram calls cluster)
    (meets : ∀ ret block page ram' calls', (ret = .success →
      FormatStep l first before ram' calls' ∧ NodesWritten l ram' calls' (cluster + rounds)) →
        post (ret, block, page) ram' calls') :
    Yields oracle (pmtFormatClusters l rounds cluster block page) post ram calls := by
  induction rounds generalizing cluster block page ram calls with
  | zero => exact Yields.pure.mpr (meets _ _ _ _ _ fun _ => ⟨step, written⟩)
  | succ rounds ih =>
      have next : cluster + (rounds + 1) = cluster + 1 + rounds := by omega
      rw [next] at meets
      simp only [pmtFormatClusters, Yields.bind]
      refine yields_pmtFormatNode step written fun ret ram' calls' kept => ?_
      generalize (if page < l.pagePerPhyBlock - 1 then page + 1 else page) = nextPage
      by_cases success : ret = .success
      · obtain ⟨step', written'⟩ := kept success
        rw [if_neg (not_not_intro success)]
        split
        · exact ih step' written' meets
        · rw [Yields.bind]
          refine yields_pmtFormatMeta step' written' fun ret ram' calls' kept => ?_
          by_cases success : ret = .success
          · obtain ⟨step', written'⟩ := kept success
            rw [if_neg (not_not_intro success)]
            exact ih step' written' meets
          · rw [if_pos success, Yields.pure]
            exact meets _ _ _ _ _ fun wrong => absurd wrong success
      · rw [if_pos success, Yields.pure]
        exact meets _ _ _ _ _ fun wrong => absurd wrong success

theorem yields_pmtFormat (writes : WritesSucceeded calls)
    (meets : ∀ ret ram' calls', (ret = .success → FormatStep l ram calls ram' calls' ∧
      NodesWritten l ram' calls' (pmtClusterCount l)) → post ret ram' calls') :
    Yields oracle (pmtFormat l) post ram calls := by
  simp only [pmtFormat, Yields.bind, Yields.assert]
  intro _
  refine yields_pmtFormatClusters (.refl ram writes) (fun _ lt => absurd lt (Nat.not_lt_zero _)) ?_
  intro ret block page ram' calls' kept
  refine yields_onSuccess (fun success => ?_) fun failed => meets _ _ _ fun success =>
    absurd success failed
  obtain ⟨step, written⟩ := kept success
  rw [Nat.zero_add] at written
  simp only [Yields.bind, Yields.modifies, Yields.pure]
  exact meets _ _ _ fun _ => ⟨step.memory fun _ => rfl,
    written.mono (fun _ => id) fun _ _ => rfl⟩

theorem yields_bdtWrite {first : FtlRam} {before : UbiCalls D} {rounds i : Nat}
    (step : FormatStep l first before ram calls)
    (wrote : ∀ k < i, Wrote calls ram.bdtCurrentBlock (ram.bdtCurrentPage + k)
      (.dirtyCounts (bdtPage l k ram.blockDirtyTable)))
    (meets : ∀ ret calls', (ret = .success → FormatStep l first before ram calls' ∧
      ∀ k < i + rounds, Wrote calls' ram.bdtCurrentBlock (ram.bdtCurrentPage + k)
        (.dirtyCounts (bdtPage l k ram.blockDirtyTable))) → post ret ram calls') :
    Yields oracle (bdtWrite l rounds i) post ram calls := by
  induction rounds generalizing i calls with
  | zero => exact Yields.pure.mpr (meets _ _ fun _ => ⟨step, wrote⟩)
  | succ rounds ih =>
      have next : i + (rounds + 1) = i + 1 + rounds := by omega
      rw [next] at meets
      simp only [bdtWrite, Yields.bind, Yields.get, ubiWrite, Yields.perform]
      generalize oracle _ (.write _ _ _ _ _) = answer
      refine yields_onSuccess (fun success => ?_) fun failed => meets _ _ fun success =>
        absurd success failed
      subst success
      refine ih step.write (fun k lt => ?_) meets
      rcases Nat.lt_or_eq_of_le (Nat.le_of_lt_succ lt) with lower | rfl
      · exact (wrote k lower).mono (List.subset_cons_self _ _)
      · exact wrote_head

/-- The nodes of the clusters stay where they are. -/
abbrev SameNodes (ram ram' : FtlRam) : Prop :=
  ram'.rootTable.pageMappingNodes = ram.rootTable.pageMappingNodes

theorem yields_bdtFormat (writes : WritesSucceeded calls)
    (meets : ∀ ret ram' calls', (ret = .success → FormatStep l ram calls ram' calls' ∧
      SameNodes ram ram' ∧ ∃ counts, ∀ i < l.bdtPageCount,
        Wrote calls' Layout.bdtBlock0 i (.dirtyCounts (bdtPage l i counts))) →
          post ret ram' calls') :
    Yields oracle (bdtFormat l) post ram calls := by
  simp only [bdtFormat, Yields.bind, Yields.modifies, ubiErase, Yields.perform]
  refine yields_onSuccess (fun _ => ?_) fun failed => meets _ _ _ fun success =>
    absurd success failed
  simp only [bdtCommit, turnLog, setBdtCursor, zero_ne_pages l, if_false, Yields.bind, Yields.get,
    Yields.pure, onSuccess_success]
  generalize oracle calls (.erase Layout.bdtBlock0 Layout.bdtBlock0) = answer
  have start : FormatStep l ram calls ram
      (⟨.erase Layout.bdtBlock0 Layout.bdtBlock0, answer⟩ :: calls) :=
    (FormatStep.refl ram writes).erase (by decide)
  refine yields_bdtWrite (start.memory fun _ => rfl) (fun k lt => absurd lt (Nat.not_lt_zero k)) ?_
  intro ret calls' kept
  refine yields_onSuccess (fun success => ?_) fun failed => meets _ _ _ fun success =>
    absurd success failed
  obtain ⟨step, wrote⟩ := kept success
  simp only [Nat.zero_add] at wrote
  simp only [Yields.bind, Yields.modifies, Yields.pure]
  exact meets _ _ _ fun _ => ⟨step.memory fun _ => rfl, rfl, _, wrote⟩

theorem yields_rootFormat (writes : WritesSucceeded calls)
    (meets : ∀ ret ram' calls', (ret = .success → FormatStep l ram calls ram' calls' ∧
      SameNodes ram ram' ∧ Wrote calls' Layout.rootBlock0 0 (.root ram'.rootTable)) →
        post ret ram' calls') :
    Yields oracle (rootFormat l) post ram calls := by
  simp only [rootFormat, Yields.bind, Yields.modifies, ubiErase, Yields.perform]
  refine yields_onSuccess (fun _ => ?_) fun failed => meets _ _ _ fun success =>
    absurd success failed
  simp only [rootCommit, turnLog, setRootCursor, zero_ne_pages l, if_false, Yields.bind, Yields.get,
    Yields.pure, onSuccess_success, Yields.modifies, ubiWrite, Yields.perform]
  generalize oracle _ (.write _ _ _ _ _) = answer
  refine yields_onSuccess (fun success => ?_) fun failed => meets _ _ _ fun success =>
    absurd success failed
  subst success
  simp only [Yields.bind, Yields.modifies, Yields.pure]
  refine meets _ _ _ fun _ => ⟨?_, rfl, wrote_head⟩
  exact (((FormatStep.refl ram writes).erase (by decide)).write).memory fun _ => rfl

end Tables

/-! ## The whole format -/

/-- All pages of the tables are written. -/
structure TablesWritten (l : Layout) (ram : FtlRam) (calls : UbiCalls D) : Prop where
  writes : WritesSucceeded calls
  hdi : ∃ values, Wrote calls Layout.hdiBlock0 0 (.hotHash values)
  nodes : NodesWritten l ram calls (pmtClusterCount l)
  bdt : ∃ counts, ∀ i < l.bdtPageCount,
    Wrote calls Layout.bdtBlock0 i (.dirtyCounts (bdtPage l i counts))
  root : Wrote calls Layout.rootBlock0 0 (.root ram.rootTable)

/-- Every hot, cold and reclaim journal names a block whose erase was successful. -/
def JournalsErased (l : Layout) (ram : FtlRam) (calls : UbiCalls D) : Prop :=
  ∀ i < 3 * l.journalBlockCount, Erased calls (PmNode.block l.g (journalEntry l ram i))

/-- The format has erased and set the first `k` journals. -/
structure FirstSet (l : Layout) (old ram : FtlRam) (calls : UbiCalls D) (k : Nat) : Prop where
  entries : ∀ i < 3 * l.journalBlockCount, journalEntry l ram i =
    if i < k then PmNode.setBlockPage l.g (l.dataStartBlock + i) 0 else journalEntry l old i
  erased : ∀ block, l.dataStartBlock ≤ block →
    (Erased calls block ↔ block < l.dataStartBlock + k)

section Format

variable {oracle : UbiOracle D} {ram : FtlRam} {calls : UbiCalls D}

theorem FirstSet.step {old ram' : FtlRam} {calls' : UbiCalls D} {k : Nat}
    (first : FirstSet l old ram calls k) (step : FormatStep l ram calls ram' calls') :
    FirstSet l old ram' calls' k :=
  ⟨fun i isEntry => (step.entries i).trans (first.entries i isEntry),
    fun block behind => (step.erased block behind).trans (first.erased block behind)⟩

theorem JournalsSet.first {old : FtlRam} {n block k : Nat} {ret : Status}
    (journals : JournalsSet l old n block ret ram calls k) : FirstSet l old ram calls k :=
  ⟨journals.entries, fun block behind => (journals.erased block).trans (and_iff_right behind)⟩

/-- A format that succeeds has set some of the journals, and has written all tables. -/
theorem yields_ftlFormat :
    Yields oracle (ftlFormat l) (fun ret ram' calls' => ret = .success →
      TablesWritten l ram' calls' ∧ ∃ k, FirstSet l ram ram' calls' k) ram ([] : UbiCalls D) := by
  have stops : ∀ {ret : Status} {goal : Prop}, ret ≠ .success → ret = .success → goal :=
    fun failed success => absurd success failed
  simp only [ftlFormat, Yields.bind, ubiFormat, Yields.perform]
  generalize oracle [] .format = ret
  by_cases success : ret = .success; swap
  · simp only [onSuccess_other success, Yields.pure]
    exact stops success
  subst success
  simp only [onSuccess_success, ubiInit, Yields.perform]
  generalize oracle _ .init = ret
  by_cases success : ret = .success; swap
  · simp only [onSuccess_other success, Yields.pure]
    exact stops success
  subst success
  have none : ∀ block, ¬ Erased ([⟨.init, Status.success⟩, ⟨.format, Status.success⟩] :
      UbiCalls D) block := by
    rintro block ⟨_, member⟩
    simp at member
  have writes : WritesSucceeded ([⟨.init, Status.success⟩, ⟨.format, Status.success⟩] :
      UbiCalls D) := by
    intro _ _ _ _ _ _ member
    simp at member
  rw [onSuccess_success]
  refine yields_dataFormat writes none fun block last ram₁ calls₁ k journals => ?_
  rw [onSuccess_success]
  refine yields_hdiFormat journals.writes fun ret ram₂ calls₂ kept => ?_
  by_cases success : ret = .success; swap
  · simp only [onSuccess_other success, Yields.pure]
    exact stops success
  obtain ⟨step₂, values, hdi⟩ := kept success
  rw [success, onSuccess_success]
  refine yields_pmtFormat step₂.writes fun ret ram₃ calls₃ kept => ?_
  by_cases success : ret = .success; swap
  · simp only [onSuccess_other success, Yields.pure]
    exact stops success
  obtain ⟨step₃, nodes⟩ := kept success
  rw [success, onSuccess_success]
  refine yields_bdtFormat step₃.writes fun ret ram₄ calls₄ kept => ?_
  by_cases success : ret = .success; swap
  · simp only [onSuccess_other success, Yields.pure]
    exact stops success
  obtain ⟨step₄, sameNodes₄, counts, bdt⟩ := kept success
  rw [success, onSuccess_success]
  refine yields_rootFormat step₄.writes fun ret ram₅ calls₅ kept success => ?_
  obtain ⟨step₅, sameNodes₅, root⟩ := kept success
  have behindPmt := step₄.trans step₅
  refine ⟨?_, k, journals.first.step ((step₂.trans step₃).trans behindPmt)⟩
  exact
    { writes := step₅.writes
      hdi := ⟨values, hdi.mono (step₃.trans behindPmt).more⟩
      nodes := nodes.mono behindPmt.more fun cluster _ =>
        congrFun (sameNodes₅.trans sameNodes₄) cluster
      bdt := ⟨counts, fun i lt => (bdt i lt).mono step₅.more⟩
      root := root }

/-- The journals are on blocks that a word can hold. -/
structure JournalWords (l : Layout) : Prop where
  fits : l.Fits
  room : l.dataStartBlock + 3 * l.journalBlockCount ≤ l.capacity

theorem FirstSet.journalsErased_iff {old : FtlRam} {k : Nat} (words : JournalWords l)
    (first : FirstSet l old ram calls k) :
    JournalsErased l ram calls ↔
      ∀ i < 3 * l.journalBlockCount, Erased calls (l.dataStartBlock + i) ∨
        Erased calls (PmNode.block l.g (journalEntry l old i)) := by
  refine forall_congr' fun i => imp_congr_right fun isEntry => ?_
  have isErased := first.erased (l.dataStartBlock + i) (Nat.le_add_right _ _)
  rw [first.entries i isEntry]
  split
  · rename_i isSet
    have inside : l.dataStartBlock + i < l.capacity + 2 := by
      have := words.room
      omega
    rw [words.fits.block_word inside l.g.pagePerPhyBlock_pos]
    exact iff_of_true (isErased.mpr (by omega)) (.inl (isErased.mpr (by omega)))
  · refine (or_iff_right fun erased => ?_).symm
    have := isErased.mp erased
    omega

end Format

/-! ## Mounts -/

section Mount

variable {oracle : UbiOracle D} {ram ram' : FtlRam} {calls calls' : UbiCalls D}

/-- One step after another, as long as they succeed. -/
def chain : Status → List (FtlCode D Status) → FtlCode D Status
  | ret, [] => pure ret
  | ret, step :: rest => do
      let ret ← onSuccess ret step
      chain ret rest

/-- The steps run one after another, and each one returns a success. -/
def StepsSucceed (oracle : UbiOracle D) : List (FtlCode D Status) → FtlRam → UbiCalls D →
    FtlRam → UbiCalls D → Prop
  | [], ram, calls, ram', calls' => ram = ram' ∧ calls = calls'
  | step :: rest, ram, calls, ram', calls' => ∃ middle between,
      (step.run ram).exec oracle.machine calls = .ok ((.success, middle), between) ∧
        StepsSucceed oracle rest middle between ram' calls'

theorem chain_other {ret : Status} (failed : ret ≠ .success) (steps : List (FtlCode D Status)) :
    chain ret steps = pure ret := by
  induction steps with
  | nil => rfl
  | cons step rest ih => rw [chain, onSuccess_other failed, pure_bind, ih]

theorem chain_success_cons (step : FtlCode D Status) (rest : List (FtlCode D Status)) :
    chain .success (step :: rest) = step >>= fun ret => chain ret rest := by
  rw [chain, onSuccess_success]

theorem onSuccess_chain (ret : Status) (step : FtlCode D Status) (rest : List (FtlCode D Status)) :
    onSuccess ret (step >>= fun ret => chain ret rest) = chain ret (step :: rest) := by
  by_cases success : ret = .success
  · rw [success, onSuccess_success, chain_success_cons]
  · rw [onSuccess_other success, chain_other success]

theorem chain_append (ret : Status) (first second : List (FtlCode D Status)) :
    (chain ret first >>= fun ret => chain ret second) = chain ret (first ++ second) := by
  induction first generalizing ret with
  | nil => exact pure_bind _ _
  | cons step rest ih =>
      simp only [chain, bind_assoc, List.cons_append]
      congr 1
      funext ret
      exact ih ret

theorem exec_chain {ret : Status} {steps : List (FtlCode D Status)} :
    ((chain ret steps).run ram).exec oracle.machine calls = .ok ((.success, ram'), calls') ↔
      ret = .success ∧ StepsSucceed oracle steps ram calls ram' calls' := by
  induction steps generalizing ret ram calls with
  | nil =>
      constructor
      · intro run
        cases run
        exact ⟨rfl, rfl, rfl⟩
      · rintro ⟨rfl, rfl, rfl⟩
        rfl
  | cons step rest ih =>
      by_cases success : ret = .success
      · subst success
        rw [chain_success_cons, Code.exec_bind_eq_ok]
        constructor
        · rintro ⟨ret, middle, between, run, later⟩
          obtain ⟨rfl, succeed⟩ := ih.mp later
          exact ⟨rfl, middle, between, run, succeed⟩
        · rintro ⟨_, middle, between, run, succeed⟩
          exact ⟨_, middle, between, run, ih.mpr ⟨rfl, succeed⟩⟩
      · rw [chain_other success]
        refine iff_of_false (fun run => ?_) fun wrong => success wrong.1
        cases run
        exact success rfl

/-- The steps of `FTL_Init` up to the replay of the journals. -/
def replaySteps (l : Layout) (fuel : Nat) : List (FtlCode D Status) :=
  [ubiInit, rootInit l, bdtInit l, pmtInit l, hdiInit l, dataReplay l fuel true,
    dataReplay l fuel false]

/-- The steps of `FTL_Init`; the last two do nothing unless the journals are full. -/
def initSteps (l : Layout) (fuel : Nat) : List (FtlCode D Status) :=
  replaySteps l fuel ++ [reclaimIfFull l fuel true .success, reclaimIfFull l fuel false .success]

theorem ftlInit_eq_chain (fuel : Nat) :
    (ftlInit l fuel : FtlCode D Status) = chain .success (replaySteps l fuel) >>= fun ret =>
      onSuccess ret (reclaimIfFull l fuel true ret >>= reclaimIfFull l fuel false) := by
  have tables : (ftlInitTables l : FtlCode D Status) =
      rootInit l >>= fun ret => chain ret [bdtInit l, pmtInit l, hdiInit l] := by
    simp only [ftlInitTables, chain, bind_pure]
  have nested := fun ret => onSuccess_chain (D := D) ret (rootInit l) [bdtInit l, pmtInit l,
    hdiInit l]
  rw [ftlInit, tables]
  simp only [nested]
  simp only [chain, bind_assoc, replaySteps, onSuccess_success, pure_bind]

/-- The reclaim of the hot journals, or the commit behind it, has failed, but the cold journals
are all full as well, and their reclaim and commit succeed. -/
def HotFailureDropped (l : Layout) (fuel : Nat) (oracle : UbiOracle D) (ram : FtlRam)
    (calls : UbiCalls D) : Prop :=
  ∃ ram₁ calls₁ ret ram₂ calls₂ ram₃ calls₃,
    StepsSucceed oracle (replaySteps l fuel) ram calls ram₁ calls₁ ∧
    ((reclaimIfFull l fuel true .success).run ram₁).exec oracle.machine calls₁ =
      .ok ((ret, ram₂), calls₂) ∧ ret ≠ .success ∧
    dataIsFull l false ram₂ = true ∧
    ((reclaimIfFull l fuel false .success).run ram₂).exec oracle.machine calls₂ =
      .ok ((.success, ram₃), calls₃)

theorem reclaimIfFull_full {fuel : Nat} {hot : Bool} (full : dataIsFull l hot ram = true)
    (ret : Status) : ((reclaimIfFull l fuel hot ret).run ram).exec oracle.machine calls =
      ((reclaimIfFull l fuel hot .success).run ram).exec oracle.machine calls := by
  rw [reclaimIfFull, reclaimIfFull, Code.exec_bind_of_ok (Code.exec_get ram calls), if_pos full,
    Code.exec_bind_of_ok (Code.exec_get ram calls), if_pos full]

theorem reclaimIfFull_room {fuel : Nat} {hot : Bool} (room : ¬ dataIsFull l hot ram = true)
    (ret : Status) : ((reclaimIfFull l fuel hot ret).run ram).exec oracle.machine calls =
      .ok ((ret, ram), calls) := by
  rw [reclaimIfFull, Code.exec_bind_of_ok (Code.exec_get ram calls), if_neg room]
  rfl

theorem stepsSucceed_append {first second : List (FtlCode D Status)} :
    StepsSucceed oracle (first ++ second) ram calls ram' calls' ↔
      ∃ middle between, StepsSucceed oracle first ram calls middle between ∧
        StepsSucceed oracle second middle between ram' calls' := by
  induction first generalizing ram calls with
  | nil =>
      constructor
      · exact fun succeed => ⟨ram, calls, ⟨rfl, rfl⟩, succeed⟩
      · rintro ⟨_, _, ⟨rfl, rfl⟩, succeed⟩
        exact succeed
  | cons step rest ih =>
      constructor
      · rintro ⟨ram₁, calls₁, run, later⟩
        obtain ⟨middle, between, first, second⟩ := ih.mp later
        exact ⟨middle, between, ⟨ram₁, calls₁, run, first⟩, second⟩
      · rintro ⟨middle, between, ⟨ram₁, calls₁, run, first⟩, second⟩
        exact ⟨ram₁, calls₁, run, ih.mpr ⟨middle, between, first, second⟩⟩

/-- Behind the replays, a mount runs the two reclaims. -/
theorem exec_ftlInit {fuel : Nat} {ret : Status}
    (run : ((ftlInit l fuel).run ram).exec oracle.machine calls = .ok ((ret, ram'), calls')) :
    ((¬ ∃ ram₁ calls₁, StepsSucceed oracle (replaySteps l fuel) ram calls ram₁ calls₁) ∧
        ret ≠ .success) ∨
      ∃ ram₁ calls₁ hot ram₂ calls₂,
        StepsSucceed oracle (replaySteps l fuel) ram calls ram₁ calls₁ ∧
        ((reclaimIfFull l fuel true .success).run ram₁).exec oracle.machine calls₁ =
          .ok ((hot, ram₂), calls₂) ∧
        ((reclaimIfFull l fuel false hot).run ram₂).exec oracle.machine calls₂ =
          .ok ((ret, ram'), calls') := by
  rw [ftlInit_eq_chain] at run
  obtain ⟨replayed, ram₁, calls₁, chained, rest⟩ := Code.exec_bind_eq_ok.mp run
  by_cases success : replayed = .success
  · subst success
    rw [onSuccess_success] at rest
    obtain ⟨hot, ram₂, calls₂, first, second⟩ := Code.exec_bind_eq_ok.mp rest
    exact .inr ⟨ram₁, calls₁, hot, ram₂, calls₂, (exec_chain.mp chained).2, first, second⟩
  · rw [onSuccess_other success] at rest
    cases rest
    refine .inl ⟨?_, success⟩
    rintro ⟨ram₂, calls₂, succeed⟩
    rw [exec_chain.mpr ⟨rfl, succeed⟩] at chained
    cases chained
    exact success rfl

theorem StepsSucceed.unique {steps : List (FtlCode D Status)} {ram₁ ram₂ : FtlRam}
    {calls₁ calls₂ : UbiCalls D} (first : StepsSucceed oracle steps ram calls ram₁ calls₁)
    (second : StepsSucceed oracle steps ram calls ram₂ calls₂) : ram₁ = ram₂ ∧ calls₁ = calls₂ := by
  have run := exec_chain.mpr ⟨rfl, first⟩
  rw [exec_chain.mpr ⟨rfl, second⟩] at run
  cases run
  exact ⟨rfl, rfl⟩

/-- `FTL_Init` hands back a success only if all of its steps do, exactly if the failure of the
hot journals is not dropped. -/
theorem ftlInit_honest_iff {fuel : Nat} {ret : Status}
    (run : ((ftlInit l fuel).run ram).exec oracle.machine calls = .ok ((ret, ram'), calls')) :
    (ret = .success → StepsSucceed oracle (initSteps l fuel) ram calls ram' calls') ↔
      ¬ HotFailureDropped l fuel oracle ram calls := by
  rcases exec_ftlInit run with ⟨never, failed⟩ | ⟨ram₁, calls₁, hot, ram₂, calls₂, replayed,
    first, second⟩
  · refine iff_of_true (fun success => absurd success failed) ?_
    rintro ⟨ram₁, calls₁, _, _, _, _, _, replayed, _⟩
    exact never ⟨ram₁, calls₁, replayed⟩
  · constructor
    · rintro honest ⟨ram₁', calls₁', hot', ram₂', calls₂', ram₃, calls₃, replayed', first', failed,
        full, second'⟩
      obtain ⟨rfl, rfl⟩ := replayed.unique replayed'
      rw [first] at first'
      cases first'
      rw [reclaimIfFull_full full, second'] at second
      cases second
      obtain ⟨middle, between, replayed'', steps⟩ := stepsSucceed_append.mp (honest rfl)
      obtain ⟨rfl, rfl⟩ := replayed.unique replayed''
      obtain ⟨_, _, succeeds, _⟩ := steps
      rw [first] at succeeds
      cases succeeds
      exact failed rfl
    · intro kept success
      subst success
      by_cases failed : hot = .success
      · subst failed
        exact stepsSucceed_append.mpr ⟨ram₁, calls₁, replayed, ram₂, calls₂, first, ram', calls',
          second, rfl, rfl⟩
      · by_cases full : dataIsFull l false ram₂ = true
        · rw [reclaimIfFull_full full] at second
          exact absurd ⟨ram₁, calls₁, hot, ram₂, calls₂, ram', calls', replayed, first,
            failed, full, second⟩ kept
        · rw [reclaimIfFull_room full] at second
          cases second
          exact absurd rfl failed

end Mount

/-! ## Formats and mounts -/

/-- A format hands back a success only if all journals are erased and all tables are written,
exactly if each journal whose erase has failed named before a block that the format has
erased.  A mount hands back a success only if all of its steps do, exactly if the failure of
the hot journals is not dropped. -/
theorem formatAndInit_honest_iff (words : JournalWords l) (oracle : UbiOracle D) :
    (∀ ram ram' calls', ((ftlFormat l).run ram).exec oracle.machine [] =
        .ok ((.success, ram'), calls') →
      (JournalsErased l ram' calls' ∧ TablesWritten l ram' calls' ↔
        ∀ i < 3 * l.journalBlockCount, Erased calls' (l.dataStartBlock + i) ∨
          Erased calls' (PmNode.block l.g (journalEntry l ram i)))) ∧
    ∀ fuel ret ram ram' calls', ((ftlInit l fuel).run ram).exec oracle.machine [] =
        .ok ((ret, ram'), calls') →
      ((ret = .success → StepsSucceed oracle (initSteps l fuel) ram [] ram' calls') ↔
        ¬ HotFailureDropped l fuel oracle ram []) := by
  refine ⟨fun ram ram' calls' run => ?_, fun fuel ret ram ram' calls' => ftlInit_honest_iff⟩
  have formatted : Yields oracle (ftlFormat l) (fun ret ram' calls' => ret = .success →
      TablesWritten l ram' calls' ∧ ∃ k, FirstSet l ram ram' calls' k) ram [] := yields_ftlFormat
  obtain ⟨tables, k, first⟩ := formatted.of_run run rfl
  rw [and_iff_left tables]
  exact first.journalsErased_iff words

/-- The test of `Erased`. -/
def erasedIn (calls : UbiCalls D) (block : Nat) : Bool :=
  calls.any fun call =>
    match call with
    | ⟨.erase other _, (ret : Status)⟩ => decide (other = block ∧ ret = .success)
    | _ => false

theorem erasedIn_iff {calls : UbiCalls D} {block : Nat} :
    erasedIn calls block = true ↔ Erased calls block := by
  rw [erasedIn, List.any_eq_true]
  constructor
  · rintro ⟨⟨op, answer⟩, member, test⟩
    cases op with
    | erase other dieIndex =>
        obtain ⟨rfl, rfl⟩ := of_decide_eq_true test
        exact ⟨dieIndex, member⟩
    | _ => exact absurd test Bool.false_ne_true
  · rintro ⟨dieIndex, member⟩
    exact ⟨_, member, decide_eq_true ⟨rfl, rfl⟩⟩

/-- The erases of a block fail, and no page can be read. -/
def failsErase (bad : Nat) : UbiOracle Nat := fun _ op =>
  match op with
  | .format => .success
  | .init => .success
  | .read _ _ => ⟨.failure, .ones, .ones⟩
  | .write _ _ _ _ _ => .success
  | .erase block _ => if block = bad then .failure else .success
  | .flush => .success
  | .swl => .success
  | .readStatus _ => .success

theorem journalWords_simLayout : JournalWords (simLayout 0x10000) :=
  ⟨⟨by decide, by decide, by decide⟩, by decide⟩

/-- The static variables behind runs in which block 11 has become the last reclaim journal. -/
def reclaimsBlock11 : FtlRam :=
  setReclaimJournal 7 (PmNode.setBlockPage simNand 11 0) .reset

/-- The erase for the last reclaim journal fails.  The journal keeps its block, which is erased
as the first hot journal. -/
theorem ftlFormat_honest_simLayout :
    ∃ ram calls, ((ftlFormat (simLayout 0x10000)).run reclaimsBlock11).exec
        (failsErase 34).machine [] = .ok ((.success, ram), calls) ∧
      ¬ Erased calls ((simLayout 0x10000).dataStartBlock + 23) ∧
      JournalsErased (simLayout 0x10000) ram calls ∧
        TablesWritten (simLayout 0x10000) ram calls := by
  have run : Code.returns (((ftlFormat (simLayout 0x10000)).run reclaimsBlock11).exec
      (failsErase 34).machine []) (fun ret _ calls =>
        decide (ret = .success ∧ erasedIn calls
          ((simLayout 0x10000).dataStartBlock + 23) = false) &&
        (List.range 24).all fun i => erasedIn calls ((simLayout 0x10000).dataStartBlock + i) ||
          erasedIn calls (PmNode.block simNand
            (journalEntry (simLayout 0x10000) reclaimsBlock11 i))) = true := by
    set_option maxRecDepth 100000 in decide +kernel
  obtain ⟨_, ram, calls, format, test⟩ := Code.returns_iff.mp run
  obtain ⟨facts, erased⟩ := Bool.and_eq_true_iff.mp test
  obtain ⟨rfl, unerased⟩ := of_decide_eq_true facts
  have honest := (formatAndInit_honest_iff journalWords_simLayout _).1 _ _ _ format
  refine ⟨ram, calls, format, fun isErased => ?_, honest.mpr fun i isEntry => ?_⟩
  · rw [erasedIn_iff.mpr isErased] at unerased
    exact Bool.noConfusion unerased
  · have either := List.all_eq_true.mp erased i (List.mem_range.mpr isEntry)
    rcases Bool.or_eq_true_iff.mp either with own | kept
    · exact .inl (erasedIn_iff.mp own)
    · exact .inr (erasedIn_iff.mp kept)

/-- The root table in memory is blank, as a failed mount of a blank device leaves it.  The
erase for the first journal fails, and the format succeeds with a journal that is no block
of the device. -/
theorem ftlFormat_hides_failedErase :
    ∃ ram calls, ((ftlFormat (simLayout 0x10000)).run (setRoot .blank .reset)).exec
        (failsErase 11).machine [] = .ok ((.success, ram), calls) ∧
      (simLayout 0x10000).capacity ≤ PmNode.block simNand (ram.rootTable.hotJournal 0) ∧
      ¬ (JournalsErased (simLayout 0x10000) ram calls ∧
        TablesWritten (simLayout 0x10000) ram calls) := by
  have run : Code.returns (((ftlFormat (simLayout 0x10000)).run (setRoot .blank .reset)).exec
      (failsErase 11).machine []) (fun ret ram calls => decide (ret = .success ∧
        (simLayout 0x10000).capacity ≤ PmNode.block simNand (ram.rootTable.hotJournal 0) ∧
        erasedIn calls (PmNode.block simNand (ram.rootTable.hotJournal 0)) = false)) = true := by
    set_option maxRecDepth 100000 in decide +kernel
  obtain ⟨_, ram, calls, format, test⟩ := Code.returns_iff.mp run
  obtain ⟨rfl, outside, unerased⟩ := of_decide_eq_true test
  refine ⟨ram, calls, format, outside, fun written => ?_⟩
  have erased := erasedIn_iff.mpr (written.1 0 (by decide))
  exact absurd (erased.symm.trans unerased) Bool.noConfusion

end OpenNfm.Ftl
