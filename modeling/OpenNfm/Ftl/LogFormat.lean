import OpenNfm.Ftl.LogMount

/-!
# Formats

A format of erased blocks writes the first entry of each log.
-/

namespace OpenNfm.Ftl

open OpenNfm.Program

variable {l : Layout} {D : Type}

/-- A pair of blocks is erased. -/
def BlankPair (store : UbiStore D) (pair : Nat) : Prop :=
  ∀ block, InPair pair block → ∀ page, store.pages block page = none

theorem BlankPair.within {store after : UbiStore D} {inside : Nat → Prop} {pair : Nat}
    (blank : BlankPair store pair) (within : WithinBlocks inside store after)
    (outside : ∀ block, InPair pair block → ¬ inside block) : BlankPair after pair := by
  intro block inPair page
  rw [within.pages block (outside block inPair)]
  exact blank block inPair page

theorem BlankPair.erase {store : UbiStore D} {pair : Nat} (blank : BlankPair store pair)
    (block : Nat) : BlankPair (store.erase block) pair := by
  intro other inPair page
  by_cases same : other = block
  · rw [same]
    exact store.pages.erase_same block page
  · exact (Nand.erase_other _ _ same).trans (blank other inPair page)

/-- An erased log has room for its first entry. -/
theorem BlankPair.room {store : UbiStore D} {step pair block : Nat} (blank : BlankPair store pair)
    (inPair : InPair pair block) :
    Room store.pages l.pagePerPhyBlock step pair block 0 := by
  have pos := l.g.pagePerPhyBlock_pos
  have notFull : 0 ≠ l.pagePerPhyBlock := Nat.ne_of_lt pos
  refine ⟨inPair, ?_, ?_, ?_⟩ <;> simp only [nextPlace, notFull, if_false]
  · exact Nat.dvd_zero step
  · exact pos
  · exact fun page _ _ => blank block inPair page

/-- The variables that the code of the dirty counts does not touch. -/
def FtlRam.besidesBdt (ram : FtlRam) : FtlRam :=
  { ram with
    rootTable := { ram.rootTable with bdtCurrentJournal := 0 }
    bdtCurrentBlock := 0
    bdtCurrentPage := 0 }

section Format

variable {ram : FtlRam} {store : UbiStore D} {fuel : Nat}

/-- Behind the tables of the logs. -/
abbrev Behind (block : Nat) : Prop := Layout.pmtStartBlock ≤ block

theorem not_past {pair block : Nat} (inPair : InPair pair block) (isTable : pair < 3) :
    ¬ Behind block := by
  intro first
  have same : block / 2 = pair := inPair
  unfold Behind Layout.pmtStartBlock at first
  omega

/-- The data blocks and the blocks behind them. -/
abbrev FromData (l : Layout) (block : Nat) : Prop := l.dataStartBlock ≤ block

/-- The format of journals writes data blocks, and counts nothing elsewhere. -/
structure DataFormatted (l : Layout) (earlier : FtlRam) (before : UbiStore D) (ram : FtlRam)
    (store : UbiStore D) : Prop where
  counts : ∀ block < l.dataStartBlock, ram.blockDirtyTable block = earlier.blockDirtyTable block
  within : WithinBlocks (FromData l) before store

theorem onReturn_dataFormatBlocks {earlier : FtlRam} {before : UbiStore D}
    {set : Nat → Nat → FtlRam → FtlRam} {rounds j block : Nat} {ret : Status}
    {post : Nat × Status → FtlRam → UbiStore D → Prop} (fromData : FromData l block)
    (kept : DataFormatted l earlier before ram store)
    (journals : ∀ j word ram, (set j word ram).blockDirtyTable = ram.blockDirtyTable)
    (meets : ∀ block ret ram' after, FromData l block →
      DataFormatted l earlier before ram' after → post (block, ret) ram' after) :
    OnReturn l (dataFormatBlocks l set rounds j block ret) post ram store := by
  induction rounds generalizing j block ret ram store with
  | zero => exact OnReturn.pure.mpr (meets _ _ _ _ fromData kept)
  | succ rounds ih =>
      have rest : ∀ ret after, DataFormatted l earlier before ram after →
          OnReturn l (if ret = .success then do
              modify fun ram => setDirtyCount block 0 (set j (PmNode.setBlockPage l.g block 0) ram)
              dataFormatBlocks l set rounds (j + 1) (block + 1) ret
            else dataFormatBlocks l set rounds (j + 1) block ret) post ram after := by
        intro ret after kept'
        split
        · rw [OnReturn.bind, OnReturn.modifies]
          refine ih (Nat.le_succ_of_le fromData) ⟨fun other isOther => ?_, kept'.within⟩
          have same : setDirtyCount block 0 (set j (PmNode.setBlockPage l.g block 0) ram) =
            { set j (PmNode.setBlockPage l.g block 0) ram with
              blockDirtyTable := Function.update
                (set j (PmNode.setBlockPage l.g block 0) ram).blockDirtyTable block 0 } := rfl
          rw [same]
          dsimp only
          rw [journals, Function.update_of_ne (Nat.ne_of_lt (Nat.lt_of_lt_of_le isOther fromData))]
          exact kept'.counts other isOther
        · exact ih fromData kept'
      rw [dataFormatBlocks, OnReturn.bind]
      refine OnReturn.onSuccess (fun success => ?_) fun _ => rest _ _ kept
      exact OnReturn.erase fun _ => rest _ _ ⟨kept.counts, kept.within.erase fromData⟩

/-- The table counts the pages of all blocks as dirty, but for those of the journals. -/
theorem onReturn_dataFormat {post : Status → FtlRam → UbiStore D → Prop}
    (meets : ∀ ram' after,
      (∀ block < l.dataStartBlock, block < l.g.cfgLogBlockCount →
        ram'.blockDirtyTable block = l.maxDirtyPages) →
      WithinBlocks (FromData l) store after → post .success ram' after) :
    OnReturn l (dataFormat l) post ram store := by
  have hot : ∀ (hot : Bool) j word ram,
      (setJournal hot j word ram).blockDirtyTable = ram.blockDirtyTable := fun _ _ _ _ => rfl
  rw [dataFormat, OnReturn.bind, OnReturn.modifies, OnReturn.bind]
  refine onReturn_dataFormatBlocks (Nat.le_refl l.dataStartBlock) ⟨fun _ _ => rfl, .refl _ _⟩
    (hot true) fun block ret ram' after fromData kept => ?_
  rw [OnReturn.bind]
  refine onReturn_dataFormatBlocks fromData kept (hot false)
    fun block ret ram' after fromData kept => ?_
  rw [OnReturn.bind]
  refine onReturn_dataFormatBlocks fromData kept (fun _ _ _ => rfl)
    fun block ret ram' after _ kept => ?_
  refine OnReturn.pure.mpr (meets ram' after (fun block isTable isBlock => ?_) kept.within)
  rw [kept.counts block isTable]
  exact if_pos isBlock

theorem onReturn_hdiFormat {post : Status → FtlRam → UbiStore D → Prop} (fits : l.Fits)
    (blank : BlankPair store 2)
    (meets : ∀ ram' after, NextHdi l ram' after ram'.hdiHashTable →
      ram'.blockDirtyTable = ram.blockDirtyTable → WithinBlocks (InPair 2) store after →
      post .success ram' after) :
    OnReturn l (hdiFormat l) post ram store := by
  have inPair : InPair 2 Layout.hdiBlock0 := by decide
  simp only [hdiFormat, OnReturn, Code.spec_bind, Code.spec_modify]
  refine ⟨trivial, trivial, returns_ubiErase trivial fun _ => ⟨trivial, ?_⟩⟩
  have erased : WithinBlocks (InPair 2) store (store.erase Layout.hdiBlock0) :=
    (WithinBlocks.refl _ store).erase inPair
  have space : Room (store.erase Layout.hdiBlock0).pages l.pagePerPhyBlock 1 2
      Layout.hdiBlock0 0 := (blank.erase _).room inPair
  rw [onSuccess_success]
  refine spec_hdiCommit fits space trivial (fun _ _ _ _ => trivial) fun after wrote => ?_
  exact meets _ after (nextHdi_wrote fits space wrote) rfl (erased.trans wrote.within)

/-! ## The page mapping table -/

/-- The page mapping table is written, and nothing else. -/
structure PmtFormatted (l : Layout) (earlier : FtlRam) (before : UbiStore D) (ram : FtlRam)
    (store : UbiStore D) : Prop where
  besides : ram.besidesPmt = earlier.besidesPmt
  within : WithinBlocks Behind before store

variable {earlier : FtlRam} {before : UbiStore D}

theorem onReturn_pmtFormatNode {cluster block page : Nat}
    {post : Status → FtlRam → UbiStore D → Prop}
    (kept : PmtFormatted l earlier before ram store) (behind : Behind block)
    (meets : ∀ ret ram' after, block < l.capacity → PmtFormatted l earlier before ram' after →
      post ret ram' after) :
    OnReturn l (pmtFormatNode l cluster block page) post ram store := by
  simp only [pmtFormatNode, OnReturn, Code.spec_bind]
  refine returns_ubiWrite trivial fun isBlock _ _ => ⟨trivial, ?_⟩
  simp only [onSuccess_success, Code.spec_bind, Code.spec_modify, Code.spec_pure]
  exact ⟨trivial, trivial, meets _ _ _ isBlock ⟨kept.besides, kept.within.write behind _⟩⟩

theorem onReturn_pmtFormatMeta {block : Nat} {post : Status → FtlRam → UbiStore D → Prop}
    (kept : PmtFormatted l earlier before ram store) (behind : Behind block)
    (meets : ∀ ret ram' after, block < l.capacity → PmtFormatted l earlier before ram' after →
      post ret ram' after) :
    OnReturn l (pmtFormatMeta l block) post ram store := by
  simp only [pmtFormatMeta, OnReturn, Code.spec_bind, Code.spec_get]
  refine ⟨trivial, returns_ubiWrite trivial fun isBlock _ _ => ⟨trivial, ?_⟩⟩
  simp only [onSuccess_success, Code.spec_bind, Code.spec_modify, Code.spec_pure]
  exact ⟨trivial, trivial, meets _ _ _ isBlock ⟨kept.besides, kept.within.write behind _⟩⟩

theorem onReturn_pmtFormatClusters {rounds cluster block page : Nat}
    {post : Status × Nat × Nat → FtlRam → UbiStore D → Prop}
    (kept : PmtFormatted l earlier before ram store) (behind : Behind block)
    (isBlock : block ≤ l.capacity) (isPage : page < l.pagePerPhyBlock)
    (meets : ∀ ret block page ram' after, Behind block → block ≤ l.capacity →
      page < l.pagePerPhyBlock → PmtFormatted l earlier before ram' after →
      post (ret, block, page) ram' after) :
    OnReturn l (pmtFormatClusters l rounds cluster block page) post ram store := by
  induction rounds generalizing cluster block page ram store with
  | zero => exact Code.spec_pure.mpr ⟨trivial, meets _ _ _ _ _ behind isBlock isPage kept⟩
  | succ rounds ih =>
      simp only [pmtFormatClusters, OnReturn, Code.spec_bind]
      refine onReturn_pmtFormatNode kept behind fun ret ram' after isBlock' kept' => ?_
      generalize next : (if page < l.pagePerPhyBlock - 1 then page + 1 else page) = nextPage
      have isNext : nextPage < l.pagePerPhyBlock := by
        split at next <;> omega
      split
      · exact Code.spec_pure.mpr ⟨trivial, meets _ _ _ _ _ behind isBlock isPage kept'⟩
      · split
        · exact ih kept' behind isBlock isNext
        · rw [Code.spec_bind]
          refine onReturn_pmtFormatMeta kept' behind fun ret ram' after _ kept' => ?_
          split
          · exact Code.spec_pure.mpr ⟨trivial, meets _ _ _ _ _ behind isBlock isNext kept'⟩
          · exact ih kept' (Nat.le_succ_of_le behind) isBlock' l.g.pagePerPhyBlock_pos

theorem onReturn_pmtFormat {post : Status → FtlRam → UbiStore D → Prop} (fits : l.Fits)
    (meets : ∀ ret ram' after, ram'.besidesPmt = ram.besidesPmt →
      WithinBlocks Behind store after → (ret = .success → MapsBehind l ram'.rootTable) →
      post ret ram' after) :
    OnReturn l (pmtFormat l) post ram store := by
  have pages := l.g.pagePerPhyBlock_pos
  have start : PmtFormatted l ram store ram store := ⟨rfl, .refl _ _⟩
  simp only [pmtFormat, OnReturn, Code.spec_bind, Code.spec_assert]
  refine ⟨trivial, fun _ => ?_, fun _ => trivial⟩
  refine onReturn_pmtFormatClusters start (Nat.le_refl _) fits.tables pages ?_
  intro ret block page ram' after behind isBlock isPage kept
  by_cases success : ret = .success
  · simp only [success, onSuccess_success, Code.spec_bind, Code.spec_modify, Code.spec_pure]
    refine ⟨trivial, trivial, meets _ _ _ kept.besides kept.within fun _ => ⟨?_, ?_⟩⟩
    · have word := fits.block_word (by omega : block < l.capacity + 2) isPage
      rw [startBlocks, word]
      exact ⟨behind, by omega⟩
    · have word := fits.block_word (by omega : block + 1 < l.capacity + 2) pages
      rw [startBlocks, word]
      exact ⟨Nat.le_succ_of_le behind, by omega⟩
  · rw [onSuccess_other success]
    exact Code.spec_pure.mpr ⟨trivial, meets _ _ _ kept.besides kept.within fun same =>
      absurd same success⟩

/-! ## The other logs -/

theorem onReturn_bdtFormat {post : Status → FtlRam → UbiStore D → Prop} (fits : l.Fits)
    (three : ThreeTables l) (blank : BlankPair store 0)
    (meets : ∀ ram' after, NextBdt l ram' after ram'.blockDirtyTable →
      ram'.besidesBdt = ram.besidesBdt → WithinBlocks (InPair 0) store after →
      post .success ram' after) :
    OnReturn l (bdtFormat l) post ram store := by
  have inPair : InPair 0 Layout.bdtBlock0 := by decide
  simp only [bdtFormat, OnReturn, Code.spec_bind, Code.spec_modify]
  refine ⟨trivial, returns_ubiErase trivial fun _ => ⟨trivial, ?_⟩⟩
  have erased : WithinBlocks (InPair 0) store (store.erase Layout.bdtBlock0) :=
    (WithinBlocks.refl _ store).erase inPair
  have space : Room (store.erase Layout.bdtBlock0).pages l.pagePerPhyBlock l.bdtPageCount 0
      Layout.bdtBlock0 0 := (blank.erase _).room inPair
  rw [onSuccess_success]
  refine spec_bdtCommit fits three.whole space trivial (fun _ _ _ _ => trivial)
    fun after wrote => ?_
  exact meets _ after (nextBdt_wrote fits three.pos three.whole space wrote) rfl
    (erased.trans wrote.within)

/-- The first root of all. -/
theorem rootLog_first (blank : BlankPair store 1) (unwritten : store.rootWrites = [])
    (cursor : AtRoot ram 0 Layout.rootBlock0 0) :
    RootLog l (withRoot l ram store) 0 Layout.rootBlock0 1 (sealedRoot l ram).rootTable ∧
      AtRoot (pastRoot l ram) 0 Layout.rootBlock0 1 := by
  have pos := l.g.pagePerPhyBlock_pos
  have notFull : 0 ≠ l.pagePerPhyBlock := Nat.ne_of_lt pos
  have inPair : InPair 1 ram.rootCurrentBlock := by
    rw [cursor.block]
    decide
  have space : Room store.pages l.pagePerPhyBlock 1 1 ram.rootCurrentBlock ram.rootCurrentPage := by
    rw [cursor.page]
    exact blank.room inPair
  have wrote := wrote_withRoot l store inPair
  have named := space.named (one_dvd _) Nat.one_pos wrote.step
  have target : InPair 1 (sealedRoot l ram).rootCurrentBlock := space.target
  have place : nextPlace l.pagePerPhyBlock ram.rootCurrentBlock ram.rootCurrentPage =
      (Layout.rootBlock0, 0) := by
    rw [cursor.block, cursor.page, nextPlace, if_neg notFull]
  have onBlock : (sealedRoot l ram).rootCurrentBlock = Layout.rootBlock0 := congrArg Prod.fst place
  have onPage : (sealedRoot l ram).rootCurrentPage = 0 := congrArg Prod.snd place
  have edition : (sealedRoot l ram).rootTable.rootEdition = 0 := cursor.edition
  rw [place] at named
  have entry : (withRoot l ram store).pages Layout.rootBlock0 0 =
      some (rootContent (sealedRoot l ram).rootTable 0) := named.entry 0 Nat.one_pos
  have kept : (withRoot l ram store).pages (Layout.rootBlock0 ^^^ 1) =
      store.pages (Layout.rootBlock0 ^^^ 1) :=
    wrote.step.others _ (by rw [place]; exact pair_ne _)
  have cursor' : AtRoot (pastRoot l ram) 0 Layout.rootBlock0 1 := by
    refine ⟨onBlock, congrArg (· + 1) onPage, ?_⟩
    have next : (pastRoot l ram).rootEdition = (ram.rootEdition + 1) % 2 ^ 32 := rfl
    rw [next, cursor.edition, Nat.zero_add, Nat.zero_add, Nat.zero_mod]
  refine ⟨?_, cursor'⟩
  exact
    { inPair := named.inPair
      multiple := Nat.dvd_zero _
      chain := named.chain
      roots := fun page lt => ⟨_, (by
        obtain rfl : page = 0 := by omega
        exact entry)⟩
      newest := entry
      edition := edition
      first := fun table content => by
        obtain rfl := rootContent_inj (entry.symm.trans content)
        exact edition
      older := .inl (by
        rw [kept]
        exact blank _ (by decide) 0)
      count := by
        rw [roots_withRoot target, UbiStore.roots, unwritten]
        rfl
      last := lastRoot_withRoot target }

theorem UbiStore.rootWrites_erase (store : UbiStore D) (block : Nat) :
    (store.erase block).rootWrites = store.rootWrites :=
  rfl

/-- A format of an erased device writes the first root, which names the other tables. -/
theorem onReturn_rootFormat {counts values : Nat → Nat}
    {post : Status → FtlRam → UbiStore D → Prop} (fits : l.Fits) (blank : BlankPair store 1)
    (unwritten : store.rootWrites = []) (nextHdi : NextHdi l ram store values)
    (nextBdt : NextBdt l ram store counts) (maps : MapsBehind l ram.rootTable)
    (meets : ∀ ram' after, ram'.tables = ram.tables → ram'.pmtPart = ram.pmtPart →
      RootWritten store ram' after → LogsPowered l ram' after ⟨counts, values⟩ →
      post .success ram' after) :
    OnReturn l (rootFormat l) post ram store := by
  simp only [rootFormat, OnReturn, Code.spec_bind, Code.spec_modify]
  refine ⟨trivial, returns_ubiErase trivial fun _ => ⟨trivial, ?_⟩⟩
  rw [onSuccess_success]
  generalize started : ({ setRootCursor Layout.rootBlock0 0 ram with rootEdition := 0 } : FtlRam) =
    ram₀
  have cursor : AtRoot ram₀ 0 Layout.rootBlock0 0 := by
    rw [← started]
    exact ⟨rfl, rfl, rfl⟩
  have erased : WithinBlocks (InPair 1) store (store.erase Layout.rootBlock0) :=
    (WithinBlocks.refl _ store).erase (by decide)
  obtain ⟨log, cursor'⟩ := rootLog_first (l := l) (blank.erase Layout.rootBlock0)
    (store.rootWrites_erase Layout.rootBlock0 ▸ unwritten) cursor
  have inPair : InPair 1 ram₀.rootCurrentBlock := by
    rw [cursor.block]
    decide
  have space : Room (store.erase Layout.rootBlock0).pages l.pagePerPhyBlock 1 1
      ram₀.rootCurrentBlock ram₀.rootCurrentPage := by
    rw [cursor.page]
    exact (blank.erase _).room inPair
  have within := erased.trans (wrote_withRoot l _ inPair).within
  have nextHdi₀ : NextHdi l ram₀ store values := started ▸ ⟨nextHdi.named, nextHdi.onBlock⟩
  have nextBdt₀ : NextBdt l ram₀ store counts := started ▸ ⟨nextBdt.named, nextBdt.onBlock⟩
  have maps₀ : MapsBehind l ram₀.rootTable := started ▸ ⟨maps.current, maps.reclaim⟩
  have names : NamesTables l (withRoot l ram₀ (store.erase Layout.rootBlock0)) ⟨counts, values⟩
      ram₀.rootTable ram₀.hdiCurrentPage ram₀.bdtCurrentPage :=
    ⟨named_within nextHdi₀.named within (pairs_apart (by omega)),
      named_within nextBdt₀.named within (pairs_apart (by omega))⟩
  refine spec_rootCommit fits space trivial trivial trivial (meets _ _ ?_ ?_ ?_ ?_)
  · rw [← started]
    rfl
  · rw [← started]
    rfl
  · exact
      { within := within.inTables (by omega)
        last := lastRoot_withRoot space.target
        roots := roots_withRoot space.target }
  · exact ⟨_, _, _, _, _, _,
      ⟨log, ⟨names.hdi, names.bdt⟩, ⟨maps₀.current, maps₀.reclaim⟩⟩,
      { atRoot := cursor'
        hdiBlock := nextHdi₀.onBlock
        hdiPage := rfl
        bdt := .of_eq nextBdt₀.onBlock rfl
        maps := ⟨maps₀.current, maps₀.reclaim⟩ }⟩

/-- A format has written the page mapping table, and the other tables and the root behind
it. -/
structure FormatWritten (l : Layout) (before : FtlRam) (first : UbiStore D) (ram : FtlRam)
    (store : UbiStore D) : Prop where
  part : ram.pmtPart = before.pmtPart
  counts : ram.blockDirtyTable = before.blockDirtyTable
  written : RootWritten first ram store
  powered : LogsPowered l ram store ram.tables

/-- The blocks that a format has touched when it comes to the page mapping table. -/
abbrev BesidesMaps (l : Layout) (block : Nat) : Prop := InTables block ∨ FromData l block

/-- A format of an erased device: what `PMT_Format` does, and then the other tables. -/
theorem onReturn_ftlFormat_done {post : Status → FtlRam → UbiStore D → Prop}
    (done : Status → FtlRam → UbiStore D → Prop) (fits : l.Fits)
    (three : ThreeTables l) (blank : ∀ pair < 3, BlankPair store pair)
    (unwritten : store.rootWrites = [])
    (formats : ∀ ram' after, (∀ block < l.dataStartBlock, block < l.g.cfgLogBlockCount →
        ram'.blockDirtyTable block = l.maxDirtyPages) →
      WithinBlocks (BesidesMaps l) store after → OnReturn l (pmtFormat l) done ram' after)
    (meets : ∀ ret ram₁ mid ram' after, done ret ram₁ mid →
      (ret = .success → FormatWritten l ram₁ mid ram' after) → post ret ram' after) :
    OnReturn l (ftlFormat l) post ram store := by
  have apart : ∀ pair < 3, ∀ block, InPair pair block → ¬ Behind block :=
    fun _ isTable _ inPair => not_past inPair isTable
  have fromData : ∀ block, FromData l block → Behind block := fun block =>
    Nat.le_trans (Nat.le_add_right _ _)
  have roots : ∀ {inside : Nat → Prop} {before after : UbiStore D},
      WithinBlocks inside before after → (∀ block, InPair 1 block → ¬ inside block) →
      before.rootWrites = [] → after.rootWrites = [] :=
    fun within outside none => (UbiStore.rootWrites_within within outside).trans none
  simp only [ftlFormat, OnReturn, Code.spec_bind, spec_ubiFormat, onSuccess_success, spec_ubiInit]
  refine ⟨trivial, trivial, onReturn_dataFormat fun ram₁ store₁ counts within₁ => ?_⟩
  have within₁' : WithinBlocks (BesidesMaps l) store store₁ := within₁.mono fun _ => Or.inr
  replace within₁ := within₁.mono fromData
  have blank₁ : ∀ pair < 3, BlankPair store₁ pair :=
    fun pair isTable => (blank pair isTable).within within₁ (apart pair isTable)
  rw [onSuccess_success]
  refine onReturn_hdiFormat fits (blank₁ 2 (by omega)) fun ram₂ store₂ nextHdi same within₂ => ?_
  have blank₂ : ∀ pair < 2, BlankPair store₂ pair := fun pair isTable =>
    (blank₁ pair (by omega)).within within₂ (pairs_apart (by omega))
  have maps := formats ram₂ store₂ (same ▸ counts)
    (within₁'.trans ((within₂.inTables (by omega)).mono fun _ => Or.inl))
  rw [onSuccess_success]
  have formatted : OnReturn l (pmtFormat l) (fun ret ram' after =>
      ram'.besidesPmt = ram₂.besidesPmt ∧ WithinBlocks Behind store₂ after ∧
        (ret = .success → MapsBehind l ram'.rootTable)) ram₂ store₂ :=
    onReturn_pmtFormat fits fun _ _ _ besides within maps => ⟨besides, within, maps⟩
  refine Code.spec_mono (Code.spec_and formatted maps) ?_ fun _ _ => trivial
  rintro ret ram₃ store₃ ⟨⟨besides, within₃, maps⟩, isDone⟩
  by_cases success : ret = .success
  · subst success
    have blank₃ : ∀ pair < 2, BlankPair store₃ pair := fun pair isTable =>
      (blank₂ pair isTable).within within₃ (apart pair (by omega))
    have values : ram₃.hdiHashTable = ram₂.hdiHashTable :=
      have equal := congrArg FtlRam.hdiHashTable besides
      equal
    have nextHdi := nextHdi.besides besides within₃ (apart 2 (by omega))
    rw [onSuccess_success]
    refine onReturn_bdtFormat fits three (blank₃ 0 (by omega)) ?_
    intro ram₄ store₄ nextBdt besides₄ within₄
    have nextHdi₄ : NextHdi l ram₃.besidesBdt store₄ ram₂.hdiHashTable :=
      ⟨named_within nextHdi.named within₄ (pairs_apart (by omega)), nextHdi.onBlock⟩
    have maps₄ : MapsBehind l ram₃.besidesBdt.rootTable := ⟨(maps rfl).current, (maps rfl).reclaim⟩
    have values₄ : ram₄.hdiHashTable = ram₃.hdiHashTable :=
      have equal := congrArg FtlRam.hdiHashTable besides₄
      equal
    have counts₄ : ram₄.blockDirtyTable = ram₃.blockDirtyTable :=
      have equal := congrArg FtlRam.blockDirtyTable besides₄
      equal
    have part₄ : ram₄.pmtPart = ram₃.pmtPart :=
      have equal := congrArg FtlRam.pmtPart besides₄
      equal
    rw [← besides₄] at nextHdi₄ maps₄
    rw [onSuccess_success]
    refine onReturn_rootFormat fits ((blank₃ 1 (by omega)).within within₄
      (pairs_apart (by omega))) ?_ ⟨nextHdi₄.named, nextHdi₄.onBlock⟩ nextBdt
      ⟨maps₄.current, maps₄.reclaim⟩ fun ram₅ store₅ same part written powered => ?_
    · exact roots within₄ (pairs_apart (by omega)) <| roots within₃ (apart 1 (by omega)) <|
        roots within₂ (pairs_apart (by omega)) <| roots within₁ (apart 1 (by omega)) unwritten
    · have roots₄ : store₄.roots = store₃.roots :=
        UbiStore.roots_within within₄ (pairs_apart (by omega))
      refine meets _ _ _ _ _ isDone fun _ => ⟨part.trans part₄, ?_, ?_, ?_⟩
      · exact (congrArg LogTables.counts same).trans counts₄
      · exact
          { within := (within₄.inTables (by omega)).trans written.within
            last := written.last
            roots := written.roots.trans (congrArg (· + 1) roots₄) }
      · rw [same, FtlRam.tables, values₄, values]
        exact powered
  · simp only [onSuccess_other success, Code.spec_pure]
    exact ⟨trivial, trivial, meets _ _ _ _ _ isDone fun wrong => absurd wrong success⟩

/-- A format of an erased device commits its tables. -/
theorem onReturn_ftlFormat {post : Status → FtlRam → UbiStore D → Prop} (fits : l.Fits)
    (three : ThreeTables l) (blank : ∀ pair < 3, BlankPair store pair)
    (unwritten : store.rootWrites = [])
    (meets : ∀ ret ram' after, (ret = .success → LogsPowered l ram' after ram'.tables) →
      post ret ram' after) :
    OnReturn l (ftlFormat l) post ram store :=
  onReturn_ftlFormat_done _ fits three blank unwritten (fun _ _ _ _ => Code.spec_true)
    fun ret _ _ ram' after _ written => meets ret ram' after fun success =>
      (written success).powered

end Format

end OpenNfm.Ftl
