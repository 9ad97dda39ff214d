import OpenNfm.Ftl.TableLogs

/-!
# The root log

The roots are numbered by their editions, which are 32-bit words.  `ROOT_Init` compares
the editions in the first pages of the two root blocks, and takes the last root of the
block with the larger one.  It finds the last root of all if no edition has wrapped
between the two first pages.
-/

namespace OpenNfm.Ftl

open OpenNfm.Program

variable {l : Layout} {D : Type}

/-- The writes to the root blocks, newest first. -/
def UbiStore.rootWrites (store : UbiStore D) : List (Nat × Nat × Page (FtlPage D)) :=
  store.history.filter fun entry => decide (InPair 1 entry.1)

/-- The number of roots that were written. -/
def UbiStore.roots (store : UbiStore D) : Nat := store.rootWrites.length

/-- The root that was last completely written. -/
def UbiStore.lastRoot (store : UbiStore D) : Option Root :=
  match store.rootWrites.head? with
  | some (_, _, ⟨.root table, _⟩) => some table
  | _ => none

/-- Of the roots on the two blocks, the later one has the larger edition: one of the blocks
is erased, or the editions have not wrapped yet, or they have wrapped a whole block of
roots ago. -/
def RootsOrdered (l : Layout) (store : UbiStore D) : Prop :=
  (∃ block, InPair 1 block ∧ store.pages block 0 = none) ∨
    store.roots ≤ 2 ^ 32 ∨
    l.pagePerPhyBlock ≤ (store.roots - 1) % 2 ^ 32

/-- The newest root is the last one of its block.  The first root of that block was the
`start`-th one of all. -/
structure RootLog (l : Layout) (store : UbiStore D) (start block next : Nat) (root : Root) :
    Prop where
  inPair : InPair 1 block
  multiple : l.pagePerPhyBlock ∣ start
  chain : Chain (store.pages block) l.pagePerPhyBlock 1 0 next
  roots : ∀ page < next, ∃ table, store.pages block page = some (rootContent table 0)
  newest : store.pages block (next - 1) = some (rootContent root 0)
  edition : root.rootEdition = (start + next - 1) % 2 ^ 32
  first : ∀ table, store.pages block 0 = some (rootContent table 0) →
    table.rootEdition = start % 2 ^ 32
  older : store.pages (block ^^^ 1) 0 = none ∨
    ∃ table, l.pagePerPhyBlock ≤ start ∧
      store.pages (block ^^^ 1) 0 = some (rootContent table 0) ∧
      table.rootEdition = (start - l.pagePerPhyBlock) % 2 ^ 32
  count : store.roots = start + next
  last : store.lastRoot = some root

theorem rootBlocks {block other : Nat} (inPair : InPair 1 block) (inPair' : InPair 1 other) :
    block = other ∨ block = other ^^^ 1 := by
  have cases : ∀ {block : Nat}, InPair 1 block → block = 2 ∨ block = 3 := fun inPair => by
    unfold InPair at inPair
    omega
  rcases cases inPair with rfl | rfl <;> rcases cases inPair' with rfl | rfl <;> decide

theorem Layout.Fits.pages_dvd (fits : l.Fits) : l.pagePerPhyBlock ∣ 2 ^ 32 := by
  have le : l.g.pagePerPhyBlock ≤ 2 ^ 32 := by
    have blocks : 1 ≤ l.g.cfgLogBlockCount := by
      have := fits.blocks
      omega
    have words := fits.words
    have := Nat.mul_le_mul_right l.g.pagePerPhyBlock blocks
    omega
  exact Nat.pow_dvd_pow 2 ((Nat.pow_le_pow_iff_right (by omega : 1 < 2)).mp le)

theorem Layout.Fits.pages_le (fits : l.Fits) : l.pagePerPhyBlock ≤ 2 ^ 32 :=
  Nat.le_of_dvd (by omega) fits.pages_dvd

section Congruence

variable {store after : UbiStore D} {start block next : Nat} {root : Root}

theorem UbiStore.rootWrites_within {inside : Nat → Prop}
    (within : WithinBlocks inside store after)
    (outside : ∀ block, InPair 1 block → ¬ inside block) :
    after.rootWrites = store.rootWrites :=
  within.filter fun entry chosen => outside entry.1 (of_decide_eq_true chosen)

theorem UbiStore.roots_within {inside : Nat → Prop}
    (within : WithinBlocks inside store after)
    (outside : ∀ block, InPair 1 block → ¬ inside block) :
    after.roots = store.roots :=
  congrArg List.length (UbiStore.rootWrites_within within outside)

theorem RootLog.within {inside : Nat → Prop} (log : RootLog l store start block next root)
    (within : WithinBlocks inside store after)
    (outside : ∀ block, InPair 1 block → ¬ inside block) :
    RootLog l after start block next root := by
  have writes := UbiStore.rootWrites_within within outside
  have here := within.pages block (outside block log.inPair)
  have other := within.pages (block ^^^ 1) (outside _ ((pair_div block).trans log.inPair))
  exact
    { inPair := log.inPair
      multiple := log.multiple
      chain := here ▸ log.chain
      roots := here ▸ log.roots
      newest := here ▸ log.newest
      edition := log.edition
      first := here ▸ log.first
      older := other ▸ log.older
      count := (UbiStore.roots_within within outside).trans log.count
      last := by
        unfold UbiStore.lastRoot
        rw [writes]
        exact log.last }

end Congruence

/-! ## Reading roots -/

section Reading

variable {crash : UbiStore D → Prop} {halts : Prop} {ram : FtlRam} {store : UbiStore D}
  {start block next page : Nat} {root : Root}

theorem spec_rootRead_root {table : Root} {post : Status × Spare → FtlRam → UbiStore D → Prop}
    (isBlock : block < l.capacity) (isPage : page < l.pagePerPhyBlock)
    (content : store.pages block page = some (rootContent table 0)) (here : crash store)
    (meets : post (.success, ⟨0, 0⟩) (setRoot table ram) store) :
    Code.spec (storeMachine l.g l.capacity) crash halts (rootRead block page) post ram store := by
  simp only [rootRead, Code.spec_bind]
  rw [spec_ubiRead isBlock isPage]
  simp only [Nand.answer, content, rootContent, loadRoot, Code.spec_pure, Code.spec_modify]
  exact ⟨here, here, here, here, meets⟩

theorem spec_rootRead_blank {post : Status × Spare → FtlRam → UbiStore D → Prop}
    (isBlock : block < l.capacity) (isPage : page < l.pagePerPhyBlock)
    (blank : store.pages block page = none) (here : crash store)
    (meets : post (.failure, .ones) (setRoot .blank ram) store) :
    Code.spec (storeMachine l.g l.capacity) crash halts (rootRead block page) post ram store := by
  simp only [rootRead, Code.spec_bind]
  rw [spec_ubiRead isBlock isPage]
  simp only [Nand.answer, blank, PageContent.ones, loadRoot, Code.spec_pure, Code.spec_modify]
  exact ⟨here, here, here, here, meets⟩

/-- The memory after the choice of a block. -/
def choseRoot (ram : FtlRam) (table : Root) (edition block : Nat) : FtlRam :=
  { ram with rootTable := table, rootEdition := edition, rootCurrentBlock := block }

theorem RootLog.edition_lt (log : RootLog l store start block next root) (fits : l.Fits)
    (ordered : RootsOrdered l store) {newer older : Root}
    (here : store.pages block 0 = some (rootContent newer 0))
    (other : store.pages (block ^^^ 1) 0 = some (rootContent older 0)) :
    older.rootEdition < newer.rootEdition := by
  obtain ⟨pages, dvd⟩ := fits.pages_dvd
  obtain ⟨rounds, multiple⟩ := log.multiple
  have pos : 0 < l.pagePerPhyBlock := l.g.pagePerPhyBlock_pos
  have count := log.count
  have le := log.chain.le
  have lt := log.chain.lt
  rw [log.first newer here]
  rcases log.older with blank | ⟨table, behind, content, edition⟩
  · rw [blank] at other
    exact absurd other.symm (Option.some_ne_none _)
  · rw [other] at content
    obtain rfl : older = table := by
      have same := congrArg Page.main (Option.some.inj content)
      exact FtlPage.root.inj same
    rw [edition]
    have notWrapped : start % 2 ^ 32 ≠ 0 := by
      intro wrapped
      rcases ordered with ⟨third, inPair, blank⟩ | few | behindWrap
      · rcases rootBlocks inPair log.inPair with rfl | rfl
        · rw [blank] at here
          exact Option.some_ne_none _ here.symm
        · rw [blank] at other
          exact Option.some_ne_none _ other.symm
      · omega
      · have small := fits.pages_le
        omega
    have behind' := Nat.le_of_dvd (Nat.pos_of_ne_zero notWrapped)
      ((Nat.dvd_mod_iff fits.pages_dvd).mpr log.multiple)
    omega

/-- `ROOT_Init` chooses the block with the newest root. -/
theorem spec_rootChoose {post : Unit → FtlRam → UbiStore D → Prop}
    (log : RootLog l store start block next root) (fits : l.Fits) (ordered : RootsOrdered l store)
    (here : crash store)
    (meets : ∀ table edition, post () (choseRoot ram table edition block) store) :
    Code.spec (storeMachine l.g l.capacity) crash halts rootChoose post ram store := by
  have pos : 0 < l.pagePerPhyBlock := l.g.pagePerPhyBlock_pos
  have tables := fits.tables
  obtain ⟨newer, newest⟩ := log.roots 0 log.chain.lt
  have second : Layout.rootBlock1 < l.capacity := Nat.lt_of_lt_of_le (by decide) tables
  have first : Layout.rootBlock0 < l.capacity := Nat.lt_of_lt_of_le (by decide) tables
  simp only [rootChoose, Code.spec_bind]
  rcases rootBlocks log.inPair (by decide : InPair 1 2) with rfl | rfl
  · refine spec_rootRead_root first pos newest here ?_
    simp only [if_true, Code.spec_bind, Code.spec_modify]
    refine ⟨here, ?_⟩
    rcases log.older with blank | ⟨older, _, content, _⟩
    · refine spec_rootRead_blank second pos blank here ?_
      exact Code.spec_modify.mpr ⟨here, meets _ _⟩
    · refine spec_rootRead_root second pos content here ?_
      have less := log.edition_lt fits ordered newest content
      simp only [if_true, Code.spec_modify, setRoot, gt_iff_lt, less]
      exact ⟨here, meets _ _⟩
  · rcases log.older with blank | ⟨older, _, content, _⟩
    · refine spec_rootRead_blank first pos blank here ?_
      exact Code.spec_modify.mpr ⟨here, meets _ _⟩
    · refine spec_rootRead_root first pos content here ?_
      simp only [if_true, Code.spec_bind, Code.spec_modify]
      refine ⟨here, spec_rootRead_root second pos newest here ?_⟩
      have less := log.edition_lt fits ordered newest content
      simp only [if_true, Code.spec_modify, setRoot, gt_iff_lt, Nat.lt_asymm less, if_false]
      exact ⟨here, meets _ _⟩

/-- The scan of the block finds the page behind the newest root. -/
theorem spec_rootScan {post : Nat × Status → FtlRam → UbiStore D → Prop} {rounds : Nat}
    (log : RootLog l store start block next root) (fits : l.Fits)
    (le : page ≤ next) (total : page + rounds = l.pagePerPhyBlock) (here : crash store)
    (meets : ∀ table, post (next, if next = l.pagePerPhyBlock then .success else .failure)
      (setRoot table ram) store) :
    Code.spec (storeMachine l.g l.capacity) crash halts (rootScan block rounds page) post ram
      store := by
  have isBlock := log.inPair.isBlock (by omega : 1 < 3) fits
  have inBlock := log.chain.le
  induction rounds generalizing page ram with
  | zero =>
      obtain rfl : page = next := by omega
      have full : page = l.pagePerPhyBlock := by omega
      have met := meets ram.rootTable
      rw [if_pos full] at met
      exact Code.spec_pure.mpr ⟨here, met⟩
  | succ rounds ih =>
      have isPage : page < l.pagePerPhyBlock := by omega
      simp only [rootScan, Code.spec_bind]
      rcases Nat.lt_or_eq_of_le le with before | rfl
      · obtain ⟨table, content⟩ := log.roots page before
        refine spec_rootRead_root isBlock isPage content here ?_
        have readable : ¬ (Status.success ≠ .success ∨ (0 : Nat) = allOnes) := by decide
        simp only [readable, if_false]
        exact ih before (by omega) meets
      · refine spec_rootRead_blank isBlock isPage
          (log.chain.blank page (Nat.le_refl _) isPage) here ?_
        have met := meets .blank
        rw [if_neg (Nat.ne_of_lt isPage)] at met
        simp only [ne_eq, reduceCtorEq, not_false_eq_true, true_or, if_true]
        exact Code.spec_pure.mpr ⟨here, met⟩

end Reading

/-! ## Commits -/

section Commit

variable {crash : UbiStore D → Prop} {halts : Prop} {ram : FtlRam} {store : UbiStore D}
  {start block next : Nat} {root : Root}

/-- The cursor is behind the newest root. -/
structure AtRoot (ram : FtlRam) (start block next : Nat) : Prop where
  block : ram.rootCurrentBlock = block
  page : ram.rootCurrentPage = next
  edition : ram.rootEdition = (start + next) % 2 ^ 32

theorem RootLog.space (log : RootLog l store start block next root)
    (cursor : AtRoot ram start block next) :
    Room store.pages l.pagePerPhyBlock 1 1 ram.rootCurrentBlock ram.rootCurrentPage := by
  rw [cursor.block, cursor.page]
  refine ⟨log.inPair, one_dvd _, ?_, ?_⟩ <;> unfold nextPlace <;> split
  · exact l.g.pagePerPhyBlock_pos
  · rename_i notFull
    exact Nat.lt_of_le_of_ne log.chain.le notFull
  · exact fun _ _ _ => rfl
  · exact log.chain.blank

/-- Turning to the other block only drops older roots. -/
theorem RootLog.turned (log : RootLog l store start block next root) :
    RootLog l (turned l block next store) start block next root := by
  unfold Ftl.turned
  split
  · have same : (store.erase (block ^^^ 1)).pages block = store.pages block :=
      funext fun page => Nand.erase_other _ _ (pair_ne block).symm
    exact
      { inPair := log.inPair
        multiple := log.multiple
        chain := same ▸ log.chain
        roots := same ▸ log.roots
        newest := same ▸ log.newest
        edition := log.edition
        first := same ▸ log.first
        older := .inl (Nand.erase_same _ _ _)
        count := log.count
        last := log.last }
  · exact log

theorem rootWrites_withRoot (target : InPair 1 (sealedRoot l ram).rootCurrentBlock) :
    (withRoot l ram store).rootWrites =
      ((sealedRoot l ram).rootCurrentBlock, (sealedRoot l ram).rootCurrentPage,
        rootContent (sealedRoot l ram).rootTable 0) :: store.rootWrites := by
  have before : (Ftl.turned l ram.rootCurrentBlock ram.rootCurrentPage store).history =
      store.history := by
    unfold Ftl.turned
    split <;> rfl
  have isRoot : decide (InPair 1 (sealedRoot l ram).rootCurrentBlock) = true :=
    decide_eq_true target
  unfold UbiStore.rootWrites
  rw [← before]
  exact List.filter_cons_of_pos isRoot

theorem roots_withRoot (target : InPair 1 (sealedRoot l ram).rootCurrentBlock) :
    (withRoot l ram store).roots = store.roots + 1 :=
  congrArg List.length (rootWrites_withRoot target)

theorem lastRoot_withRoot (target : InPair 1 (sealedRoot l ram).rootCurrentBlock) :
    (withRoot l ram store).lastRoot = some (sealedRoot l ram).rootTable := by
  unfold UbiStore.lastRoot
  rw [rootWrites_withRoot target]
  rfl

theorem withRoot_same (ram : FtlRam) (store : UbiStore D) :
    (withRoot l ram store).pages (sealedRoot l ram).rootCurrentBlock =
      Function.update ((turned l ram.rootCurrentBlock ram.rootCurrentPage store).pages
        (sealedRoot l ram).rootCurrentBlock) (sealedRoot l ram).rootCurrentPage
        (some (rootContent (sealedRoot l ram).rootTable 0)) :=
  Function.update_self _ _ _

theorem withRoot_other (ram : FtlRam) (store : UbiStore D) {other : Nat}
    (different : other ≠ (sealedRoot l ram).rootCurrentBlock) :
    (withRoot l ram store).pages other =
      (turned l ram.rootCurrentBlock ram.rootCurrentPage store).pages other :=
  Function.update_of_ne different _ _

theorem wrote_withRoot (l : Layout) (store : UbiStore D) (inPair : InPair 1 ram.rootCurrentBlock) :
    LogWrote l 1 store ram.rootCurrentBlock ram.rootCurrentPage
      (rootContent (sealedRoot l ram).rootTable) 1 (withRoot l ram store) :=
  (LogWrote.turned inPair).succ inPair

theorem rootContent_inj {table other : Root}
    (same : some (rootContent (D := D) table 0) = some (rootContent other 0)) : table = other :=
  FtlPage.root.inj (congrArg Page.main (Option.some.inj same))

/-- The new root is the first one of the other block. -/
theorem RootLog.commit_full (log : RootLog l store start block next root)
    (cursor : AtRoot ram start block next) (full : next = l.pagePerPhyBlock) :
    RootLog l (withRoot l ram store) (start + next) (block ^^^ 1) 1 (sealedRoot l ram).rootTable ∧
      (sealedRoot l ram).rootCurrentBlock = block ^^^ 1 ∧
      (sealedRoot l ram).rootCurrentPage = 0 := by
  have space := log.space cursor
  have wrote := wrote_withRoot l store space.inPair
  have named := space.named (one_dvd _) Nat.one_pos wrote.step
  have target : InPair 1 (sealedRoot l ram).rootCurrentBlock := space.target
  have place : nextPlace l.pagePerPhyBlock ram.rootCurrentBlock ram.rootCurrentPage =
      (block ^^^ 1, 0) := by
    rw [cursor.block, cursor.page, nextPlace, if_pos full]
  have onBlock : (sealedRoot l ram).rootCurrentBlock = block ^^^ 1 := congrArg Prod.fst place
  have onPage : (sealedRoot l ram).rootCurrentPage = 0 := congrArg Prod.snd place
  have kept : (withRoot l ram store).pages block = store.pages block :=
    wrote.step.others block (by rw [place]; exact (pair_ne block).symm)
  rw [place] at named
  have entry : (withRoot l ram store).pages (block ^^^ 1) 0 =
      some (rootContent (sealedRoot l ram).rootTable 0) := named.entry 0 Nat.one_pos
  refine ⟨?_, onBlock, onPage⟩
  exact
    { inPair := named.inPair
      multiple := Nat.dvd_add log.multiple (full ▸ Nat.dvd_refl _)
      chain := named.chain
      roots := fun page lt => ⟨_, (by
        obtain rfl : page = 0 := by omega
        exact entry)⟩
      newest := entry
      edition := cursor.edition
      first := fun table content => by
        obtain rfl := rootContent_inj (entry.symm.trans content)
        exact cursor.edition
      older := by
        obtain ⟨table, content⟩ := log.roots 0 log.chain.lt
        refine .inr ⟨table, by omega, ?_, ?_⟩
        · rw [pair_pair, kept]
          exact content
        · rw [log.first table content, full, Nat.add_sub_cancel]
      count := by
        rw [roots_withRoot target, log.count]
      last := lastRoot_withRoot target }

/-- The new root is behind the others on its block. -/
theorem RootLog.commit_next (log : RootLog l store start block next root)
    (cursor : AtRoot ram start block next) (notFull : next ≠ l.pagePerPhyBlock) :
    RootLog l (withRoot l ram store) start block (next + 1) (sealedRoot l ram).rootTable ∧
      (sealedRoot l ram).rootCurrentBlock = block ∧
      (sealedRoot l ram).rootCurrentPage = next := by
  have space := log.space cursor
  have wrote := wrote_withRoot l store space.inPair
  have named := space.named (one_dvd _) Nat.one_pos wrote.step
  have target : InPair 1 (sealedRoot l ram).rootCurrentBlock := space.target
  have place : nextPlace l.pagePerPhyBlock ram.rootCurrentBlock ram.rootCurrentPage =
      (block, next) := by
    rw [cursor.block, cursor.page, nextPlace, if_neg notFull]
  have onBlock : (sealedRoot l ram).rootCurrentBlock = block := congrArg Prod.fst place
  have onPage : (sealedRoot l ram).rootCurrentPage = next := congrArg Prod.snd place
  have kept : (withRoot l ram store).pages (block ^^^ 1) = store.pages (block ^^^ 1) :=
    wrote.step.others _ (by rw [place]; exact pair_ne block)
  have appended := wrote.step.entry
  rw [place, cursor.page, cursor.block, if_neg notFull] at appended
  rw [place] at named
  have entry : (withRoot l ram store).pages block next =
      some (rootContent (sealedRoot l ram).rootTable 0) := named.entry 0 Nat.one_pos
  have before : ∀ page < next, (withRoot l ram store).pages block page = store.pages block page :=
    fun page lt => appended.rest page (.inl lt)
  refine ⟨?_, onBlock, onPage⟩
  exact
    { inPair := log.inPair
      multiple := log.multiple
      chain := log.chain.append (one_dvd _) (Nat.lt_of_le_of_ne log.chain.le notFull) Nat.one_pos
        (Nat.le_refl _) appended
      roots := fun page lt => by
        rcases Nat.lt_or_eq_of_le (Nat.le_of_lt_succ lt) with earlier | rfl
        · rw [before page earlier]
          exact log.roots page earlier
        · exact ⟨_, entry⟩
      newest := entry
      edition := cursor.edition
      first := fun table content => by
        rw [before 0 log.chain.lt] at content
        exact log.first table content
      older := kept ▸ log.older
      count := by
        rw [roots_withRoot target, log.count, Nat.add_assoc]
      last := lastRoot_withRoot target }

/-- The new root is the newest one. -/
theorem RootLog.commit (log : RootLog l store start block next root)
    (cursor : AtRoot ram start block next) :
    ∃ start' block' next',
      RootLog l (withRoot l ram store) start' block' next' (sealedRoot l ram).rootTable ∧
      AtRoot (pastRoot l ram) start' block' next' := by
  have edition : (sealedRoot l ram).rootEdition = (start + next + 1) % 2 ^ 32 := by
    have sealedEdition : (sealedRoot l ram).rootEdition = (ram.rootEdition + 1) % 2 ^ 32 := rfl
    rw [sealedEdition, cursor.edition]
    omega
  by_cases full : next = l.pagePerPhyBlock
  · obtain ⟨log', onBlock, onPage⟩ := log.commit_full cursor full
    exact ⟨_, _, _, log', onBlock, congrArg (· + 1) onPage, edition⟩
  · obtain ⟨log', onBlock, onPage⟩ := log.commit_next cursor full
    exact ⟨_, _, _, log', onBlock, congrArg (· + 1) onPage, edition⟩

/-! ## Mounts -/

/-- The memory when the newest root has been read. -/
def foundRoot (lost : FtlRam) (start block next : Nat) (root : Root) : FtlRam :=
  { lost with
    rootTable := root
    rootCurrentBlock := block
    rootCurrentPage := next
    rootEdition := (start + next) % 2 ^ 32 }

/-- `ROOT_Init` loads the newest root, and writes it again with the next edition. -/
theorem spec_rootInit {lost : FtlRam} {post : Status → FtlRam → UbiStore D → Prop}
    (log : RootLog l store start block next root) (fits : l.Fits) (ordered : RootsOrdered l store)
    (here : crash store) (safeStart : crash (turned l block next store))
    (safeEnd : crash (withRoot l (foundRoot lost start block next root) store))
    (meets : post .success (pastRoot l (foundRoot lost start block next root))
      (withRoot l (foundRoot lost start block next root) store)) :
    Code.spec (storeMachine l.g l.capacity) crash halts (rootInit l) post lost store := by
  have cursor : AtRoot (foundRoot lost start block next root) start block next := ⟨rfl, rfl, rfl⟩
  have isBlock := log.inPair.isBlock (by omega : 1 < 3) fits
  have inBlock := log.chain.le
  have started := log.chain.lt
  simp only [rootInit, Code.spec_bind, Code.spec_get]
  refine spec_rootChoose log fits ordered here fun first edition => ⟨here, ?_⟩
  refine spec_rootScan log fits (Nat.zero_le _) (Nat.zero_add _) here fun table => ?_
  have asserted : next = l.pagePerPhyBlock ↔
      (if next = l.pagePerPhyBlock then Status.success else .failure) = .success := by
    split <;> simp_all
  have lastPage : (next + allOnes) % 2 ^ 32 = next - 1 := by
    have small := fits.pages_le
    unfold allOnes
    omega
  have found : resumeRoot next (setRoot root (setRoot table (choseRoot lost first edition block))) =
      foundRoot lost start block next root := by
    have resumed : (root.rootEdition + 1) % 2 ^ 32 = (start + next) % 2 ^ 32 := by
      rw [log.edition]
      omega
    unfold resumeRoot setRoot foundRoot choseRoot
    rw [resumed]
  dsimp only
  rw [Code.spec_assert]
  refine ⟨here, fun _ => ?_, fun unmet => absurd asserted unmet⟩
  rw [lastPage]
  refine spec_rootRead_root isBlock (by omega) log.newest here ?_
  dsimp only
  rw [onSuccess_success, Code.spec_bind, Code.spec_modify]
  refine ⟨here, ?_⟩
  rw [Code.spec_bind, found]
  have turnedHere : turned l (foundRoot lost start block next root).rootCurrentBlock
      (foundRoot lost start block next root).rootCurrentPage store =
        turned l block next store := rfl
  refine spec_rootCommit fits (log.space cursor) here (turnedHere ▸ safeStart) safeEnd ?_
  exact Code.spec_pure.mpr ⟨safeEnd, meets⟩

end Commit

end OpenNfm.Ftl
