import OpenNfm.Ftl.PmtFrame
import OpenNfm.Program.PairLog

/-!
# Commits of the tables

One specification for each of `ROOT_Commit`, `BDT_Commit` and `HDI_Commit`: wherever the
power fails, a part of one entry has been written at the next place of the log.
-/

namespace OpenNfm.Ftl

open OpenNfm.Program

variable {l : Layout} {D : Type}

/-! ## Pages of the tables -/

/-- The pages that `BDT_Commit` writes. -/
def bdtContent (l : Layout) (counts : Nat → Nat) (i : Nat) : Page (FtlPage D) :=
  ⟨.dirtyCounts (bdtPage l i counts), .ones⟩

/-- The page that `HDI_Commit` writes. -/
def hdiContent (values : Nat → Nat) (_ : Nat) : Page (FtlPage D) :=
  ⟨.hotHash values, .ones⟩

/-- The page that `ROOT_Commit` writes. -/
def rootContent (root : Root) (_ : Nat) : Page (FtlPage D) :=
  ⟨.root root, ⟨0, 0⟩⟩

/-- The pair of blocks of a log. -/
abbrev InPair (pair block : Nat) : Prop := block / 2 = pair

theorem InPair.isBlock {pair block : Nat} (inPair : InPair pair block) (isTable : pair < 3)
    (fits : l.Fits) : block < l.capacity := by
  have := fits.tables
  have same : block / 2 = pair := inPair
  omega

/-! ## Steps of a log -/

/-- The log that goes on at `block` and `page` has written `n` pages of an entry, and nothing
else. -/
structure LogWrote (l : Layout) (pair : Nat) (before : UbiStore D) (block page : Nat)
    (content : Nat → Page (FtlPage D)) (n : Nat) (after : UbiStore D) : Prop where
  step : LogStep l.pagePerPhyBlock before.pages block page content n after.pages
  within : WithinBlocks (InPair pair) before after

/-- The store in which a full log has turned to the other block. -/
def turned (l : Layout) (block page : Nat) (store : UbiStore D) : UbiStore D :=
  if page = l.pagePerPhyBlock then store.erase (block ^^^ 1) else store

section Steps

variable {crash : UbiStore D → Prop} {halts : Prop} {pair block page : Nat} {ram : FtlRam}
  {store after : UbiStore D} {content : Nat → Page (FtlPage D)}

theorem LogWrote.turned (inPair : InPair pair block) :
    LogWrote l pair store block page content 0 (turned l block page store) := by
  have other : InPair pair (block ^^^ 1) := (pair_div block).trans inPair
  unfold Ftl.turned
  by_cases full : page = l.pagePerPhyBlock
  · simp only [full, if_true]
    refine ⟨⟨fun third different => ?_, ?_⟩, (WithinBlocks.refl _ store).erase other⟩
    · simp only [nextPlace, if_true] at different
      funext p
      exact Nand.erase_other _ _ different
    · simp only [nextPlace, if_true]
      have blank : (store.erase (block ^^^ 1)).pages (block ^^^ 1) = fun _ => none :=
        funext fun p => Nand.erase_same _ _ _
      rw [blank]
      exact Appended.zero _ _ _
  · simp only [full, if_false]
    refine ⟨⟨fun _ _ => rfl, ?_⟩, WithinBlocks.refl _ store⟩
    simp only [nextPlace, full, if_false]
    exact Appended.zero _ _ _

/-- One more page of the entry. -/
theorem LogWrote.succ {n : Nat} (wrote : LogWrote l pair store block page content n after)
    (inPair : InPair pair block) :
    LogWrote l pair store block page content (n + 1)
      (after.write (nextPlace l.pagePerPhyBlock block page).1
        ((nextPlace l.pagePerPhyBlock block page).2 + n) (content n)) := by
  have target : InPair pair (nextPlace l.pagePerPhyBlock block page).1 := by
    unfold nextPlace
    split
    · exact (pair_div block).trans inPair
    · exact inPair
  refine ⟨⟨fun third different => ?_, ?_⟩, wrote.within.write target _⟩
  · rw [← wrote.step.others third different]
    funext p
    exact Nand.program_other _ _ _ _ different
  · have updated : (after.write (nextPlace l.pagePerPhyBlock block page).1
        ((nextPlace l.pagePerPhyBlock block page).2 + n) (content n)).pages
          (nextPlace l.pagePerPhyBlock block page).1 =
        Function.update (after.pages (nextPlace l.pagePerPhyBlock block page).1)
          ((nextPlace l.pagePerPhyBlock block page).2 + n) (some (content n)) :=
      Function.update_self _ _ _
    rw [updated]
    exact wrote.step.entry.succ

theorem spec_turnLog {setCursor : Nat → Nat → FtlRam → FtlRam}
    {post : Status → FtlRam → UbiStore D → Prop} (isBlock : block ^^^ 1 < l.capacity)
    (same : setCursor block page ram = ram) (here : crash store)
    (safe : crash (turned l block page store))
    (meets : post .success (setCursor (nextPlace l.pagePerPhyBlock block page).1
      (nextPlace l.pagePerPhyBlock block page).2 ram) (turned l block page store)) :
    Code.spec (storeMachine l.g l.capacity) crash halts (turnLog l block page setCursor) post ram
      store := by
  unfold turnLog turned nextPlace at *
  split
  · rename_i full
    simp only [full, if_true] at safe meets
    rw [Code.spec_bind, spec_ubiErase isBlock]
    refine ⟨here, safe, ?_⟩
    simp only [onSuccess_success, Code.spec_bind, Code.spec_modify, Code.spec_pure]
    exact ⟨safe, safe, meets⟩
  · rename_i notFull
    simp only [notFull, if_false, same] at meets
    exact Code.spec_pure.mpr ⟨here, meets⟩

end Steps

/-! ## Commits -/

section Commits

variable {crash : UbiStore D → Prop} {halts : Prop} {ram : FtlRam} {store : UbiStore D}

/-- The next page of the entry is erased. -/
theorem LogWrote.isBlank {step pair block page n : Nat} {after : UbiStore D}
    {content : Nat → Page (FtlPage D)}
    (wrote : LogWrote l pair store block page content n after)
    (space : Room store.pages l.pagePerPhyBlock step pair block page)
    (isPage : (nextPlace l.pagePerPhyBlock block page).2 + n < l.pagePerPhyBlock) :
    after.pages (nextPlace l.pagePerPhyBlock block page).1
      ((nextPlace l.pagePerPhyBlock block page).2 + n) = none := by
  rw [wrote.step.entry.rest _ (.inr (Nat.le_refl _))]
  exact space.blank _ (Nat.le_add_right _ _) isPage

theorem spec_bdtWrite {block page rounds i : Nat} {first : UbiStore D}
    {post : Status → FtlRam → UbiStore D → Prop} (fits : l.Fits)
    (whole : l.bdtPageCount ∣ l.pagePerPhyBlock)
    (space : Room first.pages l.pagePerPhyBlock l.bdtPageCount 0 block page)
    (place : ram = setBdtCursor (nextPlace l.pagePerPhyBlock block page).1
      (nextPlace l.pagePerPhyBlock block page).2 ram)
    (total : i + rounds = l.bdtPageCount)
    (wrote : LogWrote l 0 first block page (bdtContent l ram.blockDirtyTable) i store)
    (safe : ∀ n ≤ l.bdtPageCount, ∀ after,
      LogWrote l 0 first block page (bdtContent l ram.blockDirtyTable) n after → crash after)
    (meets : ∀ after,
      LogWrote l 0 first block page (bdtContent l ram.blockDirtyTable) l.bdtPageCount after →
      post .success ram after) :
    Code.spec (storeMachine l.g l.capacity) crash halts (bdtWrite l rounds i) post ram store := by
  induction rounds generalizing i store with
  | zero =>
      obtain rfl : i = l.bdtPageCount := total
      exact Code.spec_pure.mpr ⟨safe _ (Nat.le_refl _) store wrote, meets store wrote⟩
  | succ rounds ih =>
      have onBlock : ram.bdtCurrentBlock = (nextPlace l.pagePerPhyBlock block page).1 :=
        congrArg FtlRam.bdtCurrentBlock place
      have onPage : ram.bdtCurrentPage = (nextPlace l.pagePerPhyBlock block page).2 :=
        congrArg FtlRam.bdtCurrentPage place
      have isBlock := InPair.isBlock space.target (by omega : 0 < 3) fits
      have isPage : (nextPlace l.pagePerPhyBlock block page).2 + i < l.g.pagePerPhyBlock := by
        have := space.fits whole
        rw [Layout.pagePerPhyBlock] at this ⊢
        omega
      have more := wrote.succ space.inPair
      simp only [bdtWrite, Code.spec_bind, Code.spec_get, onBlock, onPage]
      refine ⟨safe i (by omega) store wrote,
        (spec_ubiWrite isBlock isPage (wrote.isBlank space isPage)).mpr
          ⟨safe i (by omega) store wrote, safe (i + 1) (by omega) _ more, ?_⟩⟩
      exact ih (by omega) more

/-- The memory after `BDT_Commit`. -/
def pastBdt (l : Layout) (ram : FtlRam) : FtlRam :=
  nameBdt l (setBdtCursor
    (nextPlace l.pagePerPhyBlock ram.bdtCurrentBlock ram.bdtCurrentPage).1
    (nextPlace l.pagePerPhyBlock ram.bdtCurrentBlock ram.bdtCurrentPage).2 ram)

/-- The memory after `HDI_Commit`. -/
def pastHdi (l : Layout) (ram : FtlRam) : FtlRam :=
  nameHdi l (setHdiCursor
    (nextPlace l.pagePerPhyBlock ram.hdiCurrentBlock ram.hdiCurrentPage).1
    (nextPlace l.pagePerPhyBlock ram.hdiCurrentBlock ram.hdiCurrentPage).2 ram)

theorem spec_bdtCommit {post : Status → FtlRam → UbiStore D → Prop} (fits : l.Fits)
    (whole : l.bdtPageCount ∣ l.pagePerPhyBlock)
    (space : Room store.pages l.pagePerPhyBlock l.bdtPageCount 0 ram.bdtCurrentBlock
      ram.bdtCurrentPage)
    (here : crash store)
    (safe : ∀ n ≤ l.bdtPageCount, ∀ after, LogWrote l 0 store ram.bdtCurrentBlock
      ram.bdtCurrentPage (bdtContent l ram.blockDirtyTable) n after → crash after)
    (meets : ∀ after, LogWrote l 0 store ram.bdtCurrentBlock
      ram.bdtCurrentPage (bdtContent l ram.blockDirtyTable) l.bdtPageCount after →
      post .success (pastBdt l ram) after) :
    Code.spec (storeMachine l.g l.capacity) crash halts (bdtCommit l) post ram store := by
  have isBlock : ram.bdtCurrentBlock ^^^ 1 < l.capacity :=
    InPair.isBlock ((pair_div _).trans space.inPair) (by omega : 0 < 3) fits
  have start : LogWrote l 0 store ram.bdtCurrentBlock ram.bdtCurrentPage
      (bdtContent l ram.blockDirtyTable) 0
      (turned l ram.bdtCurrentBlock ram.bdtCurrentPage store) := .turned space.inPair
  have safeStart := safe 0 (Nat.zero_le _) _ start
  simp only [bdtCommit, Code.spec_bind, Code.spec_get]
  refine ⟨here, spec_turnLog isBlock rfl here safeStart ?_⟩
  simp only [onSuccess_success, Code.spec_bind]
  refine spec_bdtWrite fits whole space rfl (Nat.zero_add _) start safe fun after wrote => ?_
  simp only [onSuccess_success, Code.spec_bind, Code.spec_modify, Code.spec_pure]
  have safeEnd := safe _ (Nat.le_refl _) after wrote
  exact ⟨safeEnd, safeEnd, meets after wrote⟩

theorem spec_hdiCommit {post : Status → FtlRam → UbiStore D → Prop} (fits : l.Fits)
    (space : Room store.pages l.pagePerPhyBlock 1 2 ram.hdiCurrentBlock ram.hdiCurrentPage)
    (here : crash store) (safe : ∀ n ≤ 1, ∀ after, LogWrote l 2 store ram.hdiCurrentBlock
      ram.hdiCurrentPage (hdiContent ram.hdiHashTable) n after → crash after)
    (meets : ∀ after, LogWrote l 2 store ram.hdiCurrentBlock
      ram.hdiCurrentPage (hdiContent ram.hdiHashTable) 1 after →
      post .success (pastHdi l ram) after) :
    Code.spec (storeMachine l.g l.capacity) crash halts (hdiCommit l) post ram store := by
  have isBlock : ram.hdiCurrentBlock ^^^ 1 < l.capacity :=
    InPair.isBlock ((pair_div _).trans space.inPair) (by omega : 2 < 3) fits
  have start : LogWrote l 2 store ram.hdiCurrentBlock ram.hdiCurrentPage
      (hdiContent ram.hdiHashTable) 0
      (turned l ram.hdiCurrentBlock ram.hdiCurrentPage store) := .turned space.inPair
  have safeStart := safe 0 (Nat.zero_le _) _ start
  have wrote := start.succ space.inPair
  have safeEnd := safe 1 (Nat.le_refl _) _ wrote
  have isPage := space.fits (one_dvd _)
  simp only [hdiCommit, Code.spec_bind, Code.spec_get]
  refine ⟨here, spec_turnLog isBlock rfl here safeStart ?_⟩
  simp only [onSuccess_success, Code.spec_bind, Code.spec_get]
  refine ⟨safeStart, (spec_ubiWrite (InPair.isBlock space.target (by omega : 2 < 3) fits)
    (Nat.lt_of_succ_le isPage) (start.isBlank space space.isPage)).mpr ⟨safeStart, safeEnd, ?_⟩⟩
  simp only [onSuccess_success, Code.spec_bind, Code.spec_modify, Code.spec_pure]
  exact ⟨safeEnd, safeEnd, meets _ wrote⟩

/-- The memory when the root is written at the next place. -/
def sealedRoot (l : Layout) (ram : FtlRam) : FtlRam :=
  sealRoot l (setRootCursor
    (nextPlace l.pagePerPhyBlock ram.rootCurrentBlock ram.rootCurrentPage).1
    (nextPlace l.pagePerPhyBlock ram.rootCurrentBlock ram.rootCurrentPage).2 ram)

/-- The memory when the root has been written. -/
def pastRoot (l : Layout) (ram : FtlRam) : FtlRam :=
  { sealedRoot l ram with rootCurrentPage := (sealedRoot l ram).rootCurrentPage + 1 }

/-- The store when the root has been written. -/
def withRoot (l : Layout) (ram : FtlRam) (store : UbiStore D) : UbiStore D :=
  (turned l ram.rootCurrentBlock ram.rootCurrentPage store).write
    (sealedRoot l ram).rootCurrentBlock (sealedRoot l ram).rootCurrentPage
    (rootContent (sealedRoot l ram).rootTable 0)

theorem spec_rootCommit {post : Status → FtlRam → UbiStore D → Prop} (fits : l.Fits)
    (space : Room store.pages l.pagePerPhyBlock 1 1 ram.rootCurrentBlock ram.rootCurrentPage)
    (here : crash store)
    (safeStart : crash (turned l ram.rootCurrentBlock ram.rootCurrentPage store))
    (safeEnd : crash (withRoot l ram store))
    (meets : post .success (pastRoot l ram) (withRoot l ram store)) :
    Code.spec (storeMachine l.g l.capacity) crash halts (rootCommit l) post ram store := by
  have isBlock : ram.rootCurrentBlock ^^^ 1 < l.capacity :=
    InPair.isBlock ((pair_div _).trans space.inPair) (by omega : 1 < 3) fits
  have start : LogWrote l 1 store ram.rootCurrentBlock ram.rootCurrentPage
      (rootContent (sealedRoot l ram).rootTable) 0
      (turned l ram.rootCurrentBlock ram.rootCurrentPage store) := .turned space.inPair
  have isPage := space.fits (one_dvd _)
  simp only [rootCommit, Code.spec_bind, Code.spec_get]
  refine ⟨here, spec_turnLog isBlock rfl here safeStart ?_⟩
  simp only [onSuccess_success, Code.spec_bind, Code.spec_get, Code.spec_modify]
  refine ⟨safeStart, safeStart, (spec_ubiWrite (InPair.isBlock space.target (by omega : 1 < 3) fits)
    (Nat.lt_of_succ_le isPage) (start.isBlank space space.isPage)).mpr ⟨safeStart, safeEnd, ?_⟩⟩
  simp only [onSuccess_success, Code.spec_bind, Code.spec_modify, Code.spec_pure]
  exact ⟨safeEnd, safeEnd, meets⟩

/-! ## Scans -/

/-- The scan for the first erased page finds the end of the chain. -/
theorem spec_firstErased {post : Nat → FtlRam → UbiStore D → Prop}
    {block step first last rounds page : Nat}
    (chain : Chain (store.pages block) l.pagePerPhyBlock step first last)
    (isBlock : block < l.capacity) (pos : 0 < step) (multiple : step ∣ page) (low : first ≤ page)
    (high : page ≤ last) (enough : last ≤ page + rounds) (here : crash store)
    (meets : post last ram store) :
    Code.spec (storeMachine l.g l.capacity) crash halts (firstErased l block step rounds page) post
      ram store := by
  induction rounds generalizing page with
  | zero =>
      obtain rfl : page = last := by omega
      exact Code.spec_pure.mpr ⟨here, meets⟩
  | succ rounds ih =>
      unfold firstErased
      split
      · rename_i isPage
        rw [Code.spec_bind, spec_ubiRead isBlock isPage]
        refine ⟨here, ?_⟩
        rcases Nat.lt_or_eq_of_le high with before | rfl
        · have programmed := chain.starts page low before multiple
          have success : (store.pages.answer block page).status = .success := by
            unfold Nand.answer
            split
            · rfl
            · rename_i blank
              exact absurd blank programmed
          simp only [success, if_true]
          exact ih (Nat.dvd_add multiple (Nat.dvd_refl step)) (by omega)
            (step_le multiple chain.last_dvd before) (by omega)
        · have blank := chain.blank page (Nat.le_refl _) isPage
          simp only [Nand.answer, blank]
          exact Code.spec_pure.mpr ⟨here, meets⟩
      · obtain rfl : page = last := by
          have := chain.le
          omega
        exact Code.spec_pure.mpr ⟨here, meets⟩

end Commits

end OpenNfm.Ftl
