import OpenNfm.Ftl.Rules
import OpenNfm.Program.Oracle

/-!
# Failures in a commit of the page mapping

`PMT_Commit` takes the root entries of the cache slots back one after another, and empties
the cache only when all of them are written.  When a call of the UBI layer fails on the
way, slots are left that are still registered although the root already names a page: the
next `PMT_Commit` stops at them.
-/

namespace OpenNfm.Ftl

open OpenNfm.Program OpenNfm.Program.Code

variable {l : Layout} {D : Type}

/-- The calls to the UBI layer, newest first. -/
abbrev UbiCalls (D : Type) : Type := List (Called (UbiOp D) (UbiAns D))

/-- The answers of the UBI layer. -/
abbrev UbiOracle (D : Type) : Type := Oracle (UbiOp D) (UbiAns D)

/-! ## The cache -/

/-- The root entry of each registered slot is the address of the slot, with the dirty bit or
without it, and no cluster has two slots.  The origin of a slot is a page. -/
structure CacheKept (l : Layout) (ram : FtlRam) : Prop where
  address : ∀ i, Registered l ram i → slotAddress l i % 4 = 0 ∧
    (slotWord ram i = slotAddress l i ∨ slotWord ram i = PmNode.setDirty (slotAddress l i))
  distinct : ∀ i j, Registered l ram i → Registered l ram j →
    ram.pmCacheCluster i = ram.pmCacheCluster j → i = j
  origin : ∀ i, Registered l ram i → PmNode.isCached (ram.pmCacheOriginLocation i) = false

theorem CacheKept.isCached {ram : FtlRam} {i : Nat} (kept : CacheKept l ram)
    (registered : Registered l ram i) : PmNode.isCached (slotWord ram i) = true := by
  obtain ⟨aligned, same | same⟩ := kept.address i registered
  · rw [same]
    exact decide_eq_true (by omega)
  · rw [same, PmNode.setDirty_of_aligned aligned]
    exact decide_eq_true (by omega)

/-- A slot is registered for a cluster that the root has on a page. -/
def BrokenSlot (l : Layout) (j cluster : Nat) (ram : FtlRam) : Prop :=
  j < pmtCacheCount l ∧ cluster ≠ invalidCluster ∧ ram.pmCacheCluster j = cluster ∧
    PmNode.isCached (ram.rootTable.pageMappingNodes cluster) = false

theorem BrokenSlot.not_kept {j cluster : Nat} {ram : FtlRam} (broken : BrokenSlot l j cluster ram) :
    ¬ CacheKept l ram := by
  obtain ⟨isSlot, valid, rfl, onPage⟩ := broken
  intro kept
  have cached := kept.isCached ⟨isSlot, valid⟩
  rw [slotWord, onPage] at cached
  exact Bool.false_ne_true cached

/-! ## States that calls with success reach -/

section Reached

variable {oracle : UbiOracle D} {ram : FtlRam} {calls : UbiCalls D}

theorem yields_onSuccess {ret : Status} {rest : FtlCode D Status}
    {post : Status → FtlRam → UbiCalls D → Prop}
    (goesOn : ret = .success → Yields oracle rest post ram calls)
    (stops : ret ≠ .success → post ret ram calls) :
    Yields oracle (onSuccess ret rest) post ram calls := by
  by_cases success : ret = .success
  · rw [success, onSuccess_success]
    exact goesOn success
  · rw [onSuccess_other success, Yields.pure]
    exact stops success

/-- No slot is registered. -/
def CacheEmpty (l : Layout) (ram : FtlRam) : Prop :=
  ∀ i < pmtCacheCount l, ram.pmCacheCluster i = invalidCluster

theorem CacheEmpty.not_registered (empty : CacheEmpty l ram) (i : Nat) : ¬ Registered l ram i :=
  fun registered => registered.2 (empty i registered.1)

theorem CacheEmpty.kept (empty : CacheEmpty l ram) : CacheKept l ram where
  address i registered := absurd registered (empty.not_registered i)
  distinct i _ registered := absurd registered (empty.not_registered i)
  origin i registered := absurd registered (empty.not_registered i)

/-- Code that registers no slot. -/
abbrev KeepsEmpty (l : Layout) (oracle : UbiOracle D) {α : Type} (code : FtlCode D α) : Prop :=
  Code.Keeps oracle.machine (fun ram _ => CacheEmpty l ram) code

theorem keepsEmpty_perform (op : UbiOp D) :
    KeepsEmpty l oracle (Code.perform op : FtlCode D (UbiAns D op)) :=
  .perform fun _ _ _ _ empty _ => empty

theorem keepsEmpty_onSuccess {ret : Status} {rest : FtlCode D Status}
    (keeps : KeepsEmpty l oracle rest) : KeepsEmpty l oracle (onSuccess ret rest) := by
  unfold onSuccess
  split
  · exact keeps
  · exact .pure _

theorem keepsEmpty_turnLog {block page : Nat} {setCursor : Nat → Nat → FtlRam → FtlRam}
    (stable : ∀ block page ram, CacheEmpty l ram → CacheEmpty l (setCursor block page ram)) :
    KeepsEmpty l oracle (turnLog l block page setCursor : FtlCode D Status) := by
  unfold turnLog
  split
  · exact .bind (keepsEmpty_perform _) fun _ => keepsEmpty_onSuccess
      (.bind (.modifies fun ram _ empty => stable _ _ ram empty) fun _ => .pure _)
  · exact .pure _

theorem keepsEmpty_bdtWrite {rounds i : Nat} :
    KeepsEmpty l oracle (bdtWrite l rounds i : FtlCode D Status) := by
  induction rounds generalizing i with
  | zero => exact .pure _
  | succ rounds ih =>
      exact .bind .get fun ram => .bind (keepsEmpty_perform _) fun ret => keepsEmpty_onSuccess ih

theorem keepsEmpty_bdtCommit : KeepsEmpty l oracle (bdtCommit l : FtlCode D Status) :=
  .bind .get fun _ => .bind (keepsEmpty_turnLog fun _ _ _ => id) fun _ => keepsEmpty_onSuccess
    (.bind keepsEmpty_bdtWrite fun _ => keepsEmpty_onSuccess
      (.bind (.modifies fun _ _ empty => empty) fun _ => .pure _))

theorem keepsEmpty_rootCommit : KeepsEmpty l oracle (rootCommit l : FtlCode D Status) :=
  .bind .get fun _ => .bind (keepsEmpty_turnLog fun _ _ _ => id) fun _ => keepsEmpty_onSuccess
    (.bind (.modifies fun _ _ empty => empty) fun _ => .bind .get fun _ =>
      .bind (keepsEmpty_perform _) fun _ => keepsEmpty_onSuccess
        (.bind (.modifies fun _ _ empty => empty) fun _ => .pure _))

/-- A commit with success empties the cache. -/
theorem yields_pmtCommit {reclaim : FtlCode D Status} :
    Yields oracle (pmtCommit l reclaim) (fun ret ram' _ => ret = .success → CacheEmpty l ram') ram
      calls := by
  rw [pmtCommit, Yields.bind]
  refine Yields.any.mono fun ret ram' calls' _ =>
    yields_onSuccess (fun _ => ?_) fun failed success => absurd success failed
  rw [pmtInit, Yields.bind, Yields.modifies, Yields.pure]
  exact fun _ i isSlot => if_pos isSlot

/-- The step behind a commit keeps the cache empty. -/
theorem yields_afterCommit {ret : Status} {rest : FtlCode D Status}
    (empty : ret = .success → CacheEmpty l ram) (keeps : KeepsEmpty l oracle rest) :
    Yields oracle (onSuccess ret rest) (fun ret ram' _ => ret = .success → CacheEmpty l ram') ram
      calls :=
  yields_onSuccess (fun done => keeps.yields (empty done) fun _ _ _ empty' _ => empty')
    fun failed success => absurd success failed

theorem yields_dataCommit {reclaim : FtlCode D Status} :
    Yields oracle (dataCommit l reclaim) (fun ret ram' _ => ret = .success → CacheEmpty l ram') ram
      calls := by
  rw [dataCommit, Yields.bind]
  refine Yields.any.mono fun ret ram calls _ => Yields.bind.mpr ?_
  refine (yields_onSuccess (fun _ => yields_pmtCommit) fun failed success =>
    absurd success failed).mono ?_
  refine fun ret ram calls empty => Yields.bind.mpr ?_
  refine (yields_afterCommit empty keepsEmpty_bdtCommit).mono ?_
  refine fun ret ram calls empty => Yields.bind.mpr ?_
  refine (yields_afterCommit empty keepsEmpty_rootCommit).mono ?_
  refine fun ret ram calls empty => yields_afterCommit empty ?_
  exact .bind (.modifies fun _ _ empty => empty) fun _ => .pure _

/-! ### Loads -/

/-- No slot is registered for the cluster. -/
def NotLoaded (l : Layout) (cluster : Nat) (ram : FtlRam) : Prop :=
  ∀ i, Registered l ram i → ram.pmCacheCluster i ≠ cluster

theorem CacheKept.notLoaded {cluster : Nat} (kept : CacheKept l ram)
    (onPage : PmNode.isCached (ram.rootTable.pageMappingNodes cluster) = false) :
    NotLoaded l cluster ram := by
  rintro i registered rfl
  have cached := kept.isCached registered
  rw [slotWord, onPage] at cached
  exact Bool.false_ne_true cached

/-- The node of a cluster without a slot goes to slot `i`. -/
theorem CacheKept.cacheNode {i block page cluster : Nat} (kept : CacheKept l ram)
    (notLoaded : NotLoaded l cluster ram) (aligned : slotAddress l i % 4 = 0) :
    CacheKept l (cacheNode l i block page cluster ram) := by
  have slot : ∀ k, k ≠ i → (Ftl.cacheNode l i block page cluster ram).pmCacheCluster k =
      ram.pmCacheCluster k := fun k other => Function.update_of_ne other _ _
  have slotHere : (Ftl.cacheNode l i block page cluster ram).pmCacheCluster i = cluster :=
    Function.update_self _ _ _
  have before : ∀ k, k ≠ i → Registered l (Ftl.cacheNode l i block page cluster ram) k →
      Registered l ram k := fun k other registered => ⟨registered.1, slot k other ▸ registered.2⟩
  have word : ∀ k, k ≠ i → Registered l ram k →
      slotWord (Ftl.cacheNode l i block page cluster ram) k = slotWord ram k := by
    intro k other registered
    rw [slotWord, slot k other]
    exact Function.update_of_ne (notLoaded k registered) _ _
  have wordHere : slotWord (Ftl.cacheNode l i block page cluster ram) i = slotAddress l i := by
    rw [slotWord, slotHere]
    exact Function.update_self _ _ _
  constructor
  · intro k registered
    by_cases here : k = i
    · subst here
      exact ⟨aligned, Or.inl wordHere⟩
    · have registered := before k here registered
      rw [word k here registered]
      exact kept.address k registered
  · intro k k' registered registered' same
    by_cases here : k = i <;> by_cases here' : k' = i
    · rw [here, here']
    · subst here
      rw [slotHere, slot k' here'] at same
      exact absurd same.symm (notLoaded k' (before k' here' registered'))
    · subst here'
      rw [slotHere, slot k here] at same
      exact absurd same (notLoaded k (before k here registered))
    · rw [slot k here, slot k' here'] at same
      exact kept.distinct k k' (before k here registered) (before k' here' registered') same
  · intro k registered
    by_cases here : k = i
    · subst here
      have origin : (Ftl.cacheNode l k block page cluster ram).pmCacheOriginLocation k =
          PmNode.setBlockPage l.g block page := Function.update_self _ _ _
      rw [origin]
      exact PmNode.isCached_setBlockPage l.g block page
    · have origin : (Ftl.cacheNode l i block page cluster ram).pmCacheOriginLocation k =
          ram.pmCacheOriginLocation k := Function.update_of_ne here _ _
      rw [origin]
      exact kept.origin k (before k here registered)

theorem yields_pmtFill {i block page cluster : Nat} (kept : CacheKept l ram)
    (notLoaded : NotLoaded l cluster ram) :
    Yields oracle (pmtFill l i block page cluster)
      (fun ret ram' _ => ret = .success → CacheKept l ram') ram calls := by
  rw [pmtFill, Yields.bind, ubiRead, Yields.perform, Yields.bind]
  have same : Yields oracle (loadNode (oracle calls (.read block page)).main)
      (fun _ ram' _ => ram' = ram) ram
        (⟨.read block page, oracle calls (.read block page)⟩ :: calls) := by
    unfold loadNode
    split
    · exact Yields.pure.mpr rfl
    · exact Yields.pure.mpr rfl
    · exact Yields.halt
  refine same.mono ?_
  rintro words ram calls' rfl
  rw [Yields.bind, Yields.modifies]
  refine yields_onSuccess (fun _ => ?_) fun failed success => absurd success failed
  rw [Yields.bind, Yields.modifies, Yields.bind, Yields.assert]
  intro aligned
  rw [Yields.pure]
  have filled : CacheKept l
      { ram with pmNodeCaches := Function.update ram.pmNodeCaches i words } :=
    ⟨kept.address, kept.distinct, kept.origin⟩
  exact fun _ => filled.cacheNode notLoaded aligned

theorem yields_pmtLoad {reclaim : FtlCode D Status} {block page cluster : Nat}
    (kept : CacheKept l ram) (notLoaded : NotLoaded l cluster ram) :
    Yields oracle (pmtLoad l reclaim block page cluster)
      (fun ret ram' _ => ret = .success → CacheKept l ram') ram calls := by
  rw [pmtLoad, Yields.bind, pmtMakeRoom, Yields.bind, Yields.get]
  cases slot : freeSlot l ram with
  | some i =>
      rw [Yields.pure]
      exact yields_onSuccess (fun _ => yields_pmtFill kept notLoaded) fun failed success =>
        absurd success failed
  | none =>
      rw [Yields.bind]
      refine yields_dataCommit.mono fun ret ram' calls' empty => ?_
      rw [Yields.bind, Yields.get]
      by_cases done : ret = .success
      · have empty := empty done
        rw [if_pos done, Yields.pure]
        exact yields_onSuccess (fun _ => yields_pmtFill empty.kept fun i registered =>
          absurd registered (empty.not_registered i)) fun failed success => absurd success failed
      · rw [if_neg done, Yields.pure]
        exact yields_onSuccess (fun success => absurd success done) fun failed success =>
          absurd success failed

theorem yields_rootNode {cluster : Nat} {post : Nat → FtlRam → UbiCalls D → Prop}
    (meets : post (ram.rootTable.pageMappingNodes cluster) ram calls) :
    Yields oracle (rootNode l cluster) post ram calls := by
  rw [rootNode, Yields.bind, Yields.get]
  split
  · exact Yields.pure.mpr meets
  · exact Yields.halt

theorem yields_pmtCached {reclaim : FtlCode D Status} {cluster : Nat} (kept : CacheKept l ram) :
    Yields oracle (pmtCached l reclaim cluster)
      (fun ret ram' _ => ret = .success → CacheKept l ram') ram calls := by
  rw [pmtCached, Yields.bind]
  refine yields_rootNode ?_
  split
  · rename_i onPage
    exact yields_pmtLoad kept (kept.notLoaded onPage)
  · exact Yields.pure.mpr fun _ => kept

theorem yields_pmtSlot {cluster : Nat} {post : Nat → FtlRam → UbiCalls D → Prop}
    (meets : ∀ i, post i ram calls) : Yields oracle (pmtSlot l cluster) post ram calls := by
  rw [pmtSlot, Yields.bind]
  refine yields_rootNode ?_
  split
  · exact Yields.pure.mpr (meets _)
  · exact Yields.halt

/-- The dirty bit is set, and set again. -/
theorem CacheKept.enterWord {i pageAddr word : Nat} (kept : CacheKept l ram) :
    CacheKept l (enterWord l i pageAddr word ram) := by
  refine ⟨fun k registered => ?_, kept.distinct, kept.origin⟩
  obtain ⟨aligned, same⟩ := kept.address k registered
  refine ⟨aligned, ?_⟩
  by_cases here : ram.pmCacheCluster k = clusterIndex l pageAddr
  · have set : slotWord (Ftl.enterWord l i pageAddr word ram) k =
        PmNode.setDirty (slotWord ram k) := by
      have update : slotWord (Ftl.enterWord l i pageAddr word ram) k =
          Function.update ram.rootTable.pageMappingNodes (clusterIndex l pageAddr)
            (PmNode.setDirty (ram.rootTable.pageMappingNodes (clusterIndex l pageAddr)))
            (ram.pmCacheCluster k) := rfl
      rw [update, ← here, Function.update_self, slotWord]
    rw [set]
    rcases same with same | same
    · exact Or.inr (congrArg PmNode.setDirty same)
    · rw [same, PmNode.setDirty_setDirty]
      exact Or.inr rfl
  · have update : slotWord (Ftl.enterWord l i pageAddr word ram) k = slotWord ram k :=
      Function.update_of_ne here _ _
    rw [update]
    exact same

/-- Code after which the slots of the cache name their clusters. -/
abbrev KeepsCache (l : Layout) (oracle : UbiOracle D) {α : Type} (code : FtlCode D α) : Prop :=
  Code.Keeps oracle.machine (fun ram _ => CacheKept l ram) code

theorem KeepsCache.yields {code : FtlCode D Status} (keeps : KeepsCache l oracle code)
    (kept : CacheKept l ram) :
    Yields oracle code (fun ret ram' _ => ret = .success → CacheKept l ram') ram calls :=
  Code.Keeps.yields keeps kept fun _ _ _ kept _ => kept

theorem keepsCache_addDirty {block : Nat} :
    KeepsCache l oracle (addDirty l block : FtlCode D Unit) :=
  .bind (.modifies fun _ _ kept => ⟨kept.address, kept.distinct, kept.origin⟩) fun _ =>
    .bind .get fun _ => .assert _

theorem keepsCache_pmtDropPage {i pageAddr : Nat} :
    KeepsCache l oracle (pmtDropPage l i pageAddr : FtlCode D Unit) := by
  refine .bind .get fun ram => ?_
  by_cases mapped : ram.pmNodeCaches i (pageInCluster l pageAddr) ≠ PmNode.invalid
  · exact (if_pos mapped).symm ▸ keepsCache_addDirty
  · exact (if_neg mapped).symm ▸ .pure _

theorem keepsCache_pmtWord {block page : Nat} :
    KeepsCache l oracle (pmtWord l block page : FtlCode D Nat) := by
  unfold pmtWord
  split
  · exact .bind (.assert _) fun _ => .pure _
  · exact .bind (.assert _) fun _ => .pure _

theorem yields_pmtUpdate {reclaim : FtlCode D Status} {pageAddr block page : Nat}
    (kept : CacheKept l ram) :
    Yields oracle (pmtUpdate l reclaim pageAddr block page)
      (fun ret ram' _ => ret = .success → CacheKept l ram') ram calls := by
  rw [pmtUpdate, Yields.bind]
  refine (yields_pmtCached kept).mono fun ret ram calls kept => ?_
  refine yields_onSuccess (fun done => ?_) fun failed success => absurd success failed
  rw [Yields.bind]
  refine yields_pmtSlot fun i => ?_
  exact KeepsCache.yields (.bind keepsCache_pmtDropPage fun _ => .bind keepsCache_pmtWord fun _ =>
    .bind (.modifies fun _ _ kept => kept.enterWord) fun _ => .pure _) (kept done)

theorem yields_pmtSearch {reclaim : FtlCode D Status} {pageAddr : Nat} (kept : CacheKept l ram) :
    Yields oracle (pmtSearch l reclaim pageAddr)
      (fun result ram' _ => result.1 = .success → CacheKept l ram') ram calls := by
  rw [pmtSearch, Yields.bind]
  refine (yields_pmtCached kept).mono fun ret ram calls kept => ?_
  by_cases done : ret = .success
  · rw [if_pos done, Yields.bind]
    refine yields_rootNode ?_
    rw [Yields.bind, Yields.assert]
    intro _
    rw [Yields.bind, Yields.assert]
    intro _
    rw [Yields.bind]
    refine yields_pmtSlot fun i => ?_
    rw [Yields.bind, Yields.get]
    dsimp only
    split
    · exact Yields.pure.mpr kept
    · exact Yields.pure.mpr kept
  · rw [if_neg done, Yields.pure]
    exact fun success => absurd success done

end Reached

/-! ## What is broken stays broken -/

section Broken

variable {oracle : UbiOracle D} {j cluster : Nat}

/-- Code that leaves the broken slot as it is. -/
abbrev KeepsBroken (l : Layout) (oracle : UbiOracle D) (j cluster : Nat) {α : Type}
    (code : FtlCode D α) : Prop :=
  Code.Keeps oracle.machine (fun ram _ => BrokenSlot l j cluster ram) code

theorem keepsBroken_perform (op : UbiOp D) :
    KeepsBroken l oracle j cluster (Code.perform op : FtlCode D (UbiAns D op)) :=
  .perform fun _ _ _ _ broken _ => broken

theorem keepsBroken_onSuccess {ret : Status} {rest : FtlCode D Status}
    (keeps : KeepsBroken l oracle j cluster rest) :
    KeepsBroken l oracle j cluster (onSuccess ret rest) := by
  unfold onSuccess
  split
  · exact keeps
  · exact .pure _

theorem BrokenSlot.setNode {ram : FtlRam} (broken : BrokenSlot l j cluster ram) {other word : Nat}
    (harmless : other = cluster → PmNode.isCached word = false) :
    BrokenSlot l j cluster (setNode ram other word) := by
  obtain ⟨isSlot, valid, inSlot, onPage⟩ := broken
  refine ⟨isSlot, valid, inSlot, ?_⟩
  by_cases same : other = cluster
  · subst same
    have set : (Ftl.setNode ram other word).rootTable.pageMappingNodes other = word :=
      Function.update_self _ _ _
    rw [set]
    exact harmless rfl
  · have kept : (Ftl.setNode ram other word).rootTable.pageMappingNodes cluster =
        ram.rootTable.pageMappingNodes cluster := Function.update_of_ne (Ne.symm same) _ _
    rw [kept]
    exact onPage

theorem BrokenSlot.clearSlot {ram : FtlRam} (broken : BrokenSlot l j cluster ram) {i : Nat}
    (other : i ≠ j) : BrokenSlot l j cluster (clearSlot i ram) := by
  obtain ⟨isSlot, valid, inSlot, onPage⟩ := broken
  exact ⟨isSlot, valid, (Function.update_of_ne other.symm _ _).trans inSlot, onPage⟩

theorem keepsBroken_addDirty (block : Nat) :
    KeepsBroken l oracle j cluster (addDirty l block : FtlCode D Unit) :=
  .bind (.modifies fun _ _ broken => broken) fun _ => .bind .get fun _ => .assert _

theorem keepsBroken_pmtFindDirty {target nextCount : Nat} {blocks : List Nat} :
    KeepsBroken l oracle j cluster
      (pmtFindDirty target blocks nextCount : FtlCode D (Option Nat × Nat)) := by
  induction blocks generalizing nextCount with
  | nil => exact .pure _
  | cons block rest ih =>
      refine .bind .get fun ram => ?_
      split
      · refine .bind (keepsBroken_perform _) fun ret => ?_
        split
        · exact .pure _
        · exact ih
      · exact ih

theorem keepsBroken_pmtFindLoop {rounds target nextCount : Nat} :
    KeepsBroken l oracle j cluster (pmtFindLoop l rounds target nextCount : FtlCode D Nat) := by
  induction rounds generalizing target nextCount with
  | zero => exact .halt _
  | succ rounds ih =>
      refine .bind keepsBroken_pmtFindDirty fun result => ?_
      obtain ⟨found, count⟩ := result
      cases found with
      | some i => exact .pure _
      | none => exact ih

/-- A slot that a reclaim clears is not the broken one. -/
theorem yields_pmtValidNode {ram : FtlRam} {calls : UbiCalls D}
    (broken : BrokenSlot l j cluster ram) (other : Nat) :
    Yields oracle (pmtValidNode l other)
      (fun result ram' _ => BrokenSlot l j cluster ram' ∧ ∀ i, result.2 = some i → i ≠ j) ram
      calls := by
  have noSlot : ∀ i, (none : Option Nat) = some i → i ≠ j := fun _ wrong => by cases wrong
  unfold pmtValidNode rootNode
  simp only [Yields.bind, Yields.get]
  by_cases isCluster : other < l.maxPmClusters
  · rw [if_pos isCluster, Yields.pure]
    split
    · rename_i cached
      split
      · exact Yields.pure.mpr ⟨broken, noSlot⟩
      · simp only [Yields.bind, Yields.get]
        cases slot : slotOfCluster l ram other with
        | none => exact Yields.halt
        | some i =>
            refine Yields.pure.mpr ⟨broken, fun i' same => ?_⟩
            obtain rfl : i = i' := Option.some.inj same
            rintro rfl
            have inSlot := (slotOfCluster_some slot).2
            obtain ⟨_, _, holds, onPage⟩ := broken
            rw [← inSlot, holds, onPage] at cached
            exact Bool.false_ne_true cached
    · exact Yields.pure.mpr ⟨broken, noSlot⟩
  · rw [if_neg isCluster]
    exact Yields.halt

theorem keepsBroken_pmtCopyPage {other dirtyBlock page reclaimBlock reclaimPage : Nat}
    {cleared : Option Nat} (spared : ∀ i, cleared = some i → i ≠ j) :
    KeepsBroken l oracle j cluster (pmtCopyPage l other dirtyBlock page reclaimBlock reclaimPage
      cleared : FtlCode D Status) := by
  refine .bind (keepsBroken_perform _) fun answer => keepsBroken_onSuccess ?_
  refine .bind (keepsBroken_perform _) fun ret => keepsBroken_onSuccess ?_
  refine .bind (.modifies fun ram _ broken => ?_) fun _ => .pure _
  have moved : BrokenSlot l j cluster
      (Ftl.setNode ram other (PmNode.setBlockPage l.g reclaimBlock reclaimPage)) :=
    broken.setNode fun _ => PmNode.isCached_setBlockPage l.g reclaimBlock reclaimPage
  cases cleared with
  | none => exact moved
  | some i => exact BrokenSlot.clearSlot moved (spared i rfl)

theorem keepsBroken_pmtCopyPages {clusters : Nat → Nat}
    {dirtyBlock reclaimBlock rounds page reclaimPage : Nat} {ret : Status} :
    KeepsBroken l oracle j cluster (pmtCopyPages l clusters dirtyBlock reclaimBlock rounds page
      reclaimPage ret : FtlCode D (Nat × Status)) := by
  induction rounds generalizing page reclaimPage ret with
  | zero => exact .pure _
  | succ rounds ih =>
      intro ram calls broken
      rw [pmtCopyPages, Code.spec_bind]
      refine Code.spec_mono (yields_pmtValidNode broken _) ?_ fun after _ => ⟨ram, broken⟩
      rintro ⟨node, cleared⟩ ram' calls' ⟨broken', spared⟩
      dsimp only
      split
      · exact Code.Keeps.bind (keepsBroken_pmtCopyPage spared) (fun ret => ih) ram' calls' broken'
      · exact ih ram' calls' broken'

theorem keepsBroken_loadClusters (main : FtlPage D) :
    KeepsBroken l oracle j cluster (loadClusters main) := by
  unfold loadClusters
  split
  · exact .pure _
  · exact .pure _
  · exact .halt _

theorem keepsBroken_pmtErase {block : Nat} {change : FtlRam → FtlRam}
    (stable : ∀ ram, BrokenSlot l j cluster ram → BrokenSlot l j cluster (change ram)) :
    KeepsBroken l oracle j cluster (pmtErase block change : FtlCode D Status) :=
  .bind (keepsBroken_perform _) fun _ => keepsBroken_onSuccess
    (.bind (.modifies fun ram _ broken => stable ram broken) fun _ => .pure _)

theorem keepsBroken_pmtReclaimBlocks (fuel : Nat) :
    KeepsBroken l oracle j cluster (pmtReclaimBlocks l fuel : FtlCode D Status) := by
  refine .bind keepsBroken_pmtFindLoop fun i => .bind .get fun ram => ?_
  split
  · refine .bind ?_ fun result => keepsBroken_onSuccess (keepsBroken_pmtErase fun _ => id)
    refine .bind (keepsBroken_perform _) fun answer => ?_
    split
    · exact .bind (keepsBroken_loadClusters _) fun clusters => keepsBroken_pmtCopyPages
    · exact .pure _
  · exact keepsBroken_pmtErase fun _ => id

section Commit

variable {reclaim : FtlCode D Status}

theorem BrokenSlot.stored {ram : FtlRam} (broken : BrokenSlot l j cluster ram)
    (i block page : Nat) :
    BrokenSlot l j cluster (storedNode l i block page ram) :=
  broken.setNode fun _ => PmNode.isCached_setBlockPage l.g block page

theorem keepsBroken_pmtWriteSlot {i : Nat} {ret : Status} :
    KeepsBroken l oracle j cluster (pmtWriteSlot l i ret : FtlCode D Status) := by
  refine .bind .get fun ram => ?_
  split
  · refine .bind (.assert _) fun _ => keepsBroken_onSuccess ?_
    refine .bind .get fun ram => .bind (keepsBroken_perform _) fun ret => keepsBroken_onSuccess ?_
    exact .bind (.modifies fun _ _ broken => broken.stored _ _ _) fun _ =>
      .bind (keepsBroken_addDirty _) fun _ => .pure _
  · exact .pure _

theorem keepsBroken_pmtNextBlock {ret : Status} (keeps : KeepsBroken l oracle j cluster reclaim) :
    KeepsBroken l oracle j cluster (pmtNextBlock l reclaim ret) := by
  refine .bind .get fun ram => ?_
  split
  · refine keepsBroken_onSuccess (.bind .get fun ram => .bind (keepsBroken_perform _) fun ret => ?_)
    exact .bind (keepsBroken_onSuccess (keepsBroken_perform _)) fun ret =>
      keepsBroken_onSuccess keeps
  · exact .pure _

/-- The commit goes past the broken slot only by an assertion. -/
theorem keepsBroken_pmtCommitSlots {rounds i : Nat} {ret : Status}
    (keeps : KeepsBroken l oracle j cluster reclaim) :
    KeepsBroken l oracle j cluster (pmtCommitSlots l reclaim rounds i ret) := by
  induction rounds generalizing i ret with
  | zero => exact .pure _
  | succ rounds ih =>
      intro ram calls broken
      rw [pmtCommitSlots, Code.spec_bind, Code.spec_get]
      refine ⟨⟨ram, broken⟩, ?_⟩
      split
      · exact ih ram calls broken
      · rw [Code.spec_bind, Code.spec_assert]
        refine ⟨⟨ram, broken⟩, fun cached => ?_, fun _ => trivial⟩
        split
        · rw [Code.spec_bind, Code.spec_modify]
          refine ⟨⟨ram, broken⟩, ih _ calls (broken.setNode fun same => ?_)⟩
          rw [same, broken.2.2.2] at cached
          exact absurd cached Bool.false_ne_true
        · exact Code.Keeps.bind keepsBroken_pmtWriteSlot (fun ret =>
            Code.Keeps.bind (keepsBroken_pmtNextBlock keeps) fun ret => ih) ram calls broken

/-- No commit goes past the broken slot. -/
theorem yields_pmtCommitSlots_broken {rounds i : Nat} {ret : Status} {ram : FtlRam}
    {calls : UbiCalls D} (keeps : KeepsBroken l oracle j cluster reclaim)
    (broken : BrokenSlot l j cluster ram) (before : i ≤ j) (behind : j < i + rounds) :
    Yields oracle (pmtCommitSlots l reclaim rounds i ret) (fun _ _ _ => False) ram calls := by
  induction rounds generalizing i ret ram calls with
  | zero => omega
  | succ rounds ih =>
      rw [pmtCommitSlots, Yields.bind, Yields.get]
      by_cases here : i = j
      · subst here
        obtain ⟨_, valid, rfl, onPage⟩ := broken
        rw [if_neg valid, Yields.bind, Yields.assert, onPage]
        exact fun wrong => absurd wrong Bool.false_ne_true
      · split
        · exact ih broken (by omega) (by omega)
        · rw [Yields.bind, Yields.assert]
          intro cached
          split
          · rw [Yields.bind, Yields.modifies]
            refine ih (broken.setNode fun same => ?_) (by omega) (by omega)
            rw [same, broken.2.2.2] at cached
            exact absurd cached Bool.false_ne_true
          · rw [Yields.bind]
            refine keepsBroken_pmtWriteSlot.yields broken fun ret ram' calls' broken' => ?_
            rw [Yields.bind]
            exact (keepsBroken_pmtNextBlock keeps).yields broken' fun ret ram' calls' broken' =>
              ih broken' (by omega) (by omega)

/-- A commit that finds a broken slot stops, whatever the answers are. -/
theorem pmtCommit_stops_at_broken {fuel : Nat} {ram : FtlRam}
    {calls : UbiCalls D} (broken : BrokenSlot l j cluster ram) :
    Yields oracle (pmtCommit l (pmtReclaimBlocks l fuel)) (fun _ _ _ => False) ram calls := by
  rw [pmtCommit, Yields.bind]
  exact (yields_pmtCommitSlots_broken (keepsBroken_pmtReclaimBlocks fuel) broken (Nat.zero_le j)
    (by have := broken.1; omega)).mono fun _ _ _ => False.elim

end Commit

end Broken

/-! ## Where a commit fails without harm -/

section Failures

variable {oracle : UbiOracle D} {reclaim : FtlCode D Status} {ram : FtlRam}
  {calls : UbiCalls D}

/-- The slots from `i` on that are registered are dirty. -/
def DirtyFrom (l : Layout) (ram : FtlRam) (i : Nat) : Prop :=
  ∀ k, i ≤ k → Registered l ram k → PmNode.isDirty (slotWord ram k) = true

/-- The answer to the write of slot `i` to the current page. -/
def slotWritten (l : Layout) (oracle : UbiOracle D) (ram : FtlRam) (calls : UbiCalls D) (i : Nat) :
    Status :=
  oracle calls (.write (pmtCurrentBlock l ram) (pmtCurrentPage l ram) (.node (ram.pmNodeCaches i))
    (some ⟨ram.pmCacheCluster i, 0⟩) false)

/-- The write of the first registered slot fails, and all registered slots are dirty. -/
structure FailsFirst (l : Layout) (oracle : UbiOracle D) (ram : FtlRam)
    (calls : UbiCalls D) (i : Nat) : Prop where
  registered : Registered l ram i
  first : ∀ k < i, ¬ Registered l ram k
  dirty : DirtyFrom l ram i
  room : pmtCurrentPage l ram ≠ l.pagePerPhyBlock - 1
  failed : slotWritten l oracle ram calls i ≠ .success

/-- The commit returns an error, the cache is intact, and what was dirty is dirty. -/
def FailsCleanly (l : Layout) (oracle : UbiOracle D) (commit : FtlCode D Status)
    (ram : FtlRam) (calls : UbiCalls D) : Prop :=
  ∃ ret after calls', (commit.run ram).exec oracle.machine calls = .ok ((ret, after), calls') ∧
    ret ≠ .success ∧ CacheKept l after ∧
    ∀ i, Registered l ram i → PmNode.isDirty (slotWord ram i) = true →
      Registered l after i ∧ PmNode.isDirty (slotWord after i) = true

/-- A slot is broken. -/
def SomeBroken (l : Layout) (ram : FtlRam) : Prop :=
  ∃ j cluster, BrokenSlot l j cluster ram

theorem SomeBroken.yields {α : Type} {code : FtlCode D α}
    {post : α → FtlRam → UbiCalls D → Prop} (broken : SomeBroken l ram)
    (keeps : ∀ j cluster, KeepsBroken l oracle j cluster code)
    (meets : ∀ value ram' calls', SomeBroken l ram' → post value ram' calls') :
    Yields oracle code post ram calls := by
  obtain ⟨j, cluster, broken⟩ := broken
  exact (keeps j cluster).yields broken fun value ram' calls' broken' =>
    meets value ram' calls' ⟨j, cluster, broken'⟩

theorem DirtyFrom.succ {i : Nat}
    (here : Registered l ram i → PmNode.isDirty (slotWord ram i) = true)
    (dirty : DirtyFrom l ram (i + 1)) : DirtyFrom l ram i := by
  intro k behind registered
  rcases Nat.eq_or_lt_of_le behind with rfl | behind
  · exact here registered
  · exact dirty k behind registered

/-- The node of a clean slot goes back to its page, and the slot stays registered. -/
theorem CacheKept.restored {i : Nat} (kept : CacheKept l ram) (registered : Registered l ram i) :
    SomeBroken l (setNode ram (ram.pmCacheCluster i) (ram.pmCacheOriginLocation i)) := by
  refine ⟨i, ram.pmCacheCluster i, registered.1, registered.2, rfl, ?_⟩
  have origin : (setNode ram (ram.pmCacheCluster i)
      (ram.pmCacheOriginLocation i)).rootTable.pageMappingNodes (ram.pmCacheCluster i) =
        ram.pmCacheOriginLocation i := Function.update_self _ _ _
  rw [origin]
  exact kept.origin i registered

/-- After a failure the commit goes through the dirty slots without a change. -/
theorem spec_pmtCommitSlots_dirty {halts : Prop} {rounds i : Nat} {ret : Status}
    (kept : CacheKept l ram) (failed : ret ≠ .success)
    (room : pmtCurrentPage l ram ≠ l.pagePerPhyBlock - 1) (last : i + rounds = pmtCacheCount l)
    (dirty : DirtyFrom l ram i) :
    Code.spec oracle.machine (fun _ => True) halts (pmtCommitSlots l reclaim rounds i ret)
      (fun ret' ram' _ => ret' = ret ∧ ram' = ram) ram calls := by
  induction rounds generalizing i with
  | zero => exact ⟨trivial, rfl, rfl⟩
  | succ rounds ih =>
      have later : DirtyFrom l ram (i + 1) := fun k behind => dirty k (by omega)
      rw [pmtCommitSlots, Code.spec_bind, Code.spec_get]
      refine ⟨trivial, ?_⟩
      by_cases empty : ram.pmCacheCluster i = invalidCluster
      · rw [if_pos empty]
        exact ih (by omega) later
      · have registered : Registered l ram i := ⟨by omega, empty⟩
        have cached : PmNode.isCached (ram.rootTable.pageMappingNodes (ram.pmCacheCluster i)) =
            true := kept.isCached registered
        have isDirty : PmNode.isDirty (ram.rootTable.pageMappingNodes (ram.pmCacheCluster i)) =
            true := dirty i (Nat.le_refl i) registered
        have clean : ¬ PmNode.isDirty (ram.rootTable.pageMappingNodes (ram.pmCacheCluster i)) =
            false := by simp only [isDirty, Bool.true_eq_false, not_false_eq_true]
        rw [if_neg empty, Code.spec_bind, Code.spec_assert]
        refine ⟨trivial, fun _ => ?_, fun wrong => absurd cached wrong⟩
        rw [if_neg clean, Code.spec_bind, pmtWriteSlot, Code.spec_bind, Code.spec_get]
        refine ⟨trivial, ?_⟩
        have inBlock : pmtCurrentPage l ram ≠ l.pagePerPhyBlock :=
          Nat.ne_of_lt (Nat.mod_lt _ l.g.pagePerPhyBlock_pos)
        rw [if_pos inBlock, Code.spec_bind, Code.spec_assert]
        refine ⟨trivial, fun _ => ?_, fun wrong => absurd room wrong⟩
        rw [onSuccess_other failed, Code.spec_pure, Code.spec_bind, pmtNextBlock, Code.spec_bind,
          Code.spec_get, if_neg room, Code.spec_pure]
        exact ⟨trivial, trivial, trivial, ih (by omega) later⟩

/-- After a failure in front of slot `i` nothing changes, or a slot is broken. -/
theorem yields_pmtCommitSlots_failed {rounds i : Nat} {ret : Status} (kept : CacheKept l ram)
    (keeps : ∀ j cluster, KeepsBroken l oracle j cluster reclaim) (failed : ret ≠ .success)
    (room : pmtCurrentPage l ram ≠ l.pagePerPhyBlock - 1) (last : i + rounds = pmtCacheCount l) :
    Yields oracle (pmtCommitSlots l reclaim rounds i ret)
      (fun _ ram' _ => DirtyFrom l ram i ∨ SomeBroken l ram') ram calls := by
  induction rounds generalizing i with
  | zero =>
      have none : DirtyFrom l ram i := fun k behind registered => by
        have := registered.1
        omega
      exact Yields.pure.mpr (Or.inl none)
  | succ rounds ih =>
      have step : (Registered l ram i → PmNode.isDirty (slotWord ram i) = true) →
          Yields oracle (pmtCommitSlots l reclaim rounds (i + 1) ret)
            (fun _ ram' _ => DirtyFrom l ram i ∨ SomeBroken l ram') ram calls := fun here =>
        (ih (by omega)).mono fun _ _ _ => Or.imp_left fun dirty => dirty.succ here
      rw [pmtCommitSlots, Yields.bind, Yields.get]
      by_cases empty : ram.pmCacheCluster i = invalidCluster
      · rw [if_pos empty]
        exact step fun registered => absurd empty registered.2
      · have registered : Registered l ram i := ⟨by omega, empty⟩
        rw [if_neg empty, Yields.bind, Yields.assert]
        intro _
        by_cases clean : PmNode.isDirty (ram.rootTable.pageMappingNodes (ram.pmCacheCluster i)) =
            false
        · rw [if_pos clean, Yields.bind, Yields.modifies]
          exact (kept.restored registered).yields
            (fun _ _ => keepsBroken_pmtCommitSlots (keeps _ _)) fun _ _ _ => Or.inr
        · have inBlock : pmtCurrentPage l ram ≠ l.pagePerPhyBlock :=
            Nat.ne_of_lt (Nat.mod_lt _ l.g.pagePerPhyBlock_pos)
          rw [if_neg clean, Yields.bind, pmtWriteSlot, Yields.bind, Yields.get, if_pos inBlock,
            Yields.bind, Yields.assert]
          intro _
          rw [onSuccess_other failed, Yields.pure, Yields.bind, pmtNextBlock, Yields.bind,
            Yields.get, if_neg room, Yields.pure]
          exact step fun _ => eq_true_of_ne_false clean

/-- The write of the first registered slot fails, or a slot is broken, or nothing fails. -/
theorem yields_pmtCommitSlots {rounds i : Nat} (kept : CacheKept l ram)
    (keeps : ∀ j cluster, KeepsBroken l oracle j cluster reclaim)
    (last : i + rounds = pmtCacheCount l) (before : ∀ k < i, ¬ Registered l ram k) :
    Yields oracle (pmtCommitSlots l reclaim rounds i .success)
      (fun ret ram' _ => ret = .success ∨ SomeBroken l ram' ∨ ∃ k, FailsFirst l oracle ram calls k)
      ram calls := by
  induction rounds generalizing i with
  | zero => exact Yields.pure.mpr (Or.inl rfl)
  | succ rounds ih =>
      rw [pmtCommitSlots, Yields.bind, Yields.get]
      by_cases empty : ram.pmCacheCluster i = invalidCluster
      · rw [if_pos empty]
        refine ih (by omega) fun k less registered => ?_
        rcases Nat.lt_succ_iff_lt_or_eq.mp less with less | rfl
        · exact before k less registered
        · exact registered.2 empty
      · have registered : Registered l ram i := ⟨by omega, empty⟩
        have ends : ∀ {ret ram' calls'}, SomeBroken l ram' →
            Yields oracle (pmtCommitSlots l reclaim rounds (i + 1) ret) (fun ret ram' _ =>
              ret = .success ∨ SomeBroken l ram' ∨ ∃ k, FailsFirst l oracle ram calls k) ram'
              calls' := fun broken =>
          broken.yields (fun _ _ => keepsBroken_pmtCommitSlots (keeps _ _)) fun _ _ _ broken =>
            Or.inr (Or.inl broken)
        rw [if_neg empty, Yields.bind, Yields.assert]
        intro _
        by_cases clean : PmNode.isDirty (ram.rootTable.pageMappingNodes (ram.pmCacheCluster i)) =
            false
        · rw [if_pos clean, Yields.bind, Yields.modifies]
          exact ends (kept.restored registered)
        · have inBlock : pmtCurrentPage l ram ≠ l.pagePerPhyBlock :=
            Nat.ne_of_lt (Nat.mod_lt _ l.g.pagePerPhyBlock_pos)
          have isDirty : PmNode.isDirty (slotWord ram i) = true := eq_true_of_ne_false clean
          rw [if_neg clean, Yields.bind, pmtWriteSlot, Yields.bind, Yields.get, if_pos inBlock,
            Yields.bind, Yields.assert]
          intro room
          rw [onSuccess_success, pmtStoreNode, Yields.bind, Yields.get, Yields.bind, ubiWrite,
            Yields.perform]
          by_cases written : oracle calls (.write (pmtCurrentBlock l ram) (pmtCurrentPage l ram)
              (.node (ram.pmNodeCaches i)) (some ⟨ram.pmCacheCluster i, 0⟩) false) = .success
          · -- the root names the page now
            have moved : SomeBroken l (storedNode l i (pmtCurrentBlock l ram) (pmtCurrentPage l ram)
                ram) := by
              refine ⟨i, ram.pmCacheCluster i, registered.1, registered.2, rfl, ?_⟩
              have word : (storedNode l i (pmtCurrentBlock l ram) (pmtCurrentPage l ram)
                  ram).rootTable.pageMappingNodes (ram.pmCacheCluster i) =
                  PmNode.setBlockPage l.g (pmtCurrentBlock l ram) (pmtCurrentPage l ram) :=
                Function.update_self _ _ _
              rw [word]
              exact PmNode.isCached_setBlockPage l.g _ _
            rw [written, onSuccess_success, Yields.bind, Yields.modifies, Yields.bind]
            refine moved.yields (fun _ _ => keepsBroken_addDirty _) fun _ ram' calls' broken => ?_
            rw [Yields.pure, Yields.bind]
            exact broken.yields (fun _ _ => keepsBroken_pmtNextBlock (keeps _ _))
              fun _ _ _ broken => ends broken
          · rw [onSuccess_other written, Yields.pure, Yields.bind, pmtNextBlock, Yields.bind,
              Yields.get, if_neg room, Yields.pure]
            refine (yields_pmtCommitSlots_failed kept keeps written room (by omega)).mono ?_
            intro ret ram' _ outcome
            rcases outcome with dirty | broken
            · exact Or.inr (Or.inr ⟨i, registered, before, dirty.succ fun _ => isDirty, room,
                written⟩)
            · exact Or.inr (Or.inl broken)

/-- If the write of the first registered slot fails, the commit returns its status. -/
theorem FailsFirst.spec {k rounds i : Nat} (fails : FailsFirst l oracle ram calls k)
    (reclaim : FtlCode D Status) (kept : CacheKept l ram) (before : i ≤ k)
    (last : i + rounds = pmtCacheCount l) :
    Code.spec oracle.machine (fun _ => True) False (pmtCommitSlots l reclaim rounds i .success)
      (fun ret ram' _ => ret = slotWritten l oracle ram calls k ∧ ram' = ram) ram calls := by
  obtain ⟨registered, first, dirty, room, failed⟩ := fails
  induction rounds generalizing i with
  | zero =>
      have := registered.1
      omega
  | succ rounds ih =>
      rw [pmtCommitSlots, Code.spec_bind, Code.spec_get]
      refine ⟨trivial, ?_⟩
      rcases Nat.lt_or_eq_of_le before with before | rfl
      · have empty : ram.pmCacheCluster i = invalidCluster := by
          by_contra valid
          exact first i before ⟨by omega, valid⟩
        rw [if_pos empty]
        exact ih before (by omega)
      · have cached : PmNode.isCached (ram.rootTable.pageMappingNodes (ram.pmCacheCluster i)) =
            true := kept.isCached registered
        have isDirty : PmNode.isDirty (ram.rootTable.pageMappingNodes (ram.pmCacheCluster i)) =
            true := dirty i (Nat.le_refl i) registered
        have clean : ¬ PmNode.isDirty (ram.rootTable.pageMappingNodes (ram.pmCacheCluster i)) =
            false := by simp only [isDirty, Bool.true_eq_false, not_false_eq_true]
        have inBlock : pmtCurrentPage l ram ≠ l.pagePerPhyBlock :=
          Nat.ne_of_lt (Nat.mod_lt _ l.g.pagePerPhyBlock_pos)
        rw [if_neg registered.2, Code.spec_bind, Code.spec_assert]
        refine ⟨trivial, fun _ => ?_, fun wrong => absurd cached wrong⟩
        rw [if_neg clean, Code.spec_bind, pmtWriteSlot, Code.spec_bind, Code.spec_get]
        refine ⟨trivial, ?_⟩
        rw [if_pos inBlock, Code.spec_bind, Code.spec_assert]
        refine ⟨trivial, fun _ => ?_, fun wrong => absurd room wrong⟩
        rw [onSuccess_success, pmtStoreNode, Code.spec_bind, Code.spec_get, Code.spec_bind]
        refine ⟨trivial, (Code.spec_perform_of_step rfl).mpr ⟨trivial, trivial, ?_⟩⟩
        unfold slotWritten at failed ⊢
        rw [onSuccess_other failed, Code.spec_pure, Code.spec_bind, pmtNextBlock, Code.spec_bind,
          Code.spec_get, if_neg room, Code.spec_pure]
        have later : DirtyFrom l ram (i + 1) := fun k behind => dirty k (by omega)
        refine ⟨trivial, trivial, trivial, ?_⟩
        refine Code.spec_mono (spec_pmtCommitSlots_dirty kept failed room (by omega) later) ?_
          fun _ => id
        rintro ret ram' calls' ⟨rfl, same⟩
        exact ⟨rfl, same⟩

/-- The commit returns the status of the write, and nothing has changed. -/
theorem FailsFirst.pmtCommit {fuel i : Nat} (fails : FailsFirst l oracle ram calls i)
    (kept : CacheKept l ram) :
    ∃ calls', ((pmtCommit l (pmtReclaimBlocks l fuel)).run ram).exec oracle.machine calls =
      .ok ((slotWritten l oracle ram calls i, ram), calls') := by
  obtain ⟨ret, after, calls', run, rfl, rfl⟩ := Code.exec_of_spec
    (fails.spec (pmtReclaimBlocks l fuel) kept (Nat.zero_le i) (Nat.zero_add _))
  refine ⟨calls', ?_⟩
  rw [Ftl.pmtCommit, Code.exec_bind_of_ok run, onSuccess_other fails.failed]
  rfl

/-- A commit that fails leaves the cache intact only if its first write fails and all the
registered slots are dirty. -/
theorem FailsCleanly.failsFirst {fuel : Nat} (kept : CacheKept l ram)
    (fails : FailsCleanly l oracle (pmtCommit l (pmtReclaimBlocks l fuel)) ram calls) :
    ∃ i, FailsFirst l oracle ram calls i := by
  obtain ⟨ret, after, calls', run, failed, keptAfter, _⟩ := fails
  rw [Ftl.pmtCommit] at run
  obtain ⟨ret', ram', middle, run, rest⟩ := Code.exec_bind_eq_ok.mp run
  have slots : Yields oracle
      (pmtCommitSlots l (pmtReclaimBlocks l fuel) (pmtCacheCount l) 0 .success)
      (fun ret ram' _ => ret = .success ∨ SomeBroken l ram' ∨ ∃ k, FailsFirst l oracle ram calls k)
      ram calls :=
    yields_pmtCommitSlots kept (fun _ _ => keepsBroken_pmtReclaimBlocks fuel) (Nat.zero_add _)
      fun k less => absurd less (Nat.not_lt_zero k)
  have outcome := slots.of_run run
  by_cases done : ret' = .success
  · rw [done, onSuccess_success] at rest
    have emptied : Yields oracle (pmtInit l) (fun ret _ _ => ret = .success) ram' middle :=
      Yields.bind.mpr (Yields.modifies.mpr (Yields.pure.mpr rfl))
    exact absurd (emptied.of_run rest) failed
  · rw [onSuccess_other done] at rest
    obtain ⟨⟨rfl, rfl⟩, rfl⟩ : (ret' = ret ∧ ram' = after) ∧ middle = calls' := by
      simpa using Except.ok.inj rest
    rcases outcome with success | ⟨j, cluster, broken⟩ | fails
    · exact absurd success done
    · exact absurd keptAfter broken.not_kept
    · exact fails

/-- The memory and the calls behind a mount and any calls of the page mapping.  Each of them
has had success, or is a commit that has failed at its first write. -/
inductive CacheRun (l : Layout) (fuel : Nat) (oracle : UbiOracle D) :
    FtlRam → UbiCalls D → Prop where
  | mounted {memory : FtlRam} {before : UbiCalls D} (empty : CacheEmpty l memory) :
      CacheRun l fuel oracle memory before
  | update {memory memory' : FtlRam} {before after : UbiCalls D} (pageAddr block page : Nat)
      (earlier : CacheRun l fuel oracle memory before)
      (run : ((pmtUpdate l (pmtReclaimBlocks l fuel) pageAddr block page).run memory).exec
        oracle.machine before = .ok ((.success, memory'), after)) :
      CacheRun l fuel oracle memory' after
  | search {memory memory' : FtlRam} {before after : UbiCalls D} {place : Nat × Nat}
      (pageAddr : Nat) (earlier : CacheRun l fuel oracle memory before)
      (run : ((pmtSearch l (pmtReclaimBlocks l fuel) pageAddr).run memory).exec
        oracle.machine before = .ok (((.success, place), memory'), after)) :
      CacheRun l fuel oracle memory' after
  | commit {memory memory' : FtlRam} {before after : UbiCalls D}
      (earlier : CacheRun l fuel oracle memory before)
      (run : ((pmtCommit l (pmtReclaimBlocks l fuel)).run memory).exec
        oracle.machine before = .ok ((.success, memory'), after)) :
      CacheRun l fuel oracle memory' after
  | failed {memory memory' : FtlRam} {before after : UbiCalls D} {ret : Status} (i : Nat)
      (earlier : CacheRun l fuel oracle memory before) (fails : FailsFirst l oracle memory before i)
      (run : ((pmtCommit l (pmtReclaimBlocks l fuel)).run memory).exec
        oracle.machine before = .ok ((ret, memory'), after)) :
      CacheRun l fuel oracle memory' after

/-- The root and the cache agree in every state reached. -/
theorem CacheRun.kept {fuel : Nat} (run : CacheRun l fuel oracle ram calls) : CacheKept l ram := by
  induction run with
  | mounted empty => exact empty.kept
  | update pageAddr block page _ run ih => exact (yields_pmtUpdate ih).of_run run rfl
  | search pageAddr _ run ih => exact (yields_pmtSearch ih).of_run run rfl
  | commit _ run _ =>
      have empty := yields_pmtCommit.of_run run rfl
      exact empty.kept
  | failed i _ fails run ih =>
      obtain ⟨_, unchanged⟩ := fails.pmtCommit ih
      have same := Prod.mk.inj (Except.ok.inj (unchanged.symm.trans run))
      rw [← (Prod.mk.inj same.1).2]
      exact ih

/-- In every state reached the root and the cache agree, and a commit that fails leaves them
so exactly if its first write fails and all the registered slots are dirty.  It then returns
the status of that write, the memory is as it was, and later calls go on from there. -/
theorem pmtCommit_failsCleanly_iff {fuel : Nat} (run : CacheRun l fuel oracle ram calls) :
    CacheKept l ram ∧
      (FailsCleanly l oracle (pmtCommit l (pmtReclaimBlocks l fuel)) ram calls ↔
        ∃ i, FailsFirst l oracle ram calls i) ∧
      ∀ i, FailsFirst l oracle ram calls i → ∃ calls',
        ((pmtCommit l (pmtReclaimBlocks l fuel)).run ram).exec oracle.machine calls =
            .ok ((slotWritten l oracle ram calls i, ram), calls') ∧
          CacheRun l fuel oracle ram calls' := by
  have kept := run.kept
  refine ⟨kept, ⟨FailsCleanly.failsFirst kept, ?_⟩, ?_⟩
  · rintro ⟨i, fails⟩
    obtain ⟨calls', commit⟩ := fails.pmtCommit kept
    exact ⟨_, ram, calls', commit, fails.failed, kept,
      fun _ registered dirty => ⟨registered, dirty⟩⟩
  · intro i fails
    obtain ⟨calls', commit⟩ := fails.pmtCommit kept
    exact ⟨calls', commit, .failed i run fails commit⟩

end Failures

/-! ## A device whose writes fail -/

/-- The store as it is, and every write fails. -/
def failsWrites (store : UbiStore Nat) : UbiOracle Nat
  | _, .format => .success
  | _, .init => .success
  | _, .read block page => store.pages.answer block page
  | _, .write _ _ _ _ _ => .failure
  | _, .erase _ _ => .success
  | _, .flush => .success
  | _, .swl => .success
  | _, .readStatus _ => .success

theorem failsWrites_write (store : UbiStore Nat) (calls : UbiCalls Nat) (block page : Nat)
    (main : FtlPage Nat) (spare : Option Spare) (async : Bool) :
    failsWrites store calls (.write block page main spare async) ≠ .success :=
  Status.noConfusion

/-- The memory of the simulated device after a format and a mount. -/
def Mounted (ram : FtlRam) (store : UbiStore Nat) : Prop :=
  ((ftlFormat (simLayout 0x10000) >>= fun _ => ftlInit (simLayout 0x10000) 2).run .reset).exec
    (storeMachine simNand 989) .erased = .ok ((.success, ram), store)

/-- The test of `CacheEmpty`. -/
def cacheEmpty (l : Layout) (ram : FtlRam) : Bool :=
  (List.range (pmtCacheCount l)).all fun i => decide (ram.pmCacheCluster i = invalidCluster)

theorem cacheEmpty_eq_true {ram : FtlRam} (test : cacheEmpty l ram = true) : CacheEmpty l ram :=
  fun i isSlot => of_decide_eq_true (List.all_eq_true.mp test i (List.mem_range.mpr isSlot))

/-- One cluster is dirty in the cache.  The commit fails, and nothing has changed. -/
theorem pmtCommit_failsCleanly_simLayout :
    ∃ (start : FtlRam) (store : UbiStore Nat) (ram : FtlRam) (calls : UbiCalls Nat),
      Mounted start store ∧ CacheKept (simLayout 0x10000) ram ∧
        FailsCleanly (simLayout 0x10000) (failsWrites store)
          (pmtCommit (simLayout 0x10000) (pmtReclaimBlocks (simLayout 0x10000) 1)) ram calls := by
  have run : Code.returns (((ftlFormat (simLayout 0x10000) >>= fun _ =>
      ftlInit (simLayout 0x10000) 2).run .reset).exec (storeMachine simNand 989) .erased)
      (fun ret start store => decide (ret = .success) && cacheEmpty (simLayout 0x10000) start &&
        Code.returns (((pmtUpdate (simLayout 0x10000) (pmtReclaimBlocks (simLayout 0x10000) 1)
          0 100 0).run start).exec (failsWrites store).machine []) fun ret ram _ =>
        decide (ret = .success ∧ Registered (simLayout 0x10000) ram 0 ∧
            PmNode.isDirty (slotWord ram 0) = true ∧
            pmtCurrentPage (simLayout 0x10000) ram ≠ (simLayout 0x10000).pagePerPhyBlock - 1) &&
          (List.range 4).all fun i =>
            i == 0 || decide (ram.pmCacheCluster i = invalidCluster)) = true := by
    set_option maxRecDepth 100000 in decide +kernel
  obtain ⟨_, start, store, mounted, test⟩ := Code.returns_iff.mp run
  obtain ⟨facts, run⟩ := Bool.and_eq_true_iff.mp test
  obtain ⟨success, empty⟩ := Bool.and_eq_true_iff.mp facts
  obtain rfl := of_decide_eq_true success
  obtain ⟨_, ram, calls, update, test⟩ := Code.returns_iff.mp run
  obtain ⟨facts, others⟩ := Bool.and_eq_true_iff.mp test
  obtain ⟨rfl, registered, dirty, room⟩ := of_decide_eq_true facts
  have reached : CacheRun (simLayout 0x10000) 1 (failsWrites store) ram calls :=
    .update 0 100 0 (.mounted (cacheEmpty_eq_true empty)) update
  have onlyFirst : DirtyFrom (simLayout 0x10000) ram 0 := by
    intro k _ registered'
    rcases Bool.or_eq_true_iff.mp
      (List.all_eq_true.mp others k (List.mem_range.mpr registered'.1)) with here | empty
    · rw [eq_of_beq here]
      exact dirty
    · exact absurd (of_decide_eq_true empty) registered'.2
  obtain ⟨kept, cleanly, -⟩ := pmtCommit_failsCleanly_iff reached
  exact ⟨start, store, ram, calls, mounted, kept, cleanly.mpr ⟨0, registered,
    fun k less => absurd less (Nat.not_lt_zero k), onlyFirst, room,
    failsWrites_write _ _ _ _ _ _ _⟩⟩

/-- One cluster is dirty in the cache and another one is clean.  The commit fails, the slot of
the clean cluster stays registered, and the next commit stops at it. -/
theorem pmtCommit_breaks_cache :
    ∃ (start : FtlRam) (store : UbiStore Nat) (ram after : FtlRam) (calls calls' : UbiCalls Nat),
      Mounted start store ∧ CacheRun (simLayout 0x10000) 1 (failsWrites store) ram calls ∧
        ((pmtCommit (simLayout 0x10000) (pmtReclaimBlocks (simLayout 0x10000) 1)).run ram).exec
          (failsWrites store).machine calls = .ok ((.failure, after), calls') ∧
        ¬ CacheKept (simLayout 0x10000) after ∧
        Code.halted (((pmtCommit (simLayout 0x10000)
          (pmtReclaimBlocks (simLayout 0x10000) 1)).run after).exec (failsWrites store).machine
            calls') = some .assertion ∧
        ¬ FailsCleanly (simLayout 0x10000) (failsWrites store)
          (pmtCommit (simLayout 0x10000) (pmtReclaimBlocks (simLayout 0x10000) 1)) ram calls := by
  have run : Code.returns (((ftlFormat (simLayout 0x10000) >>= fun _ =>
      ftlInit (simLayout 0x10000) 2).run .reset).exec (storeMachine simNand 989) .erased)
      (fun ret start store => decide (ret = .success) && cacheEmpty (simLayout 0x10000) start &&
        Code.returns (((pmtUpdate (simLayout 0x10000) (pmtReclaimBlocks (simLayout 0x10000) 1)
          0 100 0).run start).exec (failsWrites store).machine []) fun ret ram calls =>
        decide (ret = .success) &&
        Code.returns (((pmtSearch (simLayout 0x10000) (pmtReclaimBlocks (simLayout 0x10000) 1)
          2048).run ram).exec (failsWrites store).machine calls) fun result ram calls =>
        decide (result.1 = .success) &&
        Code.returns (((pmtCommit (simLayout 0x10000)
          (pmtReclaimBlocks (simLayout 0x10000) 1)).run ram).exec (failsWrites store).machine
            calls) fun ret after calls' =>
        decide (ret = .failure ∧ after.pmCacheCluster 1 = 1 ∧
          PmNode.isCached (after.rootTable.pageMappingNodes 1) = false) &&
        decide (Code.halted (((pmtCommit (simLayout 0x10000)
          (pmtReclaimBlocks (simLayout 0x10000) 1)).run after).exec (failsWrites store).machine
            calls') = some .assertion)) = true := by
    set_option maxRecDepth 100000 in decide +kernel
  obtain ⟨_, start, store, mounted, test⟩ := Code.returns_iff.mp run
  obtain ⟨facts, run⟩ := Bool.and_eq_true_iff.mp test
  obtain ⟨success, empty⟩ := Bool.and_eq_true_iff.mp facts
  obtain rfl := of_decide_eq_true success
  obtain ⟨_, ram, calls, update, test⟩ := Code.returns_iff.mp run
  obtain ⟨success, run⟩ := Bool.and_eq_true_iff.mp test
  obtain rfl := of_decide_eq_true success
  obtain ⟨⟨_, place⟩, ram', calls', search, test⟩ := Code.returns_iff.mp run
  obtain ⟨success, run⟩ := Bool.and_eq_true_iff.mp test
  obtain rfl := of_decide_eq_true success
  obtain ⟨_, after, calls'', commit, test⟩ := Code.returns_iff.mp run
  obtain ⟨facts, stops⟩ := Bool.and_eq_true_iff.mp test
  obtain ⟨rfl, inSlot, onPage⟩ := of_decide_eq_true facts
  have broken : BrokenSlot (simLayout 0x10000) 1 1 after := ⟨by decide, by decide, inSlot, onPage⟩
  have reached : CacheRun (simLayout 0x10000) 1 (failsWrites store) ram' calls' :=
    .search 2048 (.update 0 100 0 (.mounted (cacheEmpty_eq_true empty)) update) search
  refine ⟨start, store, ram', after, calls', calls'', mounted, reached, commit, broken.not_kept,
    of_decide_eq_true stops, ?_⟩
  rintro ⟨_, after', _, commit', _, kept, _⟩
  have same := Prod.mk.inj (Except.ok.inj (commit.symm.trans commit'))
  rw [← (Prod.mk.inj same.1).2] at kept
  exact broken.not_kept kept

end OpenNfm.Ftl
