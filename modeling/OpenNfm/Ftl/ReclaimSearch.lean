import OpenNfm.Ftl.NodeCounts
import OpenNfm.Ftl.ReclaimCalls

/-!
# The search for a block to reclaim

`pmt_reclaim_blocks` first polls the blocks all of whose pages are dirty.  If none of them is
ready it goes on with the largest count below, and stays with it until such a block is ready.
That count is zero if no block is partly dirty, and then the search takes the reclaim block
or a block without dirty pages.
-/

namespace OpenNfm.Ftl

open OpenNfm.Program

variable {l : Layout} {D : Type}

/-! ## One pass -/

/-- The largest count below the target, or the one so far. -/
def nextBelow (counts : Nat → Nat) (target : Nat) (blocks : List Nat) (nextCount : Nat) : Nat :=
  blocks.foldl (fun next i => if counts i < target ∧ counts i > next then counts i else next)
    nextCount

/-- The blocks with a dirty count. -/
def withCount (counts : Nat → Nat) (target : Nat) (blocks : List Nat) : List Nat :=
  blocks.filter fun i => counts i = target

/-- One of the next polls finds a block ready. -/
def AnswersReady (polls : List Status) (tries : Nat) : Prop :=
  ∃ j < tries, polls.getD j .success = .success

section Pass

variable {counts : Nat → Nat} {target nextCount i : Nat} {blocks : List Nat} {polls : List Status}
  {tries : Nat}

theorem nextBelow_cons : nextBelow counts target (i :: blocks) nextCount =
    nextBelow counts target blocks
      (if counts i < target ∧ counts i > nextCount then counts i else nextCount) :=
  rfl

theorem le_nextBelow : nextCount ≤ nextBelow counts target blocks nextCount := by
  induction blocks generalizing nextCount with
  | nil => exact Nat.le_refl _
  | cons i rest ih =>
      rw [nextBelow_cons]
      refine Nat.le_trans ?_ ih
      split <;> omega

theorem count_le_nextBelow (member : i ∈ blocks) (below : counts i < target) :
    counts i ≤ nextBelow counts target blocks nextCount := by
  induction blocks generalizing nextCount with
  | nil => exact absurd member List.not_mem_nil
  | cons block rest ih =>
      rw [nextBelow_cons]
      rcases List.mem_cons.mp member with rfl | member
      · refine Nat.le_trans ?_ le_nextBelow
        split <;> omega
      · exact ih member

/-- The next count is the one so far or that of a block. -/
theorem nextBelow_mem : nextBelow counts target blocks nextCount = nextCount ∨
    ∃ i ∈ blocks, counts i = nextBelow counts target blocks nextCount ∧ counts i < target := by
  induction blocks generalizing nextCount with
  | nil => exact .inl rfl
  | cons block rest ih =>
      rw [nextBelow_cons]
      rcases ih with same | ⟨i, member, is, below⟩
      · rw [same]
        split
        · rename_i further
          exact .inr ⟨block, List.mem_cons_self, rfl, further.1⟩
        · exact .inl rfl
      · exact .inr ⟨i, List.mem_cons_of_mem _ member, is, below⟩

/-- The count that the search has gone down to stays the next one. -/
theorem nextBelow_self : nextBelow counts target blocks target = target := by
  induction blocks with
  | nil => rfl
  | cons i rest ih => rw [nextBelow_cons, if_neg (by omega), ih]

theorem mem_withCount : i ∈ withCount counts target blocks ↔ i ∈ blocks ∧ counts i = target := by
  rw [withCount, List.mem_filter, decide_eq_true_eq]

theorem answersReady_succ :
    AnswersReady polls (tries + 1) ↔ polls.headD .success = .success ∨
      AnswersReady polls.tail tries := by
  cases polls with
  | nil =>
      refine iff_of_true ⟨0, Nat.succ_pos _, rfl⟩ (.inl rfl)
  | cons ret rest =>
      constructor
      · rintro ⟨_ | j, within, ready⟩
        · exact .inl ready
        · exact .inr ⟨j, Nat.lt_of_succ_lt_succ within, ready⟩
      · rintro (ready | ⟨j, within, ready⟩)
        · exact ⟨0, Nat.succ_pos _, ready⟩
        · exact ⟨j + 1, Nat.succ_lt_succ within, ready⟩

/-- Polls that find no block ready use up answers. -/
theorem drop_length_lt (busy : ¬ AnswersReady polls tries) (positive : 0 < tries) :
    (polls.drop tries).length < polls.length := by
  cases polls with
  | nil => exact absurd ⟨0, positive, rfl⟩ busy
  | cons ret rest =>
      rw [List.length_drop, List.length_cons]
      omega

/-- A pass ends at a ready block with the target count; it finds none only if none of the polls
finds one ready. -/
theorem completes_pmtFindDirty {ram : FtlRam} {store : UbiStore D}
    {post : Option Nat × Nat → FtlRam → UbiStore D → Prop} (isBlock : ∀ i ∈ blocks, i < l.capacity)
    (finds : AnswersReady store.polls (withCount ram.blockDirtyTable target blocks).length →
      ∀ i next polls, i ∈ blocks → ram.blockDirtyTable i = target →
        post (some i, next) ram { store with polls := polls })
    (none : ¬ AnswersReady store.polls (withCount ram.blockDirtyTable target blocks).length →
      post (none, nextBelow ram.blockDirtyTable target blocks nextCount) ram
        { store with
          polls := store.polls.drop (withCount ram.blockDirtyTable target blocks).length }) :
    Completes l (pmtFindDirty target blocks nextCount) post ram store := by
  induction blocks generalizing nextCount store with
  | nil =>
      exact Completes.pure.mpr (none fun ⟨_, wrong, _⟩ => absurd wrong (Nat.not_lt_zero _))
  | cons block rest ih =>
      have isBlock' : ∀ i ∈ rest, i < l.capacity := fun i member =>
        isBlock i (List.mem_cons_of_mem _ member)
      rw [pmtFindDirty, Completes.bind, Completes.get]
      by_cases here : ram.blockDirtyTable block = target
      · have more : withCount ram.blockDirtyTable target (block :: rest) =
            block :: withCount ram.blockDirtyTable target rest :=
          List.filter_cons_of_pos (decide_eq_true here)
        rw [more, List.length_cons, answersReady_succ] at finds none
        rw [if_pos here, Completes.bind,
          Completes.readStatus (isBlock block List.mem_cons_self)]
        split
        · rename_i ready
          exact Completes.pure.mpr (finds (.inl ready) _ _ _ List.mem_cons_self here)
        · rename_i busy
          refine ih isBlock' (fun ready i next polls member same => ?_) fun notReady => ?_
          · exact finds (.inr ready) i next polls (List.mem_cons_of_mem _ member) same
          · have last := none fun ready => ready.elim busy notReady
            rw [nextBelow_cons, if_neg (by omega)] at last
            rw [← List.drop_one, List.drop_drop, Nat.add_comm]
            exact last
      · have same : withCount ram.blockDirtyTable target (block :: rest) =
            withCount ram.blockDirtyTable target rest :=
          List.filter_cons_of_neg (by simpa using here)
        rw [same] at finds none
        rw [if_neg here]
        exact ih isBlock' (fun ready i next polls member =>
          finds ready i next polls (List.mem_cons_of_mem _ member)) none

end Pass

/-! ## All passes -/

/-- The blocks of the page mapping table. -/
def pmtRegion (l : Layout) : List Nat := List.range' Layout.pmtStartBlock l.pmtBlockCount

theorem mem_pmtRegion {i : Nat} : i ∈ pmtRegion l ↔ IsPmtBlock l i :=
  List.mem_range'_1

section Search

variable {ram : FtlRam} {store : UbiStore D} {fuel rounds target : Nat}

/-- From the second pass on the search stays with its count.  It ends if a block has it. -/
theorem spec_pmtFindLoop_stays {post : Nat → FtlRam → UbiStore D → Prop} {halts : Prop}
    (fit : l.NodesFit)
    (enough : (∃ i, IsPmtBlock l i ∧ ram.blockDirtyTable i = target) ∧
      store.polls.length < rounds ∨ halts)
    (meets : ∀ i polls, IsPmtBlock l i → ram.blockDirtyTable i = target →
      post i ram { store with polls := polls }) :
    Code.spec (storeMachine l.g l.capacity) (fun _ => True) halts
      (pmtFindLoop l rounds target target) post ram store := by
  induction rounds generalizing store with
  | zero => exact Code.spec_halt.mpr ⟨trivial, enough.resolve_left fun few =>
      Nat.not_lt_zero _ few.2⟩
  | succ rounds ih =>
      rw [pmtFindLoop, Code.spec_bind]
      refine Completes.spec (completes_pmtFindDirty
        (fun i member => fit.isBlock (mem_pmtRegion.mp member)) ?_ fun busy => ?_)
      · intro _ i next polls member here
        exact Code.spec_pure.mpr ⟨trivial, meets i polls (mem_pmtRegion.mp member) here⟩
      · rw [nextBelow_self]
        refine ih (enough.imp_left ?_) fun i polls => meets i polls
        rintro ⟨⟨i, inArea, here⟩, few⟩
        refine ⟨⟨i, inArea, here⟩, ?_⟩
        have some : i ∈ withCount ram.blockDirtyTable target (pmtRegion l) :=
          mem_withCount.mpr ⟨mem_pmtRegion.mpr inArea, here⟩
        exact Nat.lt_of_lt_of_le (drop_length_lt busy (List.length_pos_of_mem some))
          (Nat.le_of_lt_succ few)

/-- A call of the reclaim in which a block is found that is dirtier than the reclaim block: a
block that is all dirty is ready in the first pass, or a block is partly dirty.  No slot
that the commit has still to write back was loaded from the reclaim block. -/
structure RightCall (l : Layout) (ram : FtlRam) (store : UbiStore D) : Prop where
  below : ram.blockDirtyTable (pmtTarget l ram) < l.maxDirtyPages
  finds : AnswersReady store.polls
      (withCount ram.blockDirtyTable l.maxDirtyPages (pmtRegion l)).length ∨
    ∃ i, IsPmtBlock l i ∧ ram.blockDirtyTable (pmtTarget l ram) < ram.blockDirtyTable i ∧
      ram.blockDirtyTable i < l.maxDirtyPages
  free : pendingIn l ram (pmtTarget l ram) = false

/-- The count that the search goes on with behind the first pass. -/
def secondTarget (l : Layout) (ram : FtlRam) : Nat :=
  nextBelow ram.blockDirtyTable l.maxDirtyPages (pmtRegion l) 0

theorem le_secondTarget {i : Nat} (inArea : IsPmtBlock l i)
    (below : ram.blockDirtyTable i < l.maxDirtyPages) :
    ram.blockDirtyTable i ≤ secondTarget l ram :=
  count_le_nextBelow (mem_pmtRegion.mpr inArea) below

/-- A block has the second target, if that is not zero. -/
theorem exists_secondTarget (positive : 0 < secondTarget l ram) :
    ∃ i, IsPmtBlock l i ∧ ram.blockDirtyTable i = secondTarget l ram ∧
      ram.blockDirtyTable i < l.maxDirtyPages := by
  have isOne : secondTarget l ram = 0 ∨ ∃ i ∈ pmtRegion l,
      ram.blockDirtyTable i = secondTarget l ram ∧ ram.blockDirtyTable i < l.maxDirtyPages :=
    nextBelow_mem
  obtain ⟨i, member, same⟩ := isOne.resolve_left (Nat.ne_of_gt positive)
  exact ⟨i, mem_pmtRegion.mp member, same⟩

/-- The search ends at a block that is dirtier than the reclaim block. -/
theorem RightCall.completes_pmtFindLoop {post : Nat → FtlRam → UbiStore D → Prop}
    (right : RightCall l ram store) (fit : l.NodesFit) (enough : store.polls.length + 1 < fuel)
    (meets : ∀ i polls, IsPmtBlock l i →
      ram.blockDirtyTable (pmtTarget l ram) < ram.blockDirtyTable i →
      post i ram { store with polls := polls }) :
    Completes l (pmtFindLoop l fuel l.maxDirtyPages 0) post ram store := by
  obtain ⟨rounds, rfl⟩ := Nat.exists_eq_add_one_of_ne_zero (Nat.ne_of_gt (Nat.zero_lt_of_lt enough))
  rw [pmtFindLoop, Completes.bind]
  refine completes_pmtFindDirty (fun i member => fit.isBlock (mem_pmtRegion.mp member)) ?_
    fun busy => ?_
  · intro _ i next polls member here
    refine Completes.pure.mpr (meets i polls (mem_pmtRegion.mp member) ?_)
    rw [here]
    exact right.below
  · obtain ⟨i, inArea, above, below⟩ := right.finds.resolve_left busy
    have le := le_secondTarget inArea below
    obtain ⟨other, inArea', same, _⟩ :=
      exists_secondTarget (Nat.lt_of_lt_of_le (Nat.zero_lt_of_lt above) le)
    refine spec_pmtFindLoop_stays fit (.inl ⟨⟨other, inArea', same⟩, ?_⟩) ?_
    · rw [List.length_drop]
      omega
    · intro other polls inArea' same
      refine meets other polls inArea' ?_
      rw [same]
      exact Nat.lt_of_lt_of_le above le

end Search

/-! ## Runs whose calls are right -/

/-- `pmt_reclaim_blocks`, which stops unless the call is right. -/
def reclaimWhenRight (l : Layout) (fuel : Nat) : FtlCode D Status := do
  let ram ← get
  Code.assert (pendingIn l ram (pmtTarget l ram) = false)
  let (found, nextCount) ← pmtFindDirty l.maxDirtyPages (pmtRegion l) 0
  Code.assert (ram.blockDirtyTable (pmtTarget l ram) <
    found.elim nextCount fun _ => l.maxDirtyPages)
  match found with
  | some i => pmtReclaimBlock l i
  | none => pmtFindLoop l fuel nextCount nextCount >>= pmtReclaimBlock l

section Guard

variable {ram : FtlRam} {store : UbiStore D} {fuel : Nat}

theorem agrees_reclaimWhenRight :
    Agrees (D := D) l (reclaimWhenRight l fuel) (pmtReclaimBlocks l (fuel + 1)) := by
  intro ram store result run
  rw [reclaimWhenRight, Code.exec_bind_of_ok (Code.exec_get ram store)] at run
  have run := Code.Agrees.assert _ _ _ run
  obtain ⟨⟨found, nextCount⟩, ram', after, pass, run⟩ := Code.exec_bind_eq_ok.mp run
  have run := Code.Agrees.assert _ _ _ run
  rw [pmtRegion] at pass
  rw [pmtReclaimBlocks, pmtFindLoop, bind_assoc, Code.exec_bind_of_ok pass]
  cases found with
  | some i => exact run
  | none => exact run

/-- The result of the first pass: a block that is all dirty, or the count to go on with. -/
def FirstPass (l : Layout) (ram : FtlRam) (store : UbiStore D) (result : Option Nat × Nat) : Prop :=
  (∃ i, result.1 = some i ∧ IsPmtBlock l i ∧ ram.blockDirtyTable i = l.maxDirtyPages ∧
    AnswersReady store.polls
      (withCount ram.blockDirtyTable l.maxDirtyPages (pmtRegion l)).length) ∨
  result = (none, secondTarget l ram) ∧
    ¬ AnswersReady store.polls (withCount ram.blockDirtyTable l.maxDirtyPages (pmtRegion l)).length

theorem completes_firstPass (ram : FtlRam) (store : UbiStore D) (fit : l.NodesFit) :
    Completes l (pmtFindDirty l.maxDirtyPages (pmtRegion l) 0)
      (fun result ram' after => ram' = ram ∧ (∃ polls, after = { store with polls := polls }) ∧
        FirstPass l ram store result) ram store := by
  refine completes_pmtFindDirty (fun i member => fit.isBlock (mem_pmtRegion.mp member)) ?_ ?_
  · intro ready i next polls member here
    exact ⟨rfl, ⟨polls, rfl⟩, .inl ⟨i, rfl, mem_pmtRegion.mp member, here, ready⟩⟩
  · exact fun busy => ⟨rfl, ⟨_, rfl⟩, .inr ⟨rfl, busy⟩⟩

/-- The call is right if the count that the first pass ends with is above that of the reclaim
block. -/
theorem FirstPass.rightCall_iff {found : Option Nat} {nextCount : Nat}
    (pass : FirstPass l ram store (found, nextCount)) :
    RightCall l ram store ↔ pendingIn l ram (pmtTarget l ram) = false ∧
      ram.blockDirtyTable (pmtTarget l ram) < found.elim nextCount fun _ => l.maxDirtyPages := by
  rcases pass with ⟨i, isSome, _, _, ready⟩ | ⟨isNone, busy⟩
  · obtain rfl : found = some i := isSome
    exact ⟨fun right => ⟨right.free, right.below⟩, fun tests => ⟨tests.2, .inl ready, tests.1⟩⟩
  · obtain ⟨rfl, rfl⟩ := Prod.mk.inj isNone
    constructor
    · intro right
      obtain ⟨i, inArea, above, below⟩ := right.finds.resolve_left busy
      exact ⟨right.free, Nat.lt_of_lt_of_le above (le_secondTarget inArea below)⟩
    · rintro ⟨free, above⟩
      have above : ram.blockDirtyTable (pmtTarget l ram) < secondTarget l ram := above
      obtain ⟨i, inArea, same, below⟩ := exists_secondTarget (Nat.zero_lt_of_lt above)
      rw [← same] at above
      exact ⟨Nat.lt_trans above below, .inr ⟨i, inArea, above, below⟩, free⟩

/-- The code stops exactly in the calls that are not right. -/
theorem exec_reclaimWhenRight (fit : l.NodesFit) :
    (RightCall l ram store → ((reclaimWhenRight l fuel).run ram).exec
        (storeMachine l.g l.capacity) store =
      ((pmtReclaimBlocks l (fuel + 1)).run ram).exec (storeMachine l.g l.capacity) store) ∧
    (¬ RightCall l ram store → ((reclaimWhenRight l fuel).run ram).exec
      (storeMachine l.g l.capacity) store = .error .assertion) := by
  obtain ⟨⟨found, nextCount⟩, ram', _, run, same, ⟨polls, rfl⟩, pass⟩ :=
    (completes_firstPass ram store fit).exec
  rw [same] at run
  rw [pass.rightCall_iff, reclaimWhenRight, Code.exec_bind_of_ok (Code.exec_get ram store)]
  by_cases free : pendingIn l ram (pmtTarget l ram) = false
  · rw [Code.assert, if_pos free, pure_bind, Code.exec_bind_of_ok run]
    dsimp only
    by_cases above : ram.blockDirtyTable (pmtTarget l ram) <
        found.elim nextCount fun _ => l.maxDirtyPages
    · refine ⟨fun _ => ?_, fun wrong => absurd ⟨free, above⟩ wrong⟩
      rw [pmtRegion] at run
      rw [Code.assert, if_pos above, pure_bind, pmtReclaimBlocks, pmtFindLoop, bind_assoc,
        Code.exec_bind_of_ok run]
      cases found <;> rfl
    · refine ⟨fun right => absurd right.2 above, fun _ => ?_⟩
      rw [Code.assert, if_neg above]
      rfl
  · refine ⟨fun right => absurd right.1 free, fun _ => ?_⟩
    rw [Code.assert, if_neg free]
    rfl

/-- A reclaim in a right call takes a block that is dirtier than the reclaim block. -/
theorem reclaims_reclaimWhenRight (fit : l.NodesFit) :
    Reclaims (D := D) l False (reclaimWhenRight l fuel) := by
  intro i map place nodes reclaimBlock ram store closed
  rw [reclaimWhenRight, OnReturn.bind, OnReturn.get, OnReturn.bind, OnReturn.assert]
  intro free
  have takes : ∀ victim polls,
      IsPmtBlock l victim → ram.blockDirtyTable (pmtTarget l ram) < ram.blockDirtyTable victim →
      OnReturn l (pmtReclaimBlock l victim) (fun ret ram' after => ret = .success ∧
        ∃ place' current reclaimBlock', Working l False i map place' nodes current reclaimBlock'
          ram' after) ram { store with polls := polls } := by
    intro victim polls inArea above
    have other : victim ≠ reclaimBlock := by
      rintro rfl
      rw [closed.target fit] at above
      exact Nat.lt_irrefl _ above
    refine (completes_pmtReclaimBlock fit (closed.withPolls polls) inArea other
      (closed.target_free fit free) (fun wrong => wrong.elim) ?_).spec
    exact fun place' current reclaimBlock' _ _ _ working =>
      ⟨rfl, place', current, reclaimBlock', working⟩
  rw [OnReturn.bind]
  refine ((completes_firstPass _ _ fit).mono ?_).spec
  rintro ⟨found, nextCount⟩ _ _ ⟨rfl, ⟨polls, rfl⟩, pass⟩
  dsimp only
  rw [OnReturn.bind, OnReturn.assert]
  intro above
  rcases pass with ⟨victim, isSome, inArea, here, _⟩ | ⟨isNone, _⟩
  · obtain rfl : found = some victim := isSome
    exact takes victim polls inArea (here ▸ above)
  · obtain ⟨rfl, rfl⟩ := Prod.mk.inj isNone
    dsimp only
    rw [OnReturn.bind]
    refine spec_pmtFindLoop_stays fit (.inr trivial) fun victim polls' inArea same => ?_
    exact takes victim polls' inArea (same ▸ above)

theorem keeps_reclaimWhenRight {inside : Nat → Prop} {earlier : FtlRam} {before : UbiStore D}
    (blocks : PmtBlocks l inside) (fits : l.Fits) :
    KeepsPmt l inside earlier before (reclaimWhenRight l fuel) := by
  intro ram store kept
  have safe : ∀ after, PmtWithin l inside earlier before ram after →
      ∃ ram', PmtWithin l inside earlier before ram' after := fun _ kept => ⟨ram, kept⟩
  simp only [reclaimWhenRight, Code.spec_bind, Code.spec_get]
  refine ⟨safe _ kept, Code.spec_assert.mpr ⟨safe _ kept, fun _ => ?_, fun _ => trivial⟩⟩
  refine spec_pmtFindDirty kept safe fun found nextCount after member kept' => ?_
  refine Code.spec_assert.mpr ⟨safe _ kept', fun _ => ?_, fun _ => trivial⟩
  cases found with
  | some i =>
      have inArea := mem_pmtRegion.mp (member i rfl)
      exact keeps_pmtReclaimBlock blocks fits inArea.1 inArea.2 ram after kept'
  | none =>
      rw [Code.spec_bind]
      exact spec_pmtFindLoop kept' safe fun i after first last kept'' =>
        keeps_pmtReclaimBlock blocks fits first last ram after kept''

theorem good_reclaimWhenRight (fit : l.NodesFit) :
    GoodReclaim (D := D) l False (reclaimWhenRight l fuel) :=
  ⟨reclaims_reclaimWhenRight fit, fun _ _ => keeps_reclaimWhenRight (pmtBlocks_behind l) fit.toFits⟩

end Guard

/-! ## Progress -/

/-- The search of a reclaim ends at a block other than the reclaim block, whose meta page can be
read if the block was ever written; and the reclaim leaves room for the next node. -/
def ReclaimProgresses (l : Layout) (fuel : Nat) (ram : FtlRam) (store : UbiStore D) : Prop :=
  (∃ i polls, ((pmtFindLoop l fuel l.maxDirtyPages 0).run ram).exec (storeMachine l.g l.capacity)
      store = .ok ((i, ram), { store with polls := polls }) ∧
    IsPmtBlock l i ∧ i ≠ pmtTarget l ram ∧
      (store.Used i → (store.pages i (l.pagePerPhyBlock - 1)).isSome = true)) ∧
  ∃ ram' after, ((pmtReclaimBlocks l fuel).run ram).exec (storeMachine l.g l.capacity) store =
      .ok ((.success, ram'), after) ∧
    pmtCurrentPage l ram' < l.pagePerPhyBlock - 1

/-- The root names nodes and journals in the blocks of the page mapping table only. -/
structure RootInTable (l : Layout) (root : Root) : Prop where
  nodes : ∀ cluster < pmtClusterCount l,
    IsPmtBlock l (PmNode.block l.g (root.pageMappingNodes cluster))
  current : IsPmtBlock l (PmNode.block l.g root.pmtCurrentBlock)
  reclaim : IsPmtBlock l (PmNode.block l.g root.pmtReclaimBlock)

/-- Each call of the reclaim in a commit makes progress, if it is right and has enough rounds
for the answers to the polls. -/
def ReclaimsProgress (l : Layout) (reclaim : FtlCode D Status) (ram : FtlRam)
    (store : UbiStore D) : Prop :=
  ∀ i ram₁ mid, ((commitUpTo l reclaim i).run ram).exec (storeMachine l.g l.capacity) store =
      .ok ((.success, ram₁), mid) →
    RightCall l ram₁ mid → ∀ fuel, mid.polls.length + 1 < fuel → ReclaimProgresses l fuel ram₁ mid

section Progress

variable {i : Nat} {map nodes : Nat → Nat → Nat} {place : Nat → Place} {current : Place}
  {reclaimBlock fuel : Nat} {ram : FtlRam} {store : UbiStore D} {maps : PageMap}

theorem Closed.progresses (closed : Closed l False i map place nodes reclaimBlock ram store)
    (fit : l.NodesFit) (right : RightCall l ram store) (enough : store.polls.length + 1 < fuel) :
    ReclaimProgresses l fuel ram store := by
  have other : ∀ victim, ram.blockDirtyTable (pmtTarget l ram) < ram.blockDirtyTable victim →
      victim ≠ pmtTarget l ram := by
    rintro _ above rfl
    exact Nat.lt_irrefl _ above
  constructor
  · have search : Completes l (pmtFindLoop l fuel l.maxDirtyPages 0) (fun victim ram' after =>
        ram' = ram ∧ (∃ polls, after = { store with polls := polls }) ∧ IsPmtBlock l victim ∧
          victim ≠ pmtTarget l ram) ram store :=
      right.completes_pmtFindLoop fit enough fun victim polls inArea above =>
        ⟨rfl, ⟨polls, rfl⟩, inArea, other victim above⟩
    obtain ⟨victim, ram', _, run, same, ⟨polls, rfl⟩, inArea, apart⟩ := search.exec
    rw [same] at run
    refine ⟨victim, polls, run, inArea, apart, fun used => ?_⟩
    rw [closed.target fit] at apart
    have programmed := closed.kept.placed.whole victim inArea not_isOpen_none
      (fun same => apart (Option.some.inj same).symm) used _ (Nat.le_refl _)
    exact Option.isSome_iff_ne_none.mpr programmed
  · have reclaims : Completes l (pmtReclaimBlocks l fuel) (fun ret ram' _ => ret = .success ∧
        pmtCurrentPage l ram' < l.pagePerPhyBlock - 1) ram store := by
      rw [pmtReclaimBlocks, Completes.bind]
      refine right.completes_pmtFindLoop fit enough fun victim polls inArea above => ?_
      have apart := other victim above
      rw [closed.target fit] at apart
      refine completes_pmtReclaimBlock fit (closed.withPolls polls) inArea apart
        (closed.target_free fit right.free) (fun wrong => wrong.elim) ?_
      intro place' current reclaimBlock' ram' after room working
      rw [working.current_page fit]
      exact ⟨rfl, by omega⟩
    obtain ⟨_, ram', after, run, rfl, room⟩ := reclaims.exec
    exact ⟨ram', after, run, room⟩

theorem NamedNodes.inTable {root : Root} {counts : Nat → Nat} (fit : l.NodesFit)
    (named : NamedNodes l False map place current reclaimBlock root counts store) :
    RootInTable l root := by
  have width := fit.width_lt
  have positive := Layout.NodesFit.positive l
  constructor
  · intro cluster isCluster
    obtain ⟨inArea, inBlock⟩ := named.placed.inArea cluster isCluster
    rw [named.words cluster isCluster, fit.block_place inArea (Nat.lt_trans inBlock width)]
    exact inArea
  · obtain ⟨inArea, le, _⟩ := named.placed.atEnd current.1 current.2 rfl
    rw [named.current, fit.block_place inArea (Nat.lt_of_le_of_lt le width)]
    exact inArea
  · have inArea : IsPmtBlock l reclaimBlock := (named.placed.blank reclaimBlock rfl).1
    rw [named.reclaim, fit.block_place inArea positive]
    exact inArea

/-- A format names blocks of the page mapping table only.  In a run whose reclaims are all
called right, and whose mounts know the clusters in the current block, every reclaim makes
progress. -/
theorem nodeRun_reclaimsProgress (fit : l.NodesFit) (three : ThreeTables l) :
    (∀ ram ram' (store after : UbiStore D), BlankStore store →
      ((ftlFormat l).run ram).exec (storeMachine l.g l.capacity) store =
        .ok ((.success, ram'), after) → RootInTable l ram'.rootTable) ∧
    ∀ fuel ram (store : UbiStore D) maps,
      NodeRun l (reclaimWhenRight l fuel) (MetaKnown l) (.mounted ram) store maps →
      NodeRun l (pmtReclaimBlocks l (fuel + 1)) (MetaKnown l) (.mounted ram) store maps ∧
        ReclaimsProgress l (reclaimWhenRight l fuel) ram store := by
  constructor
  · intro ram ram' store after blank run
    have formatted : OnReturn l (ftlFormat l) (fun ret ram' _ => ret = .success →
        RootInTable l ram'.rootTable) ram store := by
      refine onReturn_ftlFormat_nodes fit three blank.pages blank.history ?_
      intro ret ram' after left success
      obtain ⟨_, _, _, _, _, named⟩ := left success False
      exact named.inTable fit
    exact formatted.of_run run rfl
  · intro fuel ram store maps run
    have good : GoodReclaim (D := D) l False (reclaimWhenRight l fuel) := good_reclaimWhenRight fit
    have powered : NodesPowered l False maps ram store := (run.hold fit three good).2
    refine ⟨run.agrees agrees_reclaimWhenRight, fun i ram₁ mid call right rounds enough => ?_⟩
    have found : OnReturn l (commitUpTo l (reclaimWhenRight l fuel) i)
        (fun _ ram₁ mid => ∃ place nodes reclaimBlock,
          Closed l False (i + 1) maps.current place nodes reclaimBlock ram₁ mid) ram store :=
      onReturn_commitUpTo fit good powered fun _ _ _ _ _ closed => ⟨_, _, _, closed⟩
    obtain ⟨place, nodes, reclaimBlock, closed⟩ := found.of_run call
    exact closed.progresses fit right enough

/-- The reclaims make progress behind commits, two mounts and an earlier reclaim. -/
theorem nodeRun_reclaimsProgress_simLayout :
    ∃ (ram : FtlRam) (store : UbiStore Nat) (maps : PageMap),
      (NodeRun (simLayout 0x10000) (pmtReclaimBlocks (simLayout 0x10000) 5)
        (MetaKnown (simLayout 0x10000)) (.mounted ram) store maps ∧
        ReclaimsProgress (simLayout 0x10000) (reclaimWhenRight (simLayout 0x10000) 4) ram store) ∧
        pmtTarget (simLayout 0x10000) ram = 6 := by
  have holds : keptRun (reclaimWhenRight (simLayout 0x10000) 4) = true := by
    set_option maxRecDepth 100000 in decide +kernel
  obtain ⟨ram, store, maps, run, target⟩ := nodeRun_simLayout holds
  exact ⟨ram, store, maps,
    (nodeRun_reclaimsProgress nodesFit_simLayout threeTables_simLayout).2 4 ram store maps run,
    target⟩

end Progress

/-! ## A run whose reclaim fills the block -/

/-- A device whose nodes fill the blocks that they are in: 31 clusters, and blocks of 31 nodes
and a meta page. -/
def fullLayout : Layout where
  g :=
    { simNand with
      sectorPerPageShift := 0
      planePerDieShift := 0
      blockPerPlaneShift := 8
      diePerChipShift := 0
      chipCountShift := 0
      overProvisionRate := 48 }
  bdtPageCount := 1
  capacity := 239
  nodeCaches := 0x10000

/-- An erased device, eight dice of which will be busy. -/
def eightBusy : UbiStore Nat where
  pages _ _ := none
  history := []
  polls := List.replicate 8 .dieBusy

/-- A page of each cluster is trimmed once. -/
def trimEach : List NodeCall :=
  (List.range 31).map fun cluster => .update (cluster * 128) invalidBlock invalidPage

theorem good_trimEach : ∀ call ∈ trimEach, call.IsGood fullLayout := by
  intro call member
  obtain ⟨cluster, isCluster, rfl⟩ := List.mem_map.mp member
  have all : ∀ cluster ∈ List.range 31, cluster * 128 < fullLayout.ftlCapacity := by decide
  exact ⟨all cluster isCluster, Or.inr ⟨rfl, rfl⟩⟩

theorem nodesFit_fullLayout : fullLayout.NodesFit where
  toFits := ⟨by decide, by decide, by decide⟩
  pages := by decide
  two := by decide
  inCapacity := by decide
  clusters := by decide
  valid := by decide
  slots := by decide
  counts := by decide
  perNode := by decide

/-- Format, mount with the memory of the format, and trims; then the reclaim that the third slot
of the commit calls. -/
def fullRun (test : FtlRam → Bool) : Bool :=
  let machine := storeMachine (D := Nat) fullLayout.g fullLayout.capacity
  Code.returns (((ftlFormat fullLayout).run .reset).exec machine eightBusy) fun ret ram store =>
    decide (ret = .success ∧ store.roots ≤ 2 ^ 32) &&
      (store.lastRoot.all fun root => metaKnown fullLayout root ram) &&
      Code.returns (((ftlInitTables fullLayout).run ram).exec machine store) fun _ ram store =>
    Code.returns (((nodeCalls fullLayout (pmtReclaimBlocks fullLayout 16) trimEach).run ram).exec
        machine store) fun _ ram store =>
    Code.returns (((commitUpTo fullLayout (pmtReclaimBlocks fullLayout 16) 2).run ram).exec machine
        store) fun ret ram mid => decide (ret = .success ∧ mid.polls.length = 8) &&
      Code.returns (((pmtReclaimBlocks fullLayout 16).run ram).exec machine mid) fun _ ram _ =>
        test ram

theorem of_fullRun {test : FtlRam → Bool} (holds : fullRun test = true) :
    ∃ (ram : FtlRam) (store : UbiStore Nat) (maps : PageMap),
      NodeRun fullLayout (pmtReclaimBlocks fullLayout 16) (MetaKnown fullLayout) (.mounted ram)
        store maps ∧
      ∃ ram₁ mid, ((commitUpTo fullLayout (pmtReclaimBlocks fullLayout 16) 2).run ram).exec
          (storeMachine fullLayout.g fullLayout.capacity) store = .ok ((.success, ram₁), mid) ∧
        mid.polls.length = 8 ∧
      ∃ ret ram₂ after, ((pmtReclaimBlocks fullLayout 16).run ram₁).exec
          (storeMachine fullLayout.g fullLayout.capacity) mid = .ok ((ret, ram₂), after) ∧
        test ram₂ = true := by
  rw [fullRun] at holds
  obtain ⟨_, ram, formattedStore, format, test₁⟩ := Code.returns_iff.mp holds
  obtain ⟨facts, mounts⟩ := Bool.and_eq_true_iff.mp test₁
  obtain ⟨success, known⟩ := Bool.and_eq_true_iff.mp facts
  obtain ⟨rfl, few⟩ := of_decide_eq_true success
  obtain ⟨_, _, _, mount, trims⟩ := Code.returns_iff.mp mounts
  obtain ⟨_, ram', store', trimmed, calls⟩ := Code.returns_iff.mp trims
  obtain ⟨_, ram₁, mid, call, test₂⟩ := Code.returns_iff.mp calls
  obtain ⟨facts', reclaims⟩ := Bool.and_eq_true_iff.mp test₂
  obtain ⟨rfl, polls⟩ := of_decide_eq_true facts'
  obtain ⟨ret, ram₂, after, reclaim, met⟩ := Code.returns_iff.mp reclaims
  have formatted :
      NodeRun fullLayout (pmtReclaimBlocks fullLayout 16) (MetaKnown fullLayout) _ _ _ :=
    .format ⟨fun _ _ => rfl, rfl⟩ format
  have isKnown : ∀ root, formattedStore.lastRoot = some root →
      MetaKnown fullLayout root ram := by
    intro root last
    rw [last] at known
    exact metaKnown_eq_true known
  obtain ⟨maps, trimmed⟩ := (formatted.mount (.inr (.inl few)) isKnown mount).calls good_trimEach
    trimmed
  exact ⟨ram', store', maps, trimmed, ram₁, mid, call, polls, ret, ram₂, after, reclaim, met⟩

/-- All dirty blocks are busy in the first pass.  The reclaim takes a block without dirty pages,
and its copy leaves no room: the assertion before the next node fails. -/
theorem pmtReclaim_fills_block :
    fullLayout.NodesFit ∧ ∃ (ram : FtlRam) (store : UbiStore Nat) (maps : PageMap),
      NodeRun fullLayout (pmtReclaimBlocks fullLayout 16) (MetaKnown fullLayout) (.mounted ram)
        store maps ∧
      ∃ (ram₁ : FtlRam) (mid : UbiStore Nat),
        ((commitUpTo fullLayout (pmtReclaimBlocks fullLayout 16) 2).run ram).exec
          (storeMachine fullLayout.g fullLayout.capacity) store = .ok ((.success, ram₁), mid) ∧
        mid.polls.length + 1 < 16 ∧ ¬ ReclaimProgresses fullLayout 16 ram₁ mid := by
  have run : fullRun (fun ram => decide (pmtCurrentPage fullLayout ram = 31)) = true := by
    set_option maxRecDepth 100000 in decide +kernel
  obtain ⟨ram, store, maps, trimmed, ram₁, mid, call, polls, ret, ram₂, after, reclaim, full⟩ :=
    of_fullRun run
  refine ⟨nodesFit_fullLayout, ram, store, maps, trimmed, ram₁, mid, call, by omega, ?_⟩
  rintro ⟨_, ram₃, after', reclaim', room⟩
  rw [reclaim'] at reclaim
  obtain ⟨same, _⟩ := Prod.mk.inj (Except.ok.inj reclaim)
  obtain ⟨_, rfl⟩ := Prod.mk.inj same
  rw [of_decide_eq_true full] at room
  exact absurd room (by decide)

end OpenNfm.Ftl
