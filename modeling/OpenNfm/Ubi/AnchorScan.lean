import OpenNfm.Mtd.Faulty
import OpenNfm.Ubi.AnchorRing

/-!
# The scan of the anchor ring on any flash

Program and erase failures leave blocks of the ring in many forms.  `anchorAt` is what
the two reads of the scan find in a block, whatever is programmed there, and `holders`
lists the blocks in which they find an anchor.  The outcome of the scan depends on the
first two of them only.
-/

namespace OpenNfm

open OpenNfm.Program

variable {g : Geometry} {D : Type}

/-! ## Bisection -/

/-- The search between two numbers for the last one that is inside. -/
def bisect (inside : Nat → Bool) : Nat → Nat → Nat → Nat
  | 0, head, _ => head
  | rounds + 1, head, tail =>
      let mid := (head + tail) / 2
      if mid ≠ head ∧ mid ≠ tail then
        if inside mid then bisect inside rounds mid tail else bisect inside rounds head mid
      else mid

/-- The result is inside if the search starts inside. -/
theorem bisect_inside {inside : Nat → Bool} {rounds head tail : Nat} (ordered : head < tail)
    (start : inside head = true) : inside (bisect inside rounds head tail) = true := by
  induction rounds generalizing head tail with
  | zero => exact start
  | succ rounds ih =>
      simp only [bisect]
      split
      · split
        · rename_i middle
          exact ih (by omega) middle
        · exact ih (by omega) start
      · have same : (head + tail) / 2 = head := by omega
        rwa [same]

theorem bisect_lt {inside : Nat → Bool} {rounds head tail : Nat} (ordered : head < tail) :
    bisect inside rounds head tail < tail := by
  induction rounds generalizing head tail with
  | zero => exact ordered
  | succ rounds ih =>
      simp only [bisect]
      split
      · split
        · exact ih (by omega)
        · exact (ih (by omega)).trans (by omega)
      · omega

/-- On an initial segment the search ends at its last number. -/
theorem bisect_eq {inside : Nat → Bool} {rounds head tail count : Nat} (ordered : head < tail)
    (segment : ∀ i < tail, inside i = true ↔ i < count) (headLt : head < count)
    (countLe : count ≤ tail) (enough : tail - head ≤ rounds) :
    bisect inside rounds head tail = count - 1 := by
  induction rounds generalizing head tail with
  | zero => omega
  | succ rounds ih =>
      simp only [bisect]
      split
      · rename_i inner
        by_cases middle : (head + tail) / 2 < count
        · rw [if_pos ((segment _ (by omega)).mpr middle)]
          exact ih (by omega) segment middle countLe (by omega)
        · rw [if_neg fun found => middle ((segment _ (by omega)).mp found)]
          refine ih (by omega) (fun i below => segment i (by omega)) headLt (by omega) (by omega)
      · omega

/-! ## What is found in a block -/

/-- The page is readable and has a footprint. -/
def hasTable (nand : Nand (UbiBuffer D)) (block page : Nat) : Bool :=
  match nand block page with
  | some content => decide (content.spare.first ≠ allOnes)
  | none => false

/-- The page at which the search for the newest table ends. -/
def lastPage (g : Geometry) (nand : Nand (UbiBuffer D)) (block : Nat) : Nat :=
  bisect (hasTable nand block) (g.pagePerPhyBlock + 1) 0 g.pagePerPhyBlock

/-- What `TABLE_Read` answers at a page. -/
def tableAt (nand : Nand (UbiBuffer D)) (block page : Nat) : Status × Nat × UbiBuffer D :=
  if hasTable nand block page then (.success, page, (nand.answer block page).main)
  else (.failure, invalidPage, (nand.answer block page).main)

theorem hasTable_iff {nand : Nand (UbiBuffer D)} {block page : Nat} :
    hasTable nand block page = true ↔
      (nand.answer block page).status = .success ∧
        (nand.answer block page).spare.first ≠ allOnes := by
  unfold hasTable Nand.answer
  cases nand block page <;> simp

namespace Faulty

/-- The two states differ at most in that dies have forgotten a failure. -/
structure SameFlash {B : Type} (state after : Faulty B) : Prop where
  nand : after.nand = state.nand
  torn : after.torn = state.torn
  outcomes : after.outcomes = state.outcomes
  lastProgram : after.lastProgram = state.lastProgram
  dies : ∀ die, state.failedDie die = false → after.failedDie die = false

theorem SameFlash.refl {B : Type} (state : Faulty B) : SameFlash state state :=
  ⟨rfl, rfl, rfl, rfl, fun _ => id⟩

theorem SameFlash.trans {B : Type} {first second third : Faulty B}
    (same : SameFlash first second) (same' : SameFlash second third) : SameFlash first third :=
  ⟨same'.nand.trans same.nand, same'.torn.trans same.torn, same'.outcomes.trans same.outcomes,
    same'.lastProgram.trans same.lastProgram, fun die ok => same'.dies die (same.dies die ok)⟩

theorem sameFlash_settle {B : Type} (state : Faulty B) (block : Nat) :
    SameFlash state (state.settle g block) := by
  refine ⟨rfl, rfl, rfl, rfl, fun die ok => ?_⟩
  simp only [settle, Function.update_apply, ok, ite_self]

end Faulty

/-! ## Devices with a ring -/

/-- A device whose ring can be scanned.  A read answers what the flash holds and leaves the
`Same` flash behind, and an erase ends as the device has it. -/
structure RingDevice (g : Geometry) {T : Type}
    (machine : Machine (MtdOp (UbiBuffer D)) (MtdAns (UbiBuffer D)) T) where
  nand : T → Nand (UbiBuffer D)
  Same : T → T → Prop
  settle : T → Nat → T
  erase : T → Nat → Status × T
  same_refl : ∀ state, Same state state
  same_trans : ∀ {first second third}, Same first second → Same second third → Same first third
  same_nand : ∀ {state after}, Same state after → nand after = nand state
  same_settle : ∀ state block, Same state (settle state block)
  same_erase : ∀ {state after} block, Same state after →
    (erase after block).1 = (erase state block).1
  reads : ∀ {state block page}, block < g.cfgLogBlockCount → page < g.pagePerPhyBlock →
    machine state (.read block page) = .ok ((nand state).answer block page, settle state block)
  erases : ∀ {state block}, block < g.cfgLogBlockCount →
    machine state (.erase block) = .ok ((erase state block).1, (erase state block).2)

/-- The device that fails by a list of outcomes. -/
def faultyRing (g : Geometry) (D : Type) : RingDevice g (faultyMachine g (B := UbiBuffer D)) where
  nand := Faulty.nand
  Same := Faulty.SameFlash
  settle := Faulty.settle g
  erase := Faulty.erase g
  same_refl := .refl
  same_trans := .trans
  same_nand := Faulty.SameFlash.nand
  same_settle := Faulty.sameFlash_settle
  same_erase _ same := by
    simp only [Faulty.erase, same.outcomes]
    split <;> rfl
  reads isBlock isPage := if_pos ⟨isBlock, isPage⟩
  erases isBlock := if_pos isBlock

section Rules

variable {T R : Type} {machine : Machine (MtdOp (UbiBuffer D)) (MtdAns (UbiBuffer D)) T}
  (device : RingDevice g machine) {crash : T → Prop} {halts : Prop} {ram : R} {state : T}
  {block page : Nat}

theorem RingDevice.spec_mtdRead {post : ReadAnswer (UbiBuffer D) → R → T → Prop}
    (isBlock : block < g.cfgLogBlockCount) (isPage : page < g.pagePerPhyBlock) :
    Code.spec machine crash halts (mtdRead block page) post ram state ↔
      crash state ∧ crash (device.settle state block) ∧
        post ((device.nand state).answer block page) ram (device.settle state block) :=
  Code.spec_perform_of_step (device.reads isBlock isPage)

theorem RingDevice.spec_mtdErase {post : Status → R → T → Prop}
    (isBlock : block < g.cfgLogBlockCount) :
    Code.spec machine crash halts (mtdErase block) post ram state ↔
      crash state ∧ crash (device.erase state block).2 ∧
        post (device.erase state block).1 ram (device.erase state block).2 :=
  Code.spec_perform_of_step (device.erases isBlock)

end Rules

section Specs

variable {T : Type} {machine : Machine (MtdOp (UbiBuffer D)) (MtdAns (UbiBuffer D)) T}
  (device : RingDevice g machine) {crash : T → Prop} {halts : Prop} {ram : UbiRam D} {state : T}
  {block : Nat}

theorem RingDevice.spec_tableSearch {rounds head tail : Nat}
    {post : Nat → UbiRam D → T → Prop} (isBlock : block < g.cfgLogBlockCount)
    (ordered : head < tail) (tailLe : tail ≤ g.pagePerPhyBlock) (enough : tail - head ≤ rounds)
    (safe : ∀ after, device.Same state after → crash after)
    (meets : ∀ after, device.Same state after →
      post (bisect (hasTable (device.nand state) block) rounds head tail) ram after) :
    Code.spec machine crash halts (tableSearch block rounds head tail) post ram state := by
  induction rounds generalizing head tail state with
  | zero => omega
  | succ rounds ih =>
      have here := safe state (device.same_refl _)
      unfold tableSearch
      simp only [bisect] at meets
      by_cases inner : (head + tail) / 2 ≠ head ∧ (head + tail) / 2 ≠ tail
      · have settled := device.same_settle state block
        simp only [inner, if_true, ne_eq, not_false_eq_true, and_self] at meets ⊢
        rw [Code.spec_bind, device.spec_mtdRead isBlock (by omega)]
        refine ⟨here, safe _ settled, ?_⟩
        by_cases found : hasTable (device.nand state) block ((head + tail) / 2) = true
        · rw [if_pos (hasTable_iff.mp found)]
          refine ih (by omega) tailLe (by omega)
            (fun after same => safe after (device.same_trans settled same)) fun after same => ?_
          have finish := meets after (device.same_trans settled same)
          rwa [if_pos found, ← device.same_nand settled] at finish
        · rw [if_neg fun answer => found (hasTable_iff.mpr answer)]
          refine ih (by omega) (by omega) (by omega)
            (fun after same => safe after (device.same_trans settled same)) fun after same => ?_
          have finish := meets after (device.same_trans settled same)
          rwa [if_neg found, ← device.same_nand settled] at finish
      · simp only [inner, if_false] at meets ⊢
        rw [Code.spec_bind, Code.spec_assert]
        exact ⟨here, fun _ => ⟨here, meets state (device.same_refl _)⟩, fun wrong => by omega⟩

/-- `TABLE_Read` at the end of the search, or at the page that the caller names. -/
theorem RingDevice.spec_tableRead {page : Nat}
    {post : Status × Nat × UbiBuffer D → UbiRam D → T → Prop}
    (isBlock : block < g.cfgLogBlockCount) (asked : page = invalidPage ∨ page < g.pagePerPhyBlock)
    (safe : ∀ after, device.Same state after → crash after)
    (meets : ∀ after, device.Same state after →
      post
        (tableAt (device.nand state) block (if page = invalidPage
          then lastPage g (device.nand state) block else page))
        ram after) :
    Code.spec machine crash halts (tableRead g block page) post ram state := by
  have here := safe state (device.same_refl _)
  have finish : ∀ mid < g.pagePerPhyBlock, ∀ middle, device.Same state middle →
      (∀ after, device.Same state after → post (tableAt (device.nand state) block mid) ram after) →
      Code.spec machine crash halts (do
        let answer ← mtdRead block mid
        if answer.status = .success then
          if answer.spare.first = allOnes then
            pure (Status.failure, invalidPage, answer.main)
          else pure (.success, mid, answer.main)
        else pure (answer.status, invalidPage, answer.main)) post ram middle := by
    intro mid isPage middle same found
    have settled := device.same_trans same (device.same_settle middle block)
    have result := found _ settled
    have safeSettled := safe _ settled
    rw [Code.spec_bind, device.spec_mtdRead isBlock isPage, device.same_nand same]
    refine ⟨safe _ same, safeSettled, ?_⟩
    unfold tableAt at result
    by_cases table : hasTable (device.nand state) block mid = true
    · obtain ⟨success, footprint⟩ := hasTable_iff.mp table
      rw [if_pos table] at result
      rw [if_pos success, if_neg footprint]
      exact ⟨safeSettled, result⟩
    · rw [if_neg table] at result
      by_cases success : ((device.nand state).answer block mid).status = .success
      · have noFootprint : ((device.nand state).answer block mid).spare.first = allOnes := by
          by_contra footprint
          exact table (hasTable_iff.mpr ⟨success, footprint⟩)
        rw [if_pos success, if_pos noFootprint]
        exact ⟨safeSettled, result⟩
      · have failure : ((device.nand state).answer block mid).status = .failure := by
          unfold Nand.answer at success ⊢
          cases content : (device.nand state) block mid <;> simp [content] at success ⊢
        rw [if_neg success, failure]
        exact ⟨safeSettled, result⟩
  by_cases search : page = invalidPage
  · simp only [search, if_true] at meets
    simp only [tableRead, search, ne_eq, not_true_eq_false, if_false]
    rw [Code.spec_bind]
    refine device.spec_tableSearch isBlock g.pagePerPhyBlock_pos le_rfl (by omega) safe
      fun after same => ?_
    exact finish _ (bisect_lt g.pagePerPhyBlock_pos) after same meets
  · have isPage := asked.resolve_left search
    simp only [search, if_false] at meets
    simp only [tableRead, ne_eq, search, not_false_eq_true, if_true]
    rw [Code.spec_bind]
    unfold tableSearch
    simp only [ne_eq, show (page + page) / 2 = page by omega, not_true_eq_false, and_self,
      if_false]
    rw [Code.spec_bind, Code.spec_assert]
    exact ⟨here, fun _ => ⟨here, finish page isPage state (device.same_refl _) meets⟩,
      fun wrong => (wrong (.inl rfl)).elim⟩

/-! ## The scan -/

/-- Every page of the ring that is programmed holds an anchor with its footprint, and
no anchor names its own block as the previous one. -/
def AnchorPages (g : Geometry) (nand : Nand (UbiBuffer D)) : Prop :=
  ∀ block page content, g.InRing block → nand block page = some content →
    ∃ table, content = tablePage (.anchor table) ∧ table.previousAnchorBlock ≠ block

/-- What the scan finds in a block: the page of its newest anchor, and the anchor. -/
def anchorAt (g : Geometry) (nand : Nand (UbiBuffer D)) (block : Nat) :
    Option (Nat × AnchorTable) :=
  if hasTable nand block 0 then
    match nand block (lastPage g nand block) with
    | some ⟨.anchor table, _⟩ => some (lastPage g nand block, table)
    | _ => none
  else none

/-- The block, if it holds an anchor, with what is found in it. -/
def holderOf (g : Geometry) (nand : Nand (UbiBuffer D)) (block : Nat) :
    Option (Nat × Nat × AnchorTable) :=
  (anchorAt g nand block).map fun found => (block, found)

/-- The blocks of the ring with an anchor, in the order of the scan. -/
def holders (g : Geometry) (nand : Nand (UbiBuffer D)) : List (Nat × Nat × AnchorTable) :=
  g.ringBlocks.filterMap (holderOf g nand)

theorem anchorAt_eq_some {nand : Nand (UbiBuffer D)} {page : Nat} {table : AnchorTable}
    (found : anchorAt g nand block = some (page, table)) :
    hasTable nand block 0 = true ∧ page = lastPage g nand block ∧
      ∃ spare, nand block page = some ⟨.anchor table, spare⟩ := by
  unfold anchorAt at found
  split at found
  · rename_i first
    split at found
    · rename_i newest spare content
      obtain ⟨rfl, rfl⟩ := Prod.mk.inj (Option.some.inj found)
      exact ⟨first, rfl, spare, content⟩
    · simp at found
  · simp at found

/-- A block of the ring without an anchor has an unreadable first page. -/
theorem anchorAt_eq_none {nand : Nand (UbiBuffer D)} (pages : AnchorPages g nand)
    (inRing : g.InRing block) (missing : anchorAt g nand block = none) :
    hasTable nand block 0 = false := by
  by_contra readable
  have first : hasTable nand block 0 = true := by simpa using readable
  have last : hasTable nand block (lastPage g nand block) = true :=
    bisect_inside g.pagePerPhyBlock_pos first
  cases content : nand block (lastPage g nand block) with
  | none => simp [hasTable, content] at last
  | some page =>
      obtain ⟨table, rfl, _⟩ := pages block _ page inRing content
      simp [anchorAt, first, content, tablePage] at missing

theorem lastPage_lt (nand : Nand (UbiBuffer D)) (block : Nat) :
    lastPage g nand block < g.pagePerPhyBlock :=
  bisect_lt g.pagePerPhyBlock_pos

/-- The scan passes over a block without an anchor. -/
theorem RingDevice.spec_anchorInitScan_skip {rest : List Nat} {found : Option AnchorFound}
    {post : Option AnchorFound → UbiRam D → T → Prop}
    (isBlock : block < g.cfgLogBlockCount)
    (unreadable : hasTable (device.nand state) block 0 = false)
    (safe : ∀ after, device.Same state after → crash after)
    (meets : ∀ after, device.Same state after →
      Code.spec machine crash halts (anchorInitScan g rest found) post ram after) :
    Code.spec machine crash halts (anchorInitScan g (block :: rest) found) post ram
      state := by
  rw [anchorInitScan, Code.spec_bind]
  refine device.spec_tableRead isBlock (.inr g.pagePerPhyBlock_pos) safe fun after same => ?_
  rw [if_neg (show (0 : Nat) ≠ invalidPage by decide), tableAt, unreadable]
  simp only [Bool.false_eq_true, reduceCtorEq, if_false, Code.spec_bind, Code.spec_pure]
  exact ⟨safe after same, meets after same⟩

/-- What the scan does after its two reads have found an anchor. -/
def foundAnchor (g : Geometry) (block page : Nat) (rest : List Nat)
    (found : Option AnchorFound) : Ubi D (Option AnchorFound) := do
  let ram ← get
  match found with
  | none =>
      anchorInitScan g rest (some ⟨block, page, ram.anchorTable.previousAnchorBlock⟩)
  | some first => do
      let (newest, oldBlock) ←
        if first.previous = block then pure (first, block)
        else do
          Code.assert (first.block = ram.anchorTable.previousAnchorBlock)
          pure (⟨block, page, first.previous⟩, ram.anchorTable.previousAnchorBlock)
      if oldBlock ≠ invalidBlock then
        let ret ← mtdErase oldBlock
        if ret ≠ .success then anchorLogBadBlock g oldBlock
      pure (some newest)

theorem RingDevice.spec_anchorInitScan_found {page : Nat} {table : AnchorTable} {rest : List Nat}
    {found : Option AnchorFound}
    {post : Option AnchorFound → UbiRam D → T → Prop}
    (isBlock : block < g.cfgLogBlockCount)
    (anchor : anchorAt g (device.nand state) block = some (page, table))
    (safe : ∀ after, device.Same state after → crash after)
    (meets : ∀ after, device.Same state after →
      Code.spec machine crash halts (foundAnchor g block page rest found) post
        { ram with anchorTable := table } after) :
    Code.spec machine crash halts (anchorInitScan g (block :: rest) found) post ram
      state := by
  obtain ⟨first, rfl, spare, content⟩ := anchorAt_eq_some anchor
  have last : hasTable (device.nand state) block (lastPage g (device.nand state) block) = true :=
    bisect_inside g.pagePerPhyBlock_pos first
  have answer : ((device.nand state).answer block (lastPage g (device.nand state) block)).main =
      .anchor table := by
    simp [Nand.answer, content]
  rw [anchorInitScan, Code.spec_bind]
  refine device.spec_tableRead isBlock (.inr g.pagePerPhyBlock_pos) safe fun middle same => ?_
  rw [if_neg (show (0 : Nat) ≠ invalidPage by decide), tableAt, if_pos first]
  simp only [if_true, Code.spec_bind]
  refine device.spec_tableRead isBlock (.inl rfl)
    (fun after more => safe after (device.same_trans same more)) fun after more => ?_
  have here := safe after (device.same_trans same more)
  rw [if_pos rfl, device.same_nand same, tableAt, if_pos last, answer]
  simp only [loadAnchor, Code.spec_pure, Code.spec_modify]
  refine ⟨here, here, here, ?_⟩
  rw [if_pos trivial]
  exact meets after (device.same_trans same more)

end Specs

end OpenNfm
