import OpenNfm.Onfm.Interface
import OpenNfm.Program.EveryAnswer
import OpenNfm.Program.Oracle
import OpenNfm.Ubi.Api

/-!
# Held pages

A page that was written without waiting is kept in `dice_hold` until the next write has found
that the die is ready.  Its buffer is then handed back through `BUF_Free`.  The functions of
the index, the areas and the anchor have no part in this: they are `Quiet`.  A write takes over
one buffer at most, and each buffer of the pool that the layer has is held or was handed back.
-/

namespace OpenNfm

open OpenNfm.Program

/-- The address that a call hands to `BUF_Free`. -/
def MtdOp.freed {B : Type} : MtdOp B → Option Nat
  | .bufFree buffer => some buffer
  | _ => none

section Quiet

variable {g : Geometry} {fuel : Nat} {D α β : Type}

/-! ## Functions without held pages -/

/-- `BUF_Free` is not called, and `dice_hold` stays as it is. -/
def Quiet (code : Ubi D α) : Prop :=
  ∀ ram, Code.Everywhere (fun op => op.freed = none) code
    (fun _ ram' => ram'.diceHold = ram.diceHold) ram

namespace Quiet

theorem pure (value : α) : Quiet (Pure.pure value : Ubi D α) :=
  fun _ => rfl

theorem halt (reason : Halt) : Quiet (Code.halt reason : Ubi D α) :=
  fun _ => trivial

theorem get : Quiet (MonadState.get : Ubi D (UbiRam D)) :=
  fun _ => rfl

theorem modifies {change : UbiRam D → UbiRam D}
    (same : ∀ ram, (change ram).diceHold = ram.diceHold) : Quiet (modify change : Ubi D PUnit) :=
  same

theorem assert {condition : Prop} [Decidable condition] :
    Quiet (Code.assert condition : Ubi D Unit) :=
  fun _ => Code.Everywhere.assert.mpr fun _ => rfl

theorem perform {op : MtdOp (UbiBuffer D)} (other : op.freed = none) :
    Quiet (Code.perform op : Ubi D (MtdAns (UbiBuffer D) op)) :=
  fun _ => ⟨other, fun _ => rfl⟩

theorem bind {code : Ubi D α} {rest : α → Ubi D β} (first : Quiet code)
    (second : ∀ value, Quiet (rest value)) : Quiet (code >>= rest) :=
  fun ram => Code.Everywhere.bind.mpr <| (first ram).mono fun value ram' same =>
    (second value ram').mono fun _ _ same' => same'.trans same

theorem ite {condition : Prop} [Decidable condition] {first second : Ubi D α}
    (yes : Quiet first) (no : Quiet second) : Quiet (if condition then first else second) := by
  split
  · exact yes
  · exact no

end Quiet

theorem quiet_mtdRead {block page : Nat} : Quiet (mtdRead block page : Ubi D _) :=
  .perform rfl

theorem quiet_mtdProgram {block page : Nat} {main : UbiBuffer D} {spare : Option Spare} :
    Quiet (mtdProgram block page main spare) :=
  .perform rfl

theorem quiet_mtdErase {block : Nat} : Quiet (mtdErase block : Ubi D _) :=
  .perform rfl

theorem quiet_mtdWaitReady {block : Nat} : Quiet (mtdWaitReady block : Ubi D _) :=
  .perform rfl

theorem quiet_mtdReadStatus {block : Nat} : Quiet (mtdReadStatus block : Ubi D _) :=
  .perform rfl

/-! ### Tables -/

theorem quiet_tableWrite {block page : Nat} {buffer : UbiBuffer D} :
    Quiet (tableWrite block page buffer) :=
  .bind quiet_mtdProgram fun _ => .ite quiet_mtdWaitReady (.pure _)

theorem quiet_tableSearch {block rounds head tail : Nat} :
    Quiet (tableSearch block rounds head tail : Ubi D Nat) := by
  induction rounds generalizing head tail with
  | zero => exact .halt _
  | succ rounds ih =>
      exact .ite (.bind quiet_mtdRead fun _ => .ite ih ih) (.bind .assert fun _ => .pure _)

theorem quiet_tableRead {block page : Nat} : Quiet (tableRead g block page : Ubi D _) := by
  have last : ∀ mid, Quiet (do
      let answer ← mtdRead block mid
      if answer.status = .success then
        if answer.spare.first = allOnes then pure (.failure, invalidPage, answer.main)
        else pure (.success, mid, answer.main)
      else pure (answer.status, invalidPage, answer.main) :
        Ubi D (Status × Nat × UbiBuffer D)) :=
    fun mid => .bind quiet_mtdRead fun _ => .ite (.ite (.pure _) (.pure _)) (.pure _)
  exact .ite (.bind quiet_tableSearch last) (.bind quiet_tableSearch last)

theorem quiet_loadIndex {buffer : UbiBuffer D} : Quiet (loadIndex buffer) := by
  cases buffer with
  | index | ones => exact .pure _
  | area | anchor | data => exact .halt _

theorem quiet_loadArea {buffer : UbiBuffer D} : Quiet (loadArea buffer) := by
  cases buffer with
  | area | ones => exact .pure _
  | index | anchor | data => exact .halt _

theorem quiet_loadAnchor {buffer : UbiBuffer D} : Quiet (loadAnchor buffer) := by
  cases buffer with
  | anchor | ones => exact .pure _
  | index | area | data => exact .halt _

/-! ### The anchor -/

theorem quiet_anchorLogBadBlock {block : Nat} : Quiet (anchorLogBadBlock g block : Ubi D Unit) :=
  .modifies fun _ => rfl

theorem quiet_anchorIsBadBlock {block : Nat} : Quiet (anchorIsBadBlock g block : Ubi D Bool) :=
  .bind .get fun _ => .pure _

theorem quiet_anchorFindLoop {current rounds block : Nat} :
    Quiet (anchorFindLoop g current rounds block : Ubi D _) := by
  induction rounds generalizing block with
  | zero => exact .halt _
  | succ rounds ih =>
      refine .bind quiet_anchorIsBadBlock fun bad => ?_
      exact .ite (.bind (.pure _) fun _ => .ite ih (.pure _))
        (.bind quiet_mtdErase fun _ => .ite
          (.bind quiet_anchorLogBadBlock fun _ => .bind (.pure _) fun _ => .ite ih (.pure _))
          (.bind (.pure _) fun _ => .ite ih (.pure _)))

theorem quiet_anchorFindNextBlock {current : Nat} :
    Quiet (anchorFindNextBlock g current : Ubi D _) :=
  .bind quiet_anchorFindLoop fun _ => .ite (.pure _) (.pure _)

theorem quiet_anchorUpdateLoop {rounds : Nat} {reclaimed : Bool} :
    Quiet (anchorUpdateLoop g rounds reclaimed : Ubi D Status) := by
  induction rounds generalizing reclaimed with
  | zero => exact .halt _
  | succ rounds ih =>
      refine .bind .get fun ram => .ite (.bind (.modifies fun _ => rfl) fun _ =>
        .bind quiet_anchorFindNextBlock fun _ => .ite (.bind (.modifies fun _ => rfl) fun _ =>
          .bind (.pure _) fun _ => .ite (.pure _) ?_) (.bind (.pure _) fun _ => .ite (.pure _) ?_))
        (.bind (.pure _) fun _ => .ite (.pure _) ?_)
      all_goals
        refine .bind .get fun ram => .bind quiet_tableWrite fun ret => .ite ?_ ?_
        · exact .ite (.bind quiet_mtdErase fun _ => .bind (.modifies fun _ => rfl) fun _ => .pure _)
            (.bind (.modifies fun _ => rfl) fun _ => .pure _)
        · exact .ite (.bind (.modifies fun _ => rfl) fun _ => ih) ih

theorem quiet_anchorUpdate : Quiet (anchorUpdate g fuel : Ubi D Status) :=
  quiet_anchorUpdateLoop

theorem quiet_anchorIndexReclaim {block new : Nat} {ec newEc : EraseCount} :
    Quiet (anchorIndexReclaim block ec new newEc : Ubi D Unit) :=
  .modifies fun _ => rfl

/-! ### Areas and the free block table -/

theorem quiet_areaRead {area : Nat} : Quiet (areaRead g area : Ubi D Status) := by
  refine .bind .get fun ram => .ite (.bind .assert fun _ => .bind quiet_tableRead fun _ =>
    .bind quiet_loadArea fun _ => .bind (.modifies fun _ => rfl) fun _ =>
      .bind (.pure _) fun _ => ?_)
    (.bind (.pure _) fun _ => ?_)
  all_goals exact .bind (.modifies fun _ => rfl) fun _ => .pure _

theorem quiet_areaInit {area : Nat} : Quiet (areaInit g area : Ubi D Status) :=
  .bind (.modifies fun _ => rfl) fun _ => quiet_areaRead

theorem quiet_areaIsFull {logicalBlock : Nat} : Quiet (areaIsFull g logicalBlock : Ubi D Bool) :=
  .bind quiet_areaRead fun _ => .bind .get fun _ => .pure _

theorem quiet_areaCheckUpdatePlr {logicalBlock originBlock : Nat} {blockEc : EraseCount} :
    Quiet (areaCheckUpdatePlr g logicalBlock originBlock blockEc : Ubi D Bool) :=
  .bind .get fun _ => .ite (.pure _) (.bind (.modifies fun _ => rfl) fun _ => .pure _)

theorem quiet_areaGetBlock {logicalBlock : Nat} : Quiet (areaGetBlock g logicalBlock : Ubi D Nat) :=
  .bind quiet_areaRead fun _ => .bind .get fun _ => .pure _

theorem quiet_areaGetEc {logicalBlock : Nat} :
    Quiet (areaGetEc g logicalBlock : Ubi D EraseCount) :=
  .bind quiet_areaRead fun _ => .bind .get fun _ => .pure _

theorem quiet_areaUpdate {logicalBlock newOriginBlock : Nat} {newOriginEc : EraseCount} :
    Quiet (areaUpdate g logicalBlock newOriginBlock newOriginEc : Ubi D Status) := by
  refine .bind quiet_areaRead fun ret => .ite (.ite (.bind (.modifies fun _ => rfl) fun _ =>
      .bind .get fun _ => .bind quiet_tableWrite fun _ => .bind (.pure _) fun _ => ?_)
    (.bind .get fun _ => .bind quiet_tableWrite fun _ => .bind (.pure _) fun _ => ?_))
    (.bind (.pure _) fun _ => ?_)
  all_goals
    exact .ite (.bind .assert fun _ => .bind (.modifies fun _ => rfl) fun _ => .pure _)
      (.ite (.bind (.modifies fun _ => rfl) fun _ => .pure _) (.pure _))

theorem quiet_setFree {change : (Nat → BlockEc) → Nat → BlockEc} :
    Quiet (setFree change : Ubi D Unit) :=
  .modifies fun _ => rfl

theorem quiet_indexFreeBlockPut {block : Nat} {ec : EraseCount} :
    Quiet (indexFreeBlockPut g block ec : Ubi D Unit) :=
  quiet_setFree

theorem quiet_indexFreeBlockGetLoop {die rounds : Nat} :
    Quiet (indexFreeBlockGetLoop g die rounds : Ubi D _) := by
  induction rounds with
  | zero => exact .halt _
  | succ rounds ih =>
      refine .bind .get fun ram => .ite (.bind quiet_mtdErase fun _ => ?_)
        (.bind (.pure _) fun _ => ?_)
      all_goals
        refine .ite (.bind quiet_anchorLogBadBlock fun _ => ?_) ?_
        all_goals exact .ite (.bind quiet_setFree fun _ => .ite ih (.pure _)) (.ite ih (.pure _))

theorem quiet_indexFreeBlockGet {die : Nat} : Quiet (indexFreeBlockGet g fuel die : Ubi D _) :=
  quiet_indexFreeBlockGetLoop

/-! ### The index -/

theorem quiet_indexUpdate : Quiet (indexUpdate g fuel : Ubi D Status) := by
  refine .bind .get fun ram => .ite (.bind quiet_indexFreeBlockGet fun _ => .ite
    (.bind quiet_anchorIndexReclaim fun _ => .bind quiet_anchorUpdate fun _ => ?_)
    (.bind (.pure _) fun _ => ?_)) (.bind (.pure _) fun _ => ?_)
  on_goal 1 =>
    refine .ite (.bind quiet_indexFreeBlockPut fun _ => .bind (.modifies fun _ => rfl) fun _ =>
      .bind (.pure _) fun _ => ?_) (.bind (.pure _) fun _ => ?_)
  on_goal 3 =>
    refine .ite (.bind quiet_indexFreeBlockPut fun _ => .bind (.modifies fun _ => rfl) fun _ =>
      .bind (.pure _) fun _ => ?_) (.bind (.pure _) fun _ => ?_)
  all_goals
    -- the table is written to the block that the index has now
    refine .bind .get fun ram => .ite (.bind quiet_tableWrite fun _ => ?_)
      (.bind (.pure _) fun _ => ?_)
    all_goals
      exact .ite (.bind (.modifies fun _ => rfl) fun _ => .pure _)
        (.ite (.bind (.modifies fun _ => rfl) fun _ => .pure _) (.pure _))

theorem quiet_indexUpdateAreaReclaim {area newBlock : Nat} {nec : EraseCount} :
    Quiet (indexUpdateAreaReclaim g area newBlock nec : Ubi D Unit) :=
  .bind .get fun _ => .bind quiet_indexFreeBlockPut fun _ => .modifies fun _ => rfl

theorem quiet_indexUpdateAreaUpdate {logicalBlock physicalBlock : Nat} {blockEc : EraseCount} :
    Quiet (indexUpdateAreaUpdate logicalBlock physicalBlock blockEc : Ubi D Unit) :=
  .bind .assert fun _ => .modifies fun _ => rfl

theorem quiet_indexUpdateCommitRound {reclaim : Bool} :
    Quiet (indexUpdateCommitRound g fuel reclaim : Ubi D _) := by
  refine .bind .get fun ram => .ite (.bind quiet_areaIsFull fun full => ?_)
    (.bind quiet_indexUpdate fun _ => .pure _)
  refine .ite (.bind .get fun _ => .bind quiet_indexFreeBlockGet fun _ => .ite
      (.bind quiet_indexUpdateAreaReclaim fun _ => .bind (.pure _) fun _ => ?_)
      (.bind (.pure _) fun _ => ?_))
    (.bind quiet_indexUpdate fun _ => .bind (.pure _) fun _ => ?_)
  all_goals
    refine .ite (.bind quiet_areaUpdate fun _ => .ite (.bind quiet_indexUpdate fun _ => ?_)
      (.bind (.pure _) fun _ => ?_)) (.bind (.pure _) fun _ => ?_)
    all_goals exact .ite (.bind (.modifies fun _ => rfl) fun _ => .pure _) (.pure _)

theorem quiet_indexUpdateCommit : Quiet (indexUpdateCommit g fuel : Ubi D Status) := by
  have loop :
      ∀ rounds reclaim, Quiet (indexUpdateCommitLoop g fuel rounds reclaim : Ubi D Status) := by
    intro rounds
    induction rounds with
    | zero => exact fun _ => .halt _
    | succ rounds ih =>
        exact fun _ => .bind quiet_indexUpdateCommitRound fun _ => .ite (ih _) (.pure _)
  exact loop fuel false

/-! ### Mount -/

theorem quiet_anchorInitScan {blocks : List Nat} {found : Option AnchorFound} :
    Quiet (anchorInitScan g blocks found : Ubi D _) := by
  induction blocks generalizing found with
  | nil => exact .pure _
  | cons block rest ih =>
      refine .bind quiet_tableRead fun _ => .ite (.bind quiet_tableRead fun _ =>
        .bind quiet_loadAnchor fun _ => .bind (.modifies fun _ => rfl) fun _ =>
          .bind (.pure _) fun _ => ?_) (.bind (.pure _) fun _ => ?_)
      all_goals
        refine .ite (.bind .get fun ram => ?_) ih
        cases found with
        | none => exact ih
        | some first =>
            refine .ite (.bind (.pure _) fun _ => ?_)
              (.bind .assert fun _ => .bind (.pure _) fun _ => ?_)
            all_goals
              exact .ite (.bind quiet_mtdErase fun _ =>
                .ite (.bind quiet_anchorLogBadBlock fun _ => .pure _) (.pure _)) (.pure _)

theorem quiet_anchorInit : Quiet (anchorInit g : Ubi D Status) := by
  refine .bind (.modifies fun _ => rfl) fun _ => .bind quiet_anchorInitScan fun found => ?_
  cases found with
  | none => exact .pure _
  | some newest =>
      exact .bind (.modifies fun _ => rfl) fun _ => .bind .get fun _ => .ite (.pure _) (.pure _)

theorem quiet_indexInit : Quiet (indexInit g fuel : Ubi D _) := by
  refine .bind (.modifies fun _ => rfl) fun _ => .bind .get fun _ => .bind .assert fun _ =>
    .bind quiet_tableRead fun _ => .bind quiet_loadIndex fun _ =>
      .bind (.modifies fun _ => rfl) fun _ => .ite (.bind (.modifies fun _ => rfl) fun _ =>
        .bind quiet_indexUpdate fun _ => .bind (.pure _) fun _ => ?_)
          (.bind .get fun _ => .bind .assert fun _ => .bind quiet_tableRead fun _ =>
            .bind quiet_loadIndex fun _ => .bind (.modifies fun _ => rfl) fun _ => .ite
              (.bind (.modifies fun _ => rfl) fun _ => .bind quiet_indexUpdate fun _ => ?_)
              (.bind (.pure _) fun _ => ?_))
  all_goals exact .bind .get fun _ => .pure _

theorem quiet_ubiInitAreas {updating : AreaUpdatePlr} {areas : List Nat} {ret : Status} :
    Quiet (ubiInitAreas g fuel updating areas ret : Ubi D Status) := by
  induction areas generalizing ret with
  | nil => exact .pure _
  | cons area rest ih =>
      exact .bind quiet_areaInit fun _ => .ite (.ite (.bind quiet_areaCheckUpdatePlr fun _ =>
        .ite (.bind quiet_indexUpdateAreaUpdate fun _ => .bind quiet_indexUpdateCommit fun _ => ih)
          (.bind (.pure _) fun _ => ih)) (.bind (.pure _) fun _ => ih)) (.pure _)

end Quiet

/-! ## The balance of the buffers -/

section Balance

variable {g : Geometry} {fuel : Nat} {D : Type} {total : List Nat}
  {oracle : Oracle (MtdOp (UbiBuffer D)) (MtdAns (UbiBuffer D))} {ram : UbiRam D}
  {calls : List (Called (MtdOp (UbiBuffer D)) (MtdAns (UbiBuffer D)))}

/-- The addresses that are buffers of the pool. -/
def poolBuffers (g : Geometry) (addresses : List Nat) : List Nat :=
  addresses.filter fun address => address < g.bufferCount

/-- The address of the buffer of a held page. -/
def DieHoldPage.heldAddress (page : DieHoldPage D) : Option Nat :=
  if page.phyBlock ≠ invalidBlock then page.buffer.map Buffer.address else none

/-- The pool buffers that `dice_hold` has. -/
def heldBuffers (g : Geometry) (ram : UbiRam D) : List Nat :=
  poolBuffers g ((List.range g.totalDieCount).filterMap fun die => (ram.diceHold die).heldAddress)

/-- The pool buffers that were handed back, the last one first. -/
def freedBuffers (g : Geometry)
    (calls : List (Called (MtdOp (UbiBuffer D)) (MtdAns (UbiBuffer D)))) :
    List Nat :=
  poolBuffers g (calls.filterMap fun call => call.op.freed)

/-- Only the first slot holds a page, and the buffers that were handed back and that are held
are all buffers that the layer was given. -/
structure Balanced (g : Geometry) (total : List Nat) (ram : UbiRam D)
    (calls : List (Called (MtdOp (UbiBuffer D)) (MtdAns (UbiBuffer D)))) : Prop where
  alone : ∀ die < g.totalDieCount, die ≠ 0 → (ram.diceHold die).phyBlock = invalidBlock
  balance : (freedBuffers g calls ++ heldBuffers g ram).Perm total

/-- No program fails, and each die gets ready. -/
structure NoFailures (oracle : Oracle (MtdOp (UbiBuffer D)) (MtdAns (UbiBuffer D))) : Prop where
  program : ∀ calls block page main spare, oracle calls (.program block page main spare) = .success
  waitReady : ∀ calls block, oracle calls (.waitReady block) = .success

theorem poolBuffers_append (first second : List Nat) :
    poolBuffers g (first ++ second) = poolBuffers g first ++ poolBuffers g second :=
  List.filter_append first second

theorem freedBuffers_cons {call : Called (MtdOp (UbiBuffer D)) (MtdAns (UbiBuffer D))} :
    freedBuffers g (call :: calls) =
      poolBuffers g call.op.freed.toList ++ freedBuffers g calls := by
  rw [freedBuffers, List.filterMap_cons, freedBuffers, ← poolBuffers_append]
  cases call.op.freed <;> rfl

/-- If the other slots are empty, the first one has the buffers. -/
theorem heldBuffers_of_alone
    (alone : ∀ die < g.totalDieCount, die ≠ 0 → (ram.diceHold die).phyBlock = invalidBlock) :
    heldBuffers g ram = poolBuffers g (ram.diceHold 0).heldAddress.toList := by
  obtain ⟨count, isCount⟩ := Nat.exists_eq_succ_of_ne_zero g.totalDieCount_pos.ne'
  have others : ((List.range count).map Nat.succ).filterMap
      (fun die => (ram.diceHold die).heldAddress) = [] := by
    rw [List.filterMap_eq_nil_iff]
    intro die inside
    obtain ⟨before, isBefore, rfl⟩ := List.mem_map.mp inside
    have less := List.mem_range.mp isBefore
    have empty := alone before.succ (by omega) (Nat.succ_ne_zero before)
    rw [DieHoldPage.heldAddress, if_neg (not_not_intro empty)]
  rw [heldBuffers, isCount, List.range_succ_eq_map, List.filterMap_cons, others]
  cases (ram.diceHold 0).heldAddress <;> rfl

/-- The calls and `dice_hold` decide. -/
theorem Balanced.congr {ram' : UbiRam D}
    {calls' : List (Called (MtdOp (UbiBuffer D)) (MtdAns (UbiBuffer D)))}
    (balanced : Balanced g total ram calls) (same : ram'.diceHold = ram.diceHold)
    (sameFreed : freedBuffers g calls' = freedBuffers g calls) : Balanced g total ram' calls' where
  alone := same ▸ balanced.alone
  balance := by
    rw [sameFreed, heldBuffers, same]
    exact balanced.balance

/-- Code that does not call `BUF_Free` frees nothing. -/
theorem spec_of_silent {α : Type} {code : Ubi D α} {post : α → UbiRam D → Prop}
    (silent : Code.Everywhere (fun op => op.freed = none) code post ram) :
    Code.spec oracle.machine (fun calls' => freedBuffers g calls' = freedBuffers g calls) True code
      (fun value ram' calls' => post value ram' ∧ freedBuffers g calls' = freedBuffers g calls) ram
        calls := by
  refine silent.keeps ?_ rfl
  rintro state op answer after noFree same step
  obtain ⟨-, rfl⟩ := Prod.mk.inj (Except.ok.inj step)
  rw [freedBuffers_cons, noFree, same]
  rfl

theorem Quiet.keeps {α : Type} {code : Ubi D α} (quiet : Quiet code) :
    Code.Keeps oracle.machine (Balanced g total) code :=
  fun ram _ balanced => Code.spec_mono (spec_of_silent (quiet ram))
    (fun _ _ _ kept => balanced.congr kept.1 kept.2)
    fun _ kept => ⟨ram, balanced.congr rfl kept⟩

/-! ### One write -/

theorem balanced_mtdProgram {block page : Nat} {main : UbiBuffer D} {spare : Option Spare}
    {post : Status → UbiRam D → List (Called (MtdOp (UbiBuffer D)) (MtdAns (UbiBuffer D))) → Prop}
    (noFailures : NoFailures oracle) (balanced : Balanced g total ram calls)
    (meets : ∀ calls', Balanced g total ram calls' → post .success ram calls') :
    Code.spec oracle.machine (fun after => ∃ ram', Balanced g total ram' after) True
      (mtdProgram block page main spare) post ram calls := by
  have step : oracle.machine calls (.program block page main spare) = .ok (_, _) := rfl
  have after : ∀ ret, Balanced g total ram (⟨.program block page main spare, ret⟩ :: calls) :=
    fun _ => balanced.congr rfl freedBuffers_cons
  refine (Code.spec_perform_of_step step).mpr ⟨⟨ram, balanced⟩, ⟨ram, after _⟩, ?_⟩
  rw [noFailures.program]
  exact meets _ (after .success)

theorem balanced_mtdWaitReady {block : Nat}
    {post : Status → UbiRam D → List (Called (MtdOp (UbiBuffer D)) (MtdAns (UbiBuffer D))) → Prop}
    (noFailures : NoFailures oracle) (balanced : Balanced g total ram calls)
    (meets : ∀ calls', Balanced g total ram calls' → post .success ram calls') :
    Code.spec oracle.machine (fun after => ∃ ram', Balanced g total ram' after) True
      (mtdWaitReady block) post ram calls := by
  have step : oracle.machine calls (.waitReady block) = .ok (_, _) := rfl
  have after : ∀ ret, Balanced g total ram (⟨.waitReady block, ret⟩ :: calls) :=
    fun _ => balanced.congr rfl freedBuffers_cons
  refine (Code.spec_perform_of_step step).mpr ⟨⟨ram, balanced⟩, ⟨ram, after _⟩, ?_⟩
  rw [noFailures.waitReady]
  exact meets _ (after .success)

/-- A buffer that was held is handed back. -/
theorem spec_ubiReleaseHeld {post : Unit → UbiRam D →
      List (Called (MtdOp (UbiBuffer D)) (MtdAns (UbiBuffer D))) → Prop}
    (balanced : Balanced g total ram calls)
    (meets : ∀ ram' calls', Balanced g total ram' calls' →
      (ram'.diceHold 0).phyBlock = invalidBlock → post () ram' calls') :
    Code.spec oracle.machine (fun after => ∃ ram', Balanced g total ram' after) True
      (ubiReleaseHeld 0) post ram calls := by
  simp only [ubiReleaseHeld, Code.spec_bind, Code.spec_get]
  refine ⟨⟨ram, balanced⟩, ?_⟩
  by_cases free : (ram.diceHold 0).phyBlock = invalidBlock
  · rw [if_neg (not_not_intro free)]
    exact Code.spec_pure.mpr ⟨⟨ram, balanced⟩, meets ram calls balanced free⟩
  · rw [if_pos free]
    cases isBuffer : (ram.diceHold 0).buffer with
    | none => exact Code.spec_halt.mpr ⟨⟨ram, balanced⟩, trivial⟩
    | some buffer =>
        have released : Balanced g total
            { ram with
              diceHold := Function.update ram.diceHold 0
                { ram.diceHold 0 with buffer := none, phyBlock := invalidBlock } }
            (⟨.bufFree buffer.address, ()⟩ :: calls) := by
          have alone : ∀ die < g.totalDieCount, die ≠ 0 →
              (Function.update ram.diceHold 0
                { ram.diceHold 0 with buffer := none, phyBlock := invalidBlock } die).phyBlock =
                invalidBlock := by
            intro die inside other
            rw [Function.update_of_ne other]
            exact balanced.alone die inside other
          refine ⟨alone, ?_⟩
          have held := balanced.balance
          rw [heldBuffers_of_alone balanced.alone, DieHoldPage.heldAddress, if_pos free,
            isBuffer] at held
          have empty : (Function.update ram.diceHold 0
              { ram.diceHold 0 with buffer := none, phyBlock := invalidBlock } 0).heldAddress =
              none := by
            rw [Function.update_self]
            exact if_neg (not_not_intro rfl)
          rw [heldBuffers_of_alone alone, freedBuffers_cons, empty]
          have swapped : (poolBuffers g [buffer.address] ++ freedBuffers g calls ++ []).Perm
              (freedBuffers g calls ++ poolBuffers g [buffer.address]) := by
            rw [List.append_nil]
            exact List.perm_append_comm
          exact swapped.trans held
        have step : oracle.machine calls (.bufFree buffer.address) = .ok (_, _) := rfl
        simp only [Code.spec_bind, bufFree, setHold]
        refine (Code.spec_perform_of_step step).mpr ⟨⟨ram, balanced⟩, ⟨_, released⟩, ?_⟩
        refine Code.spec_modify.mpr ⟨⟨_, released⟩, meets _ _ released ?_⟩
        exact congrArg DieHoldPage.phyBlock (Function.update_self 0 _ ram.diceHold)

/-- A write that waits hands back its buffer, which is none of the pool. -/
theorem keeps_ubiWritePage_sync (noFailures : NoFailures oracle) {block phyBlock page : Nat}
    {phyBlockEc : EraseCount} {buffer : Buffer D} {spare : Option Spare}
    (outside : poolBuffers g [buffer.address] = []) :
    Code.Keeps oracle.machine (Balanced g total)
      (ubiWritePage g fuel block phyBlock phyBlockEc page (some buffer) spare false 0) := by
  intro ram calls balanced
  simp only [ubiWritePage, Code.spec_bind]
  refine balanced_mtdProgram noFailures balanced fun calls₁ balanced₁ => ?_
  simp only [if_true, Bool.false_eq_true, if_false, Code.spec_bind]
  refine balanced_mtdWaitReady noFailures balanced₁ fun calls₂ balanced₂ => ?_
  cases fuel with
  | zero => exact Code.spec_halt.mpr ⟨⟨ram, balanced₂⟩, trivial⟩
  | succ rounds =>
      have freed : Balanced g total ram (⟨.bufFree buffer.address, ()⟩ :: calls₂) := by
        refine balanced₂.congr rfl (freedBuffers_cons.trans ?_)
        rw [MtdOp.freed, Option.toList_some, outside, List.nil_append]
      have step : oracle.machine calls₂ (.bufFree buffer.address) = .ok (_, _) := rfl
      simp only [ubiWriteRecover, reduceCtorEq, if_false]
      refine Code.spec_pure.mpr ⟨⟨ram, balanced₂⟩, ?_⟩
      refine Code.spec_assert.mpr ⟨⟨ram, balanced₂⟩, fun _ => ?_, fun _ => trivial⟩
      refine (Code.spec_perform_of_step step).mpr ⟨⟨ram, balanced₂⟩, ⟨ram, freed⟩, ?_⟩
      exact Code.spec_pure.mpr ⟨⟨ram, freed⟩, freed⟩

/-- A write that does not wait holds its page, with the buffer. -/
theorem spec_ubiWritePage_async (noFailures : NoFailures oracle) {block phyBlock page : Nat}
    {phyBlockEc : EraseCount} {buffer : Buffer D} {spare : Option Spare}
    {post : Status → UbiRam D → List (Called (MtdOp (UbiBuffer D)) (MtdAns (UbiBuffer D))) → Prop}
    (balanced : Balanced g total ram calls) (free : (ram.diceHold 0).phyBlock = invalidBlock)
    (isBlock : phyBlock ≠ invalidBlock)
    (meets : ∀ ram' calls', Balanced g total ram calls' →
      Balanced g (poolBuffers g [buffer.address] ++ total) ram' calls' →
        post .success ram' calls') :
    Code.spec oracle.machine (fun after => ∃ ram', Balanced g total ram' after) True
      (ubiWritePage g fuel block phyBlock phyBlockEc page (some buffer) spare true 0) post ram
        calls := by
  simp only [ubiWritePage, Code.spec_bind]
  refine balanced_mtdProgram noFailures balanced fun calls' balanced' => ?_
  simp only [if_true]
  cases spare with
  | none => exact Code.spec_halt.mpr ⟨⟨ram, balanced'⟩, trivial⟩
  | some spare =>
      simp only [Code.spec_bind, setHold]
      refine Code.spec_modify.mpr ⟨⟨ram, balanced'⟩, ?_⟩
      refine Code.spec_pure.mpr ⟨⟨ram, balanced'⟩, meets _ calls' balanced' ?_⟩
      have alone : ∀ die < g.totalDieCount, die ≠ 0 → (Function.update ram.diceHold 0
          ⟨block, phyBlock, phyBlockEc, page, some buffer, spare⟩ die).phyBlock = invalidBlock := by
        intro die inside other
        rw [Function.update_of_ne other]
        exact balanced.alone die inside other
      refine ⟨alone, ?_⟩
      have held := balanced'.balance
      rw [heldBuffers_of_alone balanced'.alone, DieHoldPage.heldAddress,
        if_neg (not_not_intro free)] at held
      rw [heldBuffers_of_alone alone]
      dsimp only
      rw [Function.update_self, DieHoldPage.heldAddress, if_pos isBlock]
      have given : (freedBuffers g calls').Perm total := by
        rwa [Option.toList_none, poolBuffers, List.filter_nil, List.append_nil] at held
      exact List.perm_append_comm.trans (given.append_left _)

/-- What comes before the page is written: the die is ready, and no page is held any more. -/
theorem spec_ubiWrite (noFailures : NoFailures oracle) {block page : Nat}
    {buffer : Option (Buffer D)} {spare : Option Spare} {async : Bool}
    {post : Status → UbiRam D → List (Called (MtdOp (UbiBuffer D)) (MtdAns (UbiBuffer D))) → Prop}
    (balanced : Balanced g total ram calls)
    (waits : page = invalidPage → ∀ ram' calls', Balanced g total ram' calls' →
      post .success ram' calls')
    (writes : page ≠ invalidPage → ∀ phyBlock phyBlockEc ram' calls', Balanced g total ram' calls' →
      phyBlock ≠ invalidBlock → (ram'.diceHold 0).phyBlock = invalidBlock →
      Code.spec oracle.machine (fun after => ∃ ram', Balanced g total ram' after) True
        (ubiWritePage g fuel block phyBlock phyBlockEc page buffer spare async 0) post
          ram' calls') :
    Code.spec oracle.machine (fun after => ∃ ram', Balanced g total ram' after) True
      (ubiWrite g fuel block page buffer spare async) post ram calls := by
  refine quiet_areaGetBlock.keeps.andThen balanced (fun ram' _ kept => ⟨ram', kept⟩)
    fun phyBlock ram₁ calls₁ balanced₁ => ?_
  refine quiet_areaGetEc.keeps.andThen balanced₁ (fun ram' _ kept => ⟨ram', kept⟩)
    fun phyBlockEc ram₂ calls₂ balanced₂ => ?_
  simp only [Code.spec_bind]
  refine Code.spec_assert.mpr ⟨⟨ram₂, balanced₂⟩, fun isBlock => ?_, fun _ => trivial⟩
  refine balanced_mtdWaitReady noFailures balanced₂ fun calls₃ balanced₃ => ?_
  cases isFuel : fuel with
  | zero => exact Code.spec_halt.mpr ⟨⟨ram₂, balanced₃⟩, trivial⟩
  | succ rounds =>
      simp only [ubiWriteRecoverHeld, reduceCtorEq, if_false]
      refine Code.spec_pure.mpr ⟨⟨ram₂, balanced₃⟩, ?_⟩
      simp only [if_true, true_and, Code.spec_bind]
      refine spec_ubiReleaseHeld balanced₃ fun ram₄ calls₄ balanced₄ free => ?_
      by_cases noPage : page = invalidPage
      · rw [if_neg (not_not_intro noPage)]
        exact Code.spec_pure.mpr ⟨⟨ram₄, balanced₄⟩, waits noPage ram₄ calls₄ balanced₄⟩
      · rw [if_pos noPage, ← isFuel]
        exact writes noPage phyBlock phyBlockEc ram₄ calls₄ balanced₄ isBlock free

/-! ### The functions of the layer -/

theorem keeps_ubiWrite_wait (noFailures : NoFailures oracle) {block : Nat}
    {buffer : Option (Buffer D)} {spare : Option Spare} {async : Bool} :
    Code.Keeps oracle.machine (Balanced g total)
      (ubiWrite g fuel block invalidPage buffer spare async) :=
  fun _ _ balanced => spec_ubiWrite noFailures balanced (fun _ _ _ kept => kept)
    fun isPage => absurd rfl isPage

/-- A write that waits, from memory outside of the pool. -/
theorem keeps_ubiWrite_sync (noFailures : NoFailures oracle) {block page : Nat} {buffer : Buffer D}
    {spare : Option Spare} (outside : poolBuffers g [buffer.address] = []) :
    Code.Keeps oracle.machine (Balanced g total)
      (ubiWrite g fuel block page (some buffer) spare false) :=
  fun _ _ balanced => spec_ubiWrite noFailures balanced (fun _ _ _ kept => kept)
    fun _ _ _ ram' calls' balanced' _ _ =>
      keeps_ubiWritePage_sync noFailures outside ram' calls' balanced'

/-- A write that does not wait takes its buffer over. -/
theorem spec_ubiWrite_async (noFailures : NoFailures oracle) {block page : Nat} {buffer : Buffer D}
    {spare : Option Spare} (isPage : page ≠ invalidPage) (balanced : Balanced g total ram calls) :
    Code.spec oracle.machine (fun after => ∃ ram', Balanced g total ram' after) True
      (ubiWrite g fuel block page (some buffer) spare true)
      (fun _ ram' calls' => Balanced g (poolBuffers g [buffer.address] ++ total) ram' calls') ram
        calls :=
  spec_ubiWrite noFailures balanced (fun noPage => absurd noPage isPage)
    fun _ _ _ _ _ balanced' isBlock free =>
      spec_ubiWritePage_async noFailures balanced' free isBlock fun _ _ _ held => held

theorem quiet_ubiRead [Zero D] {block page : Nat} : Quiet (ubiRead g block page : Ubi D _) :=
  .ite (.bind quiet_areaGetBlock fun _ => .bind .assert fun _ => quiet_mtdRead)
    (.bind .assert fun _ => .pure _)

theorem quiet_ubiReadStatus {block : Nat} : Quiet (ubiReadStatus g block : Ubi D Status) :=
  .bind quiet_areaGetBlock fun _ => .bind .assert fun _ => quiet_mtdReadStatus

theorem keeps_ubiFlush (noFailures : NoFailures oracle) :
    Code.Keeps oracle.machine (Balanced g total) (ubiFlush g fuel : Ubi D Status) := by
  have slots : ∀ (slots : List Nat) (ret : Status), Code.Keeps oracle.machine (Balanced g total)
      (ubiFlushSlots g fuel slots ret : Ubi D Status) := by
    intro slots
    induction slots with
    | nil => exact fun _ => .pure _
    | cons slot rest ih =>
        intro ret
        unfold ubiFlushSlots
        split
        · exact .bind .get fun _ => .bind (keeps_ubiWrite_wait noFailures) fun _ => ih _
        · exact ih ret
  exact slots (List.range g.totalDieCount) .success

theorem keeps_ubiErase (noFailures : NoFailures oracle) {block dieIndex : Nat} :
    Code.Keeps oracle.machine (Balanced g total)
      (ubiErase g fuel block dieIndex : Ubi D Status) := by
  have commit : ∀ ret (new : BlockEc), Quiet (do
      if ret = .success then do
        Code.assert (block ≠ invalidBlock ∧ new.ec ≠ invalidEc)
        let oldEc ← areaGetEc g block
        let oldBlock ← areaGetBlock g block
        indexFreeBlockPut g oldBlock oldEc
        indexUpdateAreaUpdate block new.block new.ec
        indexUpdateCommit g fuel
      else pure ret : Ubi D Status) := fun _ _ =>
    .ite (.bind .assert fun _ => .bind quiet_areaGetEc fun _ => .bind quiet_areaGetBlock fun _ =>
      .bind quiet_indexFreeBlockPut fun _ => .bind quiet_indexUpdateAreaUpdate fun _ =>
        quiet_indexUpdateCommit) (.pure _)
  refine .bind .get fun ram => .bind (keeps_ubiWrite_wait noFailures) fun ret => Quiet.keeps ?_
  exact .ite (.bind quiet_indexFreeBlockGet fun _ => commit _ _)
    (.bind (.pure _) fun _ => commit _ _)

/-- A mount empties the slots. -/
theorem everywhere_ubiInit (ram : UbiRam D) :
    Code.Everywhere (fun op => op.freed = none) (ubiInit g fuel)
      (fun ret ram' => ret = .success →
        ∀ die < g.totalDieCount, (ram'.diceHold die).phyBlock = invalidBlock) ram := by
  have last : ∀ ret (ram : UbiRam D), Code.Everywhere (fun op => op.freed = none) (do
      if ret = .success then
        modify fun ram =>
          { ram with diceHold := fun die =>
            if die < g.totalDieCount then { ram.diceHold die with phyBlock := invalidBlock }
            else ram.diceHold die }
      pure ret : Ubi D Status)
      (fun ret ram' => ret = .success →
        ∀ die < g.totalDieCount, (ram'.diceHold die).phyBlock = invalidBlock) ram := by
    intro ret ram
    by_cases success : ret = .success
    · rw [if_pos success, Code.Everywhere.bind, Code.Everywhere.modifies]
      intro _ die inside
      dsimp only
      rw [if_pos inside]
    · rw [if_neg success]
      exact fun wrong => absurd wrong success
  have areas : ∀ ret updating (ram : UbiRam D), Code.Everywhere (fun op => op.freed = none) (do
      let ret ←
        if ret = .success then ubiInitAreas g fuel updating (List.range g.areaCount) ret
        else pure ret
      if ret = .success then
        modify fun ram =>
          { ram with diceHold := fun die =>
            if die < g.totalDieCount then { ram.diceHold die with phyBlock := invalidBlock }
            else ram.diceHold die }
      pure ret : Ubi D Status)
      (fun ret ram' => ret = .success →
        ∀ die < g.totalDieCount, (ram'.diceHold die).phyBlock = invalidBlock) ram := by
    intro ret updating ram
    split
    · exact Code.Everywhere.bind.mpr ((quiet_ubiInitAreas ram).mono fun ret ram' _ => last ret ram')
    · exact last ret ram
  refine Code.Everywhere.bind.mpr ((quiet_anchorInit ram).mono fun ret ram₁ _ => ?_)
  split
  · exact Code.Everywhere.bind.mpr ((quiet_indexInit ram₁).mono fun result ram₂ _ =>
      areas result.1 result.2 ram₂)
  · exact areas ret _ ram₁

/-- Behind a mount no page is held, and no buffer was handed back on the way. -/
theorem spec_ubiInit :
    Code.spec oracle.machine (fun _ => True) True (ubiInit g fuel)
      (fun ret ram' calls' => ret = .success → Balanced g (freedBuffers g calls) ram' calls') ram
        calls := by
  have silent : Code.spec oracle.machine
      (fun calls' => freedBuffers g calls' = freedBuffers g calls) True (ubiInit g fuel) _
        ram calls :=
    spec_of_silent (everywhere_ubiInit ram)
  refine Code.spec_mono silent ?_ fun _ _ => trivial
  rintro ret ram' calls' ⟨empty, sameFreed⟩ success
  have alone : ∀ die < g.totalDieCount, die ≠ 0 → (ram'.diceHold die).phyBlock = invalidBlock :=
    fun die inside _ => empty success die inside
  have noneHeld : heldBuffers g ram' = [] := by
    rw [heldBuffers_of_alone alone, DieHoldPage.heldAddress,
      if_neg (not_not_intro (empty success 0 g.totalDieCount_pos))]
    rfl
  refine ⟨alone, ?_⟩
  rw [noneHeld, List.append_nil, sameFreed]

/-- If all buffers have been handed back, none is held. -/
theorem Balanced.heldBuffers_eq_nil {ram' : UbiRam D}
    {calls' : List (Called (MtdOp (UbiBuffer D)) (MtdAns (UbiBuffer D)))}
    (balanced : Balanced g (freedBuffers g calls) ram' calls') (later : calls <:+ calls') :
    heldBuffers g ram' = [] := by
  obtain ⟨new, rfl⟩ := later
  have count := balanced.balance.length_eq
  have split : freedBuffers g (new ++ calls) = freedBuffers g new ++ freedBuffers g calls := by
    rw [freedBuffers, List.filterMap_append, poolBuffers_append, freedBuffers, freedBuffers]
  rw [split, List.length_append, List.length_append] at count
  exact List.eq_nil_of_length_eq_zero (by omega)

end Balance

end OpenNfm
