import Mathlib.Algebra.Ring.Nat
import OpenNfm.Ubi.CountMeter

/-!
# The erase counts of a run

The calls of a client keep every erase count within the meter, and so does a power failure in any
of them.  A held page is recovered only behind a program that has failed; at that moment the meter
is at least the threshold ahead of the counts that were in the memory.
-/

namespace OpenNfm

open OpenNfm.Program

section Functions

variable {g : Geometry} {fuel : Nat} {D α : Type} {n m : Nat}
  {oracle : Oracle (MtdOp (UbiBuffer D)) (MtdAns (UbiBuffer D))}

/-! ## Reading and writing -/

theorem counts_ubiRead [Zero D] {block page : Nat} (reads : ReadsBack oracle) :
    KeepsCounts g oracle n (ubiRead g block page : Ubi D _) :=
  .ite (fun _ => .seq (counts_areaGetBlock reads) fun _ => .seq .assert fun _ =>
    (counts_mtdRead reads).kept) fun _ => .seq .assert fun _ => .done

theorem counts_ubiCopyPages {source target : Nat} {pages : List Nat} (reads : ReadsBack oracle) :
    Counts g oracle n (ubiCopyPages source target pages : Ubi D Status)
      fun ret m => ret = .badblock → n + g.staticWlThreshold ≤ m := by
  induction pages generalizing n with
  | nil => exact .pure fun _ _ bad => by cases bad
  | cons page rest ih =>
      have next : ∀ ret m, n ≤ m → (ret = .badblock → n + g.staticWlThreshold ≤ m) →
          Counts g oracle m (if ret = Status.success then ubiCopyPages source target rest
            else pure ret : Ubi D Status)
            fun ret m => ret = .badblock → n + g.staticWlThreshold ≤ m := fun ret m le warned =>
        .ite (fun _ => ih.mono fun _ _ _ later bad => by
            have := later bad
            omega)
          fun _ => .pure fun m' le' bad => (warned bad).trans le'
      refine .bind (counts_mtdRead reads) fun answer m le counts => ?_
      refine .bind (counts_mtdProgram counts) fun ret m₁ le₁ warned => .ite (fun _ => ?_)
        fun _ => ?_
      · exact .bind counts_mtdWaitReady fun ret m₂ le₂ warned =>
          next ret m₂ (by omega) fun bad => by
            have := warned bad
            omega
      · exact .bind .same fun ret' m₂ le₂ same => next ret' m₂ (by omega) fun bad => by
          have := warned (same ▸ bad)
          omega

/-- A bad block comes back to the free blocks with the threshold added to its count. -/
theorem counts_ubiReclaimBadblock {logBlock phyBlock badPage : Nat} {phyBlockEc : EraseCount}
    (reads : ReadsBack oracle) (atMost : (phyBlockEc.plus g.staticWlThreshold).AtMost n) :
    Counts g oracle n (ubiReclaimBadblock g fuel logBlock phyBlock phyBlockEc badPage : Ubi D _)
      fun result m => (result.1 = .success → result.2.ec.AtMost m) ∧
        (result.1 = .badblock → n + g.staticWlThreshold ≤ m) := by
  refine .bind counts_indexFreeBlockGet fun result m le taken => ?_
  have last : ∀ ret m', m ≤ m' → (ret = .success → result.2.ec.AtMost m') →
      (ret = .badblock → n + g.staticWlThreshold ≤ m') → Counts g oracle m' (do
        let ret ←
          if ret = Status.success then do
            indexFreeBlockPut g phyBlock (phyBlockEc.plus g.staticWlThreshold)
            indexUpdateAreaUpdate logBlock result.2.block result.2.ec
            indexUpdateCommit g fuel
          else pure ret
        pure (ret, if ret = .success then result.2 else .invalid) : Ubi D (Status × BlockEc))
        fun result m => (result.1 = .success → result.2.ec.AtMost m) ∧
          (result.1 = .badblock → n + g.staticWlThreshold ≤ m) := by
    intro ret m' le' young warned
    refine .ite (fun success => ?_) fun failed => ?_
    · refine .bind (counts_indexFreeBlockPut (atMost.mono (le.trans le'))) fun _ m₁ le₁ _ => ?_
      refine .bind (counts_indexUpdateAreaUpdate ((young success).mono le₁)) fun _ m₂ le₂ _ => ?_
      refine .bind (counts_indexUpdateCommit reads) fun ret m₃ le₃ good => .pure fun m₄ le₄ => ?_
      refine ⟨fun done => ?_, fun bad => absurd bad good⟩
      have isDone : ret = .success := done
      dsimp only
      rw [if_pos isDone]
      exact (young success).mono (by omega)
    · refine .bind .same fun ret' m₁ le₁ same => .pure fun m₂ le₂ => ?_
      refine ⟨fun done => absurd (same ▸ done) failed, fun bad => ?_⟩
      have := warned (same ▸ bad)
      omega
  refine .ite (fun success => ?_) fun failed => ?_
  · exact .bind (counts_ubiCopyPages reads) fun ret m' le' warned =>
      last ret m' le' (fun _ => (taken.2 success).mono le') fun bad => by
        have := warned bad
        omega
  · refine .bind .same fun ret m' le' same => last ret m' le'
      (fun done => absurd (same ▸ done) failed) fun bad => absurd (same ▸ bad) taken.1

theorem counts_setHold {slot : Nat} {change : DieHoldPage D → DieHoldPage D}
    (stable : ∀ held m, n ≤ m → held.CountsAtMost m → (change held).CountsAtMost m) :
    KeepsCounts g oracle n (setHold slot change) := by
  refine .modifies fun ram m le counts => { counts with held := fun other => ?_ }
  dsimp only
  rcases eq_or_ne other slot with rfl | different
  · rw [Function.update_self]
    exact stable _ m le (counts.held other)
  · rw [Function.update_of_ne different]
    exact counts.held other

theorem counts_ubiWriteRecover {block phyBlock page rounds : Nat} {phyBlockEc : EraseCount}
    {content : UbiBuffer D} {spare : Option Spare} {ret : Status} (reads : ReadsBack oracle)
    (isData : content.CountsAtMost n)
    (atMost : ret = .badblock → (phyBlockEc.plus g.staticWlThreshold).AtMost n) :
    KeepsCounts g oracle n
      (ubiWriteRecover g fuel block phyBlock phyBlockEc page content spare rounds ret) := by
  induction rounds generalizing ret n with
  | zero => exact .halt
  | succ rounds ih =>
      refine .ite (fun bad => ?_) fun _ => .done
      have worn := atMost bad
      have again : ∀ ret m, n ≤ m → KeepsCounts g oracle m
          (ubiWriteRecover g fuel block phyBlock phyBlockEc page content spare rounds ret) :=
        fun ret m le => ih (isData.mono le) fun _ => worn.mono le
      refine .bind (counts_ubiReclaimBadblock reads worn) fun result m le _ => .ite (fun _ =>
        .bind (counts_mtdProgram (isData.mono le)) fun ret m₁ le₁ _ => ?_)
        fun _ => .bind .done fun ret m₁ le₁ _ => ?_
      all_goals
        exact .ite (fun _ => .bind counts_mtdWaitReady fun _ m₂ le₂ _ => again _ m₂ (by omega))
          fun _ => .bind .done fun _ m₂ le₂ _ => again _ m₂ (by omega)

theorem counts_ubiReleaseHeld {slot : Nat} :
    KeepsCounts g oracle n (ubiReleaseHeld slot : Ubi D Unit) := by
  refine .seq .get fun ram => ?_
  intro m
  refine .ite (fun _ => ?_) fun _ => .done
  cases (ram.diceHold slot).buffer with
  | some buffer =>
      exact .seq counts_bufFree fun _ => counts_setHold fun _ _ _ held =>
        ⟨held.ec, fun _ member => by cases member⟩
  | none => exact .halt

theorem counts_ubiWritePage {block phyBlock page slot : Nat} {phyBlockEc : EraseCount}
    {buffer : Option (Buffer D)} {spare : Option Spare} {async : Bool} (reads : ReadsBack oracle)
    (isData : ∀ page ∈ buffer, page.content.CountsAtMost n) (atMost : phyBlockEc.AtMost n) :
    KeepsCounts g oracle n
      (ubiWritePage g fuel block phyBlock phyBlockEc page buffer spare async slot) := by
  cases buffer with
  | none => exact .halt
  | some buffer =>
      have counts := isData buffer rfl
      refine .bind (counts_mtdProgram counts) fun ret m le _ => .ite (fun _ => .ite (fun _ => ?_)
        fun _ => ?_) fun _ => .done
      · cases spare with
        | none => exact .halt
        | some spare =>
            refine .seq (counts_setHold fun _ m' le' _ => ?_) fun _ => .done
            refine ⟨atMost.mono (le.trans le'), fun other member => ?_⟩
            rw [← Option.some.inj member]
            exact counts.mono (le.trans le')
      · refine .bind counts_mtdWaitReady fun ret m₁ le₁ warned => ?_
        refine .seq (counts_ubiWriteRecover reads (counts.mono (by omega)) fun bad => ?_) fun _ =>
          .seq .assert fun _ => .seq counts_bufFree fun _ => .done
        exact (atMost.plus _).mono (by have := warned bad; omega)

/-! ## The held pages -/

theorem quiet_ubiCopyPages {source target : Nat} {pages : List Nat} :
    Quiet (ubiCopyPages source target pages : Ubi D Status) := by
  induction pages with
  | nil => exact .pure _
  | cons page rest ih =>
      refine .bind quiet_mtdRead fun _ => .bind quiet_mtdProgram fun _ =>
        .ite (.bind quiet_mtdWaitReady fun _ => ?_) (.bind (.pure _) fun _ => ?_)
      all_goals exact .ite ih (.pure _)

theorem quiet_ubiReclaimBadblock {logBlock phyBlock badPage : Nat} {phyBlockEc : EraseCount} :
    Quiet (ubiReclaimBadblock g fuel logBlock phyBlock phyBlockEc badPage : Ubi D _) := by
  refine .bind quiet_indexFreeBlockGet fun _ => .ite (.bind quiet_ubiCopyPages fun _ => ?_)
    (.bind (.pure _) fun _ => ?_)
  all_goals
    exact .ite (.bind quiet_indexFreeBlockPut fun _ => .bind quiet_indexUpdateAreaUpdate fun _ =>
      .bind quiet_indexUpdateCommit fun _ => .pure _) (.bind (.pure _) fun _ => .pure _)

/-- What the code does to the counts and what it leaves of the held pages. -/
theorem Quiet.counts {code : Ubi D α} {post : α → Nat → Prop} {ram : UbiRam D}
    {calls : MtdCalls (UbiBuffer D)} (quiet : Quiet code) (counts : Counts g oracle n code post)
    (kept : (countMeter g D).Kept n ram calls) :
    Code.spec oracle.machine (fun calls' => ∃ ram', (countMeter g D).Kept n ram' calls') True code
      (fun value ram' calls' => (countMeter g D).Kept n ram' calls' ∧ post value (wear g calls') ∧
        ram'.diceHold = ram.diceHold) ram calls := by
  have same : Code.spec oracle.machine (fun _ => True) True code
      (fun _ ram' _ => ram'.diceHold = ram.diceHold ∧ True) ram calls :=
    (quiet ram).keeps (fun _ _ _ _ _ _ _ => trivial) trivial
  exact Code.spec_mono (Code.spec_and (counts ram calls kept) same)
    (fun _ _ _ both => ⟨both.1.1, both.1.2, both.2.1⟩) fun _ both => both.1

/-- After a failure there is room for the threshold in the counts of the held pages. -/
def HeldRoom (g : Geometry) (ret : Status) (ram : UbiRam D) (n : Nat) : Prop :=
  ret = .badblock → ∀ slot, ((ram.diceHold slot).ec.plus g.staticWlThreshold).AtMost n

theorem HeldRoom.of_failure {ret : Status} {ram ram' : UbiRam D} (counts : ram.CountsAtMost n)
    (same : ram'.diceHold = ram.diceHold) (warned : ret = .badblock → n + g.staticWlThreshold ≤ m) :
    HeldRoom g ret ram' m := by
  intro bad slot
  rw [same]
  exact ((counts.held slot).ec.plus _).mono (warned bad)

/-- The counts behind a step that may fail, and the room that its failure leaves. -/
theorem Quiet.thenRecover {code : Ubi D Status} {rest : Status → Ubi D α}
    {post : α → UbiRam D → MtdCalls (UbiBuffer D) → Prop} {ram : UbiRam D}
    {calls : MtdCalls (UbiBuffer D)} (quiet : Quiet code)
    (counts : Counts g oracle (wear g calls) code
      fun ret m => ret = .badblock → wear g calls + g.staticWlThreshold ≤ m)
    (kept : (countMeter g D).Kept n ram calls)
    (next : ∀ ret ram' calls', (countMeter g D).Kept n ram' calls' →
      HeldRoom g ret ram' (wear g calls') →
        Code.spec oracle.machine (fun after => ∃ ram', (countMeter g D).Kept n ram' after) True
          (rest ret) post ram' calls') :
    Code.spec oracle.machine (fun after => ∃ ram', (countMeter g D).Kept n ram' after) True
      (code >>= rest) post ram calls := by
  refine Code.spec_bind.mpr (Code.spec_mono (quiet.counts counts kept.now)
    (fun ret ram' calls' after => ?_) fun _ cut => ?_)
  · obtain ⟨kept', warned, same⟩ := after
    exact next ret ram' calls' (kept'.weaken kept.since) (.of_failure kept.memory same warned)
  · exact Meter.Kept.weakenCut cut kept.since

/-- Each round starts with room for the threshold in the counts of the held pages. -/
theorem spec_ubiWriteRecoverHeld {phyBlock rounds dieIndex : Nat} {ret : Status} {ram : UbiRam D}
    {calls : MtdCalls (UbiBuffer D)} (reads : ReadsBack oracle)
    (kept : (countMeter g D).Kept n ram calls) (room : HeldRoom g ret ram (wear g calls)) :
    Code.spec oracle.machine (fun calls' => ∃ ram', (countMeter g D).Kept n ram' calls') True
      (ubiWriteRecoverHeld g fuel phyBlock rounds ret dieIndex)
      (fun _ ram' calls' => (countMeter g D).Kept n ram' calls' ∧ True) ram calls := by
  induction rounds generalizing ret dieIndex ram calls with
  | zero => exact Code.spec_halt.mpr ⟨⟨ram, kept⟩, trivial⟩
  | succ rounds ih =>
      unfold ubiWriteRecoverHeld
      split
      case isFalse => exact Code.spec_pure.mpr ⟨⟨ram, kept⟩, kept, trivial⟩
      rename_i bad
      -- the slot whose page has failed
      refine Code.spec_bind.mpr (Code.spec_bind.mpr (Code.spec_get.mpr ⟨⟨ram, kept⟩, ?_⟩))
      split
      case h_2 => exact Code.spec_halt.mpr ⟨⟨ram, kept⟩, trivial⟩
      rename_i slot _
      refine Code.spec_pure.mpr ⟨⟨ram, kept⟩, ?_⟩
      refine Code.spec_bind.mpr (Code.spec_get.mpr ⟨⟨ram, kept⟩, ?_⟩)
      refine Code.spec_bind.mpr (Code.spec_assert.mpr ⟨⟨ram, kept⟩, fun _ => ?_, fun _ => trivial⟩)
      -- its block goes back with the threshold added, for which there is room
      refine Code.spec_bind.mpr (Code.spec_mono (quiet_ubiReclaimBadblock.counts
        (counts_ubiReclaimBadblock reads (room bad slot)) kept.now)
          (fun result ram₁ calls₁ after => ?_) fun _ cut => ?_)
      on_goal 2 => exact Meter.Kept.weakenCut cut kept.since
      obtain ⟨kept₁, ⟨young, warned⟩, same⟩ := after
      have since := kept₁.weaken kept.since
      obtain ⟨ret', new⟩ := result
      have next : ∀ ret' {ram' calls'}, (countMeter g D).Kept n ram' calls' →
          HeldRoom g ret' ram' (wear g calls') → Code.spec oracle.machine
            (fun calls'' => ∃ ram'', (countMeter g D).Kept n ram'' calls'') True
            (do
              let ret ← if ret' = .success then mtdWaitReady new.block else pure ret'
              ubiWriteRecoverHeld g fuel phyBlock rounds ret slot)
            (fun _ ram'' calls'' => (countMeter g D).Kept n ram'' calls'' ∧ True) ram' calls' := by
        intro ret' ram' calls' kept' room'
        split
        · exact quiet_mtdWaitReady.thenRecover counts_mtdWaitReady kept' fun _ _ _ => ih
        · exact Code.spec_bind.mpr (Code.spec_pure.mpr ⟨⟨ram', kept'⟩, ih kept' room'⟩)
      dsimp only
      split
      · -- the slot names the new block, whose program may fail as well
        rename_i success
        have moves : KeepsCounts g oracle (wear g calls₁)
            (setHold slot fun held => { held with phyBlock := new.block, ec := new.ec }) :=
          counts_setHold fun _ _ le counts => ⟨(young success).mono le, counts.content⟩
        refine Code.spec_bind.mpr (Code.spec_mono (moves ram₁ calls₁ kept₁.now)
          (fun _ ram₂ calls₂ after => ?_) fun _ cut => ?_)
        on_goal 2 => exact Meter.Kept.weakenCut cut since.since
        have kept₂ := after.1.weaken since.since
        cases content : (ram.diceHold slot).buffer with
        | none => exact Code.spec_bind.mpr (Code.spec_halt.mpr ⟨⟨ram₂, kept₂⟩, trivial⟩)
        | some buffer =>
            have counts := ((kept.memory.held slot).content buffer content).mono
              (kept₁.since.trans after.1.since)
            exact quiet_mtdProgram.thenRecover (counts_mtdProgram counts) kept₂
              fun ret' _ _ => next ret'
      · exact Code.spec_bind.mpr (Code.spec_pure.mpr ⟨⟨ram₁, since⟩,
          next _ since (.of_failure kept.memory same warned)⟩)

/-- The head of `UBI_Write`: wait for the die and recover the page that it holds. -/
theorem counts_recoverHeld {rest : Status × Nat → Ubi D α} {post : α → Nat → Prop}
    {phyBlock : Nat} (reads : ReadsBack oracle)
    (next : ∀ result m, n ≤ m → Counts g oracle m (rest result) post) :
    Counts g oracle n (do
      let ret ← mtdWaitReady phyBlock
      let result ← ubiWriteRecoverHeld g fuel phyBlock fuel ret 0
      rest result) post := by
  have head : KeepsCounts g oracle n
      (mtdWaitReady phyBlock >>= fun ret => ubiWriteRecoverHeld g fuel phyBlock fuel ret 0) :=
    fun ram calls kept => quiet_mtdWaitReady.thenRecover counts_mtdWaitReady kept
      fun _ _ _ kept' room => spec_ubiWriteRecoverHeld reads kept' room
  have split := Meter.Gives.bind head fun result m le _ => next result m le
  rwa [LawfulMonad.bind_assoc] at split

theorem counts_ubiWrite {block page : Nat} {buffer : Option (Buffer D)} {spare : Option Spare}
    {async : Bool} (reads : ReadsBack oracle)
    (isData : ∀ page ∈ buffer, page.content.CountsAtMost n) :
    KeepsCounts g oracle n (ubiWrite g fuel block page buffer spare async) := by
  refine .bind (counts_areaGetBlock reads) fun phyBlock m₁ le₁ _ => ?_
  refine .bind (counts_areaGetEc reads) fun phyBlockEc m₂ le₂ atMost => ?_
  refine .bind .assert fun _ m₃ le₃ _ => counts_recoverHeld reads ?_
  rintro ⟨ret, dieIndex⟩ m₄ le₄
  have write : ∀ {m}, m₄ ≤ m → KeepsCounts g oracle m (
      if ret = .success ∧ page ≠ invalidPage then
        ubiWritePage g fuel block phyBlock phyBlockEc page buffer spare async dieIndex
      else pure ret) := by
    intro m le
    refine .ite (fun _ => counts_ubiWritePage reads (fun page member => ?_) ?_) fun _ => .done
    · exact (isData page member).mono (by omega)
    · exact atMost.mono (by omega)
  refine .ite (fun _ => ?_) fun _ => write (Nat.le_refl _)
  exact .bind counts_ubiReleaseHeld fun _ m₅ le₅ _ => write le₅

theorem counts_ubiFlushSlots {slots : List Nat} {ret : Status} (reads : ReadsBack oracle) :
    KeepsCounts g oracle n (ubiFlushSlots g fuel slots ret : Ubi D Status) := by
  induction slots generalizing ret n with
  | nil => exact .done
  | cons slot rest ih =>
      refine .ite (fun _ => .seq .get fun ram => .seq (counts_ubiWrite reads fun _ member => ?_)
        fun _ => ih) fun _ => ih
      cases member

theorem counts_ubiFlush (reads : ReadsBack oracle) :
    KeepsCounts g oracle n (ubiFlush g fuel : Ubi D Status) :=
  counts_ubiFlushSlots reads

theorem counts_ubiErase {block dieIndex : Nat} (reads : ReadsBack oracle) :
    KeepsCounts g oracle n (ubiErase g fuel block dieIndex : Ubi D Status) := by
  have map : ∀ (new : BlockEc) {n : Nat}, new.ec.AtMost n → KeepsCounts g oracle n (do
      Code.assert (block ≠ invalidBlock ∧ new.ec ≠ invalidEc)
      let oldEc ← areaGetEc g block
      let oldBlock ← areaGetBlock g block
      indexFreeBlockPut g oldBlock oldEc
      indexUpdateAreaUpdate block new.block new.ec
      indexUpdateCommit g fuel : Ubi D Status) := by
    intro new n young
    refine .bind .assert fun _ m₁ le₁ _ => .bind (counts_areaGetEc reads) fun oldEc m₂ le₂ old => ?_
    refine .bind (counts_areaGetBlock reads) fun oldBlock m₃ le₃ _ => ?_
    refine .bind (counts_indexFreeBlockPut (old.mono le₃)) fun _ m₄ le₄ _ => ?_
    refine .bind (counts_indexUpdateAreaUpdate (young.mono (by omega))) fun _ m₅ le₅ _ => ?_
    exact (counts_indexUpdateCommit reads).kept
  refine .seq .get fun ram => .seq (counts_ubiWrite reads fun _ member => by cases member)
    fun ret => ?_
  intro m
  refine .ite (fun _ => .bind counts_indexFreeBlockGet fun result m le taken => ?_)
    fun failed => .bind .same fun result m le same => ?_
  · exact .ite (fun success => map _ (taken.2 success)) fun _ => .done
  · refine .ite (fun success => absurd ?_ failed) fun _ => .done
    rw [← success, same]

theorem counts_ubiReadStatus {block : Nat} (reads : ReadsBack oracle) :
    KeepsCounts g oracle n (ubiReadStatus g block : Ubi D Status) :=
  .seq (counts_areaGetBlock reads) fun _ => .seq .assert fun _ => counts_mtdReadStatus

theorem counts_ubiSwl (reads : ReadsBack oracle) :
    KeepsCounts g oracle n (ubiSwl g fuel : Ubi D Status) := by
  have exchange : ∀ (ret : Status) (logical : Nat) (least most : BlockEc) {n : Nat},
      least.ec.AtMost n → most.ec.AtMost n → KeepsCounts g oracle n (
        if ret = Status.success then do
          indexUpdateAreaUpdate logical most.block most.ec
          indexFreeBlockSwapMaxEcBlock g least.block least.ec
          indexUpdateCommit g fuel
        else pure ret : Ubi D Status) := by
    intro ret logical least most n young old
    refine .ite (fun _ => .bind (counts_indexUpdateAreaUpdate old) fun _ m le _ => ?_)
      fun _ => .done
    exact .seq (counts_indexFreeBlockSwapMaxEcBlock (young.mono le)) fun _ =>
      (counts_indexUpdateCommit reads).kept
  refine .seq .get fun ram => .bind (counts_areaFindMinEcBlock reads) fun found m₁ _ young => ?_
  refine .bind counts_indexFreeBlockGetMaxEcBlock fun most m₂ le₂ old => ?_
  obtain ⟨offset, least⟩ := found
  cases least with
  | none => exact .halt
  | some least =>
      cases most with
      | none => exact .halt
      | some most =>
          have young := (young least rfl).mono le₂
          have old := old most rfl
          refine .ite (fun _ => .bind counts_mtdErase fun ret m₃ le₃ erased => ?_) fun _ =>
            .seq (.modifies fun _ _ _ counts =>
              { counts with anchor := { counts.anchor with } }) fun _ => .done
          refine .ite (fun _ => .bind (counts_ubiCopyPages reads) fun ret' m₄ le₄ _ => ?_)
            fun _ => .bind .done fun ret' m₄ le₄ _ => ?_
          all_goals exact exchange _ _ _ _ (young.mono (by omega)) (old.mono (by omega))

end Functions

/-! ## Runs -/

/-- What a client asks the layer for. -/
inductive UbiRequest (D : Type) where
  | format
  | mount
  | call (op : UbiOp D)

namespace UbiRequest

/-- The code of a request, with the status that it returns. -/
def code (g : Geometry) (fuel : Nat) [Zero D] : UbiRequest D → Ubi D Status
  | .format => ubiFormat g fuel
  | .mount => ubiInit g fuel
  | .call op => op.code g fuel

/-- A client writes pages of data. -/
def WritesData : UbiRequest D → Prop
  | .call (.write _ _ buffer _ _) => ∃ data, buffer.content = .data data
  | _ => True

end UbiRequest

section Run

variable {g : Geometry} {fuel : Nat} {D : Type} [Zero D]
  {oracle : Oracle (MtdOp (UbiBuffer D)) (MtdAns (UbiBuffer D))}

/-- The memory and the calls of a device since it was new: requests in any order, also in the
wrong one, with any failures, and the power may fail within each of them. -/
inductive WornBy (g : Geometry) (fuel : Nat)
    (oracle : Oracle (MtdOp (UbiBuffer D)) (MtdAns (UbiBuffer D))) :
    UbiRam D → MtdCalls (UbiBuffer D) → Prop where
  | fresh : WornBy g fuel oracle (UbiRam.reset D) []
  | request {ram ram' : UbiRam D} {calls calls' : MtdCalls (UbiBuffer D)} {status : Status}
      {request : UbiRequest D} (earlier : WornBy g fuel oracle ram calls)
      (data : request.WritesData)
      (run : ((request.code g fuel).run ram).exec oracle.machine calls =
        .ok ((status, ram'), calls')) : WornBy g fuel oracle ram' calls'
  | powerLoss {ram : UbiRam D} {calls : MtdCalls (UbiBuffer D)} {request : UbiRequest D}
      (earlier : WornBy g fuel oracle ram calls) (data : request.WritesData) (k : Nat) :
      WornBy g fuel oracle (UbiRam.reset D)
        (((request.code g fuel).run ram).cut oracle.machine k calls)

theorem counts_request {request : UbiRequest D} {n : Nat} (reads : ReadsBack oracle)
    (data : request.WritesData) : KeepsCounts g oracle n (request.code g fuel) := by
  cases request with
  | format => exact counts_ubiFormat reads
  | mount => exact counts_ubiInit reads
  | call op =>
      cases op with
      | erase => exact counts_ubiErase reads
      | write block page buffer spare async =>
          refine counts_ubiWrite reads fun other member => ?_
          obtain ⟨content, isData⟩ := data
          rw [← Option.some.inj member, isData]
          trivial
      | read => exact .seq (counts_ubiRead reads) fun _ => .done
      | readStatus => exact counts_ubiReadStatus reads
      | flush => exact counts_ubiFlush reads
      | swl => exact counts_ubiSwl reads

omit [Zero D] in
/-- Where the power fails, the memory is lost and the flash stays within the meter. -/
theorem Meter.Kept.reset {n : Nat} {ram : UbiRam D} {calls : MtdCalls (UbiBuffer D)}
    (kept : (countMeter g D).Kept n ram calls) :
    (countMeter g D).Kept n (UbiRam.reset D) calls :=
  ⟨kept.since, UbiRam.reset_countsAtMost, kept.calls⟩

/-- In a run of any length no count in the memory or on the flash is larger than the number of
erases and the thresholds of the failed programs together. -/
theorem WornBy.kept {ram : UbiRam D} {calls : MtdCalls (UbiBuffer D)} (reads : ReadsBack oracle)
    (run : WornBy g fuel oracle ram calls) : (countMeter g D).Kept 0 ram calls := by
  induction run with
  | fresh => exact ⟨Nat.zero_le _, UbiRam.reset_countsAtMost, fun _ member => by cases member⟩
  | request _ data run ih =>
      exact (Code.post_of_spec (counts_request reads data _ _ ih) run).1
  | powerLoss _ data k ih =>
      obtain ⟨ram', kept⟩ := Prog.cut_of_spec (counts_request reads data _ _ ih) k
      exact Meter.Kept.reset kept

/-- As long as the run has not come near `INVALID_EC`, the sums on the counts of the free blocks
and of the held pages, and the order of the free blocks, are those of the 32-bit words. -/
theorem WornBy.words {ram : UbiRam D} {calls : MtdCalls (UbiBuffer D)} (reads : ReadsBack oracle)
    (run : WornBy g fuel oracle ram calls) (threshold : 0 < g.staticWlThreshold)
    (small : wear g calls + g.staticWlThreshold < allOnes) :
    (∀ i, ((ram.indexTable.free i).ec.plus 1).word =
      ((ram.indexTable.free i).ec.word + 1) % 2 ^ 32) ∧
    (∀ slot, ((ram.diceHold slot).ec.plus g.staticWlThreshold).word =
      ((ram.diceHold slot).ec.word + g.staticWlThreshold) % 2 ^ 32) ∧
    (∀ i j, (ram.indexTable.free i).ec.word < (ram.indexTable.free j).ec.word ↔
      (ram.indexTable.free i).ec < (ram.indexTable.free j).ec) := by
  have counts : ram.CountsAtMost (wear g calls) := (run.kept reads).memory
  refine ⟨fun i => ?_, fun slot => ?_, fun i j => ?_⟩
  · exact (counts.index.free i).word_plus Nat.one_pos (by omega)
  · exact (counts.held slot).ec.word_plus threshold small
  · exact (counts.index.free i).word_lt_iff (counts.index.free j) (by omega)

end Run

end OpenNfm
