import OpenNfm.Ftl.DataRuns
import OpenNfm.Onfm.Stack
import OpenNfm.Program.Simulation
import OpenNfm.Ubi.Refinement

/-!
# The UBI layer as the store of the FTL

The FTL is proved on a store of erasable log blocks.  Here the store is the code of the UBI layer
on a device without failures.  Behind a format and a mount both answer every call alike, as long as
the calls are for log blocks and pages that there are.
-/

namespace OpenNfm

open OpenNfm.Program

/-! ## The calls that the layer takes -/

/-- What has been done to the device. -/
inductive UbiStage where
  | erased
  | formatted
  | mounted
  deriving DecidableEq, Repr

namespace Ftl.UbiOp

variable {D : Type} (g : Geometry)

/-- The layer has arrays for its log blocks and no bounds checks, it reads the spare area of a
write that does not wait, and it is mounted once it has a format. -/
def Inside (stage : UbiStage) : UbiOp D → Prop
  | .format => stage = .erased
  | .init => stage ≠ .erased
  | .read block page => stage = .mounted ∧ block < g.ubiCapacity ∧ page < g.pagePerPhyBlock
  | .write block page _ spare async =>
      stage = .mounted ∧ block < g.ubiCapacity ∧ page < g.pagePerPhyBlock ∧
        (async = true → spare.isSome = true)
  | .erase block _ => stage = .mounted ∧ block < g.ubiCapacity
  | .flush => stage = .mounted
  | .swl => stage = .mounted
  | .readStatus block => stage = .mounted ∧ block < g.ubiCapacity

/-- Whether a call is inside the guard can be computed. -/
instance (stage : UbiStage) : (op : UbiOp D) → Decidable (op.Inside g stage)
  | .format => inferInstanceAs (Decidable (_ = _))
  | .init => inferInstanceAs (Decidable (_ ≠ _))
  | .read _ _ => inferInstanceAs (Decidable (_ ∧ _))
  | .write _ _ _ _ _ => inferInstanceAs (Decidable (_ ∧ _))
  | .erase _ _ => inferInstanceAs (Decidable (_ ∧ _))
  | .flush => inferInstanceAs (Decidable (_ = _))
  | .swl => inferInstanceAs (Decidable (_ = _))
  | .readStatus _ => inferInstanceAs (Decidable (_ ∧ _))

/-- The stage behind a call. -/
def next (stage : UbiStage) : UbiOp D → UbiStage
  | .format => .formatted
  | .init => .mounted
  | _ => stage

end Ftl.UbiOp

/-! ## The machines -/

section Machines

variable {D : Type} [Zero D] (g : Geometry) (fuel : Nat)

/-- The functions of the UBI layer for the FTL.  `FTL_Flush` calls `UBI_SWL` in a build with
`SIM_TEST` only: the call is answered here as if it were not there, with a success and nothing
done. -/
def serveDevice : (op : Ftl.UbiOp D) → Code (UbiRam (Ftl.FtlPage D))
    (MtdOp (UbiBuffer (Ftl.FtlPage D))) (MtdAns (UbiBuffer (Ftl.FtlPage D))) (Ftl.UbiAns D op)
  | .swl => pure .success
  | op => serveUbi g fuel g.bufferCount op

/-- The static variables of the UBI layer, and the device. -/
abbrev UbiDevice (D : Type) : Type := UbiRam (Ftl.FtlPage D) × Ideal (UbiBuffer (Ftl.FtlPage D))

/-- The UBI layer on a device without failures. -/
def ubiMachine : Machine (Ftl.UbiOp D) (Ftl.UbiAns D) (UbiStage × UbiDevice D) :=
  guarded (Ftl.UbiOp.Inside g) Ftl.UbiOp.next (servedBy (serveDevice g fuel) (idealMachine g))

omit [Zero D] in
/-- The store of the FTL, for the calls that the layer takes. -/
def guardedStore : Machine (Ftl.UbiOp D) (Ftl.UbiAns D) (UbiStage × Ftl.UbiStore D) :=
  guarded (Ftl.UbiOp.Inside g) Ftl.UbiOp.next (Ftl.storeMachine g g.ubiCapacity)

end Machines

/-! ## What the device holds -/

section Pages

variable {D : Type}

/-- The pages of the FTL as data of the UBI layer. -/
def onUbi (pages : Nand (Ftl.FtlPage D)) : Store (Ftl.FtlPage D) :=
  fun block page => (pages block page).map fun content => ⟨.data content.main, content.spare⟩

variable {pages : Nand (Ftl.FtlPage D)} {block page : Nat}

theorem onUbi_eq_none : onUbi pages block page = none ↔ pages block page = none :=
  Option.map_eq_none_iff

theorem onUbi_erase : (onUbi pages).erase block = onUbi (pages.erase block) := by
  funext other slot
  by_cases same : other = block
  · rw [same, Nand.erase_same, onUbi, Nand.erase_same, Option.map_none]
  · rw [Nand.erase_other _ _ same, onUbi, onUbi, Nand.erase_other _ _ same]

theorem onUbi_program {content : Page (Ftl.FtlPage D)} :
    (onUbi pages).program block page ⟨.data content.main, content.spare⟩ =
      onUbi (pages.program block page content) := by
  funext other slot
  by_cases sameBlock : other = block
  · subst sameBlock
    by_cases samePage : slot = page
    · rw [samePage, Nand.program_same, onUbi, Nand.program_same, Option.map_some]
    · rw [Nand.program_otherPage _ _ _ samePage, onUbi, onUbi,
        Nand.program_otherPage _ _ _ samePage]
  · rw [Nand.program_other _ _ _ _ sameBlock, onUbi, onUbi, Nand.program_other _ _ _ _ sameBlock]

/-- What the FTL finds in a page. -/
theorem onUbi_answer :
    (⟨((onUbi pages).answer block page).status, .ofBuffer ((onUbi pages).answer block page).main,
      ((onUbi pages).answer block page).spare⟩ : ReadAnswer (Ftl.FtlPage D)) =
      pages.answer block page := by
  unfold Nand.answer onUbi
  cases pages block page with
  | none => rfl
  | some content => rfl

end Pages

section Implements

variable {D : Type}

/-- What a poll is told. -/
def pollStatus (busy : Bool) : Status :=
  if busy then .dieBusy else .success

/-- The tables on the device and in memory lead to the pages. -/
def HoldsPages (g : Geometry) (pages : Nand (Ftl.FtlPage D)) (device : UbiDevice D) :
    UbiStage → Prop
  | .erased => Formattable g device.2.nand ∧ pages = fun _ _ => none
  | .formatted => ∃ place, Recoverable g place (onUbi pages) device.2.nand
  | .mounted => ∃ view, UbiReady g device.2.nand device.1 view (onUbi pages)

/-- The UBI layer implements the store. -/
structure Implements (g : Geometry) (stage : UbiStage) (device : UbiDevice D)
    (store : Ftl.UbiStore D) : Prop where
  holds : HoldsPages g store.pages device stage
  polls : store.polls = device.2.polls.map pollStatus
  slots : ∀ slot, (device.1.diceHold slot).logBlock < g.ubiCapacity

variable {g : Geometry} {stage : UbiStage} {device : UbiDevice D} {store : Ftl.UbiStore D}

theorem Implements.mounted {ram : UbiRam (Ftl.FtlPage D)}
    {state : Ideal (UbiBuffer (Ftl.FtlPage D))} {view : UbiView}
    (ready : UbiReady g state.nand ram view (onUbi store.pages))
    (polls : store.polls = state.polls.map pollStatus) :
    Implements g .mounted (ram, state) store :=
  ⟨⟨view, ready⟩, polls, ready.hold.logBlock⟩

/-- Behind a format the tables can be found. -/
theorem Implements.recoverable (implements : Implements g stage device store)
    (notErased : stage ≠ .erased) :
    ∃ place, Recoverable g place (onUbi store.pages) device.2.nand := by
  cases stage with
  | erased => exact absurd rfl notErased
  | formatted => exact implements.holds
  | mounted =>
      obtain ⟨view, ready⟩ := implements.holds
      exact ⟨_, ready.committed.recoverable⟩

end Implements

/-! ## Pages are written once -/

section Written

variable {D : Type} {g : Geometry} {fuel block page : Nat} {ram ram' : UbiRam D}
  {state after : Ideal (UbiBuffer D)} {view : UbiView} {store : Store D}

/-- What `UBI_Write` does in front of its page. -/
def ubiWriteHead (g : Geometry) (fuel block : Nat) : Ubi D (Nat × EraseCount × Status × Nat) := do
  let phyBlock ← areaGetBlock g block
  let phyBlockEc ← areaGetEc g block
  Code.assert (phyBlock ≠ invalidBlock)
  let ret ← mtdWaitReady phyBlock
  let (ret, dieIndex) ← ubiWriteRecoverHeld g fuel phyBlock fuel ret 0
  if ret = .success then ubiReleaseHeld dieIndex
  pure (phyBlock, phyBlockEc, ret, dieIndex)

theorem ubiWrite_eq {buffer : Option (Buffer D)} {spare : Option Spare} {async : Bool} :
    ubiWrite g fuel block page buffer spare async =
      ubiWriteHead g fuel block >>= fun head =>
        if head.2.2.1 = .success ∧ page ≠ invalidPage then
          ubiWritePage g fuel block head.1 head.2.1 page buffer spare async head.2.2.2
        else pure head.2.2.1 := by
  simp only [ubiWrite, ubiWriteHead, LawfulMonad.bind_assoc]
  refine congrArg _ (funext fun phyBlock => congrArg _ (funext fun phyBlockEc => ?_))
  refine congrArg _ (funext fun _ =>
    congrArg _ (funext fun ret => congrArg _ (funext fun held => ?_)))
  split <;> simp only [LawfulMonad.bind_assoc, LawfulMonad.pure_bind]

theorem wp_ubiWriteHead (supported : g.Supported) (pos : 0 < fuel)
    (ready : UbiReady g state.nand ram view store) (isBlock : block < g.ubiCapacity) :
    Code.wp (idealMachine g) (fun _ => True) (ubiWriteHead g fuel block) (fun head _ after =>
      head = ((rawEntry g view block).block, (rawEntry g view block).ec, .success, 0) ∧
        after = state) ram state := by
  obtain ⟨rounds, rfl⟩ := Nat.exists_eq_succ_of_ne_zero pos.ne'
  obtain ⟨committed, hold⟩ := ready
  obtain ⟨usable, proper, -, -⟩ := committed.data supported isBlock
  have isArea := areaIndex_lt supported isBlock
  have cached := committed.cache isArea
  simp only [ubiWriteHead, Code.wp_bind]
  refine wp_areaGetBlock supported committed.maps.areas committed.offsets committed.fits isArea
    trivial ?_
  refine wp_areaGetEc supported cached.maps.areas cached.offsets cached.fits isArea trivial ?_
  rw [Code.wp_assert]
  refine ⟨proper, trivial, ?_⟩
  rw [wp_mtdWaitReady usable.2]
  simp only [ubiWriteRecoverHeld, reduceCtorEq, if_false, Code.wp_pure, if_true, Code.wp_bind]
  refine ⟨trivial, trivial, wp_ubiReleaseHeld ⟨cached.cache isArea, hold⟩ trivial ?_⟩
  exact fun ram' _ _ => ⟨trivial, trivial, rfl⟩

/-- A write that returns has found its page erased. -/
theorem blank_of_ubiWrite {buffer : Buffer D} {spare : Option Spare} {async : Bool} {ret : Status}
    (supported : g.Supported) (pos : 0 < fuel) (ready : UbiReady g state.nand ram view store)
    (isBlock : block < g.ubiCapacity) (isPage : page < g.pagePerPhyBlock)
    (run : ((ubiWrite g fuel block page (some buffer) spare async).run ram).exec (idealMachine g)
      state = .ok ((ret, ram'), after)) : store block page = none := by
  obtain ⟨usable, -, -, content⟩ := ready.committed.data supported isBlock
  have pageProper : page ≠ invalidPage := (isPage.trans supported.pagesSmall).ne
  rw [ubiWrite_eq] at run
  obtain ⟨head, ram₁, state₁, waits, writes⟩ := Code.exec_bind_eq_ok.mp run
  obtain ⟨rfl, rfl⟩ := Code.post_of_wp (wp_ubiWriteHead supported pos ready isBlock) waits
  rw [if_pos ⟨rfl, pageProper⟩] at writes
  cases programmed : store block page with
  | none => rfl
  | some earlier =>
      have stops : idealMachine g state₁ (.program (rawEntry g view block).block page
          buffer.content spare) = .error .assertion := by
        simp only [idealMachine, usable.2, isPage, and_self, if_true, content, programmed]
      simp only [ubiWritePage, mtdProgram] at writes
      rw [Code.exec_perform_bind_of_error stops] at writes
      cases writes

end Written

/-! ## The calls -/

section Calls

variable {D : Type} [Zero D] {g : Geometry} {fuel : Nat} {stage : UbiStage}
  {ram : UbiRam (Ftl.FtlPage D)} {state : Ideal (UbiBuffer (Ftl.FtlPage D))}
  {store after : Ftl.UbiStore D} {op : Ftl.UbiOp D}

omit [Zero D] in
/-- A poll is told what the store tells. -/
theorem wp_ubiReadStatus_polls {block : Nat} {view : UbiView} {ret : Status}
    (supported : g.Supported) (ready : UbiReady g state.nand ram view (onUbi store.pages))
    (polls : store.polls = state.polls.map pollStatus) (isBlock : block < g.ubiCapacity)
    (step : Ftl.storeMachine g g.ubiCapacity store (.readStatus block) = .ok (ret, after)) :
    Code.wp (idealMachine g) (fun _ => True) (ubiReadStatus g block)
      (fun ret' ram' state' => ret' = ret ∧ Implements g .mounted (ram', state') after) ram
        state := by
  obtain ⟨committed, hold⟩ := ready
  obtain ⟨usable, proper, -, -⟩ := committed.data supported isBlock
  have isArea := areaIndex_lt supported isBlock
  simp only [ubiReadStatus, Code.wp_bind]
  refine wp_areaGetBlock supported committed.maps.areas committed.offsets committed.fits isArea
    trivial ?_
  rw [Code.wp_assert]
  refine ⟨proper, trivial, ?_⟩
  have cached : UbiReady g state.nand _ view (onUbi store.pages) := ⟨committed.cache isArea, hold⟩
  obtain ⟨nand, coming⟩ := state
  rw [Ftl.storeMachine, if_pos isBlock] at step
  cases coming with
  | nil =>
      rw [List.map_nil] at polls
      simp only [polls, Except.ok.injEq, Prod.mk.injEq] at step
      obtain ⟨rfl, rfl⟩ := step
      have answers : idealMachine g ⟨nand, []⟩ (.readStatus (rawEntry g view block).block) =
          .ok (.success, (⟨nand, []⟩ : Ideal (UbiBuffer (Ftl.FtlPage D)))) := if_pos usable.2
      exact (Code.wp_perform_of_step answers).mpr ⟨trivial, trivial, rfl, .mounted cached polls⟩
  | cons busy rest =>
      rw [List.map_cons] at polls
      simp only [polls, Except.ok.injEq, Prod.mk.injEq] at step
      obtain ⟨rfl, rfl⟩ := step
      have answers :
          idealMachine g ⟨nand, busy :: rest⟩ (.readStatus (rawEntry g view block).block) =
          .ok (pollStatus busy, (⟨nand, rest⟩ : Ideal (UbiBuffer (Ftl.FtlPage D)))) := by
        cases busy <;> exact if_pos usable.2
      exact (Code.wp_perform_of_step answers).mpr ⟨trivial, trivial, rfl, .mounted cached rfl⟩

/-- The code of the layer answers what the store answers. -/
theorem Implements.serves {answer : Ftl.UbiAns D op} (supported : g.Supported) (pos : 0 < fuel)
    (implements : Implements g stage (ram, state) store) (inside : op.Inside g stage)
    (step : Ftl.storeMachine g g.ubiCapacity store op = .ok (answer, after)) :
    Code.wp (idealMachine g) (fun _ => True) (serveDevice g fuel op)
      (fun answer' ram' state' => answer' = answer ∧
        Implements g (op.next stage) (ram', state') after) ram state := by
  have polls := implements.polls
  cases op with
  | format =>
      obtain rfl : stage = .erased := inside
      obtain ⟨rfl, rfl⟩ := Prod.mk.inj (Except.ok.inj step)
      obtain ⟨formattable, blank⟩ := implements.holds
      refine wp_ubiFormat supported pos formattable (fun _ => trivial)
        fun nand ram' recoverable sameHold => ⟨rfl, ?_, polls, fun slot => ?_⟩
      · obtain ⟨place, recoverable⟩ := recoverable
        refine ⟨place, ?_⟩
        rw [blank]
        exact recoverable
      · rw [sameHold]
        exact implements.slots slot
  | init =>
      obtain ⟨rfl, rfl⟩ := Prod.mk.inj (Except.ok.inj step)
      obtain ⟨place, recoverable⟩ := implements.recoverable inside
      exact wp_ubiInit supported pos recoverable implements.slots (fun _ _ => trivial)
        fun nand ram' view ready => ⟨rfl, .mounted ready polls⟩
  | read block page =>
      obtain ⟨rfl, inRange⟩ := inside
      rw [Ftl.storeMachine, if_pos inRange] at step
      obtain ⟨rfl, rfl⟩ := Prod.mk.inj (Except.ok.inj step)
      obtain ⟨view, ready⟩ := implements.holds
      simp only [serveDevice, serveUbi, Code.wp_bind]
      exact wp_ubiRead supported ready inRange.1 inRange.2 trivial
        fun ram' ready' => ⟨trivial, onUbi_answer, .mounted ready' polls⟩
  | write block page main spare async =>
      obtain ⟨rfl, isBlock, isPage, hasSpare⟩ := inside
      by_cases blank : (store.pages block page).isNone
      · rw [Ftl.storeMachine, if_pos ⟨isBlock, isPage, blank⟩] at step
        obtain ⟨rfl, rfl⟩ := Prod.mk.inj (Except.ok.inj step)
        obtain ⟨view, ready⟩ := implements.holds
        refine wp_ubiWrite supported pos ready isBlock isPage
          (onUbi_eq_none.mpr (Option.isNone_iff_eq_none.mp blank))
          (fun isAsync => Option.isSome_iff_ne_none.mp (hasSpare isAsync)) (fun _ _ => trivial)
          fun nand ram' ready' => ⟨rfl, ?_⟩
        have written : UbiReady g nand ram' view
            (onUbi (store.write block page ⟨main, spare.getD .ones⟩).pages) := by
          rw [Ftl.UbiStore.write, ← onUbi_program]
          exact ready'
        exact .mounted written polls
      · rw [Ftl.storeMachine, if_neg fun accepted => blank accepted.2.2] at step
        cases step
  | erase block dieIndex =>
      obtain ⟨rfl, isBlock⟩ := inside
      rw [Ftl.storeMachine, if_pos isBlock] at step
      obtain ⟨rfl, rfl⟩ := Prod.mk.inj (Except.ok.inj step)
      obtain ⟨view, ready⟩ := implements.holds
      exact wp_ubiErase supported pos ready isBlock False.elim (fun _ _ => trivial)
        fun nand ram' view' ready' => ⟨rfl, .mounted (onUbi_erase ▸ ready') polls⟩
  | flush =>
      obtain rfl : stage = .mounted := inside
      obtain ⟨rfl, rfl⟩ := Prod.mk.inj (Except.ok.inj step)
      obtain ⟨view, ready⟩ := implements.holds
      exact wp_ubiFlush supported pos ready trivial fun ram' ready' => ⟨rfl, .mounted ready' polls⟩
  | swl =>
      obtain ⟨rfl, rfl⟩ := Prod.mk.inj (Except.ok.inj step)
      exact Code.wp_pure.mpr ⟨trivial, rfl, implements⟩
  | readStatus block =>
      obtain ⟨rfl, isBlock⟩ := inside
      obtain ⟨view, ready⟩ := implements.holds
      exact wp_ubiReadStatus_polls supported ready polls isBlock step

omit [Zero D] in
/-- The store answers every call inside, but for a second write to a page. -/
theorem Ftl.UbiOp.Inside.answered (inside : op.Inside g stage)
    (blank : ∀ block page main spare async, op = .write block page main spare async →
      store.pages block page = none) :
    ∃ result, Ftl.storeMachine g g.ubiCapacity store op = .ok result := by
  cases op with
  | format | init | flush | swl => exact ⟨_, rfl⟩
  | read block page => exact ⟨_, if_pos inside.2⟩
  | write block page main spare async =>
      obtain ⟨-, isBlock, isPage, -⟩ := inside
      have isBlank := Option.isNone_iff_eq_none.mpr (blank _ _ _ _ _ rfl)
      exact ⟨_, if_pos ⟨isBlock, isPage, isBlank⟩⟩
  | erase block dieIndex => exact ⟨_, if_pos inside.2⟩
  | readStatus block =>
      rw [Ftl.storeMachine, if_pos inside.2]
      cases store.polls with
      | nil => exact ⟨_, rfl⟩
      | cons ret rest => exact ⟨_, rfl⟩

/-- What the store answers, the layer answers. -/
theorem matchedBy_ubiMachine (supported : g.Supported) (pos : 0 < fuel) :
    MatchedBy (AtStage fun stage store device => Implements g stage device store)
      (guardedStore g : Machine (Ftl.UbiOp D) _ _) (ubiMachine g fuel) := by
  apply matchedBy_guarded
  intro stage store device op answer after inside implements step
  obtain ⟨⟨answer', ram'⟩, state', run, rfl, implements'⟩ :=
    Prog.exec_of_wp (implements.serves supported pos inside step)
  exact ⟨(ram', state'), servedBy_eq_ok.mpr run, implements'⟩

/-- What the layer answers, the store answers. -/
theorem matchedBy_guardedStore (supported : g.Supported) (pos : 0 < fuel) :
    MatchedBy (AtStage (Implements g))
      (ubiMachine g fuel : Machine (Ftl.UbiOp D) _ _) (guardedStore g) := by
  apply matchedBy_guarded
  intro stage device store op answer after inside implements step
  obtain ⟨ram, state⟩ := device
  obtain ⟨ram', state'⟩ := after
  have run := servedBy_eq_ok.mp step
  have blank : ∀ block page main spare async, op = .write block page main spare async →
      store.pages block page = none := by
    rintro block page main spare async rfl
    obtain ⟨rfl, isBlock, isPage, -⟩ := inside
    obtain ⟨view, ready⟩ := implements.holds
    exact onUbi_eq_none.mp (blank_of_ubiWrite supported pos ready isBlock isPage run)
  obtain ⟨⟨answer', store'⟩, answered⟩ := inside.answered blank
  obtain ⟨rfl, implements'⟩ := Code.post_of_wp (implements.serves supported pos inside answered) run
  exact ⟨store', answered, implements'⟩

section Clients

variable {R α : Type} {client : Code R (Ftl.UbiOp D) (Ftl.UbiAns D) α} {memory memory' : R}
  {value : α}

/-- A run on the device is one on the store. -/
theorem Implements.onStore {device device' : UbiStage × UbiDevice D} (supported : g.Supported)
    (pos : 0 < fuel) (implements : Implements g device.1 device.2 store)
    (run : (client.run memory).exec (ubiMachine g fuel) device = .ok ((value, memory'), device')) :
    ∃ store', (client.run memory).exec (guardedStore g) (device.1, store) =
      .ok ((value, memory'), (device'.1, store')) ∧ Implements g device'.1 device'.2 store' := by
  have related : AtStage (Implements g) device (device.1, store) := ⟨rfl, implements⟩
  obtain ⟨⟨_, store'⟩, run', rfl, implements'⟩ :=
    Prog.exec_of_matched (matchedBy_guardedStore supported pos) related run
  exact ⟨store', run', implements'⟩

/-- A run on the store is one on the device. -/
theorem Implements.onDevice {device : UbiDevice D} {store store' : UbiStage × Ftl.UbiStore D}
    (supported : g.Supported) (pos : 0 < fuel) (implements : Implements g store.1 device store.2)
    (run : (client.run memory).exec (guardedStore g) store = .ok ((value, memory'), store')) :
    ∃ device', (client.run memory).exec (ubiMachine g fuel) (store.1, device) =
      .ok ((value, memory'), (store'.1, device')) ∧ Implements g store'.1 device' store'.2 := by
  have related : AtStage (fun stage store device => Implements g stage device store)
    store (store.1, device) := ⟨rfl, implements⟩
  obtain ⟨⟨_, device'⟩, run', rfl, implements'⟩ :=
    Prog.exec_of_matched (matchedBy_ubiMachine supported pos) related run
  exact ⟨device', run', implements'⟩

/-- No client sees a difference: whatever it calls, it returns on the code of the UBI layer exactly
if it returns on the store, with the same result, and the layer implements the store again. -/
theorem ubi_implements_store {device : UbiDevice D} (supported : g.Supported) (pos : 0 < fuel)
    (implements : Implements g stage device store) :
    (∀ stage' device', (client.run memory).exec (ubiMachine g fuel) (stage, device) =
        .ok ((value, memory'), (stage', device')) →
      ∃ store', (client.run memory).exec (guardedStore g) (stage, store) =
        .ok ((value, memory'), (stage', store')) ∧ Implements g stage' device' store') ∧
    (∀ stage' store', (client.run memory).exec (guardedStore g) (stage, store) =
        .ok ((value, memory'), (stage', store')) →
      ∃ device', (client.run memory).exec (ubiMachine g fuel) (stage, device) =
        .ok ((value, memory'), (stage', device')) ∧ Implements g stage' device' store') := by
  constructor
  · intro stage' device' run
    exact implements.onStore supported pos run
  · intro stage' store' run
    exact implements.onDevice supported pos run

end Clients

end Calls

/-! ## A page on the simulated device -/

theorem implements_blank {D : Type} {g : Geometry} (supported : g.Supported) (polls : List Bool) :
    Implements g .erased (UbiRam.reset (Ftl.FtlPage D), ⟨fun _ _ => none, polls⟩)
      ⟨fun _ _ => none, [], polls.map pollStatus⟩ where
  holds := ⟨.inl fun _ _ => rfl, rfl⟩
  polls := rfl
  slots _ := ubiCapacity_pos supported

/-- A page is written behind a format and a mount, and read. -/
def pageRoundTrip (block page content : Nat) : Ftl.FtlCode Nat (ReadAnswer (Ftl.FtlPage Nat)) := do
  let _ ← Ftl.ubiFormat
  let _ ← Ftl.ubiInit
  let _ ← Ftl.ubiErase block block
  let _ ← Ftl.ubiWrite block page (.data content) (some ⟨5, 6⟩) true
  let _ ← Ftl.ubiReadStatus block
  Ftl.ubiRead block page

theorem ubi_implements_store_simNand :
    ∃ device, ((pageRoundTrip 3 0 7).run Ftl.FtlRam.reset).exec (ubiMachine simNand 1)
      (.erased, (UbiRam.reset (Ftl.FtlPage Nat), ⟨fun _ _ => none, [true]⟩)) =
        .ok ((⟨.success, .data 7, ⟨5, 6⟩⟩, Ftl.FtlRam.reset), (.mounted, device)) := by
  have supported : simNand.Supported := by decide
  have onStore : ((pageRoundTrip 3 0 7).run Ftl.FtlRam.reset).exec (guardedStore simNand)
      (.erased, ⟨fun _ _ => none, [], [true].map pollStatus⟩) =
        .ok ((⟨.success, .data 7, ⟨5, 6⟩⟩, Ftl.FtlRam.reset), (.mounted, _)) := rfl
  obtain ⟨device, run, -⟩ :=
    (ubi_implements_store supported Nat.one_pos (implements_blank supported [true])).2 _ _ onStore
  exact ⟨device, run⟩

end OpenNfm
