import OpenNfm.Ubi.Format
import OpenNfm.Ubi.WearLevelling

/-!
# Runs of the UBI layer

The states that the layer can be in between two calls.  A run starts with a
format and a mount.  Then calls come to their end, or the power fails in one of
them, perhaps fails again in the mounts that follow, and a mount comes to its
end.

A call that exchanges blocks picks blocks for a full area block and a full
index block before its tables are on the flash.  A power failure in such a call
is part of a run when those blocks were free before the call.
-/

namespace OpenNfm

open OpenNfm.Program

variable {g : Geometry} {D : Type}

/-! ## What the flash says -/

/-- The newest table of an area, as the flash holds it. -/
def flashTable (nand : Nand (UbiBuffer D)) (ram : UbiRam D) (area : Nat) : AreaTable :=
  match nand (ram.indexTable.areaIndex area).block (ram.areaOffsetTable area) with
  | some ⟨.area table, _⟩ => table
  | _ => .blank

/-- The entry of a logical block in the newest table of its area. -/
def flashEntry (g : Geometry) (nand : Nand (UbiBuffer D)) (ram : UbiRam D) (block : Nat) :
    BlockEc :=
  flashTable nand ram (g.areaIndex block) (g.blockOffsetArea block)

/-- The least worn block of the area that wear levelling looks at. -/
def flashLeastWorn (g : Geometry) (nand : Nand (UbiBuffer D)) (ram : UbiRam D) : Nat :=
  ram.anchorTable.swlCurrentArea * g.cfgPhyBlockPerArea +
    minEcOffset (flashTable nand ram ram.anchorTable.swlCurrentArea) g.cfgPhyBlockPerArea

/-- Wear levelling finds two blocks to exchange. -/
def flashExchanges (g : Geometry) (nand : Nand (UbiBuffer D)) (ram : UbiRam D) : Bool :=
  swlRequired g (flashEntry g nand ram (flashLeastWorn g nand ram))
    (mostWorn g ram.indexTable.free)

/-- The block is listed as free. -/
def IsFree (g : Geometry) (ram : UbiRam D) (block : Nat) : Prop :=
  ∃ i < g.freeBlockCount, (ram.indexTable.free i).block = block ∧
    (ram.indexTable.free i).ec ≠ invalidEc

section Tables

variable {nand : Nand (UbiBuffer D)} {ram : UbiRam D} {view : UbiView} {store : Store D}

theorem Committed.flashTable_eq
    (committed : Committed g nand ram view store (· < g.areaCount)) {area : Nat}
    (isArea : area < g.areaCount) : flashTable nand ram area = view.tables area := by
  have log := committed.maps.areas area isArea
  have offset := (committed.offsets area isArea).2
  rw [flashTable, offset, log.last]
  rfl

theorem Committed.flashEntry_eq
    (committed : Committed g nand ram view store (· < g.areaCount)) {block : Nat}
    (isArea : g.areaIndex block < g.areaCount) :
    flashEntry g nand ram block = rawEntry g view block := by
  rw [flashEntry, committed.flashTable_eq isArea, rawEntry]

theorem Committed.flashLeastWorn_eq
    (committed : Committed g nand ram view store (· < g.areaCount)) :
    flashLeastWorn g nand ram = view.leastWorn g ram.anchorTable.swlCurrentArea := by
  rw [flashLeastWorn, committed.flashTable_eq committed.ready.anchor.swl, UbiView.leastWorn]

theorem Committed.flashExchanges_iff (supported : g.Supported)
    (committed : Committed g nand ram view store (· < g.areaCount)) :
    flashExchanges g nand ram = true ↔ Exchanges g ram view := by
  have isArea := committed.ready.anchor.swl
  have areaIs := (leastWorn_area supported view ram.anchorTable.swlCurrentArea).1
  rw [flashExchanges, committed.flashLeastWorn_eq, committed.flashEntry_eq (areaIs.symm ▸ isArea),
    Exchanges]

theorem FreeList.mem_of_isFree {blocks : List BlockEc}
    (list : FreeList g ram.indexTable.free blocks) {block : Nat} (isFree : IsFree g ram block) :
    block ∈ blocks.map BlockEc.block := by
  obtain ⟨i, inTable, rfl, valid⟩ := isFree
  by_cases inside : i < blocks.length
  · rw [list.entry_of_lt inside]
    exact List.mem_map_of_mem (List.getElem_mem inside)
  · rw [list.entry_of_le (Nat.le_of_not_lt inside) inTable] at valid
    exact absurd rfl valid

end Tables

/-! ## The calls -/

/-- The calls of the layer between two mounts. -/
inductive UbiOp (D : Type) where
  | erase (block die : Nat)
  | write (block page : Nat) (buffer : Buffer D) (spare : Option Spare) (async : Bool)
  | read (block page : Nat)
  | readStatus (block : Nat)
  | flush
  | swl

namespace UbiOp

/-- The code of a call, with the status that it returns. -/
def code (g : Geometry) (fuel : Nat) [Zero D] : UbiOp D → Ubi D Status
  | .erase block die => ubiErase g fuel block die
  | .write block page buffer spare async => ubiWrite g fuel block page (some buffer) spare async
  | .read block page => do
      let answer ← ubiRead g block page
      pure answer.status
  | .readStatus block => ubiReadStatus g block
  | .flush => ubiFlush g fuel
  | .swl => ubiSwl g fuel

/-- The call addresses the device and does not program a page twice. -/
def Fits (g : Geometry) (nand : Nand (UbiBuffer D)) (ram : UbiRam D) : UbiOp D → Prop
  | .erase block _ => block < g.ubiCapacity
  | .write block page _ spare async =>
      block < g.ubiCapacity ∧ page < g.pagePerPhyBlock ∧
        nand (flashEntry g nand ram block).block page = none ∧ (async = true → spare ≠ none)
  | .read block page => block < g.ubiCapacity ∧ page < g.pagePerPhyBlock
  | .readStatus block => block < g.ubiCapacity
  | .flush => True
  | .swl => True

/-- Whether a call fits can be computed. -/
instance decidableFits (g : Geometry) (nand : Nand (UbiBuffer D)) (ram : UbiRam D) :
    (op : UbiOp D) → Decidable (op.Fits g nand ram)
  | .erase _ _ => inferInstanceAs (Decidable (_ < _))
  | .write block page _ spare async =>
      decidable_of_iff (block < g.ubiCapacity ∧ page < g.pagePerPhyBlock ∧
        (nand (flashEntry g nand ram block).block page).isNone ∧
          (async = true → spare.isSome = true)) (by
        simp [Fits, Option.isSome_iff_ne_none])
  | .read _ _ => inferInstanceAs (Decidable (_ ∧ _))
  | .readStatus _ => inferInstanceAs (Decidable (_ < _))
  | .flush => .isTrue trivial
  | .swl => .isTrue trivial

/-- The blocks that the commit of the call picks for a full area block and a full
index block. -/
def picks (g : Geometry) (nand : Nand (UbiBuffer D)) (ram : UbiRam D) : UbiOp D → List Nat
  | .erase block die =>
      commitPicks g
        (erasedRam g ram (flashEntry g nand ram block) block (die % g.totalDieCount))
  | .swl =>
      if flashExchanges g nand ram then
        commitPicks g (levelledRam g ram (flashLeastWorn g nand ram)
          (flashEntry g nand ram (flashLeastWorn g nand ram)) (mostWorn g ram.indexTable.free))
      else []
  | _ => []

/-- The commit picks no block that the call itself has released. -/
def PicksFree (g : Geometry) (nand : Nand (UbiBuffer D)) (ram : UbiRam D) (op : UbiOp D) : Prop :=
  ∀ block ∈ op.picks g nand ram, IsFree g ram block

/-- The call does not erase the logical block. -/
def Spares : UbiOp D → Nat → Prop
  | .erase erased _, block => block ≠ erased
  | _, _ => True

end UbiOp

/-- The flash leads to tables, and no page is lost of a logical block that the
call spares, nor of one that the tables have where it was before the call. -/
def Survives (g : Geometry) (op : UbiOp D) (place : Nat → Nat) (store : Store D)
    (nand : Nand (UbiBuffer D)) : Prop :=
  ∃ place' store', Recoverable g place' store' nand ∧
    ∀ block < g.ubiCapacity, op.Spares block ∨ place' block = place block →
      ∀ page < g.pagePerPhyBlock, ∀ content, store block page = some content →
        store' block page = some content

theorem Recoverable.survives {op : UbiOp D} {place : Nat → Nat} {store : Store D}
    {nand : Nand (UbiBuffer D)} (recoverable : Recoverable g place store nand) :
    Survives g op place store nand :=
  ⟨place, store, recoverable, fun _ _ _ _ _ _ holds => holds⟩

theorem Nand.fill_some {B : Type} [PageContent B] {nand : Nand B} {block other page : Nat}
    {content : Page B} (isPage : page < g.pagePerPhyBlock)
    (holds : nand other page = some content) : nand.fill g block other page = some content := by
  by_cases same : other = block
  · subst same
    rw [Nand.fill, Function.update_self, if_pos isPage, holds]
    rfl
  · rw [Nand.fill, Function.update_of_ne same]
    exact holds

section Specs

variable {crash : Ideal (UbiBuffer D) → Prop} {ram : UbiRam D} {state : Ideal (UbiBuffer D)}
  {fuel : Nat} {view : UbiView} {store : Store D}

/-- Every call keeps the invariant, and survives a power failure when it picks
free blocks. -/
theorem wp_ubiOp [Zero D] {op : UbiOp D} {fresh : Prop}
    {post : Status → UbiRam D → Ideal (UbiBuffer D) → Prop} (supported : g.Supported)
    (pos : 0 < fuel) (inv : UbiReady g state.nand ram view store)
    (fits : op.Fits g state.nand ram) (picked : fresh → op.PicksFree g state.nand ram)
    (safe : ∀ after, (fresh → Survives g op (placeOf g ram.indexTable view) store after.nand) →
      crash after)
    (meets : ∀ status ram' after view' store', UbiReady g after.nand ram' view' store' →
      post status ram' after) :
    Code.wp (idealMachine g) crash (op.code g fuel) post ram state := by
  have committed := inv.committed
  have unchanged : ∀ polls, crash ⟨state.nand, polls⟩ := fun polls =>
    safe ⟨state.nand, polls⟩ fun _ => committed.recoverable.survives
  have here : crash state := unchanged state.polls
  cases op with
  | erase block die =>
      have entry := committed.flashEntry_eq (areaIndex_lt supported fits)
      have picked' : fresh → ∀ other ∈ commitPicks g
          (erasedRam g ram (rawEntry g view block) block (die % g.totalDieCount)),
          other ∈ view.free.map BlockEc.block := by
        intro isFresh other isPicked
        rw [← entry] at isPicked
        exact committed.maps.free.mem_of_isFree (picked isFresh other isPicked)
      refine wp_ubiErase supported pos inv fits picked' ?_ ?_
      · intro nand recoverable
        refine safe _ fun isFresh => ?_
        rcases recoverable isFresh with old | ⟨place, elsewhere, new⟩
        · exact old.survives
        · refine ⟨place, _, new, fun other _ kept page _ content holds => ?_⟩
          have different : other ≠ block := by
            rintro rfl
            exact kept.elim (fun spared => spared rfl) elsewhere
          rw [store.erase_other page different]
          exact holds
      · exact fun nand ram' view' inv' => meets _ ram' _ view' _ inv'
  | write block page buffer spare async =>
      obtain ⟨isBlock, isPage, blank, hasSpare⟩ := fits
      obtain ⟨-, -, -, content⟩ := committed.data supported isBlock
      rw [committed.flashEntry_eq (areaIndex_lt supported isBlock), content] at blank
      refine wp_ubiWrite supported pos inv isBlock isPage blank hasSpare ?_ ?_
      · rintro nand (old | new)
        · exact safe _ fun _ => old.survives
        · refine safe _ fun _ => ⟨_, _, new, fun other _ _ otherPage _ content holds => ?_⟩
          by_cases same : other = block
          · subst same
            have differentPage : otherPage ≠ page := by
              rintro rfl
              rw [blank] at holds
              cases holds
            rw [store.program_otherPage _ _ differentPage]
            exact holds
          · rw [Nand.program_other _ _ _ _ same]
            exact holds
      · exact fun nand ram' inv' => meets _ ram' _ view _ inv'
  | read block page =>
      simp only [UbiOp.code, Code.wp_bind]
      exact wp_ubiRead supported inv fits.1 fits.2 here fun ram' inv' =>
        ⟨here, meets _ ram' state view store inv'⟩
  | readStatus block =>
      exact wp_ubiReadStatus supported inv fits unchanged
        fun _ ram' _ _ inv' => meets _ ram' _ view store inv'
  | flush =>
      exact wp_ubiFlush supported pos inv here fun ram' inv' => meets _ ram' state view store inv'
  | swl =>
      have exchangesIs := committed.flashExchanges_iff supported
      have picked' : fresh → Exchanges g ram view → ∀ other ∈ commitPicks g (levelledRam g ram
          (view.leastWorn g ram.anchorTable.swlCurrentArea)
          (rawEntry g view (view.leastWorn g ram.anchorTable.swlCurrentArea))
          (mostWorn g ram.indexTable.free)), other ∈ view.free.map BlockEc.block := by
        intro isFresh exchanges other isPicked
        have areaIs := (leastWorn_area supported view ram.anchorTable.swlCurrentArea).1
        refine committed.maps.free.mem_of_isFree (picked isFresh other ?_)
        rw [UbiOp.picks, if_pos (exchangesIs.mpr exchanges), committed.flashLeastWorn_eq,
          committed.flashEntry_eq (areaIs.symm ▸ committed.ready.anchor.swl)]
        exact isPicked
      refine wp_ubiSwl supported pos inv picked' ?_ ?_ ?_
      · intro nand recoverable
        refine safe _ fun isFresh => ?_
        obtain ⟨place, store', levelled, new⟩ := recoverable isFresh
        refine ⟨place, store', new, fun other _ _ page isPage content holds => ?_⟩
        rcases levelled with rfl | ⟨block, -, rfl⟩
        · exact holds
        · exact Nand.fill_some isPage holds
      · exact fun _ ram' inv' => meets _ ram' state view store inv'
      · exact fun _ nand ram' view' inv' => meets _ ram' _ view' _ inv'

end Specs

/-! ## Reachable states -/

section Reach

variable (g) (fuel : Nat)

/-- A format with the mount behind it. -/
def formatAndMount : Ubi D Status := do
  let _ ← ubiFormat g fuel
  ubiInit g fuel

/-- The power fails in one mount after another. -/
def powerLosses : List Nat → Ideal (UbiBuffer D) → Ideal (UbiBuffer D)
  | [], state => state
  | n :: rest, state =>
      powerLosses rest (((ubiInit g fuel).run (UbiRam.reset D)).cut (idealMachine g) n state)

/-- The states between two calls. -/
inductive Reached [Zero D] : UbiRam D → Ideal (UbiBuffer D) → Prop where
  | format {state after : Ideal (UbiBuffer D)} {ram : UbiRam D} {status : Status}
      (formattable : Formattable g state.nand)
      (run : ((formatAndMount g fuel).run (UbiRam.reset D)).exec (idealMachine g) state =
        .ok ((status, ram), after)) : Reached ram after
  | call {state after : Ideal (UbiBuffer D)} {ram ram' : UbiRam D} {status : Status}
      {op : UbiOp D} (reached : Reached ram state) (fits : op.Fits g state.nand ram)
      (run : ((op.code g fuel).run ram).exec (idealMachine g) state =
        .ok ((status, ram'), after)) : Reached ram' after
  | powerLoss {state after : Ideal (UbiBuffer D)} {ram ram' : UbiRam D} {status : Status}
      {op : UbiOp D} (reached : Reached ram state) (fits : op.Fits g state.nand ram)
      (picks : op.PicksFree g state.nand ram) (n : Nat) (mounts : List Nat)
      (run : ((ubiInit g fuel).run (UbiRam.reset D)).exec (idealMachine g)
        (powerLosses g fuel mounts (((op.code g fuel).run ram).cut (idealMachine g) n state)) =
          .ok ((status, ram'), after)) : Reached ram' after

end Reach

/-! ### Longer runs -/

/-- Calls that come to their end, one after the other. -/
def runCalls [Zero D] (g : Geometry) (fuel : Nat) : List (UbiOp D) → Ubi D Unit
  | [] => pure ()
  | op :: rest => do
      let _ ← op.code g fuel
      runCalls g fuel rest

/-- Mounts that come to their end, with the memory lost before each one. -/
def remounts (g : Geometry) (fuel : Nat) : Nat → Ubi D Unit
  | 0 => pure ()
  | count + 1 => do
      set (UbiRam.reset D)
      let _ ← ubiInit g fuel
      remounts g fuel count

section Runs

variable {ram : UbiRam D} {state : Ideal (UbiBuffer D)} {fuel : Nat} {place : Nat → Nat}
  {store : Store D}

/-- Power failures in mounts lose nothing. -/
theorem recoverable_powerLosses (supported : g.Supported) (pos : 0 < fuel) {mounts : List Nat}
    (recoverable : Recoverable g place store state.nand) :
    Recoverable g place store (powerLosses g fuel mounts state).nand := by
  induction mounts generalizing state with
  | nil => exact recoverable
  | cons n rest ih =>
      have mounted : Code.wp (idealMachine g) (fun after => Recoverable g place store after.nand)
          (ubiInit g fuel) (fun _ _ _ => True) (UbiRam.reset D) state :=
        wp_ubiInit supported pos recoverable (fun _ => ubiCapacity_pos supported)
          (fun _ kept => kept) fun _ _ _ _ => trivial
      exact ih (Prog.cut_of_wp mounted n)

/-- A mount comes to its end with every page that it found. -/
theorem ubiInit_recoverable (supported : g.Supported) (pos : 0 < fuel)
    (recoverable : Recoverable g place store state.nand) :
    ∃ ram' after view, ((ubiInit g fuel).run (UbiRam.reset D)).exec (idealMachine g) state =
      .ok ((.success, ram'), after) ∧ UbiReady g after.nand ram' view store := by
  have mounted : Code.wp (idealMachine g) (fun _ => True) (ubiInit g fuel)
      (fun status ram' after => status = .success ∧ ∃ view, UbiReady g after.nand ram' view store)
      (UbiRam.reset D) state :=
    wp_ubiInit supported pos recoverable (fun _ => ubiCapacity_pos supported)
      (fun _ _ => trivial) fun nand ram' view inv => ⟨rfl, view, inv⟩
  obtain ⟨⟨status, ram'⟩, after, run, rfl, view, inv⟩ := Prog.exec_of_wp mounted
  exact ⟨ram', after, view, run, inv⟩

/-- The flash survives a power failure in a call that picks free blocks, and the
mounts that follow. -/
theorem survives_powerLoss [Zero D] (supported : g.Supported) (pos : 0 < fuel) {op : UbiOp D}
    {view : UbiView} (inv : UbiReady g state.nand ram view store)
    (fits : op.Fits g state.nand ram) (picks : op.PicksFree g state.nand ram) (n : Nat)
    (mounts : List Nat) :
    Survives g op (placeOf g ram.indexTable view) store
      (powerLosses g fuel mounts (((op.code g fuel).run ram).cut (idealMachine g) n
        state)).nand := by
  have called : Code.wp (idealMachine g)
      (fun after => Survives g op (placeOf g ram.indexTable view) store after.nand)
      (op.code g fuel) (fun _ _ _ => True) ram state :=
    wp_ubiOp supported pos inv fits (fun _ => picks) (fun _ kept => kept trivial)
      fun _ _ _ _ _ _ => trivial
  obtain ⟨place', store', recoverable, kept⟩ := Prog.cut_of_wp called n
  exact ⟨place', store', recoverable_powerLosses supported pos recoverable, kept⟩

/-- Every reachable state meets the invariant. -/
theorem Reached.ready [Zero D] (supported : g.Supported) (pos : 0 < fuel)
    (reached : Reached g fuel ram state) :
    ∃ view store, UbiReady g state.nand ram view store := by
  induction reached with
  | @format state after ram status formattable run =>
      have formatted : Code.wp (idealMachine g) (fun _ => True) (formatAndMount g fuel)
          (fun _ ram' after => ∃ view store, UbiReady g after.nand ram' view store)
          (UbiRam.reset D) state := by
        simp only [formatAndMount, Code.wp_bind]
        refine wp_ubiFormat supported pos formattable (fun _ => trivial) ?_
        rintro nand ram₁ ⟨place, recoverable⟩ sameHold
        refine wp_ubiInit supported pos recoverable (fun slot => ?_) (fun _ _ => trivial) ?_
        · rw [sameHold]
          exact ubiCapacity_pos supported
        · exact fun nand₂ ram₂ view inv => ⟨view, _, inv⟩
      obtain ⟨result, final, run', inv⟩ := Prog.exec_of_wp formatted
      obtain ⟨rfl, rfl⟩ := Prod.mk.inj (Except.ok.inj (run'.symm.trans run))
      exact inv
  | @call state after ram ram' status op _ fits run ih =>
      obtain ⟨view, store, inv⟩ := ih
      have called : Code.wp (idealMachine g) (fun _ => True) (op.code g fuel)
          (fun _ ram' after => ∃ view store, UbiReady g after.nand ram' view store) ram state :=
        wp_ubiOp supported pos inv fits False.elim (fun _ _ => trivial)
          fun _ _ _ view' store' inv' => ⟨view', store', inv'⟩
      obtain ⟨result, final, run', inv'⟩ := Prog.exec_of_wp called
      obtain ⟨rfl, rfl⟩ := Prod.mk.inj (Except.ok.inj (run'.symm.trans run))
      exact inv'
  | @powerLoss state after ram ram' status op _ fits picks n mounts run ih =>
      obtain ⟨view, store, inv⟩ := ih
      obtain ⟨place, store', recoverable, -⟩ :=
        survives_powerLoss supported pos inv fits picks n mounts
      obtain ⟨ram₂, final, view', run', inv'⟩ := ubiInit_recoverable supported pos recoverable
      obtain ⟨same, rfl⟩ := Prod.mk.inj (Except.ok.inj (run'.symm.trans run))
      obtain ⟨rfl, rfl⟩ := Prod.mk.inj same
      exact ⟨view', store', inv'⟩

theorem Reached.runCalls [Zero D] {ops : List (UbiOp D)} {ram ram' : UbiRam D}
    {state after : Ideal (UbiBuffer D)} (reached : Reached g fuel ram state)
    (fits : ∀ op ∈ ops, ∀ nand ram, op.Fits g nand ram)
    (run : ((OpenNfm.runCalls g fuel ops).run ram).exec (idealMachine g) state =
      .ok (((), ram'), after)) : Reached g fuel ram' after := by
  induction ops generalizing ram state with
  | nil =>
      obtain ⟨same, rfl⟩ := Prod.mk.inj (Except.ok.inj run)
      obtain ⟨-, rfl⟩ := Prod.mk.inj same
      exact reached
  | cons op rest ih =>
      obtain ⟨status, ram₁, state₁, called, run⟩ := Code.exec_bind_eq_ok.mp run
      exact ih (reached.call (fits op List.mem_cons_self _ _) called)
        (fun other inside => fits other (List.mem_cons_of_mem _ inside)) run

theorem Reached.remounts [Zero D] {count : Nat} {ram ram' : UbiRam D}
    {state after : Ideal (UbiBuffer D)} (reached : Reached g fuel ram state)
    (run : ((OpenNfm.remounts g fuel count).run ram).exec (idealMachine g) state =
      .ok (((), ram'), after)) : Reached g fuel ram' after := by
  induction count generalizing ram state with
  | zero =>
      obtain ⟨same, rfl⟩ := Prod.mk.inj (Except.ok.inj run)
      obtain ⟨-, rfl⟩ := Prod.mk.inj same
      exact reached
  | succ count ih =>
      obtain ⟨_, ram₁, state₁, lost, run⟩ := Code.exec_bind_eq_ok.mp run
      obtain ⟨same, rfl⟩ := Prod.mk.inj (Except.ok.inj lost)
      obtain ⟨-, rfl⟩ := Prod.mk.inj same
      obtain ⟨status, ram₂, state₂, mounted, run⟩ := Code.exec_bind_eq_ok.mp run
      have idle : UbiOp.PicksFree g state.nand ram (.flush : UbiOp D) :=
        fun _ impossible => absurd impossible List.not_mem_nil
      exact ih (reached.powerLoss (show UbiOp.Fits g state.nand ram (.flush : UbiOp D) from trivial)
        idle 0 [] mounted) run

/-- Format and mount of a device on which nothing is programmed. -/
theorem formatAndMount_blank (supported : g.Supported) (pos : 0 < fuel) (polls : List Bool) :
    ((formatAndMount g fuel).run (UbiRam.reset D)).exec (idealMachine g)
        ⟨fun _ _ => none, polls⟩ =
      ((ubiInit g fuel).run
        (formatted g { UbiRam.reset D with anchorTable := .blank, indexTable := .blank }
          fun _ _ => none).1).exec (idealMachine g)
        ⟨(formatted g { UbiRam.reset D with anchorTable := .blank, indexTable := .blank }
          fun _ _ => none).2, polls⟩ := by
  rw [formatAndMount, StateT.run_bind, Prog.exec_bind, ubiFormat_blank supported pos]

end Runs

end OpenNfm
