import Mathlib.Algebra.Ring.Nat
import OpenNfm.Ubi.Runs

/-!
# Power failures in the UBI layer

A power failure in a call loses nothing but the block that the call erases, as
long as the commit of the call picks blocks that were free before it.  When it
picks a block that the call has just released, that block is erased while the
tables on the flash still use it, and the next mount can fail.
-/

namespace OpenNfm

open OpenNfm.Program

variable {g : Geometry} {D : Type}

/-- What `UBI_Read` hands back. -/
def readBack [Zero D] (g : Geometry) (ram : UbiRam D) (state : Ideal (UbiBuffer D))
    (block page : Nat) : Option (ReadAnswer (UbiBuffer D)) :=
  match ((ubiRead g block page).run ram).exec (idealMachine g) state with
  | .ok ((answer, _), _) => some answer
  | .error _ => none

/-- The flash leads to whole tables, and while these have a logical block where
it was before, no page of it is gone. -/
def TablesIntact (g : Geometry) (before : Nand (UbiBuffer D)) (ram : UbiRam D)
    (nand : Nand (UbiBuffer D)) : Prop :=
  ∃ place store, Recoverable g place store nand ∧
    ∀ block < g.ubiCapacity, place block = (flashEntry g before ram block).block →
      ∀ page < g.pagePerPhyBlock, ∀ content, before (place block) page = some content →
        nand (place block) page = some content

section Reading

variable {ram : UbiRam D} {state : Ideal (UbiBuffer D)} {view : UbiView} {store : Store D}

theorem UbiReady.readBack_eq [Zero D] (inv : UbiReady g state.nand ram view store)
    (supported : g.Supported) {block page : Nat} (isBlock : block < g.ubiCapacity)
    (isPage : page < g.pagePerPhyBlock) :
    readBack g ram state block page = some (store.answer block page) := by
  have read : Code.wp (idealMachine g) (fun _ => True) (ubiRead g block page)
      (fun answer _ _ => answer = store.answer block page) ram state :=
    wp_ubiRead supported inv isBlock isPage trivial fun _ _ => rfl
  obtain ⟨⟨answer, ram'⟩, after, run, rfl⟩ := Prog.exec_of_wp read
  rw [readBack, run]

/-- Only a programmed page reads with success. -/
theorem Nand.answer_success {B : Type} [PageContent B] {nand : Nand B} {block page : Nat} :
    (nand.answer block page).status = .success ↔ ∃ content, nand block page = some content := by
  unfold Nand.answer
  cases nand block page with
  | none => simp
  | some content => simp

theorem Recoverable.content {place : Nat → Nat} {nand : Nand (UbiBuffer D)}
    (recoverable : Recoverable g place store nand) {block : Nat}
    (isBlock : block < g.ubiCapacity) (page : Nat) :
    nand (place block) page = store block page := by
  obtain ⟨_, _, _, _, -, maps, -, rfl⟩ := recoverable
  exact maps.content block isBlock page

theorem Survives.tablesIntact {op : UbiOp D} {nand : Nand (UbiBuffer D)}
    (survives : Survives g op (placeOf g ram.indexTable view) store nand)
    (supported : g.Supported) (inv : UbiReady g state.nand ram view store) :
    TablesIntact g state.nand ram nand := by
  obtain ⟨place, store', recoverable, kept⟩ := survives
  refine ⟨place, store', recoverable, fun block isBlock same page isPage content holds => ?_⟩
  have entry := inv.committed.flashEntry_eq (areaIndex_lt supported isBlock)
  have placed : placeOf g ram.indexTable view block = (rawEntry g view block).block := by
    rw [placeOf, inv.committed.synced.mapEntry_eq (logBlock_proper supported isBlock)]
  rw [same, entry, (inv.committed.data supported isBlock).2.2.2] at holds
  rw [recoverable.content isBlock]
  exact kept block isBlock (.inr (by rw [same, entry, placed])) page isPage content holds

end Reading

/-- After a power failure in a call that picks free blocks, and in any number of
mounts that follow, the tables on the flash are whole, the mount succeeds, and
every page reads as before that the call does not erase.  The condition is on the state
in front of the call, wherever the power fails in it. -/
theorem powerLoss_loses_nothing [Zero D] {fuel : Nat} {ram : UbiRam D}
    {state : Ideal (UbiBuffer D)} {op : UbiOp D} (supported : g.Supported) (pos : 0 < fuel)
    (reached : Reached g fuel ram state) (fits : op.Fits g state.nand ram)
    (picks : op.PicksFree g state.nand ram) (n : Nat) (mounts : List Nat) :
    TablesIntact g state.nand ram
      (powerLosses g fuel mounts (((op.code g fuel).run ram).cut (idealMachine g) n state)).nand ∧
    ∃ ram' after, ((ubiInit g fuel).run (UbiRam.reset D)).exec (idealMachine g)
        (powerLosses g fuel mounts (((op.code g fuel).run ram).cut (idealMachine g) n state)) =
          .ok ((.success, ram'), after) ∧
      ∀ block < g.ubiCapacity, op.Spares block → ∀ page < g.pagePerPhyBlock, ∀ answer,
        readBack g ram state block page = some answer → answer.status = .success →
          readBack g ram' after block page = some answer := by
  obtain ⟨view, store, inv⟩ := reached.ready supported pos
  have survives := survives_powerLoss supported pos inv fits picks n mounts
  have intact := survives.tablesIntact supported inv
  obtain ⟨place, store', recoverable, kept⟩ := survives
  obtain ⟨ram', after, view', run, inv'⟩ := ubiInit_recoverable supported pos recoverable
  refine ⟨intact, ram', after, run, ?_⟩
  intro block isBlock spared page isPage answer before success
  rw [inv.readBack_eq supported isBlock isPage, Option.some.injEq] at before
  subst before
  obtain ⟨content, holds⟩ := Nand.answer_success.mp success
  have holds' := kept block isBlock (.inl spared) page isPage content holds
  rw [inv'.readBack_eq supported isBlock isPage, Nand.answer, Nand.answer, holds, holds']

/-! ## Runs on fixed devices -/

section Devices

variable [Zero D] (g : Geometry) (fuel : Nat)

/-- The state after the format of a blank device, and then the code. -/
def afterFormat (code : Ubi D Unit) : Except Halt ((Unit × UbiRam D) × Ideal (UbiBuffer D)) :=
  let start := formatted g { UbiRam.reset D with anchorTable := .blank, indexTable := .blank }
    fun _ _ => none
  (code.run start.1).exec (idealMachine g) ⟨start.2, []⟩

/-- Mounts, and then calls. -/
def mountAndCall (mounts : Nat) (ops : List (UbiOp D)) : Ubi D Unit := do
  let _ ← ubiInit g fuel
  remounts g fuel mounts
  runCalls g fuel ops

variable {g fuel}

theorem reached_afterFormat {mounts : Nat} {ops : List (UbiOp D)} {ram : UbiRam D}
    {state : Ideal (UbiBuffer D)} (supported : g.Supported) (pos : 0 < fuel)
    (fits : ∀ op ∈ ops, ∀ nand ram, op.Fits g nand ram)
    (run : afterFormat g (mountAndCall g fuel mounts ops) = .ok (((), ram), state)) :
    Reached g fuel ram state := by
  obtain ⟨status, ram₁, state₁, mounted, run⟩ := Code.exec_bind_eq_ok.mp run
  obtain ⟨_, ram₂, state₂, remounted, run⟩ := Code.exec_bind_eq_ok.mp run
  have start : Reached g fuel ram₁ state₁ :=
    .format (.inl fun _ _ => rfl) ((formatAndMount_blank supported pos []).trans mounted)
  exact (start.remounts remounted).runCalls fits run

/-- The calls come to their end, each one fits the state in which it is made, and
the state that they leave passes the test. -/
def fittingCalls (g : Geometry) (fuel : Nat) (test : UbiRam D → Ideal (UbiBuffer D) → Bool) :
    List (UbiOp D) → UbiRam D → Ideal (UbiBuffer D) → Bool
  | [], ram, state => test ram state
  | op :: rest, ram, state =>
      decide (op.Fits g state.nand ram) &&
        Code.returns (((op.code g fuel).run ram).exec (idealMachine g) state)
          fun _ ram' after => fittingCalls g fuel test rest ram' after

theorem Reached.fittingCalls {test : UbiRam D → Ideal (UbiBuffer D) → Bool}
    {ops : List (UbiOp D)} {ram : UbiRam D} {state : Ideal (UbiBuffer D)}
    (reached : Reached g fuel ram state)
    (run : fittingCalls g fuel test ops ram state = true) :
    ∃ ram' after, Reached g fuel ram' after ∧ test ram' after = true := by
  induction ops generalizing ram state with
  | nil => exact ⟨ram, state, reached, run⟩
  | cons op rest ih =>
      obtain ⟨fits, run⟩ := Bool.and_eq_true_iff.mp run
      obtain ⟨_, _, _, ran, run⟩ := Code.returns_iff.mp run
      exact ih (reached.call (of_decide_eq_true fits) ran) run

end Devices

/-- One die of 128 blocks with 16 pages each. -/
def oneDie : Geometry :=
  { simNand with pagePerBlockShift := 4, diePerChipShift := 0, chipCountShift := 0 }

/-- The power fails in a second call to `UBI_Erase` for a block, and the mount that
follows succeeds. -/
theorem powerLoss_loses_nothing_oneDie :
    ∃ (ram : UbiRam Nat) (state : Ideal (UbiBuffer Nat)), Reached oneDie 1 ram state ∧
      ∃ ram' after, ((ubiInit oneDie 1).run (UbiRam.reset Nat)).exec (idealMachine oneDie)
        (powerLosses oneDie 1 [2]
          ((((UbiOp.erase 3 0).code oneDie 1).run ram).cut (idealMachine oneDie) 3 state)) =
        .ok ((.success, ram'), after) := by
  have run : Code.returns (afterFormat oneDie (mountAndCall oneDie 1 0 [UbiOp.erase 3 0]))
      (fun _ ram state => decide ((UbiOp.erase 3 0).picks oneDie state.nand
        (ram : UbiRam Nat) = [])) = true := by
    set_option maxRecDepth 100000 in decide +kernel
  obtain ⟨_, ram, state, ran, none⟩ := Code.returns_iff.mp run
  have supported : oneDie.Supported := by decide
  have fits : ∀ nand (ram : UbiRam Nat), (UbiOp.erase 3 0).Fits oneDie nand ram :=
    fun _ _ => show 3 < oneDie.ubiCapacity by decide
  have reached := reached_afterFormat supported Nat.one_pos (by simpa using fits) ran
  have kept := powerLoss_loses_nothing supported Nat.one_pos reached (fits _ _)
    (fun block impossible => absurd (of_decide_eq_true none ▸ impossible) List.not_mem_nil) 3 [2]
  obtain ⟨-, ram', after, mounted, -⟩ := kept
  exact ⟨ram, state, reached, ram', after, mounted⟩

/-- When the area block and the index block are full in one commit, the index can
take the block that the area has left.  After sixteen mounts and fifteen erases the
power fails in the next one, right behind the erase for the index, and the mount
fails. -/
theorem powerLoss_loses_area :
    ∃ (ram : UbiRam Nat) (state : Ideal (UbiBuffer Nat)), Reached oneDie 1 ram state ∧
      (UbiOp.erase 0 0).Fits oneDie state.nand ram ∧
      ∀ ram' after, ((ubiInit oneDie 1).run (UbiRam.reset Nat)).exec (idealMachine oneDie)
        (powerLosses oneDie 1 []
          ((((UbiOp.erase 0 0).code oneDie 1).run ram).cut (idealMachine oneDie) 6 state)) ≠
        .ok ((.success, ram'), after) := by
  have run : Code.returns (afterFormat oneDie
        (mountAndCall oneDie 1 15 (List.replicate 15 (UbiOp.erase 0 0))))
      (fun _ ram state => !Code.returns
        (((ubiInit oneDie 1).run (UbiRam.reset Nat)).exec (idealMachine oneDie)
          ((((UbiOp.erase 0 0).code oneDie 1).run ram).cut (idealMachine oneDie) 6 state))
        fun status _ _ => decide (status = .success)) = true := by
    set_option maxRecDepth 100000 in decide +kernel
  obtain ⟨_, ram, state, ran, fails⟩ := Code.returns_iff.mp run
  have fits : ∀ nand (ram : UbiRam Nat), (UbiOp.erase 0 0).Fits oneDie nand ram :=
    fun _ _ => show 0 < oneDie.ubiCapacity by decide
  have reached := reached_afterFormat (by decide) Nat.one_pos
    (fun op inside => (List.eq_of_mem_replicate inside) ▸ fits) ran
  refine ⟨ram, state, reached, fits _ _, fun ram' after mounted => ?_⟩
  rw [powerLosses] at mounted
  rw [mounted] at fails
  exact absurd fails Bool.false_ne_true

end OpenNfm
