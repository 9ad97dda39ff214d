import OpenNfm.Onfm.FtlOnUbi
import OpenNfm.Onfm.FtlSectors

/-!
# Sectors on the flash

The sector layer over the FTL over the UBI layer, on a device without failures.  What is written
through the write buffer, the journals and the maps of blocks to the pages of the flash is read as
it was written last.
-/

namespace OpenNfm

open OpenNfm.Program

section Sessions

variable {S : Type} [Zero S] {l : Ftl.Layout} {fuel ubiFuel : Nat}

/-- The runs of the FTL on the UBI layer. -/
theorem keepsPages_ftlOnUbi (fits : FtlFitsUbi l ubiFuel) :
    KeepsPages (S := S) l (ubiMachine l.g ubiFuel) (Ftl.freeReclaim l fuel) fuel
      (FtlOnUbi l (Ftl.freeReclaim l fuel) fuel ubiFuel 0) :=
  fun _ _ _ _ _ _ _ run inRange exec => ⟨run.answers fits inRange exec, run.call inRange exec⟩

/-- Every session that returns on the three layers and the device answers like a flat array of
sectors, and leaves the sectors of the array on the logical pages.  The reclaims of the page mapping
table take blocks that are free. -/
theorem onfmSession_onUbi {bytes : Ftl.FtlPage (Nat → S) → Nat → S} {ram ram' : OnfmRam S}
    {ftl : Ftl.FtlRam} {device : UbiStage × UbiDevice (Nat → S)} {releases : List (List Nat)}
    {pages : Nat → Option (Nat → S)} {earlier calls : List (OnfmCall S)}
    {answers : List (OnfmAnswer S)} {after : FtlPages S (UbiStage × UbiDevice (Nat → S))}
    (fits : FtlFitsUbi l ubiFuel) (readsBack : ∀ content, bytes (.data content) = content)
    (mounted : FtlOnUbi l (Ftl.freeReclaim l fuel) fuel ubiFuel 0 ftl device pages)
    (holds : HoldSectors l.g pages (sectorArray earlier))
    (starting : ram.startingSector = invalidLsaddr)
    (small : l.ftlCapacity * l.g.sectorPerMpp ≤ allOnes)
    (inside : ∀ call ∈ calls, call.Fits (l.ftlCapacity * l.g.sectorPerMpp))
    (exec : ((onfmSession l.g calls).run ram).exec
      (ftlPagesMachine l (ubiMachine l.g ubiFuel) (Ftl.freeReclaim l fuel) fuel bytes)
        ⟨ftl, device, [], releases⟩ = .ok ((answers, ram'), after)) :
    ((onfmSession l.g calls).run ram).exec
        (ftlPagesMachine l (ubiMachine l.g ubiFuel) (Ftl.pmtReclaimBlocks l fuel) fuel bytes)
          ⟨ftl, device, [], releases⟩ = .ok ((answers, ram'), after) ∧
      answers = onfmAnswers earlier calls ∧
      ∃ pages', FtlOnUbi l (Ftl.pmtReclaimBlocks l fuel) fuel ubiFuel 0 after.ftl
        after.store pages' ∧
        HoldSectors l.g pages' (sectorArray (calls.reverse ++ earlier)) := by
  refine ⟨Prog.exec_extends (extends_ftlPagesMachine Ftl.agrees_reclaimWhere) exec, ?_⟩
  obtain ⟨isAnswers, pages', run, holds'⟩ :=
    (keepsPages_ftlOnUbi fits).session readsBack mounted holds starting small inside exec
  exact ⟨isAnswers, pages', run.agrees fun _ => Ftl.agrees_reclaimWhere, holds'⟩

end Sessions

/-! ## A session on the simulated device -/

theorem onfmSession_onUbi_simLayout :
    ∃ (after : FtlPages Nat (UbiStage × UbiDevice (Nat → Nat))) (pages : Nat → Option (Nat → Nat)),
      FtlOnUbi (Ftl.simLayout 0x10000) (Ftl.pmtReclaimBlocks (Ftl.simLayout 0x10000) 4) 4 1 0
          after.ftl after.store pages ∧
        HoldSectors (Ftl.simLayout 0x10000).g pages (sectorArray overBoundary.reverse) := by
  have run : Code.returns (((Ftl.ftlFormat (Ftl.simLayout 0x10000)).run .reset).exec
      (guardedStore (Ftl.simLayout 0x10000).g) (.erased, (.erased : Ftl.UbiStore (Nat → Nat))))
      (fun ret ftl store => decide (ret = .success) &&
        Ftl.metaKnown (Ftl.simLayout 0x10000) ftl.rootTable ftl &&
        Code.returns (((Ftl.ftlInit (Ftl.simLayout 0x10000) 4).run ftl).exec
          (guardedStore (Ftl.simLayout 0x10000).g) store) fun _ ftl store =>
        Code.returns (((onfmSession (Ftl.simLayout 0x10000).g overBoundary).run .reset).exec
          (ftlPagesMachine (Ftl.simLayout 0x10000) (guardedStore (Ftl.simLayout 0x10000).g)
            (Ftl.freeReclaim (Ftl.simLayout 0x10000) 4) 4 pageSectors) ⟨ftl, store, [], []⟩)
          fun _ _ _ => true) = true := by
    set_option maxRecDepth 100000 in decide +kernel
  have fits := ftlFitsUbi_simLayout
  obtain ⟨_, ftl, store, format, test⟩ := Code.returns_iff.mp run
  obtain ⟨facts, mounts⟩ := Bool.and_eq_true_iff.mp test
  obtain ⟨success, known⟩ := Bool.and_eq_true_iff.mp facts
  obtain rfl := of_decide_eq_true success
  obtain ⟨_, ftl₁, store₁, mount, sessions⟩ := Code.returns_iff.mp mounts
  obtain ⟨answers, ram, after, session, _⟩ := Code.returns_iff.mp sessions
  obtain ⟨device, mounted, implements⟩ :=
    fits.mounted format (Ftl.metaKnown_eq_true known) mount
  have related : FtlPages.Related
      (AtStage fun stage store device => Implements (Ftl.simLayout 0x10000).g stage device store)
      (⟨ftl₁, store₁, [], []⟩ : FtlPages Nat _) ⟨ftl₁, (store₁.1, device), [], []⟩ :=
    ⟨⟨rfl, implements⟩, rfl, rfl, rfl⟩
  obtain ⟨after', session', -⟩ := Prog.exec_of_matched
    (matchedBy_ftlPagesMachine (matchedBy_ubiMachine fits.supported fits.rounds)) related session
  have empty : HoldSectors (Ftl.simLayout 0x10000).g (fun _ => none)
      (sectorArray ([] : List (OnfmCall Nat))) := fun _ => rfl
  obtain ⟨_, _, pages, run', holds⟩ := onfmSession_onUbi fits (fun _ => rfl) mounted empty rfl
    (by decide) overBoundary_fits session'
  rw [List.append_nil] at holds
  exact ⟨after', pages, run', holds⟩

end OpenNfm
