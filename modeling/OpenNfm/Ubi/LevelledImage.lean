import OpenNfm.Ubi.CrashConsistency

/-!
# The logical image under wear levelling

Wear levelling copies a block page by page.  It copies blank pages as well,
which it finds as ones and programs as ones.  A block of which every page is
written reads as before and so does every other block; the blank pages of the
copied block are written afterwards.
-/

namespace OpenNfm

open OpenNfm.Program

variable {g : Geometry} {D : Type}

/-- `UBI_SWL` succeeds, every page reads as before, and every page that was blank
can still be written. -/
def SwlInvisible [Zero D] (g : Geometry) (fuel : Nat) (ram : UbiRam D)
    (state : Ideal (UbiBuffer D)) : Prop :=
  ∃ ram' after,
    ((ubiSwl g fuel).run ram).exec (idealMachine g) state = .ok ((.success, ram'), after) ∧
    (∀ block < g.ubiCapacity, ∀ page < g.pagePerPhyBlock,
      readBack g ram' after block page = readBack g ram state block page) ∧
    ∀ block < g.ubiCapacity, ∀ page < g.pagePerPhyBlock, ∀ answer,
      readBack g ram state block page = some answer → answer.status ≠ .success →
        ∀ (buffer : Buffer D) (spare : Spare) (async : Bool), ∃ ram'' final,
          ((ubiWrite g fuel block page (some buffer) (some spare) async).run ram').exec
            (idealMachine g) after = .ok ((.success, ram''), final)

/-- Every page of the block that is exchanged is written. -/
def ExchangesWritten (g : Geometry) (nand : Nand (UbiBuffer D)) (ram : UbiRam D) : Prop :=
  flashExchanges g nand ram = true → ∀ page < g.pagePerPhyBlock,
    nand (flashEntry g nand ram (flashLeastWorn g nand ram)).block page ≠ none

section Image

variable {fuel : Nat} {ram ram' : UbiRam D} {state after : Ideal (UbiBuffer D)}
  {view view' : UbiView} {store store' : Store D}

/-- A store whose written pages fill the block is not changed by the copy. -/
theorem Nand.fill_eq {B : Type} [PageContent B] {nand : Nand B} {block : Nat}
    (written : ∀ page < g.pagePerPhyBlock, nand block page ≠ none) (other : Nat) {page : Nat}
    (isPage : page < g.pagePerPhyBlock) : nand.fill g block other page = nand other page := by
  by_cases same : other = block
  · subst same
    obtain ⟨content, holds⟩ := Option.ne_none_iff_exists'.mp (written page isPage)
    rw [fill_some isPage holds, holds]
  · rw [Nand.fill, Function.update_of_ne same]

/-- Two states that hold the same pages read the same. -/
theorem UbiReady.readBack_congr [Zero D] (supported : g.Supported)
    (inv : UbiReady g state.nand ram view store) (inv' : UbiReady g after.nand ram' view' store')
    {block page : Nat} (isBlock : block < g.ubiCapacity) (isPage : page < g.pagePerPhyBlock)
    (same : store' block page = store block page) :
    readBack g ram' after block page = readBack g ram state block page := by
  rw [inv.readBack_eq supported isBlock isPage, inv'.readBack_eq supported isBlock isPage,
    Nand.answer, Nand.answer, same]

/-- A blank page can be written. -/
theorem UbiReady.writable (supported : g.Supported) (pos : 0 < fuel)
    (inv : UbiReady g state.nand ram view store) {block page : Nat}
    (isBlock : block < g.ubiCapacity) (isPage : page < g.pagePerPhyBlock)
    (blank : store block page = none) (buffer : Buffer D) (spare : Spare) (async : Bool) :
    ∃ ram' final, ((ubiWrite g fuel block page (some buffer) (some spare) async).run ram).exec
      (idealMachine g) state = .ok ((.success, ram'), final) := by
  have written : Code.wp (idealMachine g) (fun _ => True)
      (ubiWrite g fuel block page (some buffer) (some spare) async)
      (fun status _ _ => status = .success) ram state :=
    wp_ubiWrite supported pos inv isBlock isPage blank (by simp) (fun _ _ => trivial)
      fun _ _ _ => rfl
  obtain ⟨⟨status, ram'⟩, final, run, rfl⟩ := Prog.exec_of_wp written
  exact ⟨ram', final, run⟩

/-- A page that does not read with success is blank. -/
theorem UbiReady.blank_of_readBack [Zero D] (supported : g.Supported)
    (inv : UbiReady g state.nand ram view store) {block page : Nat}
    (isBlock : block < g.ubiCapacity) (isPage : page < g.pagePerPhyBlock)
    {answer : ReadAnswer (UbiBuffer D)} (read : readBack g ram state block page = some answer)
    (failed : answer.status ≠ .success) : store block page = none := by
  rw [inv.readBack_eq supported isBlock isPage, Option.some.injEq] at read
  subst read
  by_contra written
  exact failed (Nand.answer_success.mpr (Option.ne_none_iff_exists'.mp written))

/-- What wear levelling leaves: the same pages, or the copy of the exchanged
block. -/
theorem ubiSwl_ready (supported : g.Supported) (pos : 0 < fuel)
    (inv : UbiReady g state.nand ram view store) :
    ∃ ram' after view',
      ((ubiSwl g fuel).run ram).exec (idealMachine g) state = .ok ((.success, ram'), after) ∧
      (¬ Exchanges g ram view → UbiReady g after.nand ram' view' store) ∧
      (Exchanges g ram view → UbiReady g after.nand ram' view'
        (store.fill g (view.leastWorn g ram.anchorTable.swlCurrentArea))) := by
  have levelled : Code.wp (idealMachine g) (fun _ => True) (ubiSwl g fuel)
      (fun status ram' after => status = .success ∧ ∃ view',
        (¬ Exchanges g ram view → UbiReady g after.nand ram' view' store) ∧
        (Exchanges g ram view → UbiReady g after.nand ram' view'
          (store.fill g (view.leastWorn g ram.anchorTable.swlCurrentArea)))) ram state := by
    have unpicked : False → Exchanges g ram view → ∀ other ∈ commitPicks g (levelledRam g ram
        (view.leastWorn g ram.anchorTable.swlCurrentArea)
        (rawEntry g view (view.leastWorn g ram.anchorTable.swlCurrentArea))
        (mostWorn g ram.indexTable.free)), other ∈ view.free.map BlockEc.block := False.elim
    refine wp_ubiSwl supported pos inv unpicked (fun _ _ => trivial) ?_ ?_
    · intro stays ram' inv'
      exact ⟨rfl, view, fun _ => inv', fun exchanges => absurd exchanges stays⟩
    · intro exchanges nand ram' view' inv'
      exact ⟨rfl, view', fun stays => absurd exchanges stays, fun _ => inv'⟩
  obtain ⟨⟨status, ram'⟩, after, run, rfl, view', stays, moves⟩ := Prog.exec_of_wp levelled
  exact ⟨ram', after, view', run, stays, moves⟩

end Image

/-- Wear levelling is invisible exactly when it finds nothing to exchange or every
page of the exchanged block is written. -/
theorem ubiSwl_invisible_iff [Zero D] {fuel : Nat} {ram : UbiRam D}
    {state : Ideal (UbiBuffer D)} (supported : g.Supported) (pos : 0 < fuel)
    (reached : Reached g fuel ram state) :
    SwlInvisible g fuel ram state ↔ ExchangesWritten g state.nand ram := by
  obtain ⟨view, store, inv⟩ := reached.ready supported pos
  have committed := inv.committed
  have exchangesIs := committed.flashExchanges_iff supported
  have areaIs := (leastWorn_area supported view ram.anchorTable.swlCurrentArea).1
  have entry : flashEntry g state.nand ram (flashLeastWorn g state.nand ram) =
      rawEntry g view (view.leastWorn g ram.anchorTable.swlCurrentArea) := by
    rw [committed.flashLeastWorn_eq, committed.flashEntry_eq
      (areaIs.symm ▸ committed.ready.anchor.swl)]
  obtain ⟨ram', after, view', run, stays, moves⟩ := ubiSwl_ready supported pos inv
  unfold ExchangesWritten
  rw [exchangesIs, entry]
  by_cases exchanges : Exchanges g ram view
  · have inv' := moves exchanges
    have isBlock := leastWorn_lt supported committed.maps committed.ready.anchor.swl exchanges
    have content := (committed.data supported isBlock).2.2.2
    simp only [content]
    generalize view.leastWorn g ram.anchorTable.swlCurrentArea = worn at *
    constructor
    · rintro ⟨ram₂, after₂, run₂, same, -⟩ _ page isPage blank
      obtain ⟨sameRam, rfl⟩ := Prod.mk.inj (Except.ok.inj (run.symm.trans run₂))
      obtain ⟨-, rfl⟩ := Prod.mk.inj sameRam
      -- the blank page of the copied block reads with success now
      have filled : store.fill g worn worn page = some (copiedPage (store worn page)) := by
        rw [Nand.fill, Function.update_self, if_pos isPage]
      have read := same worn isBlock page isPage
      rw [inv.readBack_eq supported isBlock isPage, inv'.readBack_eq supported isBlock isPage,
        Nand.answer, Nand.answer, filled, blank] at read
      simp at read
    · intro written
      have same : ∀ other, ∀ page < g.pagePerPhyBlock,
          store.fill g worn other page = store other page :=
        fun other _ isPage => Nand.fill_eq (written exchanges) other isPage
      refine ⟨ram', after, run, fun block isBlock page isPage => ?_, ?_⟩
      · exact inv.readBack_congr supported inv' isBlock isPage (same block page isPage)
      · intro block isBlock page isPage answer read failed buffer spare async
        have blank := inv.blank_of_readBack supported isBlock isPage read failed
        exact inv'.writable supported pos isBlock isPage ((same block page isPage).trans blank)
          buffer spare async
  · have inv' := stays exchanges
    refine ⟨fun _ impossible => absurd impossible exchanges, fun _ => ?_⟩
    refine ⟨ram', after, run, fun block isBlock page isPage => ?_, ?_⟩
    · exact inv.readBack_congr supported inv' isBlock isPage rfl
    · intro block isBlock page isPage answer read failed buffer spare async
      have blank := inv.blank_of_readBack supported isBlock isPage read failed
      exact inv'.writable supported pos isBlock isPage blank buffer spare async

/-- One die, and wear levelling when erase counts are two apart. -/
def eagerDie : Geometry := { oneDie with staticWlThreshold := 1 }

/-- Block 0 is erased nine times, and block 1 is written from end to end. -/
def eraseAndFill : List (UbiOp Nat) :=
  List.replicate 9 (UbiOp.erase 0 0) ++ (List.range eagerDie.pagePerPhyBlock).map
    fun page => .write 1 page ⟨page, .data (page + 1)⟩ (some ⟨page, 0⟩) false

/-- Wear levelling exchanges block 1, which is full. -/
theorem ubiSwl_invisible_eagerDie :
    ∃ (ram : UbiRam Nat) (state : Ideal (UbiBuffer Nat)), Reached eagerDie 1 ram state ∧
      flashExchanges eagerDie state.nand ram = true ∧
      flashLeastWorn eagerDie state.nand ram = 1 ∧ SwlInvisible eagerDie 1 ram state := by
  have run : Code.returns (afterFormat eagerDie (mountAndCall eagerDie 1 0 []))
      (fun _ ram state => fittingCalls eagerDie 1 (fun ram state =>
        flashExchanges eagerDie state.nand ram &&
          decide (flashLeastWorn eagerDie state.nand ram = 1) &&
          (List.range eagerDie.pagePerPhyBlock).all fun page =>
            (state.nand (flashEntry eagerDie state.nand ram
              (flashLeastWorn eagerDie state.nand ram)).block page).isSome)
        eraseAndFill ram state) = true := by
    set_option maxRecDepth 100000 in decide +kernel
  obtain ⟨_, ram₀, state₀, ran, run⟩ := Code.returns_iff.mp run
  have start := reached_afterFormat (by decide) Nat.one_pos (by simp) ran
  obtain ⟨ram, state, reached, run⟩ := start.fittingCalls run
  simp only [Bool.and_eq_true, decide_eq_true_eq, List.all_eq_true, List.mem_range] at run
  obtain ⟨⟨exchanges, isOne⟩, full⟩ := run
  refine ⟨ram, state, reached, exchanges, isOne,
    (ubiSwl_invisible_iff (by decide) Nat.one_pos reached).mpr ?_⟩
  intro _ page isPage
  exact Option.isSome_iff_ne_none.mp (full page isPage)

/-- After nine erases of block 0 wear levelling copies a blank block, and the
pages that did not read before read with success. -/
theorem ubiSwl_programs_blank_pages :
    ∃ (ram : UbiRam Nat) (state : Ideal (UbiBuffer Nat)), Reached eagerDie 1 ram state ∧
      ∃ ram' after block page, block < eagerDie.ubiCapacity ∧ page < eagerDie.pagePerPhyBlock ∧
        ((ubiSwl eagerDie 1).run ram).exec (idealMachine eagerDie) state =
          .ok ((.success, ram'), after) ∧
        (readBack eagerDie ram state block page).map ReadAnswer.status = some .failure ∧
        (readBack eagerDie ram' after block page).map ReadAnswer.status = some .success := by
  have run : Code.returns (afterFormat eagerDie
        (mountAndCall eagerDie 1 0 (List.replicate 9 (UbiOp.erase 0 0))))
      (fun _ ram state => Code.returns
        (((ubiSwl eagerDie 1).run ram).exec (idealMachine eagerDie) state)
        fun status ram' after => decide (status = .success ∧
          (readBack eagerDie (ram : UbiRam Nat) state 1 0).map ReadAnswer.status =
            some .failure ∧
          (readBack eagerDie ram' after 1 0).map ReadAnswer.status = some .success)) = true := by
    set_option maxRecDepth 100000 in decide +kernel
  obtain ⟨_, ram, state, ran, copies⟩ := Code.returns_iff.mp run
  obtain ⟨_, ram', after, levelled, reads⟩ := Code.returns_iff.mp copies
  obtain ⟨rfl, failed, success⟩ := of_decide_eq_true reads
  have fits : ∀ nand (ram : UbiRam Nat), (UbiOp.erase 0 0).Fits eagerDie nand ram :=
    fun _ _ => show 0 < eagerDie.ubiCapacity by decide
  have reached := reached_afterFormat (by decide) Nat.one_pos
    (fun op inside => (List.eq_of_mem_replicate inside) ▸ fits) ran
  exact ⟨ram, state, reached, ram', after, 1, 0, by decide, by decide, levelled, failed, success⟩

end OpenNfm
