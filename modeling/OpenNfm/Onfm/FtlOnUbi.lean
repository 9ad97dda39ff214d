import OpenNfm.Onfm.StoreOnUbi

/-!
# The FTL on the UBI layer

Runs of the FTL whose calls are answered by the code of the UBI layer, on a device without failures.
Each is a run on the store, so both layers together answer like an array of pages.
-/

namespace OpenNfm

open OpenNfm.Program

/-! ## The roots behind a format -/

namespace Ftl

variable {l : Layout} {D : Type} {ram : FtlRam} {store : UbiStore D}

/-- A root that does not turn to the other block leaves it alone. -/
theorem onReturn_rootCommit_other {other : Nat} (room : ram.rootCurrentPage ≠ l.pagePerPhyBlock)
    (different : other ≠ ram.rootCurrentBlock) :
    OnReturn l (rootCommit l) (fun _ _ after => after.pages other = store.pages other) ram
      store := by
  rw [rootCommit, OnReturn.bind, OnReturn.get, OnReturn.bind, turnLog, if_neg room, OnReturn.pure,
    onSuccess_success, OnReturn.bind, OnReturn.modifies, OnReturn.bind, OnReturn.get, OnReturn.bind]
  refine OnReturn.write fun _ _ _ => ?_
  rw [onSuccess_success, OnReturn.bind, OnReturn.modifies, OnReturn.pure]
  exact funext fun page => Nand.program_other _ _ _ _ different

theorem onReturn_rootFormat_second (pages : 0 < l.pagePerPhyBlock) :
    OnReturn l (rootFormat l) (fun _ _ after =>
      after.pages Layout.rootBlock1 = store.pages Layout.rootBlock1) ram store := by
  have different : Layout.rootBlock1 ≠ Layout.rootBlock0 := by decide
  rw [rootFormat, OnReturn.bind, OnReturn.modifies, OnReturn.bind]
  refine OnReturn.erase fun _ => ?_
  rw [onSuccess_success]
  refine (onReturn_rootCommit_other pages.ne different).mono fun _ _ after same => ?_
  exact same.trans (funext fun page => Nand.erase_other _ page different)

/-- A format of an erased device leaves the second root block erased. -/
theorem onReturn_ftlFormat_ordered (fits : l.Fits) (three : ThreeTables l)
    (blank : BlankStore store) :
    OnReturn l (ftlFormat l) (fun ret _ after => ret = .success → RootsOrdered l after) ram
      store := by
  have apart : ∀ pair < 3, ∀ block, InPair pair block → ¬ Behind block :=
    fun _ isTable _ inPair => not_past inPair isTable
  have fromData : ∀ block, FromData l block → Behind block := fun block =>
    Nat.le_trans (Nat.le_add_right _ _)
  simp only [ftlFormat, OnReturn, Code.spec_bind, spec_ubiFormat, onSuccess_success, spec_ubiInit]
  refine ⟨trivial, trivial, onReturn_dataFormat fun ram₁ store₁ _ within₁ => ?_⟩
  have blank₁ : ∀ pair < 3, BlankPair store₁ pair := fun pair isTable =>
    BlankPair.within (fun block _ => blank.pages block) (within₁.mono fromData) (apart pair isTable)
  rw [onSuccess_success]
  refine onReturn_hdiFormat fits (blank₁ 2 (by omega)) fun ram₂ store₂ _ _ within₂ => ?_
  have blank₂ : ∀ pair < 2, BlankPair store₂ pair := fun pair isTable =>
    (blank₁ pair (by omega)).within within₂ (pairs_apart (by omega))
  rw [onSuccess_success]
  refine onReturn_pmtFormat fits fun ret ram₃ store₃ _ within₃ _ => ?_
  have blank₃ : ∀ pair < 2, BlankPair store₃ pair := fun pair isTable =>
    (blank₂ pair isTable).within within₃ (apart pair (by omega))
  by_cases success : ret = .success
  · rw [success, onSuccess_success]
    refine onReturn_bdtFormat fits three (blank₃ 0 (by omega)) fun ram₄ store₄ _ _ within₄ => ?_
    have blank₄ : BlankPair store₄ 1 :=
      (blank₃ 1 (by omega)).within within₄ (pairs_apart (by omega))
    have second : InPair 1 Layout.rootBlock1 := by decide
    rw [onSuccess_success]
    refine (onReturn_rootFormat_second l.g.pagePerPhyBlock_pos).mono fun _ _ after same _ => ?_
    exact Or.inl ⟨Layout.rootBlock1, second, (congrFun same 0).trans (blank₄ _ second 0)⟩
  · simp only [onSuccess_other success, Code.spec_pure]
    exact ⟨trivial, trivial, fun wrong => absurd wrong success⟩

end Ftl

/-! ## Runs on the store and on the device -/

/-- The sizes of the FTL, on the log blocks that the UBI layer has. -/
structure FtlFitsUbi (l : Ftl.Layout) (ubiFuel : Nat) : Prop where
  fit : l.DataFits
  three : Ftl.ThreeTables l
  supported : l.g.Supported
  capacity : l.capacity = l.g.ubiCapacity
  rounds : 0 < ubiFuel

/-- A format and a mount of a device that is blank or had a format before, and then any calls, with
the array of pages that the calls make.  Each call of the FTL to the UBI layer is one of its
code. -/
inductive FtlOnUbi {D : Type} [Zero D] (l : Ftl.Layout) (reclaim : Ftl.FtlCode D Status)
    (fuel ubiFuel : Nat) (zero : D) : Ftl.FtlRam → UbiStage × UbiDevice D → (Nat → Option D) → Prop
  | mount {ram formatted lost ram' : Ftl.FtlRam} {ubi : UbiRam (Ftl.FtlPage D)}
      {state : Ideal (UbiBuffer (Ftl.FtlPage D))} {mid after : UbiStage × UbiDevice D}
        {ret : Status}
      (formattable : Formattable l.g state.nand)
      (slots : ∀ slot, (ubi.diceHold slot).logBlock < l.g.ubiCapacity)
      (format : ((Ftl.ftlFormat l).run ram).exec (ubiMachine l.g ubiFuel) (.erased, ubi, state) =
        .ok ((.success, formatted), mid))
      (isKnown : Ftl.MetaKnown l formatted.rootTable lost)
      (run : ((Ftl.ftlInit l fuel).run lost).exec (ubiMachine l.g ubiFuel) mid =
        .ok ((ret, ram'), after)) :
      FtlOnUbi l reclaim fuel ubiFuel zero ram' after fun _ => none
  | call {ram ram' : Ftl.FtlRam} {device after : UbiStage × UbiDevice D} {pages : Nat → Option D}
      {call : Ftl.FtlCall D} {answer : Ftl.FtlAnswer D}
      (earlier : FtlOnUbi l reclaim fuel ubiFuel zero ram device pages)
      (inRange : call.InRange l)
      (run : ((call.code l reclaim fuel zero).run ram).exec (ubiMachine l.g ubiFuel) device =
        .ok ((answer, ram'), after)) :
      FtlOnUbi l reclaim fuel ubiFuel zero ram' after (call.apply pages)

section Runs

variable {D : Type} [Zero D] {l : Ftl.Layout} {fuel ubiFuel : Nat} {zero : D}
  {reclaim reclaim' : Ftl.FtlCode D Status} {ram ram' : Ftl.FtlRam}
  {device after : UbiStage × UbiDevice D} {store : Ftl.UbiStore D} {pages : Nat → Option D}
  {call : Ftl.FtlCall D} {answer : Ftl.FtlAnswer D}

/-- Code that returns on the device returns the same on the store. -/
theorem FtlFitsUbi.exec_onStore {α : Type} {code : Ftl.FtlCode D α} {value : α}
    (fits : FtlFitsUbi l ubiFuel)
    (run : (code.run ram).exec (ubiMachine l.g ubiFuel) device = .ok ((value, ram'), after))
    (implements : Implements l.g device.1 device.2 store) :
    ∃ store', (code.run ram).exec (Ftl.storeMachine l.g l.capacity) store =
      .ok ((value, ram'), store') ∧ Implements l.g after.1 after.2 store' := by
  obtain ⟨store', guardedRun, implements'⟩ := implements.onStore fits.supported fits.rounds run
  obtain ⟨_, storeRun, rfl⟩ := Prog.exec_of_matched matchedBy_unguarded rfl guardedRun
  rw [fits.capacity]
  exact ⟨store', storeRun, implements'⟩

theorem FtlOnUbi.agrees (agrees : ∀ {E : Type} (machine : Machine (Ftl.UbiOp D) (Ftl.UbiAns D) E),
    Code.Agrees machine reclaim reclaim')
      (run : FtlOnUbi l reclaim fuel ubiFuel zero ram device pages) :
    FtlOnUbi l reclaim' fuel ubiFuel zero ram device pages := by
  induction run with
  | mount formattable slots format isKnown run => exact .mount formattable slots format isKnown run
  | call earlier inRange run ih =>
      exact ih.call inRange (Ftl.agrees_code (agrees _) _ _ _ run)

/-- Each run on the device is one on the store, which the device implements. -/
theorem FtlOnUbi.onStore (fits : FtlFitsUbi l ubiFuel)
    (run : FtlOnUbi l reclaim fuel ubiFuel zero ram device pages) :
    ∃ store, Ftl.FtlRun l reclaim fuel zero ram store pages ∧
      Implements l.g device.1 device.2 store := by
  induction run with
  | mount formattable slots format isKnown run =>
      rename_i _ _ _ _ ubi state _ _ _
      have start : Implements l.g .erased (ubi, state)
          ⟨fun _ _ => none, [], state.polls.map pollStatus⟩ := ⟨⟨formattable, rfl⟩, rfl, slots⟩
      have blank : Ftl.BlankStore (D := D) ⟨fun _ _ => none, [], state.polls.map pollStatus⟩ :=
        ⟨fun _ _ => rfl, rfl⟩
      obtain ⟨mid, format', implements⟩ := fits.exec_onStore format start
      have ordered := (Ftl.onReturn_ftlFormat_ordered fits.fit.toFits fits.three
        blank).of_run format' rfl
      have formatted := (Ftl.onReturn_ftlFormat_formatted fits.fit fits.three blank).of_run
        format' rfl
      obtain ⟨store, run', implements'⟩ := fits.exec_onStore run implements
      refine ⟨store, .mount blank format' ordered (fun root isLast => ?_) run', implements'⟩
      obtain rfl := Option.some.inj (isLast.symm.trans formatted.last)
      exact isKnown
  | call earlier inRange run ih =>
      obtain ⟨store, earlier', implements⟩ := ih
      obtain ⟨store', run', implements'⟩ := fits.exec_onStore run implements
      exact ⟨store', earlier'.call inRange run', implements'⟩

theorem FtlOnUbi.answers (fits : FtlFitsUbi l ubiFuel)
    (run : FtlOnUbi l (Ftl.freeReclaim l fuel) fuel ubiFuel zero ram device pages)
    (inRange : call.InRange l)
    (exec : ((call.code l (Ftl.freeReclaim l fuel) fuel zero).run ram).exec
      (ubiMachine l.g ubiFuel) device = .ok ((answer, ram'), after)) :
    answer = call.answer zero pages := by
  obtain ⟨store, run', implements⟩ := run.onStore fits
  obtain ⟨store', exec', -⟩ := fits.exec_onStore exec implements
  exact run'.answers fits.fit fits.three inRange exec'

/-- Every call on the UBI layer that returns answers like an array of pages. -/
theorem ftlOnUbi_refines (fits : FtlFitsUbi l ubiFuel)
    (run : FtlOnUbi l (Ftl.freeReclaim l fuel) fuel ubiFuel zero ram device pages)
    (inRange : call.InRange l)
    (exec : ((call.code l (Ftl.freeReclaim l fuel) fuel zero).run ram).exec
      (ubiMachine l.g ubiFuel) device = .ok ((answer, ram'), after)) :
    FtlOnUbi l (Ftl.pmtReclaimBlocks l fuel) fuel ubiFuel zero ram' after (call.apply pages) ∧
      answer = call.answer zero pages :=
  ⟨(run.call inRange exec).agrees fun _ => Ftl.agrees_reclaimWhere, run.answers fits inRange exec⟩

end Runs

/-! ## Runs on the simulated device -/

theorem ftlFitsUbi_simLayout : FtlFitsUbi (Ftl.simLayout 0x10000) 1 where
  fit := Ftl.dataFits_simLayout
  three := Ftl.threeTables_simLayout
  supported := by decide
  capacity := by decide
  rounds := Nat.one_pos

/-- A format and a mount on the store are a run on the device. -/
theorem FtlFitsUbi.mounted {D : Type} [Zero D] {l : Ftl.Layout} {fuel ubiFuel : Nat} {zero : D}
    {reclaim : Ftl.FtlCode D Status} {formatted ram : Ftl.FtlRam} {ret : Status}
    {mid after : UbiStage × Ftl.UbiStore D} (fits : FtlFitsUbi l ubiFuel)
    (format : ((Ftl.ftlFormat l).run .reset).exec (guardedStore l.g) (.erased, .erased) =
      .ok ((.success, formatted), mid))
    (isKnown : Ftl.MetaKnown l formatted.rootTable formatted)
    (run : ((Ftl.ftlInit l fuel).run formatted).exec (guardedStore l.g) mid =
      .ok ((ret, ram), after)) :
    ∃ device, FtlOnUbi l reclaim fuel ubiFuel zero ram (after.1, device) (fun _ => none) ∧
      Implements l.g after.1 device after.2 := by
  have start := implements_blank (D := D) fits.supported []
  obtain ⟨device, format', implements⟩ := start.onDevice fits.supported fits.rounds format
  obtain ⟨device', run', implements'⟩ := implements.onDevice fits.supported fits.rounds run
  have slots : ∀ slot, ((UbiRam.reset (Ftl.FtlPage D)).diceHold slot).logBlock < l.g.ubiCapacity :=
    start.slots
  exact ⟨device', .mount (.inl fun _ _ => rfl) slots format' isKnown run', implements'⟩

/-- The page that was written through both layers is read. -/
theorem ftlOnUbi_refines_simLayout :
    ∃ ram device, FtlOnUbi (Ftl.simLayout 0x10000)
      (Ftl.pmtReclaimBlocks (Ftl.simLayout 0x10000) 4) 4
        1 0 ram device ((Ftl.FtlCall.read 3).apply ((Ftl.FtlCall.write 3 7).apply fun _ => none)) ∧
      (Ftl.FtlAnswer.page .success (.data 7) : Ftl.FtlAnswer Nat) =
        (Ftl.FtlCall.read 3).answer 0 ((Ftl.FtlCall.write 3 7).apply fun _ => none) := by
  have run : Code.returns (((Ftl.ftlFormat (Ftl.simLayout 0x10000)).run .reset).exec
      (guardedStore (Ftl.simLayout 0x10000).g) (.erased, (.erased : Ftl.UbiStore Nat)))
      (fun ret ram store => decide (ret = .success) &&
        Ftl.metaKnown (Ftl.simLayout 0x10000) ram.rootTable ram &&
        Code.returns (((Ftl.ftlInit (Ftl.simLayout 0x10000) 4).run ram).exec
          (guardedStore (Ftl.simLayout 0x10000).g) store) fun _ ram store =>
        Code.returns ((((Ftl.FtlCall.write 3 7).code (Ftl.simLayout 0x10000)
          (Ftl.freeReclaim (Ftl.simLayout 0x10000) 4) 4 0).run ram).exec
          (guardedStore (Ftl.simLayout 0x10000).g) store) fun _ ram store =>
        Code.returns ((((Ftl.FtlCall.read 3).code (Ftl.simLayout 0x10000)
          (Ftl.freeReclaim (Ftl.simLayout 0x10000) 4) 4 0).run ram).exec
          (guardedStore (Ftl.simLayout 0x10000).g) store) fun _ _ _ => true) = true := by
    set_option maxRecDepth 100000 in decide +kernel
  have fits := ftlFitsUbi_simLayout
  obtain ⟨_, ram, store, format, test⟩ := Code.returns_iff.mp run
  obtain ⟨facts, mounts⟩ := Bool.and_eq_true_iff.mp test
  obtain ⟨success, known⟩ := Bool.and_eq_true_iff.mp facts
  obtain rfl := of_decide_eq_true success
  obtain ⟨_, ram₁, store₁, mount, writes⟩ := Code.returns_iff.mp mounts
  obtain ⟨_, ram₂, store₂, write, reads⟩ := Code.returns_iff.mp writes
  obtain ⟨answer, ram₃, store₃, read, _⟩ := Code.returns_iff.mp reads
  obtain ⟨device₁, mounted, implements₁⟩ :=
    fits.mounted format (Ftl.metaKnown_eq_true known) mount
  obtain ⟨device₂, write', implements₂⟩ := implements₁.onDevice fits.supported fits.rounds write
  obtain ⟨device₃, read', -⟩ := implements₂.onDevice fits.supported fits.rounds read
  have isPage : (Ftl.FtlCall.write 3 7 : Ftl.FtlCall Nat).InRange (Ftl.simLayout 0x10000) := by
    unfold Ftl.FtlCall.InRange
    decide
  have isPage' : (Ftl.FtlCall.read 3 : Ftl.FtlCall Nat).InRange (Ftl.simLayout 0x10000) := by
    unfold Ftl.FtlCall.InRange
    decide
  exact ⟨ram₃, _, (ftlOnUbi_refines fits (mounted.call isPage write') isPage' read').1, rfl⟩

end OpenNfm
