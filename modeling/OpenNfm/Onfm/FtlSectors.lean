import OpenNfm.Program.Simulation
import OpenNfm.Onfm.Refinement
import OpenNfm.Ftl.DataRuns

/-!
# The sector layer on the FTL

The sector layer is proved on an array of pages, and the FTL answers like one.  Put together,
sectors that are written through the write buffer, the journals, the reclaims and the tables are
read as they were written last.
-/

namespace OpenNfm

open OpenNfm.Program

variable {S : Type} [Zero S]

/-! ## The FTL for the sector layer -/

/-- The FTL and what is below it, and the pool buffers that are held there, which come back as for
an array of pages. -/
structure FtlPages (S E : Type) where
  ftl : Ftl.FtlRam
  store : E
  held : List Nat
  releases : List (List Nat)

section Layer

variable {E : Type}

/-- An array of pages with the same buffers. -/
def FtlPages.withPages (state : FtlPages S E) (pages : Nat → Nat → S) : PageStore S :=
  ⟨pages, state.held, state.releases⟩

/-- The same but for what is below the FTL. -/
def FtlPages.Related {E' : Type} (related : E → E' → Prop) (state : FtlPages S E)
    (state' : FtlPages S E') : Prop :=
  related state.store state'.store ∧ state.ftl = state'.ftl ∧ state.held = state'.held ∧
    state.releases = state'.releases

/-- The calls of the sector layer to the FTL, whose own calls the machine answers.  `bytes` is what
the content of a page reads as. -/
def ftlPagesMachine (l : Ftl.Layout)
    (machine : Machine (Ftl.UbiOp (Nat → S)) (Ftl.UbiAns (Nat → S)) E)
    (reclaim : Ftl.FtlCode (Nat → S) Status) (fuel : Nat)
    (bytes : Ftl.FtlPage (Nat → S) → Nat → S) : Machine (FtlOp S) (FtlAns S) (FtlPages S E)
  | state, .read page =>
      match ((Ftl.ftlReadWith l reclaim 0 page).run state.ftl).exec machine state.store with
      | .ok (((ret, content), ftl), store) =>
          .ok ((ret, bytes content, []), { state with ftl := ftl, store := store })
      | .error reason => .error reason
  | state, .write page source content =>
      match ((Ftl.ftlWriteWith l reclaim fuel page (some content)).run state.ftl).exec machine
        state.store with
      | .ok ((ret, ftl), store) =>
          .ok ((ret, (state.withPages fun _ => 0).released l.g source),
            ⟨ftl, store, (state.withPages fun _ => 0).kept l.g source, state.releases.tail⟩)
      | .error reason => .error reason

/-! ## The array of pages -/

/-- The calls of the FTL that return answer like an array of pages, in the states that are
reached. -/
def KeepsPages (l : Ftl.Layout) (machine : Machine (Ftl.UbiOp (Nat → S)) (Ftl.UbiAns (Nat → S)) E)
    (reclaim : Ftl.FtlCode (Nat → S) Status) (fuel : Nat)
    (reached : Ftl.FtlRam → E → (Nat → Option (Nat → S)) → Prop) : Prop :=
  ∀ ram store pages (call : Ftl.FtlCall (Nat → S)) answer ram' after, reached ram store pages →
    call.InRange l →
      ((call.code l reclaim fuel 0).run ram).exec machine store = .ok ((answer, ram'), after) →
        answer = call.answer 0 pages ∧ reached ram' after (call.apply pages)

/-- The array has the pages of a state that is reached. -/
def RunsTo (reached : Ftl.FtlRam → E → (Nat → Option (Nat → S)) → Prop) (state : FtlPages S E)
    (array : PageStore S) : Prop :=
  ∃ pages, reached state.ftl state.store pages ∧
    array = state.withPages fun page => (pages page).getD 0

end Layer

section Machine

variable {E E' : Type} {l : Ftl.Layout} {fuel : Nat} {bytes : Ftl.FtlPage (Nat → S) → Nat → S}
  {machine : Machine (Ftl.UbiOp (Nat → S)) (Ftl.UbiAns (Nat → S)) E}
  {reclaim reclaim' : Ftl.FtlCode (Nat → S) Status}
  {reached : Ftl.FtlRam → E → (Nat → Option (Nat → S)) → Prop}

/-- The machine does the same with a reclaim that stops less often. -/
theorem extends_ftlPagesMachine (agrees : Code.Agrees machine reclaim reclaim') :
    Extends (ftlPagesMachine l machine reclaim fuel bytes)
      (ftlPagesMachine l machine reclaim' fuel bytes) := by
  intro state op result step
  cases op with
  | read page =>
      cases run : ((Ftl.ftlReadWith l reclaim 0 page).run state.ftl).exec machine state.store with
      | error reason => simp [ftlPagesMachine, run] at step
      | ok read =>
          have run' := Ftl.agrees_ftlReadWith agrees _ _ _ run
          simp only [ftlPagesMachine, run] at step
          simp only [ftlPagesMachine, run', step]
  | write page source content =>
      cases run : ((Ftl.ftlWriteWith l reclaim fuel page (some content)).run state.ftl).exec machine
        state.store with
      | error reason => simp [ftlPagesMachine, run] at step
      | ok written =>
          have run' := Ftl.agrees_ftlWriteWith agrees _ _ _ run
          simp only [ftlPagesMachine, run] at step
          simp only [ftlPagesMachine, run', step]

/-- The FTL on a machine is matched by the FTL on a machine that matches. -/
theorem matchedBy_ftlPagesMachine {related : E → E' → Prop}
    {other : Machine (Ftl.UbiOp (Nat → S)) (Ftl.UbiAns (Nat → S)) E'}
    (isMatched : MatchedBy related machine other) :
    MatchedBy (FtlPages.Related related) (ftlPagesMachine l machine reclaim fuel bytes)
      (ftlPagesMachine l other reclaim fuel bytes) := by
  rintro ⟨ftl, store, held, releases⟩ ⟨_, store', _, _⟩ op answer after ⟨isRelated, rfl,
    rfl, rfl⟩ step
  cases op with
  | read page =>
      cases run : ((Ftl.ftlReadWith l reclaim 0 page).run ftl).exec machine store with
      | error reason => simp [ftlPagesMachine, run] at step
      | ok read =>
          obtain ⟨⟨⟨ret, content⟩, ftl'⟩, mid⟩ := read
          obtain ⟨mid', run', isRelated'⟩ := Prog.exec_of_matched isMatched isRelated run
          simp only [ftlPagesMachine, run] at step
          obtain ⟨rfl, rfl⟩ := Prod.mk.inj (Except.ok.inj step)
          refine ⟨⟨ftl', mid', held, releases⟩, ?_, isRelated', rfl, rfl, rfl⟩
          simp only [ftlPagesMachine, run']
  | write page source content =>
      cases run : ((Ftl.ftlWriteWith l reclaim fuel page (some content)).run ftl).exec machine
        store with
      | error reason => simp [ftlPagesMachine, run] at step
      | ok written =>
          obtain ⟨⟨ret, ftl'⟩, mid⟩ := written
          obtain ⟨mid', run', isRelated'⟩ := Prog.exec_of_matched isMatched isRelated run
          simp only [ftlPagesMachine, run] at step
          obtain ⟨rfl, rfl⟩ := Prod.mk.inj (Except.ok.inj step)
          refine ⟨⟨ftl', mid', (PageStore.mk (fun _ => 0) held releases).kept l.g source,
            releases.tail⟩, ?_, isRelated', rfl, rfl, rfl⟩
          simp only [ftlPagesMachine, run']
          rfl

section Calls

variable {ftl ftl' : Ftl.FtlRam} {store store' : E} {ret : Status}
  {pages : Nat → Option (Nat → S)} {page : Nat}

/-- What a read of a logical page returns. -/
theorem KeepsPages.read {content : Ftl.FtlPage (Nat → S)}
    (keeps : KeepsPages l machine reclaim fuel reached) (isReached : reached ftl store pages)
    (isPage : page < l.ftlCapacity)
    (exec : ((Ftl.ftlReadWith l reclaim 0 page).run ftl).exec machine store =
      .ok (((ret, content), ftl'), store')) :
    reached ftl' store' pages ∧ ret = .success ∧ content = .data ((pages page).getD 0) := by
  have inRange : (Ftl.FtlCall.read page : Ftl.FtlCall (Nat → S)).InRange l := isPage
  have called : (((Ftl.FtlCall.read page).code l reclaim fuel 0).run ftl).exec machine store =
      .ok ((.page ret content, ftl'), store') := Code.exec_bind_of_ok exec
  obtain ⟨isAnswer, isReached'⟩ := keeps _ _ _ _ _ _ _ isReached inRange called
  obtain ⟨isSuccess, isContent⟩ := Ftl.FtlAnswer.page.inj isAnswer
  exact ⟨isReached', isSuccess, isContent⟩

theorem KeepsPages.written {content : Nat → S}
    (keeps : KeepsPages l machine reclaim fuel reached) (isReached : reached ftl store pages)
    (isPage : page < l.ftlCapacity)
    (exec : ((Ftl.ftlWriteWith l reclaim fuel page (some content)).run ftl).exec machine store =
      .ok ((ret, ftl'), store')) :
    reached ftl' store' (Function.update pages page (some content)) ∧ ret = .success := by
  have inRange : (Ftl.FtlCall.write page content).InRange l := isPage
  have called : (((Ftl.FtlCall.write page content).code l reclaim fuel 0).run ftl).exec machine
      store = .ok ((.done ret, ftl'), store') := Code.exec_bind_of_ok exec
  obtain ⟨isAnswer, isReached'⟩ := keeps _ _ _ _ _ _ _ isReached inRange called
  exact ⟨isReached', Ftl.FtlAnswer.done.inj isAnswer⟩

end Calls

omit [Zero S] in
theorem storeMachine_read {pageCount page : Nat} {array after : PageStore S}
    {answer : FtlAns S (.read page)}
    (step : storeMachine l.g pageCount array (.read page) = .ok (answer, after)) :
    page < pageCount ∧ answer = (.success, array.pages page, []) ∧ after = array := by
  by_cases isPage : page < pageCount
  · have answered : storeMachine l.g pageCount array (.read page) = _ := if_pos isPage
    obtain ⟨rfl, rfl⟩ := Prod.mk.inj (Except.ok.inj (step.symm.trans answered))
    exact ⟨isPage, rfl, rfl⟩
  · have stops : storeMachine l.g pageCount array (.read page) = _ := if_neg isPage
    cases step.symm.trans stops

omit [Zero S] in
theorem storeMachine_write {pageCount page : Nat} {source : PageSource} {content : Nat → S}
    {array after : PageStore S} {answer : FtlAns S (.write page source content)}
    (step : storeMachine l.g pageCount array (.write page source content) = .ok (answer, after)) :
    page < pageCount ∧ answer = (.success, array.released l.g source) ∧
      after = array.write l.g page source content := by
  by_cases isPage : page < pageCount
  · have answered : storeMachine l.g pageCount array (.write page source content) = _ :=
      if_pos isPage
    obtain ⟨rfl, rfl⟩ := Prod.mk.inj (Except.ok.inj (step.symm.trans answered))
    exact ⟨isPage, rfl, rfl⟩
  · have stops : storeMachine l.g pageCount array (.write page source content) = _ := if_neg isPage
    cases step.symm.trans stops

/-- A write to the pages that have data is one to the array. -/
theorem update_getD {pages : Nat → Option (Nat → S)} {page : Nat} {content : Nat → S} :
    Function.update (fun page => (pages page).getD 0) page content =
      fun other => (Function.update pages page (some content) other).getD 0 :=
  (Function.comp_update (fun content : Option (Nat → S) => content.getD 0) pages page
    (some content)).symm

/-- The FTL simulates the array of pages. -/
theorem KeepsPages.simulates (keeps : KeepsPages l machine reclaim fuel reached)
    (readsBack : ∀ content, bytes (.data content) = content) :
    Simulates (RunsTo reached) (ftlPagesMachine l machine reclaim fuel bytes)
      (storeMachine l.g l.ftlCapacity) := by
  rintro state array op answer after answer' after' ⟨pages, isReached, rfl⟩ step step'
  cases op with
  | read page =>
      obtain ⟨isPage, rfl, rfl⟩ := storeMachine_read step'
      cases exec : ((Ftl.ftlReadWith l reclaim 0 page).run state.ftl).exec machine state.store with
      | error reason => simp [ftlPagesMachine, exec] at step
      | ok read =>
          obtain ⟨⟨⟨ret, content⟩, ftl⟩, store⟩ := read
          simp only [ftlPagesMachine, exec] at step
          obtain ⟨rfl, rfl⟩ := Prod.mk.inj (Except.ok.inj step)
          obtain ⟨isReached', rfl, rfl⟩ := keeps.read isReached isPage exec
          refine ⟨?_, pages, isReached', rfl⟩
          rw [readsBack]
          rfl
  | write page source content =>
      obtain ⟨isPage, rfl, rfl⟩ := storeMachine_write step'
      cases exec : ((Ftl.ftlWriteWith l reclaim fuel page (some content)).run
        state.ftl).exec machine state.store with
      | error reason => simp [ftlPagesMachine, exec] at step
      | ok written =>
          obtain ⟨⟨ret, ftl⟩, store⟩ := written
          simp only [ftlPagesMachine, exec] at step
          obtain ⟨rfl, rfl⟩ := Prod.mk.inj (Except.ok.inj step)
          obtain ⟨isReached', rfl⟩ := keeps.written isReached isPage exec
          exact ⟨rfl, _, isReached', congrArg (PageStore.mk · _ _) update_getD⟩

end Machine

/-! ## Sessions -/

/-- The sectors on the logical pages. -/
def HoldSectors (g : Geometry) (pages : Nat → Option (Nat → S)) (image : Nat → S) : Prop :=
  ∀ sector, (pages (sector / g.sectorPerMpp)).getD 0 (sector % g.sectorPerMpp) = image sector

section Sessions

variable {l : Ftl.Layout} {fuel : Nat} {bytes : Ftl.FtlPage (Nat → S) → Nat → S}
  {ram ram' : OnfmRam S} {ftl : Ftl.FtlRam} {releases : List (List Nat)}
  {pages : Nat → Option (Nat → S)} {earlier calls : List (OnfmCall S)}
  {answers : List (OnfmAnswer S)}

/-- A session on a FTL that answers like an array of pages answers like an array of sectors. -/
theorem KeepsPages.session {E : Type}
    {machine : Machine (Ftl.UbiOp (Nat → S)) (Ftl.UbiAns (Nat → S)) E}
    {reclaim : Ftl.FtlCode (Nat → S) Status}
    {reached : Ftl.FtlRam → E → (Nat → Option (Nat → S)) → Prop} {store : E} {after : FtlPages S E}
    (keeps : KeepsPages l machine reclaim fuel reached)
    (readsBack : ∀ content, bytes (.data content) = content)
    (isReached : reached ftl store pages)
    (holds : HoldSectors l.g pages (sectorArray earlier))
    (starting : ram.startingSector = invalidLsaddr)
    (small : l.ftlCapacity * l.g.sectorPerMpp ≤ allOnes)
    (fits : ∀ call ∈ calls, call.Fits (l.ftlCapacity * l.g.sectorPerMpp))
    (exec : ((onfmSession l.g calls).run ram).exec (ftlPagesMachine l machine reclaim fuel bytes)
      ⟨ftl, store, [], releases⟩ = .ok ((answers, ram'), after)) :
    answers = onfmAnswers earlier calls ∧ ∃ pages', reached after.ftl after.store pages' ∧
      HoldSectors l.g pages' (sectorArray (calls.reverse ++ earlier)) := by
  have session : Code.wp (storeMachine l.g l.ftlCapacity) (fun _ => True) (onfmSession l.g calls)
      (fun answers ram' array => answers = onfmAnswers earlier calls ∧
        OnfmReady l.g l.ftlCapacity ram' array (sectorArray (calls.reverse ++ earlier))) ram
      ⟨fun page => (pages page).getD 0, [], releases⟩ := by
    simp only [onfmSession, Code.wp_bind]
    refine wp_onfmMount starting rfl fun ram₁ ready => ?_
    have image : (fun sector => (pages (sector / l.g.sectorPerMpp)).getD 0
        (sector % l.g.sectorPerMpp)) = sectorArray earlier := funext holds
    dsimp only at ready
    rw [image] at ready
    exact wp_onfmCalls earlier ready fits small fun ram₂ array ready₂ => ⟨rfl, ready₂⟩
  obtain ⟨array, ⟨pages', isReached', rfl⟩, isAnswers, ready⟩ :=
    Code.post_of_simulates (keeps.simulates readsBack) ⟨pages, isReached, rfl⟩ session exec
  exact ⟨isAnswers, pages', isReached', fun sector => (ready.writes.image_eq sector).symm⟩

/-- The runs of the FTL on the store. -/
theorem keepsPages_ftlRun (fit : l.DataFits) (three : Ftl.ThreeTables l) :
    KeepsPages (S := S) l (Ftl.storeMachine l.g l.capacity) (Ftl.freeReclaim l fuel) fuel
      (Ftl.FtlRun l (Ftl.freeReclaim l fuel) fuel 0) :=
  fun _ _ _ _ _ _ _ run inRange exec => ⟨run.answers fit three inRange exec, run.call inRange exec⟩

/-- Every session that returns on the FTL, with the writes of its write buffer, the reclaims and
the commits in between, answers like a flat array of sectors, and leaves the sectors of the array
on the logical pages.  The reclaims of the page mapping table take blocks that are free. -/
theorem onfmSession_onFtl {store : Ftl.UbiStore (Nat → S)}
    {after : FtlPages S (Ftl.UbiStore (Nat → S))} (fit : l.DataFits) (three : Ftl.ThreeTables l)
    (readsBack : ∀ content, bytes (.data content) = content)
    (mounted : Ftl.FtlRun l (Ftl.freeReclaim l fuel) fuel 0 ftl store pages)
    (holds : HoldSectors l.g pages (sectorArray earlier))
    (starting : ram.startingSector = invalidLsaddr)
    (small : l.ftlCapacity * l.g.sectorPerMpp ≤ allOnes)
    (fits : ∀ call ∈ calls, call.Fits (l.ftlCapacity * l.g.sectorPerMpp))
    (exec : ((onfmSession l.g calls).run ram).exec
      (ftlPagesMachine l (Ftl.storeMachine l.g l.capacity) (Ftl.freeReclaim l fuel) fuel bytes)
        ⟨ftl, store, [], releases⟩ = .ok ((answers, ram'), after)) :
    ((onfmSession l.g calls).run ram).exec
        (ftlPagesMachine l (Ftl.storeMachine l.g l.capacity) (Ftl.pmtReclaimBlocks l fuel)
          fuel bytes)
          ⟨ftl, store, [], releases⟩ = .ok ((answers, ram'), after) ∧
      answers = onfmAnswers earlier calls ∧
      ∃ pages', Ftl.FtlRun l (Ftl.pmtReclaimBlocks l fuel) fuel 0 after.ftl after.store pages' ∧
        HoldSectors l.g pages' (sectorArray (calls.reverse ++ earlier)) := by
  refine ⟨Prog.exec_extends (extends_ftlPagesMachine Ftl.agrees_reclaimWhere) exec, ?_⟩
  obtain ⟨isAnswers, pages', run, holds'⟩ :=
    (keepsPages_ftlRun fit three).session readsBack mounted holds starting small fits exec
  exact ⟨isAnswers, pages', run.agrees Ftl.agrees_reclaimWhere, holds'⟩

end Sessions

/-! ## A session on the simulated device -/

/-- The data of a page.  The tables read as zeros. -/
def pageSectors : Ftl.FtlPage (Nat → S) → Nat → S
  | .data content => content
  | _ => 0

/-- The static variables in front of the first mount. -/
def OnfmRam.reset : OnfmRam S :=
  ⟨fun _ _ => 0, fun _ => false, fun _ => false, none, none, 0, 0, fun _ => 0, 0, invalidLsaddr⟩

/-- A range over a page boundary is written and read. -/
def overBoundary : List (OnfmCall Nat) :=
  [.write 15 2 fun i => i + 1, .read 15 3 fun _ => 0]

theorem overBoundary_fits : ∀ call ∈ overBoundary,
    call.Fits ((Ftl.simLayout 0x10000).ftlCapacity * (Ftl.simLayout 0x10000).g.sectorPerMpp) := by
  have fit :
      15 + 3 ≤ (Ftl.simLayout 0x10000).ftlCapacity * (Ftl.simLayout 0x10000).g.sectorPerMpp := by
    decide
  exact List.forall_mem_cons.mpr ⟨Nat.le_of_succ_le fit, List.forall_mem_singleton.mpr fit⟩

theorem onfmSession_onFtl_simLayout :
    ∃ (after : FtlPages Nat (Ftl.UbiStore (Nat → Nat))) (pages : Nat → Option (Nat → Nat)),
      Ftl.FtlRun (Ftl.simLayout 0x10000) (Ftl.pmtReclaimBlocks (Ftl.simLayout 0x10000) 4) 4 0
          after.ftl after.store pages ∧
        HoldSectors (Ftl.simLayout 0x10000).g pages (sectorArray overBoundary.reverse) := by
  have run : Code.returns (((Ftl.ftlFormat (Ftl.simLayout 0x10000)).run .reset).exec
      (Ftl.storeMachine (Ftl.simLayout 0x10000).g (Ftl.simLayout 0x10000).capacity)
      (.erased : Ftl.UbiStore (Nat → Nat)))
      (fun ret ftl store => decide (ret = .success ∧ store.roots ≤ 2 ^ 32) &&
        (store.lastRoot.all fun root => Ftl.metaKnown (Ftl.simLayout 0x10000) root ftl) &&
        Code.returns (((Ftl.ftlInit (Ftl.simLayout 0x10000) 4).run ftl).exec
          (Ftl.storeMachine (Ftl.simLayout 0x10000).g (Ftl.simLayout 0x10000).capacity) store)
          fun _ ftl store =>
        Code.returns (((onfmSession (Ftl.simLayout 0x10000).g overBoundary).run .reset).exec
          (ftlPagesMachine (Ftl.simLayout 0x10000)
            (Ftl.storeMachine (Ftl.simLayout 0x10000).g (Ftl.simLayout 0x10000).capacity)
            (Ftl.freeReclaim (Ftl.simLayout 0x10000) 4) 4 pageSectors) ⟨ftl, store, [], []⟩)
          fun _ _ _ => true) = true := by
    set_option maxRecDepth 100000 in decide +kernel
  obtain ⟨_, ftl, store, format, test⟩ := Code.returns_iff.mp run
  obtain ⟨facts, mounts⟩ := Bool.and_eq_true_iff.mp test
  obtain ⟨success, known⟩ := Bool.and_eq_true_iff.mp facts
  obtain ⟨rfl, few⟩ := of_decide_eq_true success
  obtain ⟨_, ftl₁, store₁, mount, sessions⟩ := Code.returns_iff.mp mounts
  obtain ⟨answers, ram, after, session, _⟩ := Code.returns_iff.mp sessions
  have mounted : Ftl.FtlRun (Ftl.simLayout 0x10000) (Ftl.freeReclaim (Ftl.simLayout 0x10000) 4) 4 0
      ftl₁ store₁ fun _ => none := by
    refine .mount Ftl.erased_blank format (.inr (.inl few)) (fun root last => ?_) mount
    rw [last] at known
    exact Ftl.metaKnown_eq_true known
  have empty : HoldSectors (Ftl.simLayout 0x10000).g (fun _ => none)
      (sectorArray ([] : List (OnfmCall Nat))) := fun _ => rfl
  obtain ⟨_, _, pages, run', holds⟩ := onfmSession_onFtl Ftl.dataFits_simLayout
    Ftl.threeTables_simLayout (fun _ => rfl) mounted empty rfl (by decide) overBoundary_fits session
  rw [List.append_nil] at holds
  exact ⟨after, pages, run', holds⟩

end OpenNfm
