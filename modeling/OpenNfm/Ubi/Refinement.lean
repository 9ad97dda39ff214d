import Mathlib.Algebra.Ring.Nat
import OpenNfm.Ubi.Format

/-!
# The UBI layer as an array of erasable blocks

What a page of a logical block reads back is a function of the calls so far:
the last write to the page since the last erase of its block.  `written` says
so in terms of the history alone.  Every session of calls on a device without
failures, remounts included, answers accordingly.
-/

namespace OpenNfm

open OpenNfm.Program

variable {g : Geometry} {D : Type}

/-! ## Calls and histories -/

/-- The calls of a session.  A remount flushes, loses the memory, and mounts. -/
inductive UbiCall (D : Type) where
  | erase (block die : Nat)
  | write (block page : Nat) (buffer : Buffer D) (spare : Option Spare) (async : Bool)
  | read (block page : Nat)
  | flush
  | remount

/-- What a call answers: a status, or a page that was read. -/
inductive UbiAnswer (D : Type) where
  | status (ret : Status)
  | page (answer : ReadAnswer (UbiBuffer D))

/-- What the last write to each page since the last erase of its block has
written.  The newest call comes first. -/
def written : List (UbiCall D) → Store D
  | [] => fun _ _ => none
  | .erase erased _ :: earlier => fun block page =>
      if block = erased then none else written earlier block page
  | .write target slot buffer spare _ :: earlier => fun block page =>
      if block = target ∧ page = slot then some ⟨buffer.content, spare.getD .ones⟩
      else written earlier block page
  | .read _ _ :: earlier => written earlier
  | .flush :: earlier => written earlier
  | .remount :: earlier => written earlier

/-- The call addresses the device and does not write a page twice. -/
def UbiCall.Fits (g : Geometry) (earlier : List (UbiCall D)) : UbiCall D → Prop
  | .erase block _ => block < g.ubiCapacity
  | .write block page _ spare async =>
      block < g.ubiCapacity ∧ page < g.pagePerPhyBlock ∧ written earlier block page = none ∧
        (async = true → spare ≠ none)
  | .read block page => block < g.ubiCapacity ∧ page < g.pagePerPhyBlock
  | .flush => True
  | .remount => True

/-- Every call of the session fits what came before it. -/
def CallsFit (g : Geometry) : List (UbiCall D) → List (UbiCall D) → Prop
  | _, [] => True
  | earlier, call :: rest => call.Fits g earlier ∧ CallsFit g (call :: earlier) rest

/-- The answer of an array of erasable blocks: the page that is asked for, or a
failure and the pattern of erased flash. -/
def UbiCall.answer (earlier : List (UbiCall D)) : UbiCall D → UbiAnswer D
  | .read block page => .page ((written earlier).answer block page)
  | _ => .status .success

/-- The answers to a list of calls behind earlier ones. -/
def callAnswers : List (UbiCall D) → List (UbiCall D) → List (UbiAnswer D)
  | _, [] => []
  | earlier, call :: rest => call.answer earlier :: callAnswers (call :: earlier) rest

/-- The histories of two blocks are independent. -/
theorem written_erase_other (earlier : List (UbiCall D)) {block other : Nat} (die page : Nat)
    (different : other ≠ block) :
    written (.erase block die :: earlier) other page = written earlier other page :=
  if_neg different

theorem written_write_other (earlier : List (UbiCall D)) {block other : Nat} (page slot : Nat)
    (buffer : Buffer D) (spare : Option Spare) (async : Bool) (different : other ≠ block) :
    written (.write block slot buffer spare async :: earlier) other page =
      written earlier other page :=
  if_neg fun same => different same.1

theorem written_erase (earlier : List (UbiCall D)) (block die : Nat) :
    (written earlier).erase block = written (.erase block die :: earlier) := by
  funext other page
  by_cases same : other = block
  · rw [same, Nand.erase_same]
    exact (if_pos rfl).symm
  · rw [Nand.erase_other _ _ same, written_erase_other earlier die page same]

theorem written_write (earlier : List (UbiCall D)) (block page : Nat) (buffer : Buffer D)
    (spare : Option Spare) (async : Bool) :
    (written earlier).program block page ⟨buffer.content, spare.getD .ones⟩ =
      written (.write block page buffer spare async :: earlier) := by
  funext other slot
  by_cases same : other = block ∧ slot = page
  · rw [same.1, same.2, Nand.program_same]
    exact (if_pos ⟨rfl, rfl⟩).symm
  · refine Eq.trans ?_ (if_neg same).symm
    by_cases sameBlock : other = block
    · rw [sameBlock]
      exact Nand.program_otherPage _ _ _ fun samePage => same ⟨sameBlock, samePage⟩
    · exact Nand.program_other _ _ _ _ sameBlock

/-! ## The session -/

section Session

variable (g) (fuel : Nat) [Zero D]

/-- The cached pages are flushed, and the memory is lost before the next mount. -/
def ubiRemount : Ubi D Status := do
  let ret ← ubiFlush g fuel
  if ret = .success then do
    set (UbiRam.reset D)
    ubiInit g fuel
  else pure ret

/-- A call, as the code answers it. -/
def ubiCall : UbiCall D → Ubi D (UbiAnswer D)
  | .erase block die => do
      let ret ← ubiErase g fuel block die
      pure (.status ret)
  | .write block page buffer spare async => do
      let ret ← ubiWrite g fuel block page (some buffer) spare async
      pure (.status ret)
  | .read block page => do
      let answer ← ubiRead g block page
      pure (.page answer)
  | .flush => do
      let ret ← ubiFlush g fuel
      pure (.status ret)
  | .remount => do
      let ret ← ubiRemount g fuel
      pure (.status ret)

/-- A list of calls, as the code answers them. -/
def ubiCalls : List (UbiCall D) → Ubi D (List (UbiAnswer D))
  | [] => pure []
  | call :: rest => do
      let answer ← ubiCall g fuel call
      let answers ← ubiCalls rest
      pure (answer :: answers)

/-- Format, mount, and then the calls. -/
def ubiSession (calls : List (UbiCall D)) : Ubi D (Status × Status × List (UbiAnswer D)) := do
  let format ← ubiFormat g fuel
  let init ← ubiInit g fuel
  let answers ← ubiCalls g fuel calls
  pure (format, init, answers)

end Session

section Specs

variable {ram : UbiRam D} {state : Ideal (UbiBuffer D)} {fuel : Nat} [Zero D]

/-- Memory and flash hold what the history has written. -/
def HistoryReady (g : Geometry) (earlier : List (UbiCall D)) (nand : Nand (UbiBuffer D))
    (ram : UbiRam D) : Prop :=
  ∃ view, UbiReady g nand ram view (written earlier)

omit [Zero D] in
/-- A remount finds everything that was written. -/
theorem wp_ubiRemount {earlier : List (UbiCall D)}
    {post : Status → UbiRam D → Ideal (UbiBuffer D) → Prop}
    (supported : g.Supported) (pos : 0 < fuel) (ready : HistoryReady g earlier state.nand ram)
    (meets : ∀ nand ram', HistoryReady g earlier nand ram' →
      post .success ram' ⟨nand, state.polls⟩) :
    Code.wp (idealMachine g) (fun _ => True) (ubiRemount g fuel) post ram state := by
  obtain ⟨view, inv⟩ := ready
  simp only [ubiRemount, Code.wp_bind]
  refine wp_ubiFlush supported pos inv trivial fun ram' inv' => ?_
  simp only [if_true, Code.wp_bind, Code.wp_set]
  exact ⟨trivial, wp_ubiInit supported pos inv'.committed.recoverable
    (fun _ => ubiCapacity_pos supported) (fun _ _ => trivial)
    fun nand ram₂ view₂ inv₂ => meets nand ram₂ ⟨view₂, inv₂⟩⟩

/-- One call answers like the array and keeps the invariant. -/
theorem wp_ubiCall {earlier : List (UbiCall D)} {call : UbiCall D}
    {post : UbiAnswer D → UbiRam D → Ideal (UbiBuffer D) → Prop}
    (supported : g.Supported) (pos : 0 < fuel) (ready : HistoryReady g earlier state.nand ram)
    (fits : call.Fits g earlier)
    (meets : ∀ nand ram', HistoryReady g (call :: earlier) nand ram' →
      post (call.answer earlier) ram' ⟨nand, state.polls⟩) :
    Code.wp (idealMachine g) (fun _ => True) (ubiCall g fuel call) post ram state := by
  cases call with
  | erase block die =>
      obtain ⟨view, inv⟩ := ready
      simp only [ubiCall, Code.wp_bind]
      refine wp_ubiErase supported pos inv fits False.elim (fun _ _ => trivial) ?_
      intro nand ram' view' inv'
      rw [written_erase _ _ die] at inv'
      exact ⟨trivial, meets nand ram' ⟨view', inv'⟩⟩
  | write block page buffer spare async =>
      obtain ⟨view, inv⟩ := ready
      obtain ⟨isBlock, isPage, blank, hasSpare⟩ := fits
      simp only [ubiCall, Code.wp_bind]
      refine wp_ubiWrite supported pos inv isBlock isPage blank hasSpare (fun _ _ => trivial) ?_
      intro nand ram' inv'
      rw [written_write _ _ _ _ _ async] at inv'
      exact ⟨trivial, meets nand ram' ⟨view, inv'⟩⟩
  | read block page =>
      obtain ⟨view, inv⟩ := ready
      simp only [ubiCall, Code.wp_bind]
      refine wp_ubiRead supported inv fits.1 fits.2 trivial ?_
      intro ram' inv'
      exact ⟨trivial, meets state.nand ram' ⟨view, inv'⟩⟩
  | flush =>
      obtain ⟨view, inv⟩ := ready
      simp only [ubiCall, Code.wp_bind]
      refine wp_ubiFlush supported pos inv trivial ?_
      intro ram' inv'
      exact ⟨trivial, meets state.nand ram' ⟨view, inv'⟩⟩
  | remount =>
      simp only [ubiCall, Code.wp_bind]
      refine wp_ubiRemount supported pos ready ?_
      intro nand ram' ready'
      exact ⟨trivial, meets nand ram' ready'⟩

/-- A run of calls answers like the array. -/
theorem wp_ubiCalls {earlier calls : List (UbiCall D)}
    {post : List (UbiAnswer D) → UbiRam D → Ideal (UbiBuffer D) → Prop}
    (supported : g.Supported) (pos : 0 < fuel) (ready : HistoryReady g earlier state.nand ram)
    (fit : CallsFit g earlier calls)
    (meets : ∀ ram' after, post (callAnswers earlier calls) ram' after) :
    Code.wp (idealMachine g) (fun _ => True) (ubiCalls g fuel calls) post ram state := by
  induction calls generalizing earlier ram state post with
  | nil => exact ⟨trivial, meets ram state⟩
  | cons call rest ih =>
      obtain ⟨fits, fit⟩ := fit
      simp only [ubiCalls, Code.wp_bind]
      refine wp_ubiCall supported pos ready fits fun nand ram' ready' => ?_
      exact ih ready' fit fun ram₂ after => ⟨trivial, meets ram₂ after⟩

end Specs

/-- Every session on a device that can be formatted answers like an array of
erasable blocks. -/
theorem ubiSession_refines [Zero D] {fuel : Nat} {state : Ideal (UbiBuffer D)}
    {calls : List (UbiCall D)} (supported : g.Supported) (pos : 0 < fuel)
    (formattable : Formattable g state.nand) (fit : CallsFit g [] calls) :
    ∃ ram after, ((ubiSession g fuel calls).run (UbiRam.reset D)).exec (idealMachine g) state =
      .ok (((.success, .success, callAnswers [] calls), ram), after) := by
  have run : Code.wp (idealMachine g) (fun _ => True) (ubiSession g fuel calls)
      (fun result _ _ => result = (.success, .success, callAnswers [] calls)) (UbiRam.reset D)
      state := by
    simp only [ubiSession, Code.wp_bind]
    refine wp_ubiFormat supported pos formattable (fun _ => trivial) ?_
    rintro nand₁ ram₁ ⟨place, recoverable⟩ sameHold
    refine wp_ubiInit supported pos recoverable (fun slot => ?_) (fun _ _ => trivial) ?_
    · rw [sameHold]
      exact ubiCapacity_pos supported
    · intro nand₂ ram₂ view inv
      exact wp_ubiCalls supported pos (show HistoryReady g [] nand₂ ram₂ from ⟨view, inv⟩) fit
        fun _ _ => ⟨trivial, rfl⟩
  obtain ⟨⟨result, ram⟩, after, exec, isResult⟩ := Prog.exec_of_wp run
  exact ⟨ram, after, isResult ▸ exec⟩

/-- A session on a blank simulated device. -/
theorem ubiSession_refines_simNand :
    ∃ ram after,
      ((ubiSession simNand 1
        [.erase 3 0, .write 3 0 ⟨1, .data 7⟩ (some ⟨5, 6⟩) true, .remount, .read 3 0,
          .read 4 0]).run (UbiRam.reset Nat)).exec (idealMachine simNand) ⟨fun _ _ => none, []⟩ =
      .ok (((.success, .success,
        [.status .success, .status .success, .status .success,
          .page ⟨.success, .data 7, ⟨5, 6⟩⟩, .page ⟨.failure, .ones, .ones⟩]), ram), after) :=
  ubiSession_refines (by decide) (by decide) (.inl fun _ _ => rfl)
    ⟨by change 3 < simNand.ubiCapacity; decide,
      ⟨by decide, by decide, rfl, by simp⟩, trivial,
      ⟨by decide, by decide⟩, ⟨by decide, by decide⟩, trivial⟩

end OpenNfm
