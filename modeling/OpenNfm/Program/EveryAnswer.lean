import OpenNfm.Program.Spec

/-!
# Code under every answer

`Everywhere` says that code makes only calls that are allowed, and returns inside a
postcondition, whatever the layer below answers.  No machine takes part; on each machine the
calls of a run are then allowed, wherever the run is cut.
-/

namespace OpenNfm.Program

namespace Prog

variable {Op : Type} {Ans : Op → Type} {α β : Type} {allowed : Op → Prop}

/-- Only allowed calls, and a result that meets the postcondition. -/
def Everywhere (allowed : Op → Prop) : Prog Op Ans α → (α → Prop) → Prop
  | .ret value, post => post value
  | .halt _, _ => True
  | .call op next, post => allowed op ∧ ∀ answer, (next answer).Everywhere allowed post

theorem Everywhere.mono {program : Prog Op Ans α} {post post' : α → Prop}
    (holds : program.Everywhere allowed post) (stronger : ∀ value, post value → post' value) :
    program.Everywhere allowed post' := by
  induction program with
  | ret value => exact stronger value holds
  | halt reason => trivial
  | call op next ih => exact ⟨holds.1, fun answer => ih answer (holds.2 answer)⟩

theorem everywhere_bind {program : Prog Op Ans α} {rest : α → Prog Op Ans β} {post : β → Prop} :
    (program >>= rest).Everywhere allowed post ↔
      program.Everywhere allowed fun value => (rest value).Everywhere allowed post := by
  induction program with
  | ret value => rfl
  | halt reason => rfl
  | call op next ih =>
      rw [call_bind]
      exact and_congr_right fun _ => forall_congr' ih

/-- Where two machines answer the allowed calls alike, a run of the one is a run of the other. -/
theorem exec_of_everywhere {E E' : Type} {machine : Machine Op Ans E} {other : Machine Op Ans E'}
    {related : E → E' → Prop} {program : Prog Op Ans α} {post : α → Prop} {state after : E}
    {state' : E'} {value : α} (only : program.Everywhere allowed post)
    (alike : ∀ state state' op answer after, allowed op → related state state' →
      machine state op = .ok (answer, after) →
        ∃ after', other state' op = .ok (answer, after') ∧ related after after')
    (isRelated : related state state') (run : program.exec machine state = .ok (value, after)) :
    ∃ after', program.exec other state' = .ok (value, after') ∧ related after after' := by
  induction program generalizing state state' with
  | ret value' =>
      obtain ⟨rfl, rfl⟩ := Prod.mk.inj (Except.ok.inj run)
      exact ⟨state', rfl, isRelated⟩
  | halt reason => cases run
  | call op next ih =>
      cases step : machine state op with
      | error reason => simp [exec, step] at run
      | ok result =>
          obtain ⟨answer, mid⟩ := result
          simp only [exec, step] at run
          obtain ⟨mid', step', isRelated'⟩ := alike _ _ _ _ _ only.1 isRelated step
          simp only [exec, step']
          exact ih answer (only.2 answer) isRelated' run

end Prog

namespace Code

variable {R Op E : Type} {Ans : Op → Type} {α β : Type} {allowed : Op → Prop} {ram : R}

/-- From a memory, only allowed calls and a result that meets the postcondition. -/
def Everywhere (allowed : Op → Prop) (code : Code R Op Ans α) (post : α → R → Prop) (ram : R) :
    Prop :=
  (code.run ram).Everywhere allowed fun result => post result.1 result.2

namespace Everywhere

theorem pure {value : α} {post : α → R → Prop} :
    Everywhere allowed (Pure.pure value : Code R Op Ans α) post ram ↔ post value ram :=
  Iff.rfl

theorem bind {code : Code R Op Ans α} {rest : α → Code R Op Ans β} {post : β → R → Prop} :
    Everywhere allowed (code >>= rest) post ram ↔
      Everywhere allowed code (fun value ram' => Everywhere allowed (rest value) post ram')
        ram := by
  unfold Everywhere
  rw [StateT.run_bind, Prog.everywhere_bind]

theorem get {post : R → R → Prop} :
    Everywhere allowed (MonadState.get : Code R Op Ans R) post ram ↔ post ram ram :=
  Iff.rfl

theorem modifies {change : R → R} {post : PUnit → R → Prop} :
    Everywhere allowed (modify change : Code R Op Ans PUnit) post ram ↔ post ⟨⟩ (change ram) :=
  Iff.rfl

theorem halt {reason : Halt} {post : α → R → Prop} :
    Everywhere allowed (Code.halt reason : Code R Op Ans α) post ram :=
  trivial

theorem assert {condition : Prop} [Decidable condition] {post : Unit → R → Prop} :
    Everywhere allowed (Code.assert condition : Code R Op Ans Unit) post ram ↔
      (condition → post () ram) := by
  unfold Code.assert
  split
  · rename_i met
    rw [pure]
    simp only [met, true_imp_iff]
  · rename_i unmet
    simp only [unmet, false_imp_iff, iff_true]
    exact halt

theorem perform {op : Op} {post : Ans op → R → Prop} :
    Everywhere allowed (Code.perform op : Code R Op Ans (Ans op)) post ram ↔
      allowed op ∧ ∀ answer, post answer ram :=
  Iff.rfl

theorem mono {code : Code R Op Ans α} {post post' : α → R → Prop}
    (holds : Everywhere allowed code post ram)
    (stronger : ∀ value ram', post value ram' → post' value ram') :
    Everywhere allowed code post' ram :=
  Prog.Everywhere.mono holds fun result => stronger result.1 result.2

end Everywhere

/-- On a machine whose states remember the calls, all calls are allowed at each point of the
run. -/
theorem Everywhere.spec {machine : Machine Op Ans E} {called : E → Op → Prop}
    (step : ∀ state op answer after, machine state op = .ok (answer, after) →
      ∀ other, called after other → other = op ∨ called state other)
    {code : Code R Op Ans α} {post : α → R → Prop} {state : E}
    (holds : Everywhere allowed code post ram) (before : ∀ op, called state op → allowed op) :
    Code.spec machine (fun after => ∀ op, called after op → allowed op) True code
      (fun value ram' after => (∀ op, called after op → allowed op) ∧ post value ram') ram
        state := by
  unfold Everywhere Code.spec at *
  generalize code.run ram = program at holds
  induction program generalizing state with
  | ret value => exact ⟨before, before, holds⟩
  | halt reason => exact ⟨before, trivial⟩
  | call op next ih =>
      cases run : machine state op with
      | error reason => exact (Prog.spec_call_of_error run).mpr ⟨before, trivial⟩
      | ok result =>
          have kept : ∀ other, called result.2 other → allowed other := by
            intro other called
            rcases step state op result.1 result.2 run other called with rfl | earlier
            · exact holds.1
            · exact before other earlier
          exact (Prog.spec_call_of_ok run).mpr ⟨before, ih result.1 kept (holds.2 result.1)⟩

/-- Where the allowed calls keep an invariant of the machine, it holds at each point of the
run. -/
theorem Everywhere.keeps {machine : Machine Op Ans E} {inv : E → Prop}
    (step : ∀ state op answer after, allowed op → inv state →
      machine state op = .ok (answer, after) → inv after)
    {code : Code R Op Ans α} {post : α → R → Prop} {state : E}
    (holds : Everywhere allowed code post ram) (start : inv state) :
    Code.spec machine inv True code (fun value ram' after => post value ram' ∧ inv after) ram
      state := by
  unfold Everywhere Code.spec at *
  generalize code.run ram = program at holds
  induction program generalizing state with
  | ret value => exact ⟨start, holds, start⟩
  | halt reason => exact ⟨start, trivial⟩
  | call op next ih =>
      cases run : machine state op with
      | error reason => exact (Prog.spec_call_of_error run).mpr ⟨start, trivial⟩
      | ok result =>
          have kept := step state op result.1 result.2 holds.1 start run
          exact (Prog.spec_call_of_ok run).mpr ⟨start, ih result.1 kept (holds.2 result.1)⟩

/-- Only allowed calls, from every memory. -/
def Only (allowed : Op → Prop) (code : Code R Op Ans α) : Prop :=
  ∀ ram, Everywhere allowed code (fun _ _ => True) ram

namespace Only

theorem pure (value : α) : Only allowed (Pure.pure value : Code R Op Ans α) :=
  fun _ => trivial

theorem halt (reason : Halt) : Only allowed (Code.halt reason : Code R Op Ans α) :=
  fun _ => trivial

theorem get : Only allowed (MonadState.get : Code R Op Ans R) :=
  fun _ => trivial

theorem modifies {change : R → R} : Only allowed (modify change : Code R Op Ans PUnit) :=
  fun _ => trivial

theorem assert {condition : Prop} [Decidable condition] :
    Only allowed (Code.assert condition : Code R Op Ans Unit) :=
  fun _ => Everywhere.assert.mpr fun _ => trivial

theorem perform {op : Op} (isAllowed : allowed op) :
    Only allowed (Code.perform op : Code R Op Ans (Ans op)) :=
  fun _ => ⟨isAllowed, fun _ => trivial⟩

theorem bind {code : Code R Op Ans α} {rest : α → Code R Op Ans β} (first : Only allowed code)
    (second : ∀ value, Only allowed (rest value)) : Only allowed (code >>= rest) :=
  fun ram => Everywhere.bind.mpr <| (first ram).mono fun value ram' _ => second value ram'

theorem ite {condition : Prop} [Decidable condition] {first second : Code R Op Ans α}
    (yes : Only allowed first) (no : Only allowed second) :
    Only allowed (if condition then first else second) := by
  split
  · exact yes
  · exact no

end Only

end Code

end OpenNfm.Program
