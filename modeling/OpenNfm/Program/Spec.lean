import OpenNfm.Program.Code

/-!
# Total and partial correctness

On a device that fails, a program may stop in an assertion or run out of the rounds
it was given.  `spec` is the weakest precondition with a proposition for such runs:
with `False` it is total correctness and agrees with `wp`, with `True` it says
nothing about runs that stop.  A rule is proved once, for every such proposition.
-/

namespace OpenNfm.Program

namespace Prog

variable {Op : Type} {Ans : Op → Type} {E : Type} {α β : Type}

/-- `spec machine crash halts program post state`: wherever the run from `state` is
cut, the machine is in a state that meets `crash`; if the run returns, its result
meets `post`; and it stops only if `halts` holds. -/
def spec (machine : Machine Op Ans E) (crash : E → Prop) (halts : Prop) :
    Prog Op Ans α → (α → E → Prop) → E → Prop
  | .ret value, post, state => crash state ∧ post value state
  | .halt _, _, state => crash state ∧ halts
  | .call op next, post, state =>
      crash state ∧
        match machine state op with
        | .ok (answer, after) => (next answer).spec machine crash halts post after
        | .error _ => halts

variable {machine : Machine Op Ans E} {crash : E → Prop} {halts : Prop}

theorem spec_call_of_ok {op : Op} {next : Ans op → Prog Op Ans α} {post : α → E → Prop}
    {state after : E} {answer : Ans op} (step : machine state op = .ok (answer, after)) :
    (Prog.call op next).spec machine crash halts post state ↔
      crash state ∧ (next answer).spec machine crash halts post after := by
  simp only [spec, step]

theorem spec_call_of_error {op : Op} {next : Ans op → Prog Op Ans α} {post : α → E → Prop}
    {state : E} {reason : Halt} (step : machine state op = .error reason) :
    (Prog.call op next).spec machine crash halts post state ↔ crash state ∧ halts := by
  simp only [spec, step]

theorem spec_crash {program : Prog Op Ans α} {post : α → E → Prop} {state : E}
    (holds : program.spec machine crash halts post state) : crash state := by
  cases program with
  | ret value => exact holds.1
  | halt reason => exact holds.1
  | call op next =>
      rw [spec] at holds
      exact holds.1

theorem spec_mono {program : Prog Op Ans α} {post post' : α → E → Prop} {state : E}
    {crash' : E → Prop} (holds : program.spec machine crash halts post state)
    (stronger : ∀ value after, post value after → post' value after)
    (crashStronger : ∀ after, crash after → crash' after) :
    program.spec machine crash' halts post' state := by
  induction program generalizing state with
  | ret value => exact ⟨crashStronger _ holds.1, stronger _ _ holds.2⟩
  | halt reason => exact ⟨crashStronger _ holds.1, holds.2⟩
  | call op next ih =>
      cases step : machine state op with
      | error reason =>
          rw [spec_call_of_error step] at holds ⊢
          exact ⟨crashStronger _ holds.1, holds.2⟩
      | ok result =>
          rw [spec_call_of_ok step] at holds ⊢
          exact ⟨crashStronger _ holds.1, ih result.1 holds.2⟩

/-- A specification that asks for nothing. -/
theorem spec_true {program : Prog Op Ans α} {state : E} :
    program.spec machine (fun _ => True) True (fun _ _ => True) state := by
  induction program generalizing state with
  | ret value => exact ⟨trivial, trivial⟩
  | halt reason => exact ⟨trivial, trivial⟩
  | call op next ih =>
      cases step : machine state op with
      | error reason => exact (spec_call_of_error step).mpr ⟨trivial, trivial⟩
      | ok result => exact (spec_call_of_ok step).mpr ⟨trivial, ih result.1⟩

/-- Two specifications hold together. -/
theorem spec_and {program : Prog Op Ans α} {post post' : α → E → Prop} {state : E}
    {crash' : E → Prop} (first : program.spec machine crash halts post state)
    (second : program.spec machine crash' halts post' state) :
    program.spec machine (fun after => crash after ∧ crash' after) halts
      (fun value after => post value after ∧ post' value after) state := by
  induction program generalizing state with
  | ret value => exact ⟨⟨first.1, second.1⟩, first.2, second.2⟩
  | halt reason => exact ⟨⟨first.1, second.1⟩, first.2⟩
  | call op next ih =>
      cases step : machine state op with
      | error reason =>
          rw [spec_call_of_error step] at first second ⊢
          exact ⟨⟨first.1, second.1⟩, first.2⟩
      | ok result =>
          rw [spec_call_of_ok step] at first second ⊢
          exact ⟨⟨first.1, second.1⟩, ih result.1 first.2 second.2⟩

theorem spec_bind {program : Prog Op Ans α} {rest : α → Prog Op Ans β}
    {post : β → E → Prop} {state : E} :
    (program >>= rest).spec machine crash halts post state ↔
      program.spec machine crash halts (fun value after =>
        (rest value).spec machine crash halts post after) state := by
  induction program generalizing state with
  | ret value =>
      rw [ret_bind]
      exact ⟨fun holds => ⟨spec_crash holds, holds⟩, fun holds => holds.2⟩
  | halt reason => rfl
  | call op next ih =>
      rw [call_bind]
      cases step : machine state op with
      | error reason => rw [spec_call_of_error step, spec_call_of_error step]
      | ok result => rw [spec_call_of_ok step, spec_call_of_ok step, ih]

/-- A run that returns meets the postcondition. -/
theorem post_of_spec {program : Prog Op Ans α} {post : α → E → Prop} {state after : E}
    {value : α} (holds : program.spec machine crash halts post state)
    (run : program.exec machine state = .ok (value, after)) : post value after := by
  induction program generalizing state with
  | ret value' =>
      simp only [exec, Except.ok.injEq, Prod.mk.injEq] at run
      obtain ⟨rfl, rfl⟩ := run
      exact holds.2
  | halt reason => simp [exec] at run
  | call op next ih =>
      cases step : machine state op with
      | error reason => simp [exec, step] at run
      | ok result =>
          simp only [exec, step] at run
          exact ih result.1 ((spec_call_of_ok step).mp holds).2 run

/-- The crash condition holds wherever the power fails. -/
theorem cut_of_spec {program : Prog Op Ans α} {post : α → E → Prop} {state : E}
    (holds : program.spec machine crash halts post state) (n : Nat) :
    crash (program.cut machine n state) := by
  induction n generalizing program state with
  | zero => exact spec_crash holds
  | succ n ih =>
      cases program with
      | ret value => exact spec_crash holds
      | halt reason => exact spec_crash holds
      | call op next =>
          cases step : machine state op with
          | error reason => simpa only [cut, step] using spec_crash holds
          | ok result =>
              simpa only [cut, step] using ih ((spec_call_of_ok step).mp holds).2

/-- Without runs that stop, the run returns. -/
theorem exec_of_spec {program : Prog Op Ans α} {post : α → E → Prop} {state : E}
    (holds : program.spec machine crash False post state) :
    ∃ value after, program.exec machine state = .ok (value, after) ∧ post value after := by
  induction program generalizing state with
  | ret value => exact ⟨value, state, rfl, holds.2⟩
  | halt reason => exact holds.2.elim
  | call op next ih =>
      cases step : machine state op with
      | error reason => exact ((spec_call_of_error step).mp holds).2.elim
      | ok result =>
          obtain ⟨value, final, run, meets⟩ := ih result.1 ((spec_call_of_ok step).mp holds).2
          exact ⟨value, final, by simpa only [exec, step] using run, meets⟩

/-- A run that is known to return. -/
theorem spec_of_exec {program : Prog Op Ans α} {post : α → E → Prop} {state after : E} {value : α}
    (run : program.exec machine state = .ok (value, after)) (meets : post value after) :
    program.spec machine (fun _ => True) halts post state := by
  induction program generalizing state with
  | ret value' =>
      simp only [exec, Except.ok.injEq, Prod.mk.injEq] at run
      obtain ⟨rfl, rfl⟩ := run
      exact ⟨trivial, meets⟩
  | halt reason => simp [exec] at run
  | call op next ih =>
      cases step : machine state op with
      | error reason => simp [exec, step] at run
      | ok result =>
          simp only [exec, step] at run
          exact (spec_call_of_ok step).mpr ⟨trivial, ih result.1 run⟩

end Prog

namespace Code

variable {R Op E : Type} {Ans : Op → Type} {α β : Type}

/-- The precondition of code: as for `Prog.spec`, with the memory before and after. -/
def spec (machine : Machine Op Ans E) (crash : E → Prop) (halts : Prop) (code : Code R Op Ans α)
    (post : α → R → E → Prop) (ram : R) (state : E) : Prop :=
  (code.run ram).spec machine crash halts (fun result after => post result.1 result.2 after) state

variable {machine : Machine Op Ans E} {crash : E → Prop} {halts : Prop} {ram : R} {state : E}

theorem spec_mono {code : Code R Op Ans α} {post post' : α → R → E → Prop} {crash' : E → Prop}
    (holds : spec machine crash halts code post ram state)
    (stronger : ∀ value ram' after, post value ram' after → post' value ram' after)
    (crashStronger : ∀ after, crash after → crash' after) :
    spec machine crash' halts code post' ram state :=
  Prog.spec_mono holds (fun result after => stronger result.1 result.2 after) crashStronger

theorem spec_bind {code : Code R Op Ans α} {rest : α → Code R Op Ans β}
    {post : β → R → E → Prop} :
    spec machine crash halts (code >>= rest) post ram state ↔
      spec machine crash halts code (fun value ram' after =>
        spec machine crash halts (rest value) post ram' after) ram state := by
  unfold spec
  rw [StateT.run_bind, Prog.spec_bind]

theorem spec_true {code : Code R Op Ans α} :
    spec machine (fun _ => True) True code (fun _ _ _ => True) ram state :=
  Prog.spec_true

theorem spec_and {code : Code R Op Ans α} {post post' : α → R → E → Prop} {crash' : E → Prop}
    (first : spec machine crash halts code post ram state)
    (second : spec machine crash' halts code post' ram state) :
    spec machine (fun after => crash after ∧ crash' after) halts code
      (fun value ram' after => post value ram' after ∧ post' value ram' after) ram state :=
  Prog.spec_and first second

theorem post_of_spec {code : Code R Op Ans α} {post : α → R → E → Prop} {value : α} {ram' : R}
    {after : E} (holds : spec machine crash halts code post ram state)
    (run : (code.run ram).exec machine state = .ok ((value, ram'), after)) :
    post value ram' after := by
  have met := Prog.post_of_spec holds run
  exact met

theorem exec_of_spec {code : Code R Op Ans α} {post : α → R → E → Prop}
    (holds : spec machine crash False code post ram state) :
    ∃ value ram' after, (code.run ram).exec machine state = .ok ((value, ram'), after) ∧
      post value ram' after := by
  obtain ⟨⟨value, ram'⟩, after, run, met⟩ := Prog.exec_of_spec holds
  exact ⟨value, ram', after, run, met⟩

theorem spec_of_exec {code : Code R Op Ans α} {post : α → R → E → Prop} {value : α} {ram' : R}
    {after : E} (run : (code.run ram).exec machine state = .ok ((value, ram'), after))
    (meets : post value ram' after) : spec machine (fun _ => True) halts code post ram state :=
  Prog.spec_of_exec run meets

theorem spec_pure {value : α} {post : α → R → E → Prop} :
    spec machine crash halts (pure value : Code R Op Ans α) post ram state ↔
      crash state ∧ post value ram state :=
  Iff.rfl

theorem spec_get {post : R → R → E → Prop} :
    spec machine crash halts (get : Code R Op Ans R) post ram state ↔
      crash state ∧ post ram ram state :=
  Iff.rfl

theorem spec_modify {change : R → R} {post : PUnit → R → E → Prop} :
    spec machine crash halts (modify change : Code R Op Ans PUnit) post ram state ↔
      crash state ∧ post ⟨⟩ (change ram) state :=
  Iff.rfl

theorem spec_halt {reason : Halt} {post : α → R → E → Prop} :
    spec machine crash halts (halt reason : Code R Op Ans α) post ram state ↔
      crash state ∧ halts :=
  Iff.rfl

/-- One call whose outcome is known. -/
theorem spec_perform_of_step {op : Op} {post : Ans op → R → E → Prop} {after : E}
    {answer : Ans op} (step : machine state op = .ok (answer, after)) :
    spec machine crash halts (perform op : Code R Op Ans (Ans op)) post ram state ↔
      crash state ∧ crash after ∧ post answer ram after :=
  Prog.spec_call_of_ok step

theorem spec_assert {condition : Prop} [Decidable condition] {post : Unit → R → E → Prop} :
    spec machine crash halts (assert condition : Code R Op Ans Unit) post ram state ↔
      crash state ∧ (condition → post () ram state) ∧ (¬ condition → halts) := by
  unfold assert
  split
  · rename_i met
    rw [spec_pure]
    simp [met]
  · rename_i unmet
    simp [spec_halt, unmet]

end Code

end OpenNfm.Program
