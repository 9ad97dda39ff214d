import OpenNfm.Program.Code

/-!
# Machines that answer alike

A machine simulates an abstract one if, from related states, it answers what the abstract one
answers, or stops.  What a program is known to do on the abstract machine, it then does on the
other one in each run that returns.  A machine is matched by another one if whatever it answers,
the other one answers as well; then the other one also runs each program that returns on the first.

Machines are made of machines: `servedBy` answers with code over a lower machine, and `guarded`
answers only what a protocol allows.
-/

namespace OpenNfm.Program

variable {Op R E E' : Type} {Ans : Op → Type} {α : Type}

/-- Where both machines answer, they give the same answer and stay related. -/
def Simulates (related : E → E' → Prop) (machine : Machine Op Ans E)
    (abstract : Machine Op Ans E') : Prop :=
  ∀ state state' op answer after answer' after', related state state' →
    machine state op = .ok (answer, after) → abstract state' op = .ok (answer', after') →
      answer = answer' ∧ related after after'

/-- From related states, the other machine gives each answer of the first one. -/
def MatchedBy (related : E → E' → Prop) (machine : Machine Op Ans E) (other : Machine Op Ans E') :
    Prop :=
  ∀ state state' op answer after, related state state' → machine state op = .ok (answer, after) →
    ∃ after', other state' op = .ok (answer, after') ∧ related after after'

/-- Whenever the first machine answers, the second one does the same. -/
def Extends (first second : Machine Op Ans E) : Prop :=
  ∀ state op result, first state op = .ok result → second state op = .ok result

namespace Prog

variable {machine : Machine Op Ans E} {abstract : Machine Op Ans E'} {related : E → E' → Prop}
  {crash : E' → Prop}

/-- A run that returns does what the program does on the abstract machine. -/
theorem post_of_simulates {program : Prog Op Ans α} {post : α → E' → Prop} {state after : E}
    {state' : E'} {value : α} (simulates : Simulates related machine abstract)
    (isRelated : related state state') (holds : program.wp abstract crash post state')
    (run : program.exec machine state = .ok (value, after)) :
    ∃ after', related after after' ∧ post value after' := by
  induction program generalizing state state' with
  | ret value' =>
      obtain ⟨rfl, rfl⟩ := Prod.mk.inj (Except.ok.inj run)
      exact ⟨state', isRelated, holds.2⟩
  | halt reason => exact holds.elim
  | call op next ih =>
      obtain ⟨_, answer', mid', step', rest⟩ := wp_call.mp holds
      cases step : machine state op with
      | error reason => simp [exec, step] at run
      | ok result =>
          obtain ⟨answer, mid⟩ := result
          simp only [exec, step] at run
          obtain ⟨rfl, isRelated'⟩ := simulates _ _ _ _ _ _ _ isRelated step step'
          exact ih answer isRelated' rest run

/-- A machine that matches another one runs its programs. -/
theorem exec_of_matched {other : Machine Op Ans E'} {program : Prog Op Ans α} {state after : E}
    {state' : E'} {value : α} (isMatched : MatchedBy related machine other)
    (isRelated : related state state') (run : program.exec machine state = .ok (value, after)) :
    ∃ after', program.exec other state' = .ok (value, after') ∧ related after after' := by
  induction program generalizing state state' with
  | ret value' =>
      obtain ⟨rfl, rfl⟩ := Prod.mk.inj (Except.ok.inj run)
      exact ⟨state', rfl, isRelated⟩
  | halt reason => cases run
  | call op next ih =>
      cases step : machine state op with
      | error reason => simp [exec, step] at run
      | ok result =>
          obtain ⟨answer, mid⟩ := result
          simp only [exec, step] at run
          obtain ⟨mid', step', isRelated'⟩ := isMatched _ _ _ _ _ isRelated step
          simp only [exec, step']
          exact ih answer isRelated' run

theorem exec_extends {first second : Machine Op Ans E} {program : Prog Op Ans α} {state : E}
    {result : α × E} (extension : Extends first second)
    (run : program.exec first state = .ok result) : program.exec second state = .ok result := by
  induction program generalizing state with
  | ret value => exact run
  | halt reason => exact run
  | call op next ih =>
      cases step : first state op with
      | error reason => simp [exec, step] at run
      | ok answered =>
          simp only [exec, step] at run
          simp only [exec, extension _ _ _ step]
          exact ih answered.1 run

end Prog

/-- The rule for code: what holds of its result on the abstract machine. -/
theorem Code.post_of_simulates {machine : Machine Op Ans E} {abstract : Machine Op Ans E'}
    {related : E → E' → Prop} {crash : E' → Prop} {code : Code R Op Ans α}
    {post : α → R → E' → Prop} {ram ram' : R} {state after : E} {state' : E'} {value : α}
    (simulates : Simulates related machine abstract) (isRelated : related state state')
    (holds : Code.wp abstract crash code post ram state')
    (run : (code.run ram).exec machine state = .ok ((value, ram'), after)) :
    ∃ after', related after after' ∧ post value ram' after' := by
  have met := Prog.post_of_simulates simulates isRelated holds run
  exact met

/-! ## Machines over machines -/

section Served

variable {Op' : Type} {Ans' : Op' → Type} {serve : (op : Op) → Code R Op' Ans' (Ans op)}
  {lower : Machine Op' Ans' E}

/-- Each operation is answered by code over the lower machine, which keeps its memory. -/
def servedBy (serve : (op : Op) → Code R Op' Ans' (Ans op)) (lower : Machine Op' Ans' E) :
    Machine Op Ans (R × E)
  | (ram, state), op =>
      match ((serve op).run ram).exec lower state with
      | .ok ((answer, ram'), after) => .ok (answer, (ram', after))
      | .error reason => .error reason

theorem servedBy_eq_ok {op : Op} {ram ram' : R} {state after : E} {answer : Ans op} :
    servedBy serve lower (ram, state) op = .ok (answer, (ram', after)) ↔
      ((serve op).run ram).exec lower state = .ok ((answer, ram'), after) := by
  cases run : ((serve op).run ram).exec lower state with
  | error reason =>
      simp only [servedBy, run]
      exact iff_of_false (fun wrong => by cases wrong) fun wrong => by cases wrong
  | ok result =>
      obtain ⟨⟨answer', ram₁⟩, after₁⟩ := result
      simp only [servedBy, run, Except.ok.injEq, Prod.mk.injEq, and_assoc]

end Served

section Guarded

variable {Stage : Type} {allowed : Stage → Op → Prop} [∀ stage op, Decidable (allowed stage op)]
  {next : Stage → Op → Stage} {machine : Machine Op Ans E} {other : Machine Op Ans E'}
  {related : Stage → E → E' → Prop}

/-- The machine stops at operations that are not allowed at the stage that was reached. -/
def guarded (allowed : Stage → Op → Prop) [∀ stage op, Decidable (allowed stage op)]
    (next : Stage → Op → Stage) (machine : Machine Op Ans E) : Machine Op Ans (Stage × E)
  | (stage, state), op =>
      if allowed stage op then
        match machine state op with
        | .ok (answer, after) => .ok (answer, (next stage op, after))
        | .error reason => .error reason
      else .error .undefined

theorem guarded_eq_ok {stage stage' : Stage} {state after : E} {op : Op} {answer : Ans op} :
    guarded allowed next machine (stage, state) op = .ok (answer, (stage', after)) ↔
      allowed stage op ∧ machine state op = .ok (answer, after) ∧ stage' = next stage op := by
  by_cases isAllowed : allowed stage op
  · cases step : machine state op with
    | error reason =>
        simp only [guarded, if_pos isAllowed, step]
        exact iff_of_false (fun wrong => by cases wrong) fun wrong => by cases wrong.2.1
    | ok result =>
        obtain ⟨answer', after'⟩ := result
        simp only [guarded, if_pos isAllowed, step, Except.ok.injEq, Prod.mk.injEq]
        constructor
        · rintro ⟨rfl, rfl, rfl⟩
          exact ⟨isAllowed, ⟨rfl, rfl⟩, rfl⟩
        · rintro ⟨-, ⟨rfl, rfl⟩, rfl⟩
          exact ⟨rfl, rfl, rfl⟩
  · simp only [guarded, if_neg isAllowed]
    exact iff_of_false (fun wrong => by cases wrong) fun wrong => isAllowed wrong.1

/-- The same stage was reached, and the states are related at it. -/
def AtStage (related : Stage → E → E' → Prop) (state : Stage × E) (state' : Stage × E') : Prop :=
  state.1 = state'.1 ∧ related state.1 state.2 state'.2

/-- Machines match under a guard if they match at what it allows. -/
theorem matchedBy_guarded
    (steps : ∀ stage state state' op answer after, allowed stage op → related stage state state' →
      machine state op = .ok (answer, after) →
        ∃ after', other state' op = .ok (answer, after') ∧ related (next stage op) after after') :
    MatchedBy (AtStage related) (guarded allowed next machine) (guarded allowed next other) := by
  rintro ⟨stage, state⟩ ⟨_, state'⟩ op answer ⟨stage', after⟩ ⟨rfl, isRelated⟩ step
  obtain ⟨isAllowed, answered, rfl⟩ := guarded_eq_ok.mp step
  obtain ⟨after', step', isRelated'⟩ :=
    steps stage state state' op answer after isAllowed isRelated answered
  exact ⟨(next stage op, after'), guarded_eq_ok.mpr ⟨isAllowed, step', rfl⟩, rfl, isRelated'⟩

/-- Without the guard a machine answers no less. -/
theorem matchedBy_unguarded :
    MatchedBy (fun state state' => state.2 = state') (guarded allowed next machine) machine := by
  rintro ⟨stage, state⟩ _ op answer ⟨stage', after⟩ rfl step
  exact ⟨after, (guarded_eq_ok.mp step).2.1, rfl⟩

end Guarded

end OpenNfm.Program
