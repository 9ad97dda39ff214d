import OpenNfm.Program.Prog

/-!
# Code with memory over an interface

Source functions read and write static variables and call the layer below.
They become `Code`: a state transformer over the memory `R` whose steps are
calls to the interface.  This file gives the weakest precondition of each
construct of `do` notation, so that a proof can walk a function body with one
`simp only [Code.wps]`-style rewriting and then apply the specification of
each callee.
-/

namespace OpenNfm.Program

/-- A computation over the memory `R` that calls the operations `Op`. -/
abbrev Code (R : Type) (Op : Type) (Ans : Op → Type) (α : Type) : Type :=
  StateT R (Prog Op Ans) α

namespace Code

variable {R Op E : Type} {Ans : Op → Type} {α β : Type}

/-- Call one operation of the interface. -/
def perform (op : Op) : Code R Op Ans (Ans op) :=
  fun ram => .call op fun answer => .ret (answer, ram)

/-- Stop the program. -/
def halt (reason : Halt) : Code R Op Ans α :=
  fun _ => .halt reason

/-- Stop the program unless the condition holds. -/
def assert (condition : Prop) [Decidable condition] : Code R Op Ans Unit :=
  if condition then pure () else halt .assertion

/-- Weakest precondition of code: as for `Prog.wp`, with the memory before and
after. -/
def wp (machine : Machine Op Ans E) (crash : E → Prop) (code : Code R Op Ans α)
    (post : α → R → E → Prop) (ram : R) (state : E) : Prop :=
  (code.run ram).wp machine crash (fun result after => post result.1 result.2 after) state

variable {machine : Machine Op Ans E} {crash : E → Prop}

theorem wp_pure {value : α} {post : α → R → E → Prop} {ram : R} {state : E} :
    wp machine crash (pure value : Code R Op Ans α) post ram state ↔
      crash state ∧ post value ram state :=
  Iff.rfl

theorem wp_crash {code : Code R Op Ans α} {post : α → R → E → Prop} {ram : R} {state : E}
    (holds : wp machine crash code post ram state) : crash state :=
  Prog.wp_crash holds

theorem wp_bind {code : Code R Op Ans α} {rest : α → Code R Op Ans β}
    {post : β → R → E → Prop} {ram : R} {state : E} :
    wp machine crash (code >>= rest) post ram state ↔
      wp machine crash code (fun value ram' after =>
        wp machine crash (rest value) post ram' after) ram state := by
  unfold wp
  rw [StateT.run_bind, Prog.wp_bind]

theorem wp_mono {code : Code R Op Ans α} {post post' : α → R → E → Prop} {ram : R}
    {state : E} {crash' : E → Prop}
    (holds : wp machine crash code post ram state)
    (stronger : ∀ value ram' after, post value ram' after → post' value ram' after)
    (crashStronger : ∀ after, crash after → crash' after) :
    wp machine crash' code post' ram state :=
  Prog.wp_mono holds (fun result after => stronger result.1 result.2 after) crashStronger

/-- The postcondition holds of the result of every run. -/
theorem post_of_wp {code : Code R Op Ans α} {post : α → R → E → Prop} {ram ram' : R}
    {state after : E} {value : α} (holds : wp machine crash code post ram state)
    (run : (code.run ram).exec machine state = .ok ((value, ram'), after)) :
    post value ram' after := by
  obtain ⟨result, final, exec, meets⟩ := Prog.exec_of_wp holds
  rw [run] at exec
  cases exec
  exact meets

/-- A run of two computations is a run of the first and then of the second. -/
theorem exec_bind_eq_ok {code : Code R Op Ans α} {rest : α → Code R Op Ans β} {ram : R}
    {state : E} {result : (β × R) × E} :
    ((code >>= rest).run ram).exec machine state = .ok result ↔
      ∃ value ram' after, (code.run ram).exec machine state = .ok ((value, ram'), after) ∧
        ((rest value).run ram').exec machine after = .ok result := by
  rw [StateT.run_bind, Prog.exec_bind]
  constructor
  · intro run
    cases step : (code.run ram).exec machine state with
    | error reason => simp [step] at run
    | ok first =>
        rw [step] at run
        exact ⟨first.1.1, first.1.2, first.2, rfl, run⟩
  · rintro ⟨value, ram', after, step, run⟩
    rw [step]
    exact run

/-- Behind a run of the first computation that returns, the second one goes on. -/
theorem exec_bind_of_ok {code : Code R Op Ans α} {rest : α → Code R Op Ans β} {ram ram' : R}
    {state after : E} {value : α}
    (run : (code.run ram).exec machine state = .ok ((value, ram'), after)) :
    ((code >>= rest).run ram).exec machine state = ((rest value).run ram').exec machine after := by
  rw [StateT.run_bind, Prog.exec_bind, run]

/-- The rest of two computations that run alike. -/
theorem exec_bind_congr {first second : Code R Op Ans α} {rest : α → Code R Op Ans β} {ram ram' : R}
    {state state' : E}
    (same : (first.run ram).exec machine state = (second.run ram').exec machine state') :
    ((first >>= rest).run ram).exec machine state =
      ((second >>= rest).run ram').exec machine state' := by
  rw [StateT.run_bind, StateT.run_bind, Prog.exec_bind, Prog.exec_bind, same]

theorem exec_perform {op : Op} {ram : R} {state after : E} {answer : Ans op}
    (step : machine state op = .ok (answer, after)) :
    ((perform op : Code R Op Ans (Ans op)).run ram).exec machine state =
      .ok ((answer, ram), after) := by
  show (Prog.call op fun answer => .ret (answer, ram)).exec machine state = _
  simp only [Prog.exec, step]

theorem exec_perform_bind_of_error {op : Op} {rest : Ans op → Code R Op Ans β} {ram : R} {state : E}
    {reason : Halt} (step : machine state op = .error reason) :
    ((perform op >>= rest).run ram).exec machine state = .error reason := by
  show (Prog.call op fun answer => (rest answer).run ram).exec machine state = _
  simp only [Prog.exec, step]

theorem exec_get (ram : R) (state : E) :
    ((get : Code R Op Ans R).run ram).exec machine state = .ok ((ram, ram), state) :=
  rfl

/-- Code that stops does not go on. -/
theorem run_bind_of_halt {ram : R} {code : Code R Op Ans α} {rest : α → Code R Op Ans β}
    {reason : Halt} (stops : code.run ram = .halt reason) :
    (code >>= rest).run ram = .halt reason := by
  rw [StateT.run_bind, stops]
  rfl

theorem run_get_bind {ram : R} {rest : R → Code R Op Ans α} :
    ((get : Code R Op Ans R) >>= rest).run ram = (rest ram).run ram :=
  rfl

theorem run_assert_of_not {ram : R} {condition : Prop} [Decidable condition] (fails : ¬ condition) :
    (assert condition : Code R Op Ans Unit).run ram = .halt .assertion := by
  rw [assert, if_neg fails]
  rfl

/-- The run returns, and its result passes the test. -/
def returns (result : Except Halt ((α × R) × E)) (test : α → R → E → Bool) : Bool :=
  match result with
  | .ok ((value, ram), state) => test value ram state
  | .error _ => false

theorem returns_iff {result : Except Halt ((α × R) × E)} {test : α → R → E → Bool} :
    returns result test = true ↔
      ∃ value ram state, result = .ok ((value, ram), state) ∧ test value ram state = true := by
  constructor
  · intro passes
    cases result with
    | error reason => exact absurd passes Bool.false_ne_true
    | ok returned => exact ⟨_, _, _, rfl, passes⟩
  · rintro ⟨value, ram, state, rfl, passes⟩
    exact passes

/-- Why the run stops, if it does not return. -/
def halted (result : Except Halt ((α × R) × E)) : Option Halt :=
  match result with
  | .ok _ => none
  | .error reason => some reason

theorem halted_eq_some {result : Except Halt ((α × R) × E)} {reason : Halt} :
    halted result = some reason ↔ result = .error reason := by
  cases result <;> simp [halted]

theorem wp_get {post : R → R → E → Prop} {ram : R} {state : E} :
    wp machine crash (get : Code R Op Ans R) post ram state ↔
      crash state ∧ post ram ram state :=
  Iff.rfl

theorem wp_set {ram' : R} {post : PUnit → R → E → Prop} {ram : R} {state : E} :
    wp machine crash (set ram' : Code R Op Ans PUnit) post ram state ↔
      crash state ∧ post ⟨⟩ ram' state :=
  Iff.rfl

theorem wp_modify {change : R → R} {post : PUnit → R → E → Prop} {ram : R} {state : E} :
    wp machine crash (modify change : Code R Op Ans PUnit) post ram state ↔
      crash state ∧ post ⟨⟩ (change ram) state :=
  Iff.rfl

theorem wp_perform {op : Op} {post : Ans op → R → E → Prop} {ram : R} {state : E} :
    wp machine crash (perform op : Code R Op Ans (Ans op)) post ram state ↔
      crash state ∧ ∃ answer after, machine state op = .ok (answer, after) ∧
        crash after ∧ post answer ram after :=
  Iff.rfl

/-- One call whose outcome is known. -/
theorem wp_perform_of_step {op : Op} {post : Ans op → R → E → Prop} {ram : R}
    {state after : E} {answer : Ans op} (step : machine state op = .ok (answer, after)) :
    wp machine crash (perform op : Code R Op Ans (Ans op)) post ram state ↔
      crash state ∧ crash after ∧ post answer ram after := by
  rw [wp_perform]
  constructor
  · rintro ⟨safe, answer', after', run, safeAfter, meets⟩
    obtain ⟨rfl, rfl⟩ := Prod.mk.inj (Except.ok.inj (run.symm.trans step))
    exact ⟨safe, safeAfter, meets⟩
  · rintro ⟨safe, safeAfter, meets⟩
    exact ⟨safe, answer, after, step, safeAfter, meets⟩

theorem wp_halt {reason : Halt} {post : α → R → E → Prop} {ram : R} {state : E} :
    wp machine crash (halt reason : Code R Op Ans α) post ram state ↔ False :=
  Iff.rfl

theorem wp_assert {condition : Prop} [Decidable condition] {post : Unit → R → E → Prop}
    {ram : R} {state : E} :
    wp machine crash (assert condition : Code R Op Ans Unit) post ram state ↔
      condition ∧ crash state ∧ post () ram state := by
  unfold assert
  split
  · rename_i met
    rw [wp_pure]
    simp [met]
  · rename_i unmet
    simp [wp_halt, unmet]

theorem wp_ite {condition : Prop} [Decidable condition] {first second : Code R Op Ans α}
    {post : α → R → E → Prop} {ram : R} {state : E} :
    wp machine crash (if condition then first else second) post ram state ↔
      if condition then wp machine crash first post ram state
      else wp machine crash second post ram state := by
  split <;> rfl

end Code

end OpenNfm.Program
