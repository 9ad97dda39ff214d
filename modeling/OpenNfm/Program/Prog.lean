import Mathlib.Logic.Basic

/-!
# Programs that call an interface

A program over an interface is a well-founded tree of calls.  The interface
lists its operations and the type of the answer to each one; what a call does
is fixed only when the tree is run against a machine.  One program text can
therefore be run on a device that never fails, on a device that fails by a
script, or on the abstract store the device is meant to implement.

The same tree also carries the meaning of a power failure: `Prog.cut` stops
the program between two calls and keeps the state of the machine.
-/

namespace OpenNfm.Program

universe u

/-- Why a program stops without returning a value. -/
inductive Halt where
  /-- a failed assertion -/
  | assertion
  /-- behaviour that the source language leaves undefined -/
  | undefined
  /-- a loop that used up the number of rounds it was given -/
  | fuel
  deriving DecidableEq, Repr

/-- A tree of calls to the operations `Op`, answered in `Ans`. -/
inductive Prog (Op : Type) (Ans : Op → Type) (α : Type u) : Type u where
  | ret (value : α)
  | halt (reason : Halt)
  | call (op : Op) (next : Ans op → Prog Op Ans α)

namespace Prog

variable {Op : Type} {Ans : Op → Type} {α β γ : Type u}

/-- Sequential composition. -/
def bind : Prog Op Ans α → (α → Prog Op Ans β) → Prog Op Ans β
  | .ret value, rest => rest value
  | .halt reason, _ => .halt reason
  | .call op next, rest => .call op fun answer => (next answer).bind rest

/-- Programs run one after another. -/
instance : Monad (Prog Op Ans) where
  pure := .ret
  bind := bind

@[simp]
theorem ret_bind (value : α) (rest : α → Prog Op Ans β) :
    (Prog.ret value : Prog Op Ans α) >>= rest = rest value :=
  rfl

@[simp]
theorem halt_bind (reason : Halt) (rest : α → Prog Op Ans β) :
    (Prog.halt reason : Prog Op Ans α) >>= rest = .halt reason :=
  rfl

@[simp]
theorem call_bind (op : Op) (next : Ans op → Prog Op Ans α)
    (rest : α → Prog Op Ans β) :
    Prog.call op next >>= rest = .call op fun answer => next answer >>= rest :=
  rfl

theorem bind_ret (program : Prog Op Ans α) :
    program >>= Prog.ret = program := by
  induction program with
  | ret value => rfl
  | halt reason => rfl
  | call op next ih =>
      rw [call_bind]
      congr 1
      funext answer
      exact ih answer

theorem bind_assoc (program : Prog Op Ans α) (first : α → Prog Op Ans β)
    (second : β → Prog Op Ans γ) :
    program >>= first >>= second = program >>= fun value => first value >>= second := by
  induction program with
  | ret value => rfl
  | halt reason => rfl
  | call op next ih =>
      simp only [call_bind]
      congr 1
      funext answer
      exact ih answer

/-- The order in which programs are put together does not matter. -/
instance : LawfulMonad (Prog Op Ans) :=
  LawfulMonad.mk' _ bind_ret (fun _ _ => rfl) bind_assoc

/-- Call one operation and return its answer. -/
def perform (op : Op) : Prog Op Ans (Ans op) :=
  .call op .ret

end Prog

/-! ## Running a program -/

/-- A machine answers every call, or stops the program. -/
abbrev Machine (Op : Type) (Ans : Op → Type) (E : Type) :=
  E → (op : Op) → Except Halt (Ans op × E)

namespace Prog

variable {Op : Type} {Ans : Op → Type} {E : Type} {α β : Type}

/-- Run a program to its end. -/
def exec (machine : Machine Op Ans E) : Prog Op Ans α → E → Except Halt (α × E)
  | .ret value, state => .ok (value, state)
  | .halt reason, _ => .error reason
  | .call op next, state =>
      match machine state op with
      | .ok (answer, after) => (next answer).exec machine after
      | .error reason => .error reason

/-- The machine state when the power fails after at most `n` calls. -/
def cut (machine : Machine Op Ans E) : Nat → Prog Op Ans α → E → E
  | 0, _, state => state
  | n + 1, .call op next, state =>
      match machine state op with
      | .ok (answer, after) => (next answer).cut machine n after
      | .error _ => state
  | _ + 1, .ret _, state => state
  | _ + 1, .halt _, state => state

theorem exec_bind (machine : Machine Op Ans E) (program : Prog Op Ans α)
    (rest : α → Prog Op Ans β) (state : E) :
    (program >>= rest).exec machine state =
      match program.exec machine state with
      | .ok (value, after) => (rest value).exec machine after
      | .error reason => .error reason := by
  induction program generalizing state with
  | ret value => rfl
  | halt reason => rfl
  | call op next ih =>
      simp only [call_bind, exec]
      cases machine state op with
      | error reason => rfl
      | ok result => exact ih result.1 result.2

/-! ## Weakest preconditions -/

/-- `wp machine crash program post state`: run from `state`, the program
returns and its result meets `post`, and wherever the power fails on the way
the machine is left in a state that meets `crash`. -/
def wp (machine : Machine Op Ans E) (crash : E → Prop) :
    Prog Op Ans α → (α → E → Prop) → E → Prop
  | .ret value, post, state => crash state ∧ post value state
  | .halt _, _, _ => False
  | .call op next, post, state =>
      crash state ∧ ∃ answer after, machine state op = .ok (answer, after) ∧
        (next answer).wp machine crash post after

variable {machine : Machine Op Ans E} {crash : E → Prop}

theorem wp_ret {value : α} {post : α → E → Prop} {state : E} :
    (Prog.ret value : Prog Op Ans α).wp machine crash post state ↔
      crash state ∧ post value state :=
  Iff.rfl

theorem wp_call {op : Op} {next : Ans op → Prog Op Ans α} {post : α → E → Prop}
    {state : E} :
    (Prog.call op next).wp machine crash post state ↔
      crash state ∧ ∃ answer after, machine state op = .ok (answer, after) ∧
        (next answer).wp machine crash post after :=
  Iff.rfl

theorem wp_crash {program : Prog Op Ans α} {post : α → E → Prop} {state : E}
    (holds : program.wp machine crash post state) : crash state := by
  cases program with
  | ret value => exact (wp_ret.mp holds).1
  | halt reason => exact holds.elim
  | call op next => exact (wp_call.mp holds).1

theorem wp_mono {program : Prog Op Ans α} {post post' : α → E → Prop} {state : E}
    {crash' : E → Prop}
    (holds : program.wp machine crash post state)
    (stronger : ∀ value after, post value after → post' value after)
    (crashStronger : ∀ after, crash after → crash' after) :
    program.wp machine crash' post' state := by
  induction program generalizing state with
  | ret value =>
      obtain ⟨safe, meets⟩ := wp_ret.mp holds
      exact wp_ret.mpr ⟨crashStronger _ safe, stronger _ _ meets⟩
  | halt reason => exact holds.elim
  | call op next ih =>
      obtain ⟨safe, answer, after, step, rest⟩ := wp_call.mp holds
      exact wp_call.mpr ⟨crashStronger _ safe, answer, after, step, ih answer rest⟩

theorem wp_bind {program : Prog Op Ans α} {rest : α → Prog Op Ans β}
    {post : β → E → Prop} {state : E} :
    (program >>= rest).wp machine crash post state ↔
      program.wp machine crash (fun value after =>
        (rest value).wp machine crash post after) state := by
  induction program generalizing state with
  | ret value =>
      rw [ret_bind, wp_ret]
      exact ⟨fun holds => ⟨wp_crash holds, holds⟩, fun holds => holds.2⟩
  | halt reason => rfl
  | call op next ih =>
      rw [call_bind, wp_call, wp_call]
      simp only [ih]

/-- One call: the machine answers, and both states around it are safe. -/
theorem wp_perform {op : Op} {post : Ans op → E → Prop} {state : E} :
    (perform op : Prog Op Ans (Ans op)).wp machine crash post state ↔
      crash state ∧ ∃ answer after, machine state op = .ok (answer, after) ∧
        crash after ∧ post answer after :=
  Iff.rfl

/-- The postcondition holds of the result of the run. -/
theorem exec_of_wp {program : Prog Op Ans α} {post : α → E → Prop} {state : E}
    (holds : program.wp machine crash post state) :
    ∃ value after, program.exec machine state = .ok (value, after) ∧ post value after := by
  induction program generalizing state with
  | ret value => exact ⟨value, state, rfl, (wp_ret.mp holds).2⟩
  | halt reason => exact holds.elim
  | call op next ih =>
      obtain ⟨_, answer, after, step, rest⟩ := wp_call.mp holds
      obtain ⟨value, final, run, meets⟩ := ih answer rest
      exact ⟨value, final, by simpa only [exec, step] using run, meets⟩

/-- The crash condition holds wherever the power fails. -/
theorem cut_of_wp {program : Prog Op Ans α} {post : α → E → Prop} {state : E}
    (holds : program.wp machine crash post state) (n : Nat) :
    crash (program.cut machine n state) := by
  induction n generalizing program state with
  | zero => exact wp_crash holds
  | succ n ih =>
      cases program with
      | ret value => exact wp_crash holds
      | halt reason => exact holds.elim
      | call op next =>
          obtain ⟨_, answer, after, step, rest⟩ := wp_call.mp holds
          simpa only [cut, step] using ih rest

/-- A run that returns is a weakest precondition with the trivial crash
condition. -/
theorem wp_of_exec {program : Prog Op Ans α} {state after : E} {value : α}
    (run : program.exec machine state = .ok (value, after)) :
    program.wp machine (fun _ => True) (fun value' after' =>
      value' = value ∧ after' = after) state := by
  induction program generalizing state with
  | ret value' =>
      simp only [exec, Except.ok.injEq, Prod.mk.injEq] at run
      exact wp_ret.mpr ⟨trivial, run⟩
  | halt reason => simp [exec] at run
  | call op next ih =>
      cases step : machine state op with
      | error reason => simp [exec, step] at run
      | ok result =>
          simp only [exec, step] at run
          exact wp_call.mpr ⟨trivial, result.1, result.2, step, ih result.1 run⟩

end Prog

end OpenNfm.Program
