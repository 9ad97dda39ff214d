import OpenNfm.Program.EveryAnswer
import OpenNfm.Program.Invariant

/-!
# Layers of code

The calls of a program can be answered by code of the layer below.  `Prog.through` puts the
two together to one program over the lower interface; a run of it may be cut at each call
of the lower layer.  `Over` is the precondition of upper code in such a program, with the
memories of both layers.
-/

namespace OpenNfm.Program

namespace Prog

variable {Op Op' R : Type} {Ans : Op → Type} {Ans' : Op' → Type} {α β : Type}

/-- The program with each call served by code of the layer below. -/
def through (serve : (op : Op) → Code R Op' Ans' (Ans op)) : Prog Op Ans α → Code R Op' Ans' α
  | .ret value => pure value
  | .halt reason => Code.halt reason
  | .call op next => serve op >>= fun answer => (next answer).through serve

variable {serve : (op : Op) → Code R Op' Ans' (Ans op)}

theorem through_bind (program : Prog Op Ans α) (rest : α → Prog Op Ans β) :
    (program >>= rest).through serve =
      program.through serve >>= fun value => (rest value).through serve := by
  induction program with
  | ret value =>
      rw [ret_bind, through, LawfulMonad.pure_bind]
  | halt reason => rfl
  | call op next ih =>
      rw [call_bind, through, through, LawfulMonad.bind_assoc]
      exact congrArg _ (funext ih)

end Prog

namespace Code

variable {Op Op' R R' E : Type} {Ans : Op → Type} {Ans' : Op' → Type} {α β : Type}

/-- The crash condition holds where the code returns. -/
theorem spec.crash_post {machine : Machine Op Ans E} {crash : E → Prop} {halts : Prop}
    {code : Code R Op Ans α} {post : α → R → E → Prop} {ram : R} {state : E}
    (holds : spec machine crash halts code post ram state) :
    spec machine crash halts code (fun value ram' after => crash after ∧ post value ram' after)
      ram state := by
  unfold spec at *
  generalize code.run ram = program at holds
  induction program generalizing state with
  | ret value => exact ⟨holds.1, holds⟩
  | halt reason => exact holds
  | call op next ih =>
      cases step : machine state op with
      | error reason =>
          exact (Prog.spec_call_of_error step).mpr ((Prog.spec_call_of_error step).mp holds)
      | ok result =>
          have rest := (Prog.spec_call_of_ok step).mp holds
          exact (Prog.spec_call_of_ok step).mpr ⟨rest.1, ih result.1 rest.2⟩

/-- The precondition of upper code that is served by lower code.  The postcondition is about
the two memories and the machine. -/
def Over (machine : Machine Op' Ans' E) (serve : (op : Op) → Code R Op' Ans' (Ans op))
    (crash : E → Prop) (code : Code R' Op Ans α) (post : α → R' → R → E → Prop) (upper : R')
    (ram : R) (state : E) : Prop :=
  spec machine crash True ((code.run upper).through serve)
    (fun result ram' after => post result.1 result.2 ram' after) ram state

namespace Over

variable {machine : Machine Op' Ans' E} {serve : (op : Op) → Code R Op' Ans' (Ans op)}
  {crash : E → Prop} {upper : R'} {ram : R} {state : E}

theorem pure {value : α} {post : α → R' → R → E → Prop} :
    Over machine serve crash (Pure.pure value : Code R' Op Ans α) post upper ram state ↔
      crash state ∧ post value upper ram state :=
  spec_pure

theorem bind {code : Code R' Op Ans α} {rest : α → Code R' Op Ans β}
    {post : β → R' → R → E → Prop} :
    Over machine serve crash (code >>= rest) post upper ram state ↔
      Over machine serve crash code (fun value upper' ram' after =>
        Over machine serve crash (rest value) post upper' ram' after) upper ram state := by
  unfold Over
  rw [StateT.run_bind, Prog.through_bind, spec_bind]

theorem get {post : R' → R' → R → E → Prop} :
    Over machine serve crash (MonadState.get : Code R' Op Ans R') post upper ram state ↔
      crash state ∧ post upper upper ram state :=
  spec_pure

theorem modifies {change : R' → R'} {post : PUnit → R' → R → E → Prop} :
    Over machine serve crash (modify change : Code R' Op Ans PUnit) post upper ram state ↔
      crash state ∧ post ⟨⟩ (change upper) ram state :=
  spec_pure

theorem halt {reason : Halt} {post : α → R' → R → E → Prop} (here : crash state) :
    Over machine serve crash (Code.halt reason : Code R' Op Ans α) post upper ram state :=
  spec_halt.mpr ⟨here, trivial⟩

theorem assert {condition : Prop} [Decidable condition] {post : Unit → R' → R → E → Prop}
    (here : crash state) (meets : condition → post () upper ram state) :
    Over machine serve crash (Code.assert condition : Code R' Op Ans Unit) post upper ram
      state := by
  unfold Code.assert
  split
  · rename_i holds
    exact pure.mpr ⟨here, meets holds⟩
  · exact halt here

/-- A call is the code that serves it. -/
theorem perform {op : Op} {post : Ans op → R' → R → E → Prop}
    (served : spec machine crash True (serve op) (fun answer ram' after =>
      post answer upper ram' after) ram state) :
    Over machine serve crash (Code.perform op : Code R' Op Ans (Ans op)) post upper ram state := by
  show spec machine crash True (serve op >>= fun answer => Pure.pure (answer, upper)) _ ram state
  rw [spec_bind]
  exact spec_mono served.crash_post
    (fun _ _ _ meets => spec_pure.mpr meets) fun _ => id

theorem mono {code : Code R' Op Ans α} {post post' : α → R' → R → E → Prop} {crash' : E → Prop}
    (holds : Over machine serve crash code post upper ram state)
    (stronger : ∀ value upper' ram' after, post value upper' ram' after →
      post' value upper' ram' after)
    (crashStronger : ∀ after, crash after → crash' after) :
    Over machine serve crash' code post' upper ram state :=
  spec_mono holds (fun result => stronger result.1 result.2) crashStronger

end Over

/-- Upper code that makes only calls whose service keeps an invariant keeps it. -/
theorem Everywhere.over {allowed : Op → Prop} {machine : Machine Op' Ans' E}
    {serve : (op : Op) → Code R Op' Ans' (Ans op)} {inv : R → E → Prop}
    {code : Code R' Op Ans α} {post : α → R' → Prop} {upper : R'} {ram : R} {state : E}
    (holds : Everywhere allowed code post upper)
    (keeps : ∀ op, allowed op → Keeps machine inv (serve op)) (start : inv ram state) :
    Over machine serve (fun after => ∃ ram', inv ram' after) code
      (fun value upper' ram' after => post value upper' ∧ inv ram' after) upper ram state := by
  unfold Everywhere Over at *
  generalize code.run upper = program at holds
  induction program generalizing ram state with
  | ret value => exact spec_pure.mpr ⟨⟨ram, start⟩, holds, start⟩
  | halt reason => exact spec_halt.mpr ⟨⟨ram, start⟩, trivial⟩
  | call op next ih =>
      rw [Prog.through, spec_bind]
      exact spec_mono (keeps op holds.1 ram state start)
        (fun answer ram' after kept => ih answer kept (holds.2 answer)) fun _ => id

end Code

end OpenNfm.Program
