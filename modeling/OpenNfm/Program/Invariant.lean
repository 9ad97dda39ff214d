import OpenNfm.Program.Spec

/-!
# Invariants of code

`Keeps` says that code never leaves an invariant: it holds when the code returns, and
wherever the power fails on the way the machine is in a state of the invariant, for some
memory.  Code that stops keeps every invariant.
-/

namespace OpenNfm.Program.Code

variable {R Op E : Type} {Ans : Op → Type} {α β : Type}

/-- From the invariant, the code is cut inside the invariant and returns inside it. -/
def Keeps (machine : Machine Op Ans E) (inv : R → E → Prop) (code : Code R Op Ans α) : Prop :=
  ∀ ram state, inv ram state →
    spec machine (fun after => ∃ ram', inv ram' after) True code
      (fun _ ram' after => inv ram' after) ram state

namespace Keeps

variable {machine : Machine Op Ans E} {inv : R → E → Prop}

theorem pure (value : α) : Keeps machine inv (Pure.pure value : Code R Op Ans α) :=
  fun ram _ holds => spec_pure.mpr ⟨⟨ram, holds⟩, holds⟩

theorem halt (reason : Halt) : Keeps machine inv (Code.halt reason : Code R Op Ans α) :=
  fun ram _ holds => spec_halt.mpr ⟨⟨ram, holds⟩, trivial⟩

theorem assert (condition : Prop) [Decidable condition] :
    Keeps machine inv (Code.assert condition : Code R Op Ans Unit) :=
  fun ram _ holds => spec_assert.mpr ⟨⟨ram, holds⟩, fun _ => holds, fun _ => trivial⟩

theorem get : Keeps machine inv (MonadState.get : Code R Op Ans R) :=
  fun ram _ holds => spec_get.mpr ⟨⟨ram, holds⟩, holds⟩

theorem modifies {change : R → R} (stable : ∀ ram state, inv ram state → inv (change ram) state) :
    Keeps machine inv (modify change : Code R Op Ans PUnit) :=
  fun ram state holds => spec_modify.mpr ⟨⟨ram, holds⟩, stable ram state holds⟩

theorem bind {code : Code R Op Ans α} {rest : α → Code R Op Ans β}
    (first : Keeps machine inv code) (second : ∀ value, Keeps machine inv (rest value)) :
    Keeps machine inv (code >>= rest) := by
  intro ram state holds
  rw [spec_bind]
  exact spec_mono (first ram state holds) (fun value ram' after => second value ram' after)
    fun _ => id

/-- A call whose answer, if there is one, leaves the machine inside the invariant. -/
theorem perform {op : Op}
    (step : ∀ ram state answer after, inv ram state → machine state op = .ok (answer, after) →
      inv ram after) : Keeps machine inv (Code.perform op : Code R Op Ans (Ans op)) := by
  intro ram state holds
  cases run : machine state op with
  | error reason => exact (Prog.spec_call_of_error run).mpr ⟨⟨ram, holds⟩, trivial⟩
  | ok result =>
      have kept := step ram state result.1 result.2 holds run
      exact (spec_perform_of_step run).mpr ⟨⟨ram, holds⟩, ⟨ram, kept⟩, kept⟩

/-- What the invariant gives is a precondition of the code. -/
theorem spec {code : Code R Op Ans α} {crash : E → Prop} {post : α → R → E → Prop} {ram : R}
    {state : E} (keeps : Keeps machine inv code) (holds : inv ram state)
    (safe : ∀ ram' after, inv ram' after → crash after)
    (meets : ∀ value ram' after, inv ram' after → post value ram' after) :
    Code.spec machine crash True code post ram state :=
  spec_mono (keeps ram state holds) meets fun after ⟨ram', kept⟩ => safe ram' after kept

/-- The first part of the code keeps the invariant, and the rest goes on from there. -/
theorem andThen {code : Code R Op Ans α} {rest : α → Code R Op Ans β}
    {crash : E → Prop} {post : β → R → E → Prop} {ram : R} {state : E}
    (keeps : Keeps machine inv code) (holds : inv ram state)
    (safe : ∀ ram' after, inv ram' after → crash after)
    (meets : ∀ value ram' after, inv ram' after →
      Code.spec machine crash True (rest value) post ram' after) :
    Code.spec machine crash True (code >>= rest) post ram state :=
  spec_bind.mpr (keeps.spec holds safe meets)

end Keeps

end OpenNfm.Program.Code
