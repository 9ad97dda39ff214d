import OpenNfm.Program.Code

/-!
# Code with assertions left out

Code `agrees` with code that stops less often: whenever the first one returns, the second
one returns the same.  The rules follow `do` notation, so that an assertion that was put
into one callee can be taken out of a whole program.
-/

namespace OpenNfm.Program.Code

variable {R Op E : Type} {Ans : Op → Type} {α β : Type}

/-- Whenever the first code returns, the second one returns the same. -/
def Agrees (machine : Machine Op Ans E) (first second : Code R Op Ans α) : Prop :=
  ∀ ram state result, (first.run ram).exec machine state = .ok result →
    (second.run ram).exec machine state = .ok result

namespace Agrees

variable {machine : Machine Op Ans E}

theorem refl (code : Code R Op Ans α) : Agrees machine code code :=
  fun _ _ _ => id

theorem bind {first second : Code R Op Ans α} {rest rest' : α → Code R Op Ans β}
    (begins : Agrees machine first second)
    (goesOn : ∀ value, Agrees machine (rest value) (rest' value)) :
    Agrees machine (first >>= rest) (second >>= rest') := by
  intro ram state result run
  obtain ⟨value, ram', after, run, run'⟩ := exec_bind_eq_ok.mp run
  exact exec_bind_eq_ok.mpr ⟨value, ram', after, begins _ _ _ run, goesOn value _ _ _ run'⟩

/-- The same code goes on in two ways. -/
theorem after (code : Code R Op Ans α) {rest rest' : α → Code R Op Ans β}
    (goesOn : ∀ value, Agrees machine (rest value) (rest' value)) :
    Agrees machine (code >>= rest) (code >>= rest') :=
  bind (refl code) goesOn

/-- An assertion is left out. -/
theorem assert {condition : Prop} [Decidable condition] {rest : Code R Op Ans β} :
    Agrees machine ((Code.assert condition : Code R Op Ans Unit) >>= fun _ => rest) rest := by
  intro ram state result run
  obtain ⟨value, ram', after, run, run'⟩ := exec_bind_eq_ok.mp run
  by_cases holds : condition
  · rw [Code.assert, if_pos holds] at run
    obtain ⟨same, rfl⟩ := Prod.mk.inj (Except.ok.inj run)
    obtain ⟨_, rfl⟩ := Prod.mk.inj same
    exact run'
  · rw [Code.assert, if_neg holds] at run
    cases run

end Agrees

end OpenNfm.Program.Code
