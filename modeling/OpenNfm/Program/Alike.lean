import OpenNfm.Program.Code

/-!
# Code that runs alike

Two programs over different interfaces, each on its own machine, that return the same or
stop for the same reason.  The rules walk both programs together and carry a postcondition
from one part to the next.
-/

namespace OpenNfm.Program.Code

variable {R Op Op' E : Type} {Ans : Op → Type} {Ans' : Op' → Type} {α β : Type}

/-- Both runs end alike, and where they return the postcondition holds. -/
def Alike (machine : Machine Op Ans E) (machine' : Machine Op' Ans' E) (code : Code R Op Ans α)
    (code' : Code R Op' Ans' α) (post : α → R → E → Prop) (ram : R) (state : E) : Prop :=
  (code'.run ram).exec machine' state = (code.run ram).exec machine state ∧
    ∀ value ram' after, (code.run ram).exec machine state = .ok ((value, ram'), after) →
      post value ram' after

namespace Alike

variable {machine : Machine Op Ans E} {machine' : Machine Op' Ans' E} {ram : R} {state : E}

theorem pure {value : α} {post : α → R → E → Prop} (meets : post value ram state) :
    Alike machine machine' (Pure.pure value) (Pure.pure value) post ram state := by
  refine ⟨rfl, fun value' ram' after run => ?_⟩
  cases run
  exact meets

theorem get {post : R → R → E → Prop} (meets : post ram ram state) :
    Alike machine machine' MonadState.get MonadState.get post ram state := by
  refine ⟨rfl, fun value' ram' after run => ?_⟩
  cases run
  exact meets

theorem modifies {change : R → R} {post : PUnit → R → E → Prop}
    (meets : post ⟨⟩ (change ram) state) :
    Alike machine machine' (modify change) (modify change) post ram state := by
  refine ⟨rfl, fun value' ram' after run => ?_⟩
  cases run
  exact meets

theorem halt {reason : Halt} {post : α → R → E → Prop} :
    Alike machine machine' (Code.halt reason) (Code.halt reason) post ram state := by
  refine ⟨rfl, fun value' ram' after run => ?_⟩
  cases run

theorem assert {condition : Prop} [Decidable condition] {post : Unit → R → E → Prop}
    (meets : condition → post () ram state) :
    Alike machine machine' (Code.assert condition) (Code.assert condition) post ram state := by
  unfold Code.assert
  split
  · rename_i holds
    exact pure (meets holds)
  · exact halt

theorem bind {code : Code R Op Ans α} {code' : Code R Op' Ans' α} {rest : α → Code R Op Ans β}
    {rest' : α → Code R Op' Ans' β} {post : β → R → E → Prop}
    (first : Alike machine machine' code code' (fun value ram' after =>
      Alike machine machine' (rest value) (rest' value) post ram' after) ram state) :
    Alike machine machine' (code >>= rest) (code' >>= rest') post ram state := by
  obtain ⟨same, second⟩ := first
  constructor
  · rw [StateT.run_bind, StateT.run_bind, Prog.exec_bind, Prog.exec_bind, same]
    cases run : (code.run ram).exec machine state with
    | error reason => rfl
    | ok result => exact (second _ _ _ run).1
  · intro value ram' after run
    obtain ⟨middle, ram₁, state₁, run, run'⟩ := exec_bind_eq_ok.mp run
    exact (second _ _ _ run).2 _ _ _ run'

theorem mono {code : Code R Op Ans α} {code' : Code R Op' Ans' α} {post post' : α → R → E → Prop}
    (alike : Alike machine machine' code code' post ram state)
    (stronger : ∀ value ram' after, post value ram' after → post' value ram' after) :
    Alike machine machine' code code' post' ram state :=
  ⟨alike.1, fun _ _ _ run => stronger _ _ _ (alike.2 _ _ _ run)⟩

theorem ite {condition : Prop} [Decidable condition] {first second : Code R Op Ans α}
    {first' second' : Code R Op' Ans' α} {post : α → R → E → Prop}
    (yes : condition → Alike machine machine' first first' post ram state)
    (no : ¬ condition → Alike machine machine' second second' post ram state) :
    Alike machine machine' (if condition then first else second)
      (if condition then first' else second') post ram state := by
  split
  · rename_i holds
    exact yes holds
  · rename_i fails
    exact no fails

/-- Two runs that stop. -/
theorem of_error {code : Code R Op Ans α} {code' : Code R Op' Ans' α} {post : α → R → E → Prop}
    {reason : Halt} (stops : (code.run ram).exec machine state = .error reason)
    (stops' : (code'.run ram).exec machine' state = .error reason) :
    Alike machine machine' code code' post ram state := by
  refine ⟨stops'.trans stops.symm, fun value ram' after run => ?_⟩
  rw [stops] at run
  cases run

/-- Two runs that return. -/
theorem of_ok {code : Code R Op Ans α} {code' : Code R Op' Ans' α} {post : α → R → E → Prop}
    {value : α} {ram' : R} {after : E}
    (returns : (code.run ram).exec machine state = .ok ((value, ram'), after))
    (returns' : (code'.run ram).exec machine' state = .ok ((value, ram'), after))
    (meets : post value ram' after) : Alike machine machine' code code' post ram state := by
  refine ⟨returns'.trans returns.symm, fun value' ram₂ after' run => ?_⟩
  rw [returns] at run
  cases run
  exact meets

/-! Single steps in front of the rest. -/

theorem getBind {rest : R → Code R Op Ans β} {rest' : R → Code R Op' Ans' β}
    {post : β → R → E → Prop}
    (goesOn : Alike machine machine' (rest ram) (rest' ram) post ram state) :
    Alike machine machine' (MonadState.get >>= rest) (MonadState.get >>= rest') post ram state :=
  goesOn

theorem modifyBind {change : R → R} {rest : PUnit → Code R Op Ans β}
    {rest' : PUnit → Code R Op' Ans' β} {post : β → R → E → Prop}
    (goesOn : Alike machine machine' (rest ⟨⟩) (rest' ⟨⟩) post (change ram) state) :
    Alike machine machine' (modify change >>= rest) (modify change >>= rest') post ram state :=
  goesOn

theorem assertBind {condition : Prop} [Decidable condition] {rest : Unit → Code R Op Ans β}
    {rest' : Unit → Code R Op' Ans' β} {post : β → R → E → Prop}
    (goesOn : condition → Alike machine machine' (rest ()) (rest' ()) post ram state) :
    Alike machine machine' (Code.assert condition >>= rest) (Code.assert condition >>= rest') post
      ram state :=
  bind (assert goesOn)

end Alike

end OpenNfm.Program.Code
