import OpenNfm.Program.Invariant

/-!
# Arbitrary answers

An oracle answers each call as it likes, given the calls so far.  Whatever the layer below
does, and with any pattern of failures, it is one of these oracles.  The machine of an
oracle records the calls and their answers.
-/

namespace OpenNfm.Program

/-- A call and its answer. -/
structure Called (Op : Type) (Ans : Op → Type) where
  op : Op
  answer : Ans op

/-- The answer to a call behind other calls. -/
abbrev Oracle (Op : Type) (Ans : Op → Type) : Type :=
  List (Called Op Ans) → (op : Op) → Ans op

variable {R Op : Type} {Ans : Op → Type} {α β : Type}

/-- The machine that answers by the oracle.  Its state is the list of all calls, the newest
one first. -/
def Oracle.machine (oracle : Oracle Op Ans) : Machine Op Ans (List (Called Op Ans)) :=
  fun calls op => .ok (oracle calls op, ⟨op, oracle calls op⟩ :: calls)

namespace Code

/-- If the run returns, it does so with the postcondition. -/
def Yields (oracle : Oracle Op Ans) (code : Code R Op Ans α)
    (post : α → R → List (Called Op Ans) → Prop) (ram : R) (calls : List (Called Op Ans)) : Prop :=
  spec oracle.machine (fun _ => True) True code post ram calls

namespace Yields

variable {oracle : Oracle Op Ans} {ram : R} {calls : List (Called Op Ans)}

theorem pure {value : α} {post : α → R → List (Called Op Ans) → Prop} :
    Yields oracle (Pure.pure value : Code R Op Ans α) post ram calls ↔ post value ram calls :=
  spec_pure.trans (and_iff_right trivial)

theorem bind {code : Code R Op Ans α} {rest : α → Code R Op Ans β}
    {post : β → R → List (Called Op Ans) → Prop} :
    Yields oracle (code >>= rest) post ram calls ↔
      Yields oracle code (fun value ram' calls' => Yields oracle (rest value) post ram' calls') ram
        calls :=
  spec_bind

theorem get {post : R → R → List (Called Op Ans) → Prop} :
    Yields oracle (MonadState.get : Code R Op Ans R) post ram calls ↔ post ram ram calls :=
  spec_get.trans (and_iff_right trivial)

theorem modifies {change : R → R} {post : PUnit → R → List (Called Op Ans) → Prop} :
    Yields oracle (modify change : Code R Op Ans PUnit) post ram calls ↔
      post ⟨⟩ (change ram) calls :=
  spec_modify.trans (and_iff_right trivial)

theorem halt {reason : Halt} {post : α → R → List (Called Op Ans) → Prop} :
    Yields oracle (Code.halt reason : Code R Op Ans α) post ram calls :=
  spec_halt.mpr ⟨trivial, trivial⟩

theorem assert {condition : Prop} [Decidable condition]
    {post : Unit → R → List (Called Op Ans) → Prop} :
    Yields oracle (Code.assert condition : Code R Op Ans Unit) post ram calls ↔
      (condition → post () ram calls) :=
  spec_assert.trans ⟨fun holds => holds.2.1, fun holds => ⟨trivial, holds, fun _ => trivial⟩⟩

theorem perform {op : Op} {post : Ans op → R → List (Called Op Ans) → Prop} :
    Yields oracle (Code.perform op : Code R Op Ans (Ans op)) post ram calls ↔
      post (oracle calls op) ram (⟨op, oracle calls op⟩ :: calls) := by
  have step : oracle.machine calls op = .ok (oracle calls op, ⟨op, oracle calls op⟩ :: calls) := rfl
  exact (spec_perform_of_step step).trans ((and_iff_right trivial).trans (and_iff_right trivial))

theorem mono {code : Code R Op Ans α} {post post' : α → R → List (Called Op Ans) → Prop}
    (holds : Yields oracle code post ram calls)
    (stronger : ∀ value ram' calls', post value ram' calls' → post' value ram' calls') :
    Yields oracle code post' ram calls :=
  spec_mono holds stronger fun _ => id

theorem any {code : Code R Op Ans α} : Yields oracle code (fun _ _ _ => True) ram calls := by
  unfold Yields spec
  generalize code.run ram = program
  induction program generalizing calls with
  | ret value => exact ⟨trivial, trivial⟩
  | halt reason => exact ⟨trivial, trivial⟩
  | call op next ih =>
      have step : oracle.machine calls op =
          .ok (oracle calls op, ⟨op, oracle calls op⟩ :: calls) := rfl
      exact (Prog.spec_call_of_ok step).mpr ⟨trivial, ih _⟩

/-- The calls of the run come in front of the earlier ones. -/
theorem suffix {code : Code R Op Ans α} :
    Yields oracle code (fun _ _ calls' => calls <:+ calls') ram calls := by
  unfold Yields spec
  generalize code.run ram = program
  induction program generalizing calls with
  | ret value => exact ⟨trivial, List.suffix_rfl⟩
  | halt reason => exact ⟨trivial, trivial⟩
  | call op next ih =>
      have step : oracle.machine calls op =
          .ok (oracle calls op, ⟨op, oracle calls op⟩ :: calls) := rfl
      refine (Prog.spec_call_of_ok step).mpr ⟨trivial, ?_⟩
      exact Prog.spec_mono (ih (oracle calls op))
        (fun result after later => (List.suffix_cons _ calls).trans later) fun _ => id

theorem of_run {code : Code R Op Ans α} {post : α → R → List (Called Op Ans) → Prop} {value : α}
    {ram' : R} {after : List (Called Op Ans)} (holds : Yields oracle code post ram calls)
    (run : (code.run ram).exec oracle.machine calls = .ok ((value, ram'), after)) :
    post value ram' after :=
  post_of_spec holds run

end Yields

/-- Code that keeps an invariant returns inside it. -/
theorem Keeps.yields {oracle : Oracle Op Ans} {code : Code R Op Ans α}
    {inv : R → List (Called Op Ans) → Prop} {post : α → R → List (Called Op Ans) → Prop} {ram : R}
    {calls : List (Called Op Ans)} (keeps : Keeps oracle.machine inv code) (holds : inv ram calls)
    (meets : ∀ value ram' calls', inv ram' calls' → post value ram' calls') :
    Yields oracle code post ram calls :=
  keeps.spec holds (fun _ _ _ => trivial) meets

end Code

end OpenNfm.Program
