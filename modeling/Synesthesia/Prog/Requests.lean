/-
Programs that make requests of an environment.

A program either is done or makes one request and goes on with the answer.  What
the environment may answer is a relation, so one program stands for all its runs.
-/

namespace Synesthesia.Prog

/-- A program over the requests `Req`, each answered by a value of type `Ans`. -/
inductive Requests (Req : Type) (Ans : Req → Type) (α : Type) where
  | done (value : α)
  | ask (request : Req) (next : Ans request → Requests Req Ans α)

namespace Requests

variable {Req : Type} {Ans : Req → Type} {α β : Type}

def andThen : Requests Req Ans α → (α → Requests Req Ans β) → Requests Req Ans β
  | done value, next => next value
  | ask request answered, next => ask request fun answer => (answered answer).andThen next

instance : Monad (Requests Req Ans) where
  pure := done
  bind := andThen

def call (request : Req) : Requests Req Ans (Ans request) :=
  ask request done

/-- In every run every request is allowed and the value at the end is as stated. -/
def Ensures (answers : (request : Req) → Ans request → Prop) (allowed : Req → Prop)
    (after : α → Prop) : Requests Req Ans α → Prop
  | done value => after value
  | ask request next =>
      allowed request ∧
        ∀ answer, answers request answer → (next answer).Ensures answers allowed after

variable {answers : (request : Req) → Ans request → Prop} {allowed : Req → Prop}
  {after : α → Prop}

/-- The rule of composition. -/
@[simp]
theorem ensures_bind (program : Requests Req Ans α) (next : α → Requests Req Ans β)
    (after : β → Prop) :
    (program >>= next).Ensures answers allowed after ↔
      program.Ensures answers allowed fun value => (next value).Ensures answers allowed after := by
  induction program with
  | done value => exact Iff.rfl
  | ask request answered ih =>
      constructor
      · intro ensured
        exact ⟨ensured.1, fun answer possible => (ih answer).mp (ensured.2 answer possible)⟩
      · intro ensured
        exact ⟨ensured.1, fun answer possible => (ih answer).mpr (ensured.2 answer possible)⟩

/-- The rule of consequence. -/
theorem Ensures.mono {program : Requests Req Ans α} {weaker : α → Prop}
    (ensured : program.Ensures answers allowed after)
    (implied : ∀ value, after value → weaker value) :
    program.Ensures answers allowed weaker := by
  induction program with
  | done value => exact implied value ensured
  | ask request next ih =>
      exact ⟨ensured.1, fun answer possible => ih answer (ensured.2 answer possible)⟩

/-! ### Answers that depend on what was asked before -/

section Stateful

variable {State : Type}

/-- As `Ensures`, for an environment with a state that every request moves. -/
def EnsuresFrom (moves : State → Req → State)
    (answers : State → (request : Req) → Ans request → Prop) (allowed : Req → Prop)
    (after : State → α → Prop) : State → Requests Req Ans α → Prop
  | state, done value => after state value
  | state, ask request next =>
      allowed request ∧ ∀ answer, answers state request answer →
        (next answer).EnsuresFrom moves answers allowed after (moves state request)

variable {moves : State → Req → State}
  {answers : State → (request : Req) → Ans request → Prop} {allowed : Req → Prop}

theorem ensuresFrom_bind (program : Requests Req Ans α) (next : α → Requests Req Ans β)
    (after : State → β → Prop) (state : State) :
    (program >>= next).EnsuresFrom moves answers allowed after state ↔
      program.EnsuresFrom moves answers allowed
        (fun later value => (next value).EnsuresFrom moves answers allowed after later) state := by
  induction program generalizing state with
  | done value => exact Iff.rfl
  | ask request answered ih =>
      constructor
      · intro ensured
        exact ⟨ensured.1, fun answer possible => (ih answer _).mp (ensured.2 answer possible)⟩
      · intro ensured
        exact ⟨ensured.1, fun answer possible => (ih answer _).mpr (ensured.2 answer possible)⟩

end Stateful

end Requests

end Synesthesia.Prog
