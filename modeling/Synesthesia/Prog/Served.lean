/-
Programs whose requests are served within a bound.

Where every request is answered in time, a program that makes a bounded number of
requests is done in time, and its value is what its specification says.
-/

import Synesthesia.Prog.Requests

namespace Synesthesia.Prog.Requests

variable {Req : Type} {Ans : Req → Type} {α : Type}

/-- The program makes at most so many requests, whatever is answered. -/
def AtMost : Nat → Requests Req Ans α → Prop
  | _, done _ => True
  | 0, ask _ _ => False
  | n + 1, ask _ next => ∀ answer, (next answer).AtMost n

variable {answers : (request : Req) → Ans request → Prop} {allowed : Req → Prop}
  {after : α → Prop}

/-- `Ready t program` says that at time `t` the program is the one that is left to do. -/
theorem finishes {Ready : Nat → Requests Req Ans α → Prop} {bound last : Nat}
    (serves : ∀ t request next, Ready t (ask request next) → t + bound ≤ last → allowed request →
      ∃ later answer, later ≤ t + bound ∧ answers request answer ∧ Ready later (next answer)) :
    ∀ (n t : Nat) (program : Requests Req Ans α), program.AtMost n →
      program.Ensures answers allowed after → Ready t program → t + n * bound ≤ last →
      ∃ later value, later ≤ t + n * bound ∧ after value ∧ Ready later (done value) := by
  intro n
  induction n with
  | zero =>
      intro t program few ensured ready _
      cases program with
      | done value => exact ⟨t, value, Nat.le_add_right _ _, ensured, ready⟩
      | ask request next => exact few.elim
  | succ n ih =>
      intro t program few ensured ready inside
      cases program with
      | done value => exact ⟨t, value, Nat.le_add_right _ _, ensured, ready⟩
      | ask request next =>
          rw [Nat.succ_mul] at inside ⊢
          obtain ⟨later, answer, soon, answered, left⟩ :=
            serves t request next ready (by omega) ensured.1
          obtain ⟨final, value, before, reached, last⟩ :=
            ih later (next answer) (few answer) (ensured.2 answer answered) left (by omega)
          exact ⟨final, value, by omega, reached, last⟩

end Synesthesia.Prog.Requests
