/-
Transactions of the local bus.

In a run of accesses that are mapped and complete, each access is answered exactly
once and by its own kind.  An access to a block code without a block behind it, or a
read of the reset of the audio block, is never answered, and its master waits for ever.
-/

import Synesthesia.FpgaTop.LbAnswers

namespace Synesthesia.CortexTree

open Synesthesia.Rtl
open Synesthesia.Prog
open Synesthesia.SynCortexLb (Request)

section Answered

variable {contents : Contents} {first : Activity} {env : Nat → Clock}

/-- Where every access is mapped and complete, every access is answered exactly once and
by its own kind, and nothing is answered before the first access. -/
theorem answered_once (answerable : AllAnswerable contents first env) :
    (∀ t access, issuedAt contents first env t = some access →
      ∃ r, AnsweredOnce contents first env t r access) ∧
    (∀ u, (∀ v, v < u → issuedAt contents first env v = none) →
      validAt contents first env u = (false, false)) := by
  constructor
  · intro t access issued
    have waiting := waiting_of_issue answerable issued
    obtain ⟨r, last, later, arrived, top, -, before⟩ :=
      waiting_run (fun _ _ => True) (fun _ _ _ _ _ => trivial) _ (t + 1) _ rfl waiting trivial
    exact ⟨r, answeredOnce_of_arrival later arrived top before⟩
  · intro u quiet
    have idle := powerUp_idle contents first
    cases u with
    | zero => exact validAt_of idle.unanswered
    | succ u =>
        have still : Idle (stateAt contents first env (u + 1)) (u + 1) :=
          idle_from (t := 0) (Idle.ready idle) (u + 1) (by omega)
            fun v _ upper => quiet v upper
        exact validAt_of still.unanswered

end Answered

/-- The host writes the audio source select, and from then on reads it. -/
def sourceAccesses (t : Nat) : Clock :=
  { offer :=
      { access := some (if t = 0 then .write 0x2700 1 else .read 0x2700)
        idleAddr := 0
        idleData := 0 }
    activity := calm }

theorem sourceWrite_answerable : Answerable (.write 0x2700 1) :=
  { mapped := by decide
    audio := by decide
    request := fun _ _ _ ctrl => absurd ctrl (by decide) }

theorem sourceRead_answerable : Answerable (.read 0x2700) :=
  { mapped := by decide
    audio := by decide
    request := fun _ _ same => nomatch same }

theorem answered_once_source :
    AllAnswerable blank calm sourceAccesses ∧
      issuedAt blank calm sourceAccesses 0 = some (.write 0x2700 1) ∧
      (∃ r, AnsweredOnce blank calm sourceAccesses 0 r (.write 0x2700 1)) ∧
      issuedAt blank calm sourceAccesses 2 = some (.read 0x2700) ∧
      ∃ r, AnsweredOnce blank calm sourceAccesses 2 r (.read 0x2700) := by
  have answerable : AllAnswerable blank calm sourceAccesses := by
    intro t access issued
    cases offered_of_issue issued
    split
    · exact sourceWrite_answerable
    · exact sourceRead_answerable
  have read : issuedAt blank calm sourceAccesses 2 = some (.read 0x2700) := rfl
  exact ⟨answerable, rfl, (answered_once answerable).1 0 _ rfl, read,
    (answered_once answerable).1 2 _ read⟩

/-! ### Lost accesses -/

/-- The master waits for an answer that is not on its way. -/
structure Stuck (access : BusAccess) (system : System) (clock : Nat) : Prop where
  waiting : system.master.waiting = some access
  steady : Steady system.tree clock .rest

section Stuck

variable {system : System} {clock : Nat} {now : Clock} {access : BusAccess}

theorem Stuck.start {leg : Leg} (ready : Ready system clock leg)
    (issued : system.issue now = some access) (lost : Lost access) :
    Stuck access (system.step now) (clock + 1) :=
  { waiting := BusMaster.current_of_issue issued
    steady := steady_lost ready.steady ready.done (pulses_of_issue issued) lost }

theorem Stuck.unanswered (stuck : Stuck access system clock) :
    lbWrValidOd system.tree = false ∧ lbRdValidOd system.tree = false :=
  stuck.steady.valid

theorem Stuck.step (stuck : Stuck access system clock) (now : Clock) :
    Stuck access (system.step now) (clock + 1) := by
  have unanswered := reply_unanswered stuck.unanswered
  have silent : Silent (system.treeInputs now).request :=
    BusMaster.quiet_of_no_issue (BusMaster.issue_of_waiting stuck.waiting unanswered)
  exact
    { waiting := BusMaster.step_of_waiting stuck.waiting unanswered
      steady := steady_silent stuck.steady silent fun busy => absurd rfl busy }

end Stuck

section Lost

variable {contents : Contents} {first : Activity} {env : Nat → Clock}

/-- A lost access is never answered. -/
theorem never_answered {t : Nat} {leg : Leg} {access : BusAccess}
    (ready : Ready (stateAt contents first env t) t leg)
    (issued : issuedAt contents first env t = some access)
    (lost : Lost access) :
    ∀ u, t < u → validAt contents first env u = (false, false) := by
  have stuck : ∀ u, t < u → Stuck access (stateAt contents first env u) u := by
    intro u later
    induction u, later using Nat.le_induction with
    | base => exact Stuck.start ready issued lost
    | succ u _ ih => exact ih.step (env u)
  exact fun u later => validAt_of (stuck u later).unanswered

end Lost

/-! ### A read of the interrupt-clear block -/

def clearReads (_ : Nat) : Clock :=
  { offer :=
      { access := some (.read 0x4000)
        idleAddr := 0
        idleData := 0 }
    activity := calm }

theorem clear_read_unanswered :
    ¬ ∀ (contents : Contents) (first : Activity) (env : Nat → Clock) (t : Nat)
        (access : BusAccess), issuedAt contents first env t = some access →
      ∃ r, AnsweredOnce contents first env t r access := by
  intro claim
  have issued : issuedAt blank calm clearReads 0 = some (.read 0x4000) := rfl
  obtain ⟨r, answered⟩ := claim blank calm clearReads 0 _ issued
  have ready : Ready (stateAt blank calm clearReads 0) 0 .rest := (powerUp_idle blank calm).ready
  have silent := never_answered ready issued (lost_of_unmapped (by decide)) r
    answered.later
  have valid := answered.valid
  rw [silent] at valid
  cases valid

end Synesthesia.CortexTree
