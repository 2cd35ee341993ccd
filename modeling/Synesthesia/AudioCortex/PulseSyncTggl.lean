/-
`pulse_sync_tggl`: one lane of the toggle synchroniser.

A pulse of domain A inverts a flop; domain B samples it twice, detects the
change and delays the pulse once more.  The two domains have resets of their own.
Both clocks are the same clock here, as they are in the design.
-/

import Synesthesia.Rtl.Clocked

namespace Synesthesia.PulseSyncTggl

structure State where
  tflopF : Bool
  ddSyncA2bF : BitVec 2
  pulseFilterF : BitVec 3

def reset : State :=
  { tflopF := false
    ddSyncA2bF := 0
    pulseFilterF := 0 }

def resetA (state : State) : State :=
  { state with tflopF := false }

def pulseBOh (state : State) : Bool := state.pulseFilterF.getLsbD 2

def step (state : State) (pulseAIh : Bool) : State :=
  { tflopF := if pulseAIh then !state.tflopF else state.tflopF
    ddSyncA2bF := state.ddSyncA2bF.extractLsb' 0 1 ++ BitVec.ofBool state.tflopF
    pulseFilterF :=
      state.pulseFilterF.extractLsb' 1 1 ++
        BitVec.ofBool (state.pulseFilterF.getLsbD 0 ^^ state.ddSyncA2bF.getLsbD 1) ++
        BitVec.ofBool (state.ddSyncA2bF.getLsbD 1) }

/-! ### Bits of the next state -/

section Bits

variable (state : State) (pulseAIh : Bool)

theorem step_sync_zero : (step state pulseAIh).ddSyncA2bF.getLsbD 0 = state.tflopF := by
  simp only [step, BitVec.getLsbD_append, BitVec.getLsbD_extractLsb', BitVec.getLsbD_ofBool]
  simp

theorem step_sync_one :
    (step state pulseAIh).ddSyncA2bF.getLsbD 1 = state.ddSyncA2bF.getLsbD 0 := by
  simp only [step, BitVec.getLsbD_append, BitVec.getLsbD_extractLsb', BitVec.getLsbD_ofBool]
  simp

theorem step_filter_zero :
    (step state pulseAIh).pulseFilterF.getLsbD 0 = state.ddSyncA2bF.getLsbD 1 := by
  simp only [step, BitVec.getLsbD_append, BitVec.getLsbD_extractLsb', BitVec.getLsbD_ofBool]
  simp

theorem step_filter_one :
    (step state pulseAIh).pulseFilterF.getLsbD 1 =
      (state.pulseFilterF.getLsbD 0 ^^ state.ddSyncA2bF.getLsbD 1) := by
  simp only [step, BitVec.getLsbD_append, BitVec.getLsbD_extractLsb', BitVec.getLsbD_ofBool]
  simp

theorem step_pulse : pulseBOh (step state pulseAIh) = state.pulseFilterF.getLsbD 1 := by
  simp only [pulseBOh, step, BitVec.getLsbD_append, BitVec.getLsbD_extractLsb',
    BitVec.getLsbD_ofBool]
  simp

end Bits

/-! ### A run of the synchroniser -/

/-- Domain B makes a normal step in every clock, whatever happens to the flop. -/
def SyncRuns (states : Nat → State) : Prop :=
  ∀ t, ∃ pulseAIh, (states (t + 1)).ddSyncA2bF = (step (states t) pulseAIh).ddSyncA2bF ∧
    (states (t + 1)).pulseFilterF = (step (states t) pulseAIh).pulseFilterF

section Run

variable {states : Nat → State}

theorem SyncRuns.sync_zero (runs : SyncRuns states) (t : Nat) :
    (states (t + 1)).ddSyncA2bF.getLsbD 0 = (states t).tflopF := by
  obtain ⟨pulse, sync, _⟩ := runs t
  rw [sync, step_sync_zero]

theorem SyncRuns.sync_one (runs : SyncRuns states) (t : Nat) :
    (states (t + 1)).ddSyncA2bF.getLsbD 1 = (states t).ddSyncA2bF.getLsbD 0 := by
  obtain ⟨pulse, sync, _⟩ := runs t
  rw [sync, step_sync_one]

theorem SyncRuns.filter_zero (runs : SyncRuns states) (t : Nat) :
    (states (t + 1)).pulseFilterF.getLsbD 0 = (states t).ddSyncA2bF.getLsbD 1 := by
  obtain ⟨pulse, _, filter⟩ := runs t
  rw [filter, step_filter_zero]

theorem SyncRuns.filter_one (runs : SyncRuns states) (t : Nat) :
    (states (t + 1)).pulseFilterF.getLsbD 1 =
      ((states t).pulseFilterF.getLsbD 0 ^^ (states t).ddSyncA2bF.getLsbD 1) := by
  obtain ⟨pulse, _, filter⟩ := runs t
  rw [filter, step_filter_one]

theorem SyncRuns.pulse_one (runs : SyncRuns states) (t : Nat) :
    pulseBOh (states (t + 1)) = (states t).pulseFilterF.getLsbD 1 := by
  obtain ⟨pulse, _, filter⟩ := runs t
  rw [← step_pulse (states t) pulse, pulseBOh, pulseBOh, filter]

/-! The pulses of the next clocks stand in the registers already. -/

theorem SyncRuns.pulse_two (runs : SyncRuns states) (t : Nat) :
    pulseBOh (states (t + 2)) =
      ((states t).pulseFilterF.getLsbD 0 ^^ (states t).ddSyncA2bF.getLsbD 1) := by
  rw [runs.pulse_one (t + 1), runs.filter_one]

theorem SyncRuns.pulse_three (runs : SyncRuns states) (t : Nat) :
    pulseBOh (states (t + 3)) =
      ((states t).ddSyncA2bF.getLsbD 1 ^^ (states t).ddSyncA2bF.getLsbD 0) := by
  rw [runs.pulse_two (t + 1), runs.filter_zero, runs.sync_one]

theorem SyncRuns.pulse_four (runs : SyncRuns states) (t : Nat) :
    pulseBOh (states (t + 4)) = ((states t).ddSyncA2bF.getLsbD 0 ^^ (states t).tflopF) := by
  rw [runs.pulse_three (t + 1), runs.sync_one, runs.sync_zero]

/-- A change of the flop is a pulse five clocks later. -/
theorem SyncRuns.pulse (runs : SyncRuns states) (t : Nat) :
    pulseBOh (states (t + 5)) = ((states t).tflopF ^^ (states (t + 1)).tflopF) := by
  rw [runs.pulse_four (t + 1), runs.sync_zero]

theorem SyncRuns.pulse_early (runs : SyncRuns states) (start : states 0 = reset) {t : Nat}
    (early : t < 5) : pulseBOh (states t) = false := by
  have cases : t = 0 ∨ t = 1 ∨ t = 2 ∨ t = 3 ∨ t = 4 := by
    omega
  rcases cases with rfl | rfl | rfl | rfl | rfl
  · rw [start]
    rfl
  · rw [runs.pulse_one 0, start]
    rfl
  · rw [runs.pulse_two 0, start]
    rfl
  · rw [runs.pulse_three 0, start]
    rfl
  · rw [runs.pulse_four 0, start]
    rfl

end Run

end Synesthesia.PulseSyncTggl
