/-
The timetable of a frame.

The control registers of the sequencer never look at a word of a RAM.  So every frame of
every run keeps the same timetable, whatever the host does on the local bus, and the
result port addresses every word of the result RAM once.
-/

import Synesthesia.FusiformGyrus.MagnitudePasses

namespace Synesthesia.FftEngine

open Synesthesia.Rtl
open Synesthesia.FgyrusFsm
open Synesthesia.FftSchedule (wings)

/-- Clocks of a frame in which the sequencer is not idle. -/
def busyClocks : Nat := frameClocks + passClocks

def schedule (i : Nat) : Pstate :=
  if i < copyClocks then .decimate
  else if i ≤ copyClocks + 7 * wings then .fft
  else if i < frameClocks then .fftWait
  else if i < frameClocks + cordicClocks then .cordic
  else .abs

theorem schedule_busy (i : Nat) : schedule i ≠ .idle := by
  unfold schedule
  repeat' split
  all_goals exact Pstate.noConfusion

/-- The states in which the sequencer reads its RAMs. -/
theorem schedule_late {d : Nat} :
    schedule (copyClocks + d) ≠ .idle ∧ schedule (copyClocks + d) ≠ .decimate ∧
      (schedule (copyClocks + d) = .fft ↔ d ≤ 7 * wings) ∧
      (schedule (copyClocks + d) = .cordic ↔
        stageClocks ≤ d ∧ d < stageClocks + cordicClocks) := by
  have lengths : frameClocks = copyClocks + stageClocks ∧ stageClocks = 7 * wings + 8 :=
    ⟨rfl, rfl⟩
  unfold schedule
  rw [if_neg (by omega)]
  split
  · refine ⟨by decide, by decide, ⟨fun _ => by omega, fun _ => rfl⟩, ?_⟩
    exact ⟨fun fft => absurd fft (by decide), fun _ => by omega⟩
  · split
    · refine ⟨by decide, by decide, ⟨fun wait => absurd wait (by decide), fun _ => by omega⟩, ?_⟩
      exact ⟨fun wait => absurd wait (by decide), fun _ => by omega⟩
    · split
      · refine ⟨by decide, by decide, ⟨fun pass => absurd pass (by decide), fun _ => by omega⟩, ?_⟩
        exact ⟨fun _ => by omega, fun _ => rfl⟩
      · refine ⟨by decide, by decide, ⟨fun pass => absurd pass (by decide), fun _ => by omega⟩, ?_⟩
        exact ⟨fun pass => absurd pass (by decide), fun _ => by omega⟩

def resultAddress (state : State) : List (BitVec 7) :=
  strobed state.fsm.fftResWrEnOh state.fsm.fftResWrAddrOd

section Frame

variable {states : Nat → State} {inputs : Nat → Inputs}

theorem Opening.schedule_early (opening : Opening states inputs) {i : Nat}
    (inside : i < frameClocks) : (states i).fsm.fsmPstate = schedule i := by
  unfold schedule
  by_cases copying : i < copyClocks
  · rw [if_pos copying]
    exact (opening.copying i copying).pstate
  · obtain ⟨k, rfl⟩ := Nat.exists_eq_add_of_le (Nat.le_of_not_lt copying)
    rw [if_neg copying]
    by_cases stages : k ≤ 7 * wings
    · rw [if_pos (Nat.add_le_add_left stages _)]
      exact (opening.paced.clocks k stages).pstate
    · rw [if_neg (by omega), if_pos inside]
      obtain ⟨w, rfl⟩ := Nat.exists_eq_add_of_lt (Nat.lt_of_not_le stages)
      refine (opening.paced.waiting w ?_).pstate
      rw [frameClocks, stageClocks] at inside
      omega

theorem Runs.cordicClocks_from (runs : Runs states inputs) {t : Nat}
    (clock : CordicClock 0 (states t).fsm) :
    ∀ c < cordicClocks, CordicClock c (states (t + c)).fsm := by
  intro c
  induction c with
  | zero => exact fun _ => clock
  | succ c ih =>
      intro inside
      rw [← Nat.add_assoc, runs.fsm (t + c)]
      exact cordic_step (ih (by omega)) inside _

theorem Runs.absClocks_from (runs : Runs states inputs) {t : Nat}
    (clock : AbsClock 0 (states t).fsm) : ∀ e < absClocks, AbsClock e (states (t + e)).fsm := by
  intro e
  induction e with
  | zero => exact fun _ => clock
  | succ e ih =>
      intro inside
      rw [← Nat.add_assoc, runs.fsm (t + e)]
      exact abs_step (ih (by omega)) inside _

theorem Runs.abs_after_cordic (runs : Runs states inputs) {t : Nat}
    (clock : CordicClock 0 (states t).fsm) : AbsClock 0 (states (t + cordicClocks)).fsm := by
  have last := runs.cordicClocks_from clock (cordicClocks - 1) (by decide)
  rw [show t + cordicClocks = t + (cordicClocks - 1) + 1 from rfl, runs.fsm]
  exact cordic_end last _

theorem Runs.idle_after_abs (runs : Runs states inputs) {t : Nat}
    (clock : AbsClock 0 (states t).fsm) :
    (states (t + absClocks)).fsm.fsmPstate = .idle := by
  have last := runs.absClocks_from clock (absClocks - 1) (by decide)
  rw [show t + absClocks = t + (absClocks - 1) + 1 from rfl, runs.fsm]
  exact abs_end last _

theorem Runs.resultAddresses (runs : Runs states inputs) {t : Nat}
    (clock : AbsClock 0 (states t).fsm) (early : (states t).fsm.fftResWrEnOh = false) :
    ∀ e ≤ absClocks, collect (fun k => resultAddress (states (t + k))) (e + 1) =
      (List.range ((e + 22) / 25 - 1)).map (BitVec.ofNat 7) := by
  intro e
  induction e with
  | zero =>
      intro _
      rw [collect_succ, resultAddress, Nat.add_zero, early]
      rfl
  | succ e ih =>
      intro inside
      have now := runs.absClocks_from clock e inside
      obtain ⟨wrEn, wrAddr, _⟩ := runs.resultPort now.pstate
      rw [collect_succ, ih (by omega), resultAddress, ← Nat.add_assoc, wrEn, wrAddr, now.realWrite,
        now.wrAddr]
      by_cases slot : 25 ≤ e ∧ e % 25 = 2
      · rw [decide_eq_true slot, show (e + 1 + 22) / 25 - 1 = (e + 22) / 25 - 1 + 1 by omega,
          List.range_succ, List.map_append]
        rfl
      · rw [decide_eq_false slot, show (e + 1 + 22) / 25 - 1 = (e + 22) / 25 - 1 by omega]
        exact List.append_nil _

structure Timed (states : Nat → State) (inputs : Nat → Inputs) : Prop
    extends Opening states inputs where
  clear : ∀ t, ExtnClear (states t).fsm
  early : (states 0).fsm.fftResWrEnOh = false

theorem Timed.cordicClock (timed : Timed states inputs) :
    CordicClock 0 (states frameClocks).fsm :=
  timed.paced.entry fun k => timed.clear (copyClocks + k)

theorem Timed.schedule (timed : Timed states inputs) {i : Nat} (inside : i < busyClocks) :
    (states i).fsm.fsmPstate = schedule i := by
  by_cases early : i < frameClocks
  · exact timed.schedule_early early
  · obtain ⟨k, rfl⟩ := Nat.exists_eq_add_of_le (Nat.le_of_not_lt early)
    have late : ¬ frameClocks + k < copyClocks ∧ ¬ frameClocks + k ≤ copyClocks + 7 * wings := by
      rw [frameClocks, stageClocks]
      omega
    rw [FftEngine.schedule, if_neg late.1, if_neg late.2, if_neg early]
    by_cases cordic : k < cordicClocks
    · rw [if_pos (Nat.add_lt_add_left cordic _)]
      exact (timed.runs.cordicClocks_from timed.cordicClock k cordic).pstate
    · rw [if_neg (by omega)]
      obtain ⟨e, rfl⟩ := Nat.exists_eq_add_of_le (Nat.le_of_not_lt cordic)
      rw [← Nat.add_assoc]
      refine (timed.runs.absClocks_from (timed.runs.abs_after_cordic timed.cordicClock) e ?_).pstate
      rw [busyClocks, passClocks] at inside
      omega

theorem Timed.idle (timed : Timed states inputs) :
    (states busyClocks).fsm.fsmPstate = .idle := by
  rw [show busyClocks = frameClocks + cordicClocks + absClocks from rfl]
  exact timed.runs.idle_after_abs (timed.runs.abs_after_cordic timed.cordicClock)

theorem Timed.resultQuiet (timed : Timed states inputs) {i : Nat}
    (inside : i ≤ frameClocks + cordicClocks) : (states i).fsm.fftResWrEnOh = false := by
  cases i with
  | zero => exact timed.early
  | succ i =>
      refine timed.runs.resultIdle fun abs => ?_
      have before : i < busyClocks := by
        rw [busyClocks, passClocks]
        omega
      rw [timed.schedule before, FftEngine.schedule] at abs
      split at abs
      · cases abs
      · split at abs
        · cases abs
        · split at abs
          · cases abs
          · rw [if_pos (by omega)] at abs
            cases abs

theorem Timed.resultAddresses (timed : Timed states inputs) :
    collect (fun i => resultAddress (states i)) (busyClocks + 1) =
      (List.range 128).map (BitVec.ofNat 7) := by
  have first : collect (fun i => resultAddress (states i)) (frameClocks + cordicClocks) = [] := by
    refine collect_eq_nil fun i before => ?_
    rw [resultAddress, timed.resultQuiet (Nat.le_of_lt before)]
    rfl
  rw [show busyClocks + 1 = frameClocks + cordicClocks + (absClocks + 1) from rfl, collect_add,
    first, List.nil_append]
  exact timed.runs.resultAddresses (timed.runs.abs_after_cordic timed.cordicClock)
    (timed.resultQuiet (Nat.le_refl _)) absClocks (Nat.le_refl _)

theorem Runs.timed (runs : Runs states inputs) (ready : StageReady (states 0).fsm)
    (clear : ExtnClear (states 0).fsm) {start : Nat} (starts : Starts states inputs start) :
    Timed (fun i => states (start + 1 + i)) (fun i => inputs (start + 1 + i)) :=
  { toOpening := runs.opening ready starts
    clear := fun t => runs.extnClear clear (start + 1 + t)
    early := by
      refine runs.resultIdle fun abs => ?_
      rw [starts.1] at abs
      cases abs }

/-- A busy clock belongs to a frame. -/
theorem Runs.frame_of_busy (runs : Runs states inputs) (ready : StageReady (states 0).fsm)
    (clear : ExtnClear (states 0).fsm) (idle : (states 0).fsm.fsmPstate = .idle) {t : Nat}
    (busy : (states t).fsm.fsmPstate ≠ .idle) :
    ∃ start i, Starts states inputs start ∧ i < busyClocks ∧ t = start + 1 + i := by
  obtain ⟨start, before, starts, since⟩ := runs.busy_since idle t busy
  obtain ⟨i, rfl⟩ := Nat.exists_eq_add_of_lt before
  refine ⟨start, i, starts, ?_, by omega⟩
  by_contra late
  have ended := (runs.timed ready clear starts).idle
  exact since (start + 1 + busyClocks) (by omega) (by omega) ended

end Frame

/-! ### Two runs -/

section Pair

variable {states others : Nat → State} {inputs otherInputs : Nat → Inputs}

theorem Timed.resultAddress_eq (timed : Timed states inputs) (other : Timed others otherInputs)
    {i : Nat} (inside : i ≤ busyClocks) :
    resultAddress (states i) = resultAddress (others i) := by
  by_cases early : i ≤ frameClocks + cordicClocks
  · rw [resultAddress, resultAddress, timed.resultQuiet early, other.resultQuiet early]
    rfl
  · obtain ⟨e, rfl⟩ := Nat.exists_eq_add_of_lt (Nat.lt_of_not_le early)
    have window : e < absClocks := by
      rw [busyClocks, passClocks] at inside
      omega
    have now := timed.runs.absClocks_from (timed.runs.abs_after_cordic timed.cordicClock) e window
    have now' := other.runs.absClocks_from (other.runs.abs_after_cordic other.cordicClock) e window
    obtain ⟨wrEn, wrAddr, _⟩ := timed.runs.resultPort now.pstate
    obtain ⟨wrEn', wrAddr', _⟩ := other.runs.resultPort now'.pstate
    rw [resultAddress, resultAddress, wrEn, wrAddr, wrEn', wrAddr', now.realWrite, now'.realWrite,
      now.wrAddr, now'.wrAddr]

/-- What two runs from power-up have in common when samples are offered and the engine is
enabled at the same times. -/
structure SameStarts (states others : Nat → State) (inputs otherInputs : Nat → Inputs) :
    Prop where
  runs : Runs states inputs
  otherRuns : Runs others otherInputs
  ready : StageReady (states 0).fsm
  otherReady : StageReady (others 0).fsm
  clear : ExtnClear (states 0).fsm
  otherClear : ExtnClear (others 0).fsm
  idle : (states 0).fsm.fsmPstate = .idle
  otherIdle : (others 0).fsm.fsmPstate = .idle
  pcmRdy : ∀ t, (otherInputs t).pcmRdyIh = (inputs t).pcmRdyIh
  enabled : ∀ t, (otherInputs t).fgyrusEnIh = (inputs t).fgyrusEnIh

variable (same : SameStarts states others inputs otherInputs)

include same

theorem SameStarts.starts_of {start : Nat}
    (now : (others start).fsm.fsmPstate = (states start).fsm.fsmPstate)
    (starts : Starts states inputs start) : Starts others otherInputs start := by
  refine ⟨now.trans starts.1, ?_, ?_⟩
  · rw [same.pcmRdy]
    exact starts.2.1
  · rw [same.enabled]
    exact starts.2.2

theorem SameStarts.pstate : ∀ t, (others t).fsm.fsmPstate = (states t).fsm.fsmPstate := by
  intro t
  induction t using Nat.strongRecOn with
  | ind t ih =>
      cases t with
      | zero => rw [same.idle, same.otherIdle]
      | succ t =>
          have now := ih t (Nat.lt_succ_self t)
          by_cases idle : (states t).fsm.fsmPstate = .idle
          · rw [idle] at now
            rw [same.runs.fsm t, same.otherRuns.fsm t]
            simp only [FgyrusFsm.step, nextPstate, idle, now, fsmInputs, same.pcmRdy t,
              same.enabled t]
            rfl
          · obtain ⟨start, i, starts, inside, rfl⟩ :=
              same.runs.frame_of_busy same.ready same.clear same.idle idle
            have starts' := same.starts_of (ih start (by omega)) starts
            have timed := same.runs.timed same.ready same.clear starts
            have timed' := same.otherRuns.timed same.otherReady same.otherClear starts'
            rw [Nat.add_assoc (start + 1)]
            by_cases last : i + 1 = busyClocks
            · rw [last]
              exact timed'.idle.trans timed.idle.symm
            · exact (timed'.schedule (by omega)).trans (timed.schedule (by omega)).symm

theorem SameStarts.silent {t : Nat} (idle : (states t).fsm.fsmPstate = .idle) :
    (states (t + 1)).fsm.fftResWrEnOh = false ∧ (others (t + 1)).fsm.fftResWrEnOh = false := by
  have idle' := (same.pstate t).trans idle
  constructor
  · refine same.runs.resultIdle fun abs => ?_
    rw [idle] at abs
    cases abs
  · refine same.otherRuns.resultIdle fun abs => ?_
    rw [idle'] at abs
    cases abs

theorem SameStarts.resultAddress (reset : (states 0).fsm.fftResWrEnOh = false)
    (otherReset : (others 0).fsm.fftResWrEnOh = false) :
    ∀ t, resultAddress (others t) = resultAddress (states t) := by
  intro t
  cases t with
  | zero =>
      rw [FftEngine.resultAddress, FftEngine.resultAddress, reset, otherReset]
      rfl
  | succ t =>
      by_cases idle : (states t).fsm.fsmPstate = .idle
      · obtain ⟨silent, silent'⟩ := same.silent idle
        rw [FftEngine.resultAddress, FftEngine.resultAddress, silent, silent']
        rfl
      · obtain ⟨start, i, starts, inside, rfl⟩ :=
          same.runs.frame_of_busy same.ready same.clear same.idle idle
        rw [Nat.add_assoc (start + 1)]
        exact (same.otherRuns.timed same.otherReady same.otherClear
          (same.starts_of (same.pstate start) starts)).resultAddress_eq
          (same.runs.timed same.ready same.clear starts) inside

end Pair

end Synesthesia.FftEngine

namespace Synesthesia.FgyrusTop

open Synesthesia.Rtl
open Synesthesia.FftEngine

/-- A frame that starts is worked on for a fixed number of clocks, and in them every word
of the result RAM is addressed once and in order, whatever the host does meanwhile. -/
theorem frame_schedule (sampleRealIsZero3d : Bool) (real im twiddle : BitVec 7 → BitVec 32)
    (cordic : BitVec 8 → BitVec 16) (inputs : Nat → Inputs) (start : Nat)
    (starts : Starts (engineAt sampleRealIsZero3d real im twiddle cordic inputs)
      (engineInputsAt sampleRealIsZero3d real im twiddle cordic inputs) start) :
    let engine := engineAt sampleRealIsZero3d real im twiddle cordic inputs
    (∀ i < busyClocks, (engine (start + 1 + i)).fsm.fsmPstate = schedule i) ∧
      (engine (start + 1 + busyClocks)).fsm.fsmPstate = .idle ∧
      collect (fun i => resultAddress (engine (start + 1 + i))) (busyClocks + 1) =
        (List.range 128).map (BitVec.ofNat 7) := by
  intro engine
  have timed := (engine_runs sampleRealIsZero3d real im twiddle cordic inputs).timed
    (FgyrusFsm.stageReady_reset _) (fun _ => rfl) starts
  exact ⟨fun _ inside => timed.schedule inside, timed.idle, timed.resultAddresses⟩

theorem frame_schedule_enable :
    (enableEngine (2 + busyClocks)).fsm.fsmPstate = .idle ∧
      collect (fun i => resultAddress (enableEngine (2 + i))) (busyClocks + 1) =
        (List.range 128).map (BitVec.ofNat 7) :=
  (frame_schedule false (fun _ => 0) (fun _ => 0) (fun _ => 0) (fun _ => 1) enableInputs 1
    enable_starts).2

end Synesthesia.FgyrusTop
