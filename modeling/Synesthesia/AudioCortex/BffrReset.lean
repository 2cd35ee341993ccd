/-
The buffers of `acortex_top` when the host resets the audio block.

`acortex_rst_l_f` clears the write pointer and the toggle flop of a buffer, but
not the FGYRUS half of its synchroniser.  A toggle flop that is cleared while it
is one looks like a completed buffer.
-/

import Mathlib.Order.Nat
import Mathlib.Data.Nat.Count
import Synesthesia.AudioCortex.AcortexRegMap
import Synesthesia.AudioCortex.Acortex2fgyrusBffr

namespace Synesthesia.BffrReset

open Synesthesia.Rtl
open Synesthesia.Acortex2fgyrusBffr (wrAddress pulseA fgyrusPcmRdyOh)

/-- The reset register of `acortex_top` and one of its two buffers. -/
structure State where
  acortexRstLF : Bool
  bffr : Acortex2fgyrusBffr.State

structure Inputs where
  lbWrEnIh : Bool
  lbAddrId : BitVec 12
  bffr : Acortex2fgyrusBffr.Inputs

def acortexHostRstOl (inputs : Inputs) : Bool :=
  if inputs.lbAddrId.extractLsb' 8 4 = AcortexRegMap.reset then !inputs.lbWrEnIh else true

def reset (contents0 contents1 : BitVec 7 → BitVec 32) : State :=
  { acortexRstLF := false
    bffr := Acortex2fgyrusBffr.reset contents0 contents1 }

/-- The edge at the end of this cycle meets an active reset, or raises one. -/
def hits (state : State) (inputs : Inputs) : Bool :=
  !acortexHostRstOl inputs || !state.acortexRstLF

/-- The reset is asynchronous: it clears its registers together with the edge
that raises it, and holds them at the next edge. -/
def step (state : State) (inputs : Inputs) : State :=
  { acortexRstLF := acortexHostRstOl inputs
    bffr :=
      if hits state inputs then
        Acortex2fgyrusBffr.resetAcortex (Acortex2fgyrusBffr.step state.bffr inputs.bffr)
      else Acortex2fgyrusBffr.step state.bffr inputs.bffr }

section Run

variable (contents0 contents1 : BitVec 7 → BitVec 32) (inputs : Nat → Inputs)

def stateAt : Nat → State :=
  run step (reset contents0 contents1) inputs

def tflop (t : Nat) : Bool := (stateAt contents0 contents1 inputs t).bffr.psync.tflopF

def hitsAt (t : Nat) : Bool := hits (stateAt contents0 contents1 inputs t) (inputs t)

/-- The 128th sample of a buffer is written in cycle `t`. -/
def completes (t : Nat) : Bool :=
  pulseA (stateAt contents0 contents1 inputs t).bffr (inputs t).bffr

def ready (t : Nat) : Bool := fgyrusPcmRdyOh (stateAt contents0 contents1 inputs t).bffr

/-- A reset clears a toggle flop that is one, and no buffer is completed by the
same edge. -/
def phantom (t : Nat) : Bool :=
  hitsAt contents0 contents1 inputs t && tflop contents0 contents1 inputs t &&
    !completes contents0 contents1 inputs t

/-- A reset cancels the toggle of a buffer that is completed by the same edge. -/
def cancelled (t : Nat) : Bool :=
  hitsAt contents0 contents1 inputs t && !tflop contents0 contents1 inputs t &&
    completes contents0 contents1 inputs t

def number (event : Nat → Bool) (t : Nat) : Nat := Nat.count (fun k => event k = true) t

/-- A buffer has been completed since the last reset. -/
def FilledSinceReset (t : Nat) : Prop :=
  ∃ k < t, completes contents0 contents1 inputs k = true ∧
    ∀ j, k ≤ j → j < t → hitsAt contents0 contents1 inputs j = false

/-- The synchroniser rests with its toggle flop at zero. -/
structure Settled (state : PulseSyncTggl.State) : Prop where
  tflop : state.tflopF = false
  sync : state.ddSyncA2bF = 0
  filter0 : state.pulseFilterF.getLsbD 0 = false
  filter1 : state.pulseFilterF.getLsbD 1 = false

/-! ### One clock -/

theorem bffr_succ (t : Nat) :
    (stateAt contents0 contents1 inputs (t + 1)).bffr =
      if hitsAt contents0 contents1 inputs t then
        Acortex2fgyrusBffr.resetAcortex
          (Acortex2fgyrusBffr.step (stateAt contents0 contents1 inputs t).bffr (inputs t).bffr)
      else Acortex2fgyrusBffr.step (stateAt contents0 contents1 inputs t).bffr
        (inputs t).bffr := rfl

theorem tflop_succ (t : Nat) :
    tflop contents0 contents1 inputs (t + 1) =
      if hitsAt contents0 contents1 inputs t then false
      else tflop contents0 contents1 inputs t ^^ completes contents0 contents1 inputs t := by
  rw [tflop, bffr_succ]
  cases hitsAt contents0 contents1 inputs t with
  | true => rfl
  | false =>
      have toggled : (Acortex2fgyrusBffr.step (stateAt contents0 contents1 inputs t).bffr
          (inputs t).bffr).psync.tflopF =
          if completes contents0 contents1 inputs t then
            !tflop contents0 contents1 inputs t
          else tflop contents0 contents1 inputs t := rfl
      simp only [Bool.false_eq_true, reduceIte, toggled]
      cases completes contents0 contents1 inputs t <;>
        cases tflop contents0 contents1 inputs t <;>
        rfl

/-- The FGYRUS half of the synchroniser knows no reset. -/
theorem syncRuns :
    PulseSyncTggl.SyncRuns fun t => (stateAt contents0 contents1 inputs t).bffr.psync := by
  intro t
  refine ⟨completes contents0 contents1 inputs t, ?_⟩
  simp only [bffr_succ]
  cases hitsAt contents0 contents1 inputs t with
  | true => exact ⟨rfl, rfl⟩
  | false => exact ⟨rfl, rfl⟩

def changes (t : Nat) : Bool :=
  tflop contents0 contents1 inputs t ^^ tflop contents0 contents1 inputs (t + 1)

theorem ready_late (t : Nat) :
    ready contents0 contents1 inputs (t + 5) = changes contents0 contents1 inputs t :=
  (syncRuns contents0 contents1 inputs).pulse t

theorem ready_early {t : Nat} (early : t < 5) :
    ready contents0 contents1 inputs t = false :=
  (syncRuns contents0 contents1 inputs).pulse_early rfl early

/-! ### Numbers of events -/

theorem number_succ (event : Nat → Bool) (t : Nat) :
    number event (t + 1) = number event t + (event t).toNat := by
  rw [number, Nat.count_succ, number]
  cases event t <;> rfl

theorem number_mono (event : Nat → Bool) {earlier later : Nat} (before : earlier ≤ later) :
    number event earlier ≤ number event later :=
  Nat.count_monotone _ before

theorem number_none (event : Nat → Bool) {t : Nat} :
    ∀ later, (∀ i < later, event (t + i) = false) → number event (t + later) = number event t := by
  intro later
  induction later with
  | zero => exact fun _ => rfl
  | succ later ih =>
      intro none
      rw [← Nat.add_assoc, number_succ, none later (Nat.lt_succ_self later)]
      exact ih fun i inside => none i (Nat.lt_succ_of_lt inside)

theorem number_ready (t : Nat) :
    number (ready contents0 contents1 inputs) (t + 5) =
      number (changes contents0 contents1 inputs) t := by
  induction t with
  | zero =>
      have none := number_none (ready contents0 contents1 inputs) (t := 0) 5 fun i inside => by
        rw [Nat.zero_add]
        exact ready_early contents0 contents1 inputs inside
      exact none
  | succ t ih =>
      rw [Nat.add_right_comm, number_succ _ (t + 5), number_succ _ t, ih, ready_late]

/-- Every change is a completed buffer or a phantom, and every completed buffer
is a change unless it is cancelled. -/
theorem number_changes (t : Nat) :
    number (changes contents0 contents1 inputs) t +
        number (cancelled contents0 contents1 inputs) t =
      number (completes contents0 contents1 inputs) t +
        number (phantom contents0 contents1 inputs) t := by
  induction t with
  | zero => rfl
  | succ t ih =>
      rw [number_succ, number_succ, number_succ, number_succ, changes, cancelled, phantom,
        tflop_succ]
      cases hitsAt contents0 contents1 inputs t <;>
        cases tflop contents0 contents1 inputs t <;>
        cases completes contents0 contents1 inputs t <;>
        simp <;>
        omega

/-! ### After a reset -/

variable {contents0 contents1 inputs}

theorem ramWptr_after {t : Nat} (hit : hitsAt contents0 contents1 inputs t = true) :
    ∀ i, (stateAt contents0 contents1 inputs (t + 1 + i)).bffr.ramWptrF.toNat ≤ i := by
  intro i
  induction i with
  | zero =>
      rw [Nat.add_zero, bffr_succ, if_pos hit]
      exact Nat.le_refl 0
  | succ i ih =>
      rw [← Nat.add_assoc, bffr_succ]
      cases hitsAt contents0 contents1 inputs (t + 1 + i) with
      | true => exact Nat.zero_le _
      | false =>
          simp only [Bool.false_eq_true, reduceIte, Acortex2fgyrusBffr.step, BitVec.toNat_add,
            BitVec.toNat_ofNat]
          cases (inputs (t + 1 + i)).bffr.acortexPcmWrEnIh <;>
            simp only [Bool.toNat_false, Bool.toNat_true] <;>
            omega

theorem completes_after {t : Nat} (hit : hitsAt contents0 contents1 inputs t = true) {i : Nat}
    (soon : i < 127) : completes contents0 contents1 inputs (t + 1 + i) = false := by
  have small := ramWptr_after hit i
  rw [completes, pulseA, wrAddress, Bool.and_eq_false_iff, beq_eq_false_iff_ne]
  refine .inl fun full => ?_
  have value := congrArg BitVec.toNat full
  rw [BitVec.extractLsb'_toNat, BitVec.toNat_allOnes, Nat.shiftRight_zero] at value
  omega

/-! ### Pulses and completed buffers -/

variable (contents0 contents1 inputs)

theorem pulses_le_iff :
    (∀ t, number (ready contents0 contents1 inputs) t ≤
        number (completes contents0 contents1 inputs) t) ↔
      ∀ t, number (phantom contents0 contents1 inputs) t ≤
        number (cancelled contents0 contents1 inputs) t := by
  constructor
  · intro bounded
    by_contra more
    obtain ⟨t, more⟩ := not_forall.mp more
    have exceeds : ∃ t, number (cancelled contents0 contents1 inputs) t <
        number (phantom contents0 contents1 inputs) t := ⟨t, Nat.lt_of_not_le more⟩
    clear t more
    classical
    have first := Nat.find_spec exceeds
    have before := fun k => Nat.find_min exceeds (m := k)
    generalize Nat.find exceeds = t at first before
    cases t with
    | zero => exact absurd first (Nat.lt_irrefl 0)
    | succ t =>
        have notYet := before t (Nat.lt_succ_self t)
        rw [number_succ, number_succ] at first
        have hit : hitsAt contents0 contents1 inputs t = true := by
          cases strikes : hitsAt contents0 contents1 inputs t with
          | true => rfl
          | false =>
              rw [phantom, cancelled, strikes] at first
              exact absurd first notYet
        have still := number_none (completes contents0 contents1 inputs) (t := t + 1) 5
          fun i inside => completes_after hit (by omega)
        have pulses := bounded (t + 1 + 5)
        have changes := number_changes contents0 contents1 inputs (t + 1)
        rw [number_ready, still] at pulses
        rw [number_succ (phantom contents0 contents1 inputs),
          number_succ (cancelled contents0 contents1 inputs)] at changes
        omega
  · intro fewer t
    rcases Nat.lt_or_ge t 5 with early | late
    · have none := number_none (ready contents0 contents1 inputs) (t := 0) t fun i inside => by
        rw [Nat.zero_add]
        exact ready_early _ _ _ (by omega)
      rw [Nat.zero_add] at none
      rw [none]
      exact Nat.zero_le _
    · obtain ⟨t, rfl⟩ := Nat.exists_eq_add_of_le' late
      have changes := number_changes contents0 contents1 inputs t
      have mono := number_mono (completes contents0 contents1 inputs) (Nat.le_add_right t 5)
      have := fewer t
      rw [number_ready]
      omega

theorem not_filled {contents0 contents1 : BitVec 7 → BitVec 32} {inputs : Nat → Inputs}
    {t i : Nat} (hit : hitsAt contents0 contents1 inputs t = true)
    (soon : i < 5) : ¬ FilledSinceReset contents0 contents1 inputs (t + 1 + i) := by
  rintro ⟨k, before, completed, quiet⟩
  rcases Nat.lt_or_ge t k with later | earlier
  · obtain ⟨j, rfl⟩ := Nat.exists_eq_add_of_le (Nat.succ_le_of_lt later)
    rw [Nat.succ_eq_add_one, completes_after hit (by omega)] at completed
    cases completed
  · rw [quiet t earlier (by omega)] at hit
    cases hit

theorem pulses_filled_iff :
    (∀ t, ready contents0 contents1 inputs t = true →
        FilledSinceReset contents0 contents1 inputs t) ↔
      ∀ t, hitsAt contents0 contents1 inputs t = true →
        Settled (stateAt contents0 contents1 inputs t).bffr.psync := by
  have runs : PulseSyncTggl.SyncRuns fun t =>
    (stateAt contents0 contents1 inputs t).bffr.psync := syncRuns _ _ _
  constructor
  · intro filled t hit
    have silent : ∀ i < 5, ready contents0 contents1 inputs (t + 1 + i) = false := by
      intro i soon
      rw [← Bool.not_eq_true]
      exact fun pulse => not_filled hit soon (filled _ pulse)
    have pulse1 := (runs.pulse_one t).symm.trans (silent 0 (by decide))
    have pulse2 := (runs.pulse_two t).symm.trans (silent 1 (by decide))
    have pulse3 := (runs.pulse_three t).symm.trans (silent 2 (by decide))
    have pulse4 := (runs.pulse_four t).symm.trans (silent 3 (by decide))
    have pulse5 := (runs.pulse t).symm.trans (silent 4 (by decide))
    have cleared := tflop_succ contents0 contents1 inputs t
    rw [if_pos hit, tflop] at cleared
    simp only [cleared, Bool.xor_false] at pulse5
    simp only [pulse5, Bool.xor_false] at pulse4
    simp only [pulse4, Bool.xor_false] at pulse3
    simp only [pulse3, Bool.xor_false] at pulse2
    exact
      { tflop := pulse5
        sync := by
          apply BitVec.eq_of_getLsbD_eq
          intro i inside
          have cases : i = 0 ∨ i = 1 := by
            omega
          rcases cases with rfl | rfl
          · exact pulse4
          · exact pulse3
        filter0 := pulse2
        filter1 := pulse1 }
  · intro settled t pulse
    rcases Nat.lt_or_ge t 5 with early | late
    · rw [ready_early _ _ _ early] at pulse
      cases pulse
    · obtain ⟨s, rfl⟩ := Nat.exists_eq_add_of_le' late
      rw [ready_late] at pulse
      have quiet : ∀ i < 5, hitsAt contents0 contents1 inputs (s + i) = false := by
        intro i soon
        rw [← Bool.not_eq_true]
        intro hit
        obtain ⟨tflopZero, sync, filter0, filter1⟩ := settled (s + i) hit
        have sync0 := congrArg (fun vec => vec.getLsbD 0) sync
        have sync1 := congrArg (fun vec => vec.getLsbD 1) sync
        have cases : i = 0 ∨ i = 1 ∨ i = 2 ∨ i = 3 ∨ i = 4 := by
          omega
        have unchanged : changes contents0 contents1 inputs s = false := by
          rw [changes, tflop, tflop]
          rcases cases with rfl | rfl | rfl | rfl | rfl
          · have cleared := tflop_succ contents0 contents1 inputs s
            rw [Nat.add_zero] at hit tflopZero
            rw [if_pos hit, tflop] at cleared
            rw [cleared, tflopZero]
            rfl
          · rw [runs.sync_zero s] at sync0
            rw [tflopZero, sync0]
            rfl
          · rw [runs.sync_zero (s + 1)] at sync0
            rw [runs.sync_one (s + 1), runs.sync_zero s] at sync1
            rw [sync0, sync1]
            rfl
          · rw [runs.sync_one (s + 2), runs.sync_zero (s + 1)] at sync1
            rw [runs.filter_zero (s + 2), runs.sync_one (s + 1), runs.sync_zero s] at filter0
            rw [sync1, filter0]
            rfl
          · rw [runs.filter_one (s + 3), runs.filter_zero (s + 2), runs.sync_one (s + 1),
              runs.sync_zero s, runs.sync_one (s + 2), runs.sync_zero (s + 1)] at filter1
            exact filter1
        rw [unchanged] at pulse
        cases pulse
      refine ⟨s, by omega, ?_, fun j after before => ?_⟩
      · have toggled := tflop_succ contents0 contents1 inputs s
        have noReset := quiet 0 (by decide)
        rw [Nat.add_zero] at noReset
        rw [noReset] at toggled
        rw [changes, toggled] at pulse
        simpa using pulse
      · obtain ⟨i, rfl⟩ := Nat.exists_eq_add_of_le after
        exact quiet i (by omega)

end Run

/-- In every run with any resets of the audio block: the pulses never outnumber the
completed buffers if and only if the phantoms never outnumber the cancelled
toggles, and every pulse has a buffer filled since the last reset if and only if
every reset finds the synchroniser at rest with a clear flop. -/
theorem bffr_pulses_iff (contents0 contents1 : BitVec 7 → BitVec 32) (inputs : Nat → Inputs) :
    ((∀ t, number (ready contents0 contents1 inputs) t ≤
          number (completes contents0 contents1 inputs) t) ↔
        ∀ t, number (phantom contents0 contents1 inputs) t ≤
          number (cancelled contents0 contents1 inputs) t) ∧
      ((∀ t, ready contents0 contents1 inputs t = true →
          FilledSinceReset contents0 contents1 inputs t) ↔
        ∀ t, hitsAt contents0 contents1 inputs t = true →
          Settled (stateAt contents0 contents1 inputs t).bffr.psync) :=
  ⟨pulses_le_iff contents0 contents1 inputs, pulses_filled_iff contents0 contents1 inputs⟩

/-! ### A reset after one buffer -/

/-- A sample in every 32nd clock, and one write to the RESET register in clock
5000. -/
def oddInputs (t : Nat) : Inputs :=
  { lbWrEnIh := decide (t = 5000)
    lbAddrId := 0x800
    bffr :=
      { acortexPcmWrEnIh := decide (t % 32 = 31)
        acortexPcmDataId := 1
        fgyrusPcmRdAddrId := 0
        mixed0 := 0
        mixed1 := 0 } }

def oddAt : Nat → State := stateAt (fun _ => 0) (fun _ => 0) oddInputs

theorem odd_hostRst (t : Nat) : acortexHostRstOl (oddInputs t) = decide (t ≠ 5000) := by
  have code : (oddInputs t).lbAddrId.extractLsb' 8 4 = AcortexRegMap.reset := by
    simp only [oddInputs]
    decide
  rw [acortexHostRstOl, if_pos code, decide_not]
  rfl

theorem odd_hits {t : Nat} (upto : t ≤ 5000) :
    hitsAt (fun _ => 0) (fun _ => 0) oddInputs t = decide (t = 0 ∨ t = 5000) := by
  have register : (oddAt t).acortexRstLF = decide (t ≠ 0) := by
    cases t with
    | zero => rfl
    | succ t =>
        have next : (oddAt (t + 1)).acortexRstLF = acortexHostRstOl (oddInputs t) := rfl
        rw [next, odd_hostRst, decide_eq_decide]
        omega
  have signal : hitsAt (fun _ => 0) (fun _ => 0) oddInputs t =
      (!acortexHostRstOl (oddInputs t) || !(oddAt t).acortexRstLF) := rfl
  rw [signal, register, odd_hostRst, ← decide_not, ← decide_not, ← Bool.decide_or,
    decide_eq_decide]
  omega

theorem odd_ramWptr {t : Nat} (upto : t ≤ 5000) :
    (oddAt t).bffr.ramWptrF = BitVec.ofNat 8 (t / 32) := by
  induction t with
  | zero => rfl
  | succ t ih =>
      have next := bffr_succ (fun _ => 0) (fun _ => 0) oddInputs t
      change (oddAt (t + 1)).bffr = _ at next
      rw [next, odd_hits (by omega)]
      by_cases first : t = 0
      · rw [if_pos (decide_eq_true (.inl first)), first]
        rfl
      · rw [decide_eq_false (by omega)]
        have moved : (Acortex2fgyrusBffr.step (oddAt t).bffr (oddInputs t).bffr).ramWptrF =
            (oddAt t).bffr.ramWptrF + BitVec.ofNat 8 (decide (t % 32 = 31)).toNat := rfl
        change (Acortex2fgyrusBffr.step (oddAt t).bffr (oddInputs t).bffr).ramWptrF = _
        rw [moved, ih (by omega), ← BitVec.ofNat_add]
        congr 1
        by_cases write : t % 32 = 31
        · rw [decide_eq_true write, Bool.toNat_true]
          omega
        · rw [decide_eq_false write, Bool.toNat_false]
          omega

theorem odd_completes {t : Nat} (upto : t ≤ 5000) :
    completes (fun _ => 0) (fun _ => 0) oddInputs t = decide (t = 4095) := by
  have signal : completes (fun _ => 0) (fun _ => 0) oddInputs t =
      (wrAddress (oddAt t).bffr == BitVec.allOnes 7 && decide (t % 32 = 31)) := rfl
  rw [signal, wrAddress, odd_ramWptr upto, Bool.eq_iff_iff, Bool.and_eq_true, beq_iff_eq,
    decide_eq_true_eq, decide_eq_true_eq, ← BitVec.toNat_inj, BitVec.extractLsb'_toNat,
    BitVec.toNat_ofNat, BitVec.toNat_allOnes, Nat.shiftRight_zero]
  omega

theorem odd_tflop {t : Nat} (upto : t ≤ 5000) :
    tflop (fun _ => 0) (fun _ => 0) oddInputs t = decide (4096 ≤ t) := by
  induction t with
  | zero => rfl
  | succ t ih =>
      rw [tflop_succ, odd_hits (by omega), odd_completes (by omega), ih (by omega)]
      by_cases first : t = 0
      · rw [if_pos (decide_eq_true (.inl first)), first]
        rfl
      · rw [if_neg (by rw [decide_eq_true_eq]; omega)]
        rcases Nat.lt_trichotomy t 4095 with before | last | after
        · rw [decide_eq_false (by omega), decide_eq_false (by omega), decide_eq_false (by omega)]
          rfl
        · rw [decide_eq_false (by omega), decide_eq_true last, decide_eq_true (by omega)]
          rfl
        · rw [decide_eq_true (by omega), decide_eq_false (by omega), decide_eq_true (by omega)]
          rfl

/-- One buffer is completed, and there are two pulses. -/
theorem odd_phantom_pulse :
    ¬ ∀ t, number (ready (fun _ => 0) (fun _ => 0) oddInputs) t ≤
      number (completes (fun _ => 0) (fun _ => 0) oddInputs) t := by
  rw [pulses_le_iff]
  intro fewer
  have struck : phantom (fun _ => 0) (fun _ => 0) oddInputs 5000 = true := by
    rw [phantom, odd_hits (Nat.le_refl _), odd_tflop (Nat.le_refl _), odd_completes (Nat.le_refl _)]
    decide
  have none := number_none (cancelled (fun _ => 0) (fun _ => 0) oddInputs) (t := 0) 5001 (by
    intro i inside
    rw [Nat.zero_add, cancelled, odd_hits (by omega), odd_tflop (by omega),
      odd_completes (by omega), ← decide_not, ← Bool.decide_and, ← Bool.decide_and,
      decide_eq_false_iff_not]
    omega)
  have more := fewer 5001
  rw [number_succ _ 5000, struck, Bool.toNat_true] at more
  have start : number (cancelled (fun _ => 0) (fun _ => 0) oddInputs) 0 = 0 := rfl
  rw [Nat.zero_add, start] at none
  omega

end Synesthesia.BffrReset
