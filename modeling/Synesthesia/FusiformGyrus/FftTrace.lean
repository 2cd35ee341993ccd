/-
Signals of the FFT engine over time.

A trace is any run of the engine, also one inside `fgyrus_top`.  Every lemma
follows one signal over a few clocks: a word through a RAM port, a sample through
the multiplier, a request through the shift register of the wing.
-/

import Synesthesia.FusiformGyrus.FftControl

namespace Synesthesia.FftEngine

open Synesthesia.Rtl
open Synesthesia.ButterflyWing
open Synesthesia.FgyrusLb (Lb2Ram)

/-- The local bus leaves the FFT caches and the twiddle RAM alone. -/
structure NoRamAccess (lb2ram : Lb2Ram) : Prop where
  fftRealWr : lb2ram.fftRealRamWrEnOh = false
  fftImWr : lb2ram.fftImRamWrEnOh = false
  twiddleWr : lb2ram.twiddleRamWrEnOh = false
  fftRealRd : lb2ram.fftRealRamRdEnOh = false
  fftImRd : lb2ram.fftImRamRdEnOh = false
  twiddleRd : lb2ram.twiddleRamRdEnOh = false

def cache (state : State) : FftReference.Cache :=
  fun address =>
    { real := state.fftRealRam.memory address
      im := state.fftImRam.memory address }

def Runs (states : Nat → State) (inputs : Nat → Inputs) : Prop :=
  ∀ t, states (t + 1) = step (states t) (inputs t)

section Trace

variable {states : Nat → State} {inputs : Nat → Inputs} {t : Nat}

/-! ### RAM ports -/

theorem Runs.cache_keep (runs : Runs states inputs) (quiet : NoRamAccess (inputs t).lb2ram)
    (real : (states t).fsm.fftRamWrRealEnOh = false)
    (im : (states t).fsm.fftRamWrImEnOh = false) :
    cache (states (t + 1)) = cache (states t) := by
  rw [runs t]
  funext address
  simp only [cache, step, DualPortRam.step, fftRealPorts, fftImPorts, sharedPorts,
    quiet.fftRealWr, quiet.fftImWr, real, im, Bool.or_self, store_false]

theorem Runs.cache_write (runs : Runs states inputs) (quiet : NoRamAccess (inputs t).lb2ram)
    (real : (states t).fsm.fftRamWrRealEnOh = true)
    (im : (states t).fsm.fftRamWrImEnOh = true) :
    cache (states (t + 1)) =
      store (cache (states t)) true (states t).fsm.fftRamWrAddrOd
        { real := (states t).fsm.fftRamWrRealDataOd
          im := (states t).fsm.fftRamWrImDataOd } := by
  rw [runs t]
  funext address
  simp only [cache, step, DualPortRam.step, fftRealPorts, fftImPorts, sharedPorts,
    quiet.fftRealWr, quiet.fftImWr, real, im, Bool.or_true, store, true_and,
    Bool.false_eq_true, reduceIte]
  split <;> rfl

theorem Runs.cache_read (runs : Runs states inputs) (quiet : NoRamAccess (inputs t).lb2ram)
    (real : (states t).fsm.fftRamWrRealEnOh = false)
    (im : (states t).fsm.fftRamWrImEnOh = false) :
    fftRamRdData (states (t + 2)) = cache (states t) (states t).fsm.fftRamRdAddrOd := by
  rw [runs (t + 1), runs t]
  simp only [fftRamRdData, cache, step, DualPortRam.step, fftRealPorts, fftImPorts, sharedPorts,
    quiet.fftRealWr, quiet.fftImWr, quiet.fftRealRd, quiet.fftImRd, real, im, Bool.or_self,
    Bool.false_eq_true, false_and, reduceIte]

theorem Runs.twiddle_keep (runs : Runs states inputs) (quiet : NoRamAccess (inputs t).lb2ram) :
    (states (t + 1)).twiddleRam.memory = (states t).twiddleRam.memory := by
  rw [runs t]
  simp only [step, DualPortRam.step, twiddlePorts, quiet.twiddleWr, store_false]

theorem Runs.twiddle_read (runs : Runs states inputs) (quiet : NoRamAccess (inputs t).lb2ram) :
    (states (t + 2)).twiddleRam.q =
      (states t).twiddleRam.memory (states t).fsm.twiddleRamRdAddrOd := by
  rw [runs (t + 1), runs t]
  simp only [step, DualPortRam.step, twiddlePorts, quiet.twiddleWr, quiet.twiddleRd,
    Bool.false_eq_true, false_and, reduceIte]

/-! ### Butterfly wing -/

theorem Runs.wing (runs : Runs states inputs) (t : Nat) :
    (states (t + 1)).wing = ButterflyWing.step (states t).wing (wingInputs (states t)) := by
  rw [runs t]
  rfl

theorem Runs.wing_pst_zero (runs : Runs states inputs) (t : Nat) :
    (states (t + 1)).wing.pstVec.getLsbD 0 = (states t).fsm.samplesRdyOh := by
  rw [runs.wing t]
  exact step_pst_zero _ _

theorem Runs.wing_pst_succ (runs : Runs states inputs) (t : Nat) {k : Nat} (small : k < 4) :
    (states (t + 1)).wing.pstVec.getLsbD (k + 1) = (states t).wing.pstVec.getLsbD k := by
  rw [runs.wing t]
  exact step_pst_succ _ _ small

theorem Runs.wing_pst_three (runs : Runs states inputs) (t : Nat) :
    (states (t + 4)).wing.pstVec.getLsbD 3 = (states t).fsm.samplesRdyOh := by
  rw [runs.wing_pst_succ (t + 3) (by decide), runs.wing_pst_succ (t + 2) (by decide),
    runs.wing_pst_succ (t + 1) (by decide), runs.wing_pst_zero]

theorem Runs.wing_pst_four (runs : Runs states inputs) (t : Nat) :
    (states (t + 5)).wing.pstVec.getLsbD 4 = (states t).fsm.samplesRdyOh := by
  rw [runs.wing_pst_succ (t + 4) (by decide), runs.wing_pst_three]

theorem Runs.dataRdy (runs : Runs states inputs) (t : Nat) :
    (states (t + 6)).wing.dataRdyOh =
      ((states t).fsm.samplesRdyOh || (states (t + 1)).fsm.samplesRdyOh) := by
  rw [runs.wing (t + 5), ← runs.wing_pst_four t, ← runs.wing_pst_three (t + 1)]
  rfl

theorem Runs.multResult (runs : Runs states inputs) (t : Nat) :
    (states (t + 3)).wing.mult.result =
      FftReference.mulRes (states t).fsm.sampleBOd (twdlFactor (states t).twiddleRam.q) := by
  rw [runs.wing (t + 2), runs.wing (t + 1), runs.wing t]
  rfl

theorem Runs.dataOd_sum (runs : Runs states inputs) (t : Nat)
    (request : (states t).fsm.samplesRdyOh = true) :
    (states (t + 5)).wing.dataOd =
      (FftReference.wingOut (twdlFactor (states t).twiddleRam.q) (states (t + 4)).fsm.sampleAOd
        (states t).fsm.sampleBOd).1 := by
  have norm : (states (t + 4)).wing.mulResNormF =
      { real := mulResNorm (states (t + 3)).wing.mult.result.real
        im := mulResNorm (states (t + 3)).wing.mult.result.im } := by
    rw [runs.wing (t + 3)]
    rfl
  rw [runs.wing (t + 4)]
  simp only [ButterflyWing.step, runs.wing_pst_three t, request, reduceIte, norm, wingInputs,
    runs.multResult t, FftReference.wingOut]

theorem Runs.dataOd_difference (runs : Runs states inputs) (t : Nat)
    (request : (states t).fsm.samplesRdyOh = true)
    (single : (states (t + 1)).fsm.samplesRdyOh = false) :
    (states (t + 6)).wing.dataOd =
      (FftReference.wingOut (twdlFactor (states (t + 1)).twiddleRam.q)
        (states (t + 5)).fsm.sampleAOd (states (t + 1)).fsm.sampleBOd).2 := by
  have inv : (states (t + 5)).wing.mulResInvF =
      { real := mulResInv (states (t + 4)).wing.mult.result.real
        im := mulResInv (states (t + 4)).wing.mult.result.im } := by
    rw [runs.wing (t + 4)]
    rfl
  have three : (states (t + 5)).wing.pstVec.getLsbD 3 = false :=
    (runs.wing_pst_three (t + 1)).trans single
  have result : (states (t + 4)).wing.mult.result = _ := runs.multResult (t + 1)
  rw [runs.wing (t + 5)]
  simp only [ButterflyWing.step, three, runs.wing_pst_four t, request, reduceIte, inv, wingInputs,
    result, FftReference.wingOut, Bool.false_eq_true]

/-! ### Sequencer registers -/

theorem Runs.fsm (runs : Runs states inputs) (t : Nat) :
    (states (t + 1)).fsm =
      FgyrusFsm.step (states t).fsm (fsmInputs (states t) (inputs t)) := by
  rw [runs t]
  rfl

theorem Runs.samplesRdy (runs : Runs states inputs) (t : Nat) :
    (states (t + 1)).fsm.samplesRdyOh =
      if (states t).fsm.fsmPstate = .fft then (states t).fsm.pstVecF.getLsbD 6 else false := by
  rw [runs.fsm t]
  rfl

theorem Runs.fftSample1 (runs : Runs states inputs) (t : Nat) :
    (states (t + 1)).fsm.fftSample1F =
      (states t).fsm.sampleCntrF + (states t).fsm.sampleOffsetF := by
  rw [runs.fsm t]
  rfl

theorem Runs.fftSample2 (runs : Runs states inputs) (t : Nat) :
    (states (t + 1)).fsm.fftSample2F =
      (states t).fsm.fftSample1F + (states t).fsm.fftStageNoF := by
  rw [runs.fsm t]
  rfl

theorem Runs.fftSample11d (runs : Runs states inputs) (t : Nat) :
    (states (t + 1)).fsm.fftSample11d =
      if (states t).fsm.pstVecF.getLsbD 6 then (states t).fsm.fftSample1F
      else (states t).fsm.fftSample11d := by
  rw [runs.fsm t]
  rfl

theorem Runs.fftSample21d (runs : Runs states inputs) (t : Nat) :
    (states (t + 1)).fsm.fftSample21d =
      if (states t).fsm.pstVecF.getLsbD 6 then (states t).fsm.fftSample2F
      else (states t).fsm.fftSample21d := by
  rw [runs.fsm t]
  rfl

theorem Runs.sampleA (runs : Runs states inputs) (t : Nat) :
    (states (t + 1)).fsm.sampleAOd =
      if (states t).fsm.pstVecF.getLsbD 5 then fftRamRdData (states t)
      else (states t).fsm.sampleAOd := by
  rw [runs.fsm t]
  rfl

theorem Runs.sampleB (runs : Runs states inputs) (t : Nat) :
    (states (t + 1)).fsm.sampleBOd =
      if (states t).fsm.pstVecF.getLsbD 6 then fftRamRdData (states t)
      else (states t).fsm.sampleBOd := by
  rw [runs.fsm t]
  rfl

theorem Runs.rdAddr (runs : Runs states inputs) (fft : (states t).fsm.fsmPstate = .fft) :
    (states (t + 1)).fsm.fftRamRdAddrOd =
      if (states t).fsm.pstVecF.getLsbD 3 then (states t).fsm.fftSample2F
      else (states t).fsm.fftSample1F := by
  rw [runs.fsm t]
  simp only [FgyrusFsm.step, FgyrusFsm.nextFftRamRdAddr, fft]

end Trace

end Synesthesia.FftEngine
