/-
Two runs that differ in stray reads only.

After the copy of the samples the host leaves the read ports to the sequencer.  The words
it has read before then run dry: first in the ports, then register by register along the
way to the divider and to the CORDIC RAM, always before the sequencer asks for a word.
-/

import Synesthesia.FusiformGyrus.HostReads
import Synesthesia.FusiformGyrus.StrayReads

namespace Synesthesia.FgyrusTop

open Synesthesia.Rtl
open Synesthesia.FftEngine
open Synesthesia.FftSchedule (wings)
open Synesthesia.FgyrusFsm (Pstate captures cordicClocks)
open Synesthesia.FgyrusLb (Lb2Ram)

/-- The host reads no RAM in a state in which the sequencer reads it. -/
structure ReadsApart (pstate : Pstate) (lb2ram : Lb2Ram) : Prop where
  cache : pstate ≠ .idle → pstate ≠ .decimate →
    lb2ram.fftRealRamRdEnOh = false ∧ lb2ram.fftImRamRdEnOh = false
  twiddle : pstate = .fft → lb2ram.twiddleRamRdEnOh = false
  cordic : pstate = .cordic → lb2ram.cordicRamRdEnOh = false

/-- The host may look at other words at other times; everything else is the same. -/
structure SameSurroundings (inputs others : Nat → Inputs) : Prop
    extends SameWrites inputs others where
  pcmRdy : ∀ t, (others t).pcmRdyIh = (inputs t).pcmRdyIh
  pcmData : ∀ t, (others t).pcmRamRdDataId = (inputs t).pcmRamRdDataId
  fftRealMixed : ∀ t, (others t).fftRealMixed = (inputs t).fftRealMixed
  fftImMixed : ∀ t, (others t).fftImMixed = (inputs t).fftImMixed
  twiddleMixed : ∀ t, (others t).twiddleMixed = (inputs t).twiddleMixed
  cordicMixed : ∀ t, (others t).cordicMixed = (inputs t).cordicMixed

/-- The writes of the local bus to the FFT caches. -/
structure SameStores (lb2ram other : Lb2Ram) : Prop where
  real : other.fftRealRamWrEnOh = lb2ram.fftRealRamWrEnOh
  im : other.fftImRamWrEnOh = lb2ram.fftImRamWrEnOh
  word : lb2ram.fftRealRamWrEnOh = true ∨ lb2ram.fftImRamWrEnOh = true →
    other.addrOd = lb2ram.addrOd ∧ other.wrDataOd = lb2ram.wrDataOd

theorem sameStores_step {lb other : FgyrusLb.State} {lbInputs others : FgyrusLb.Inputs}
    (wrEn : others.lbWrEnIh = lbInputs.lbWrEnIh)
    (addr : lbInputs.lbWrEnIh = true → others.lbAddrId = lbInputs.lbAddrId)
    (wrData : lbInputs.lbWrEnIh = true → others.lbWrDataId = lbInputs.lbWrDataId) :
    SameStores (FgyrusLb.step lb lbInputs).lb2ram (FgyrusLb.step other others).lb2ram := by
  cases write : lbInputs.lbWrEnIh with
  | true =>
      constructor
      · simp only [FgyrusLb.step, FgyrusLb.nextLb2Ram, FgyrusLb.blockCode, wrEn, addr write]
      · simp only [FgyrusLb.step, FgyrusLb.nextLb2Ram, FgyrusLb.blockCode, wrEn, addr write]
      · intro _
        simp only [FgyrusLb.step, FgyrusLb.nextLb2Ram, addr write, wrData write, and_self]
  | false =>
      constructor
      · simp only [FgyrusLb.step, FgyrusLb.nextLb2Ram, wrEn, write, Bool.and_false]
      · simp only [FgyrusLb.step, FgyrusLb.nextLb2Ram, wrEn, write, Bool.and_false]
      · simp only [FgyrusLb.step, FgyrusLb.nextLb2Ram, write, Bool.and_false, Bool.false_eq_true,
          or_self, false_implies]

/-! ### One clock -/

theorem sharedPorts_write {lbWrEn lbRdEn lbRdEn' wrEn : Bool} {lb2ram other : Lb2Ram}
    {wrAddr rdAddr rdAddr' : BitVec 7} {wrData wrData' mixed mixed' : BitVec 32}
    (store : lbWrEn = true → other.addrOd = lb2ram.addrOd ∧ other.wrDataOd = lb2ram.wrDataOd)
    (data : wrEn = true → wrData' = wrData) :
    DualPortRam.SameWrite (sharedPorts lbWrEn lbRdEn lb2ram wrEn wrAddr rdAddr wrData mixed)
      (sharedPorts lbWrEn lbRdEn' other wrEn wrAddr rdAddr' wrData' mixed') := by
  refine ⟨rfl, fun write => ?_⟩
  cases lbWrEn with
  | true => exact ⟨congrArg (BitVec.extractLsb' 0 7) (store rfl).1, (store rfl).2⟩
  | false => exact ⟨rfl, data write⟩

/-- What surrounds the sequencers of two runs in one clock. -/
structure Beside (state other : State) (inputs others : Inputs) : Prop where
  written : SameWritten state.lb other.lb
  stores : SameStores state.lb.lb2ram other.lb.lb2ram
  twiddles : other.engine.twiddleRam.memory = state.engine.twiddleRam.memory
  cordics : other.cordicRam.memory = state.cordicRam.memory
  pcmRdy : others.pcmRdyIh = inputs.pcmRdyIh
  pcmData : others.pcmRamRdDataId = inputs.pcmRamRdDataId
  fftRealMixed : others.fftRealMixed = inputs.fftRealMixed
  fftImMixed : others.fftImMixed = inputs.fftImMixed
  twiddleMixed : others.twiddleMixed = inputs.twiddleMixed
  cordicMixed : others.cordicMixed = inputs.cordicMixed

/-- Two runs differ at most in words that nobody has asked for. -/
structure Agree (state other : State) : Prop where
  fsm : other.engine.fsm = state.engine.fsm.shadowed other.engine.fsm.shadow
  wing : ButterflyWing.Agree state.engine.wing other.engine.wing
  real : other.engine.fftRealRam.memory = state.engine.fftRealRam.memory
  im : other.engine.fftImRam.memory = state.engine.fftImRam.memory
  imData : state.engine.fsm.fftRamWrImEnOh = true →
    other.engine.fsm.fftRamWrImDataOd = state.engine.fsm.fftRamWrImDataOd
  factor : state.engine.fsm.samplesRdyOh = true ∨ state.engine.wing.pstVec.getLsbD 0 = true →
    other.engine.twiddleRam.q = state.engine.twiddleRam.q

section Step

variable {state other : State} {inputs others : Inputs}

theorem Agree.fsmInputs_eq (agree : Agree state other) (beside : Beside state other inputs others) :
    fsmInputs other.engine (engineInputs other others) =
      { fsmInputs state.engine (engineInputs state inputs) with
        fftRamRdDataId := fftRamRdData other.engine
        cordicRamRdDataId := other.cordicRam.q } := by
  simp only [fsmInputs, engineInputs, beside.written.enable, beside.written.postNorm,
    beside.pcmRdy, beside.pcmData, agree.wing.dataOd, agree.wing.dataRdy]

theorem Agree.wingInputs_eq (agree : Agree state other) :
    wingInputs other.engine =
      { wingInputs state.engine with
        twdlFactorId := twdlFactor other.engine.twiddleRam.q } := by
  rw [wingInputs, wingInputs, agree.fsm]
  rfl

theorem Agree.portWrites (agree : Agree state other) (beside : Beside state other inputs others) :
    DualPortRam.SameWrite (fftRealPorts state.engine (engineInputs state inputs))
        (fftRealPorts other.engine (engineInputs other others)) ∧
      DualPortRam.SameWrite (fftImPorts state.engine (engineInputs state inputs))
        (fftImPorts other.engine (engineInputs other others)) := by
  obtain ⟨realWr, imWr, word⟩ := beside.stores
  constructor
  · simp only [fftRealPorts, engineInputs, realWr]
    rw [agree.fsm]
    exact sharedPorts_write (fun write => word (.inl write)) fun _ => rfl
  · have imData := agree.imData
    simp only [fftImPorts, engineInputs, imWr]
    rw [agree.fsm] at imData ⊢
    exact sharedPorts_write (fun write => word (.inr write)) imData

/-- The words that are wanted are the same in both runs. -/
theorem Agree.step (agree : Agree state other) (beside : Beside state other inputs others)
    (port : captures state.engine.fsm = true →
      fftRamRdData other.engine = fftRamRdData state.engine ∧
        other.engine.fsm.preDivRealDataF = state.engine.fsm.preDivRealDataF)
    (load : state.engine.fsm.divLoadF = true →
      other.engine.fsm.sampleRealForDivF = state.engine.fsm.sampleRealForDivF ∧
        other.engine.fsm.sampleImForDivF = state.engine.fsm.sampleImForDivF)
    (cosine : state.engine.fsm.fsmPstate = .cordic →
      state.engine.fsm.pstVecExtnF.getLsbD 0 = true → other.cordicRam.q = state.cordicRam.q)
    (factor : (step state inputs).engine.fsm.samplesRdyOh = true ∨
        state.engine.fsm.samplesRdyOh = true →
      other.engine.twiddleRam.latch = state.engine.twiddleRam.latch) :
    Agree (step state inputs) (step other others) := by
  obtain ⟨real, im⟩ := agree.portWrites beside
  constructor
  case fsm =>
    have stepped := FgyrusFsm.step_shadowed other.engine.fsm.shadow
      (fsmInputs state.engine (engineInputs state inputs)) other.cordicRam.q port load
    rw [← agree.fsm, ← agree.fsmInputs_eq beside] at stepped
    exact stepped
  case wing =>
    change ButterflyWing.Agree (ButterflyWing.step state.engine.wing (wingInputs state.engine))
      (ButterflyWing.step other.engine.wing (wingInputs other.engine))
    rw [agree.wingInputs_eq]
    exact agree.wing.step fun asked => congrArg twdlFactor (agree.factor asked)
  case real => exact DualPortRam.memory_congr agree.real real
  case im => exact DualPortRam.memory_congr agree.im im
  case imData =>
    intro enabled
    have imData := agree.imData
    change FgyrusFsm.nextFftRamWrImData other.engine.fsm
      (fsmInputs other.engine (engineInputs other others)) = _
    rw [agree.fsmInputs_eq beside]
    rw [agree.fsm] at imData ⊢
    exact FgyrusFsm.wrImData_shadowed _ _ _ cosine imData enabled
  case factor =>
    intro asked
    refine factor ?_
    change _ ∨ (ButterflyWing.step state.engine.wing (wingInputs state.engine)).pstVec.getLsbD 0 =
      true at asked
    rw [ButterflyWing.step_pst_zero] at asked
    exact asked

/-! ### Clocks since the copy -/

/-- What the control registers promise in clock `d` after the copy. -/
structure Pipelined (d : Nat) (fsm : FgyrusFsm.State) : Prop where
  pstate : fsm.fsmPstate = schedule (copyClocks + d)
  port : captures fsm = true → 4 ≤ d
  load : fsm.divLoadF = true → 5 ≤ d
  whole : d = 3 → fsm.normPreDivDataF = false
  request : fsm.samplesRdyOh = true → 1 ≤ d ∧ d ≤ 7 * wings + 1
  cosine : fsm.fsmPstate = .cordic → fsm.pstVecExtnF.getLsbD 0 = true → stageClocks + 2 ≤ d

/-- The words in the registers of two runs, `d` clocks after the copy.  In every clock one
more register has forgotten what was read before. -/
structure Fresh (d : Nat) (state other : State) : Prop extends Agree state other where
  latches : 1 ≤ d → other.engine.fftRealRam.latch = state.engine.fftRealRam.latch ∧
    other.engine.fftImRam.latch = state.engine.fftImRam.latch
  words : 2 ≤ d → fftRamRdData other.engine = fftRamRdData state.engine
  inverses : 3 ≤ d → other.engine.fsm.sampleRealInvF = state.engine.fsm.sampleRealInvF ∧
    other.engine.fsm.sampleImInvF = state.engine.fsm.sampleImInvF
  preDiv : 4 ≤ d → other.engine.fsm.preDivRealDataF = state.engine.fsm.preDivRealDataF
  operands : 5 ≤ d → other.engine.fsm.sampleRealForDivF = state.engine.fsm.sampleRealForDivF ∧
    other.engine.fsm.sampleImForDivF = state.engine.fsm.sampleImForDivF
  isZero : 3 ≤ d → other.engine.fsm.sampleRealIsZeroF = state.engine.fsm.sampleRealIsZeroF
  isZero1d : 4 ≤ d → other.engine.fsm.sampleRealIsZero1d = state.engine.fsm.sampleRealIsZero1d
  isZero2d : 5 ≤ d → other.engine.fsm.sampleRealIsZero2d = state.engine.fsm.sampleRealIsZero2d
  isZero3d : 6 ≤ d → other.engine.fsm.sampleRealIsZero3d = state.engine.fsm.sampleRealIsZero3d
  cordicAddr : 7 ≤ d → other.engine.fsm.cordicRamRdAddrOd = state.engine.fsm.cordicRamRdAddrOd
  twiddle : 1 ≤ d → d ≤ 7 * wings + 1 →
    other.engine.twiddleRam.latch = state.engine.twiddleRam.latch
  cordic : stageClocks + 1 ≤ d → d ≤ stageClocks + cordicClocks →
    other.cordicRam.latch = state.cordicRam.latch
  cosine : stageClocks + 2 ≤ d → d ≤ stageClocks + cordicClocks →
    other.cordicRam.q = state.cordicRam.q

theorem Agree.fresh (agree : Agree state other) : Fresh 0 state other := by
  constructor
  case toAgree => exact agree
  all_goals exact fun late => absurd late (by decide)

section Fresh

variable {d : Nat} (fresh : Fresh d state other) (pipelined : Pipelined d state.engine.fsm)
  (beside : Beside state other inputs others)
  (apart : ReadsApart state.engine.fsm.fsmPstate state.lb.lb2ram)
  (apart' : ReadsApart state.engine.fsm.fsmPstate other.lb.lb2ram)

include fresh pipelined beside

theorem Fresh.agree_step : Agree (step state inputs) (step other others) := by
  have asks : ∀ now : (step state inputs).engine.fsm.samplesRdyOh = true,
      1 ≤ d ∧ d ≤ 7 * wings + 1 := by
    intro now
    change (if state.engine.fsm.fsmPstate = .fft then state.engine.fsm.pstVecF.getLsbD 6
      else false) = true at now
    split at now
    · rename_i fft
      have late := pipelined.port (FgyrusFsm.captures_of (.inr (.inr rfl)) now)
      rw [pipelined.pstate, schedule_late.2.2.1] at fft
      omega
    · cases now
  refine fresh.toAgree.step beside (fun now => ?_) (fun now => ?_) (fun pass now => ?_)
    fun now => ?_
  · have late := pipelined.port now
    exact ⟨fresh.words (by omega), fresh.preDiv late⟩
  · exact fresh.operands (pipelined.load now)
  · have late := pipelined.cosine pass now
    rw [pipelined.pstate, schedule_late.2.2.2] at pass
    exact fresh.cosine late (Nat.le_of_lt pass.2)
  · obtain ⟨late, inside⟩ := now.elim asks pipelined.request
    exact fresh.twiddle late inside

theorem Fresh.preDiv_step (late : 3 ≤ d) :
    (step other others).engine.fsm.preDivRealDataF =
      (step state inputs).engine.fsm.preDivRealDataF := by
  have words := fresh.words (Nat.le_of_lt late)
  have inverses := fresh.inverses late
  have preDiv : state.engine.fsm.normPreDivDataF = true →
      other.engine.fsm.preDivRealDataF = state.engine.fsm.preDivRealDataF := by
    intro whole
    refine fresh.preDiv (Nat.lt_of_le_of_ne late fun first => ?_)
    rw [pipelined.whole first.symm] at whole
    cases whole
  have stepped := FgyrusFsm.preDiv_shadowed other.engine.fsm.shadow
    (fsmInputs state.engine (engineInputs state inputs)) other.cordicRam.q
    words inverses.1 preDiv
  rw [← fresh.fsm, ← fresh.fsmInputs_eq beside] at stepped
  exact stepped

omit pipelined in
theorem Fresh.operands_step (late : 4 ≤ d) :
    (step other others).engine.fsm.sampleRealForDivF =
        (step state inputs).engine.fsm.sampleRealForDivF ∧
      (step other others).engine.fsm.sampleImForDivF =
        (step state inputs).engine.fsm.sampleImForDivF := by
  have words := fresh.words (by omega)
  have inverses := fresh.inverses (by omega)
  have stepped := FgyrusFsm.operands_shadowed other.engine.fsm.shadow
    (fsmInputs state.engine (engineInputs state inputs)) other.cordicRam.q
    words inverses.1 inverses.2 (fresh.preDiv late)
  rw [← fresh.fsm, ← fresh.fsmInputs_eq beside] at stepped
  exact stepped

include apart apart'

theorem Fresh.latches_step :
    (step other others).engine.fftRealRam.latch = (step state inputs).engine.fftRealRam.latch ∧
      (step other others).engine.fftImRam.latch =
        (step state inputs).engine.fftImRam.latch := by
  obtain ⟨idle, decimate, _⟩ := schedule_late (d := d)
  rw [← pipelined.pstate] at idle decimate
  obtain ⟨real, im⟩ := apart.cache idle decimate
  obtain ⟨real', im'⟩ := apart'.cache idle decimate
  obtain ⟨realWrite, imWrite⟩ := fresh.portWrites beside
  constructor
  · refine DualPortRam.latch_congr fresh.real realWrite ?_ beside.fftRealMixed
    simp only [fftRealPorts, sharedPorts, engineInputs, real, real', Bool.false_eq_true, reduceIte]
    rw [fresh.fsm]
    rfl
  · refine DualPortRam.latch_congr fresh.im imWrite ?_ beside.fftImMixed
    simp only [fftImPorts, sharedPorts, engineInputs, im, im', Bool.false_eq_true, reduceIte]
    rw [fresh.fsm]
    rfl

theorem Fresh.twiddle_step (inside : d ≤ 7 * wings) :
    (step other others).engine.twiddleRam.latch =
      (step state inputs).engine.twiddleRam.latch := by
  have fft := schedule_late.2.2.1.mpr inside
  rw [← pipelined.pstate] at fft
  have written := beside.written
  refine DualPortRam.latch_congr beside.twiddles ⟨written.twiddle, fun write => ?_⟩ ?_
    beside.twiddleMixed
  · exact ⟨congrArg (BitVec.extractLsb' 0 7) (written.addr (.inl write)),
      written.wrData (.inl write)⟩
  · simp only [twiddlePorts, engineInputs, apart.twiddle fft, apart'.twiddle fft,
      Bool.false_eq_true, reduceIte]
    rw [fresh.fsm]
    rfl

theorem Fresh.cordic_step (late : stageClocks ≤ d) (inside : d < stageClocks + cordicClocks) :
    (step other others).cordicRam.latch = (step state inputs).cordicRam.latch := by
  have pass := schedule_late.2.2.2.mpr ⟨late, inside⟩
  rw [← pipelined.pstate] at pass
  have written := beside.written
  have addr := fresh.cordicAddr (Nat.le_trans (by decide) late)
  refine DualPortRam.latch_congr beside.cordics ⟨written.cordic, fun write => ?_⟩ ?_
    beside.cordicMixed
  · exact ⟨written.addr (.inr write),
      congrArg (BitVec.extractLsb' 0 16) (written.wrData (.inr write))⟩
  · simp only [cordicPorts, apart.cordic pass, apart'.cordic pass, Bool.false_eq_true, reduceIte,
      addr]

theorem Fresh.step : Fresh (d + 1) (step state inputs) (step other others) := by
  constructor
  case toAgree => exact fresh.agree_step pipelined beside
  case latches => exact fun _ => fresh.latches_step pipelined beside apart apart'
  case words =>
    intro late
    obtain ⟨real, im⟩ := fresh.latches (Nat.le_of_succ_le_succ late)
    exact congrArg₂ ButterflyWing.Complex.mk real im
  case inverses =>
    intro late
    have words := fresh.words (Nat.le_of_succ_le_succ late)
    exact ⟨congrArg (fun word => ~~~word.real + 1) words,
      congrArg (fun word => ~~~word.im + 1) words⟩
  case preDiv =>
    exact fun late => fresh.preDiv_step pipelined beside (Nat.le_of_succ_le_succ late)
  case operands => exact fun late => fresh.operands_step beside (Nat.le_of_succ_le_succ late)
  case isZero =>
    exact fun late =>
      congrArg (fun word => word.real == 0) (fresh.words (Nat.le_of_succ_le_succ late))
  case isZero1d => exact fun late => fresh.isZero (Nat.le_of_succ_le_succ late)
  case isZero2d => exact fun late => fresh.isZero1d (Nat.le_of_succ_le_succ late)
  case isZero3d => exact fun late => fresh.isZero2d (Nat.le_of_succ_le_succ late)
  case cordicAddr =>
    intro late
    have divRes : other.engine.fsm.divResQF = state.engine.fsm.divResQF := by
      rw [fresh.fsm]
      rfl
    have isZero := fresh.isZero3d (Nat.le_of_succ_le_succ late)
    simp only [FgyrusTop.step, FftEngine.step, FgyrusFsm.step, divRes, isZero]
  case twiddle =>
    exact fun _ inside =>
      fresh.twiddle_step pipelined beside apart apart' (Nat.le_of_succ_le_succ inside)
  case cordic =>
    exact fun late inside =>
      fresh.cordic_step pipelined beside apart apart' (Nat.le_of_succ_le_succ late) inside
  case cosine =>
    exact fun late inside => fresh.cordic (Nat.le_of_succ_le_succ late) (Nat.le_of_succ_le inside)

end Fresh

end Step

end Synesthesia.FgyrusTop
