/-
What a stray read of the host disturbs.

The read ports of the RAMs are shared, so that a read of the host puts a wrong word on
the port for a clock.  Several registers take in every word of their port, wanted or not,
and only some of them are looked at later.  Two runs that differ in such registers alone
agree, and stay in agreement as long as the words that are wanted are the same.
-/

import Synesthesia.FusiformGyrus.FgyrusFsm
import Synesthesia.Rtl.DualPortRam

namespace Synesthesia.Rtl.DualPortRam

variable {addrBits dataBits : Nat}

/-- Two ports write alike. -/
structure SameWrite (ports others : Ports addrBits dataBits) : Prop where
  wren : others.wren = ports.wren
  word : ports.wren = true → others.wraddress = ports.wraddress ∧ others.data = ports.data

section Congr

variable {ram other : DualPortRam addrBits dataBits} {ports others : Ports addrBits dataBits}
  (memory : other.memory = ram.memory) (write : SameWrite ports others)

include memory write

theorem memory_congr : (other.step others).memory = (ram.step ports).memory :=
  store_congr memory write.wren write.word

theorem latch_congr (rdaddress : others.rdaddress = ports.rdaddress)
    (mixed : others.mixed = ports.mixed) :
    (other.step others).latch = (ram.step ports).latch := by
  rw [step, step, write.wren, rdaddress, mixed, memory]
  cases enabled : ports.wren with
  | true => rw [(write.word enabled).1]
  | false => rfl

end Congr

end Synesthesia.Rtl.DualPortRam

namespace Synesthesia.FgyrusFsm

open Synesthesia.ButterflyWing (Complex)

attribute [ext] State

/-- Registers that take in words of the read ports without being asked for them. -/
structure Shadow where
  isZero : Bool
  isZero1d : Bool
  isZero2d : Bool
  isZero3d : Bool
  realInv : BitVec 32
  imInv : BitVec 32
  preDiv : BitVec 32
  realForDiv : BitVec 32
  imForDiv : BitVec 32
  cordicAddr : BitVec 8
  wrIm : BitVec 32

def State.shadow (state : State) : Shadow :=
  { isZero := state.sampleRealIsZeroF
    isZero1d := state.sampleRealIsZero1d
    isZero2d := state.sampleRealIsZero2d
    isZero3d := state.sampleRealIsZero3d
    realInv := state.sampleRealInvF
    imInv := state.sampleImInvF
    preDiv := state.preDivRealDataF
    realForDiv := state.sampleRealForDivF
    imForDiv := state.sampleImForDivF
    cordicAddr := state.cordicRamRdAddrOd
    wrIm := state.fftRamWrImDataOd }

def State.shadowed (state : State) (shadow : Shadow) : State :=
  { state with
    sampleRealIsZeroF := shadow.isZero
    sampleRealIsZero1d := shadow.isZero1d
    sampleRealIsZero2d := shadow.isZero2d
    sampleRealIsZero3d := shadow.isZero3d
    sampleRealInvF := shadow.realInv
    sampleImInvF := shadow.imInv
    preDivRealDataF := shadow.preDiv
    sampleRealForDivF := shadow.realForDiv
    sampleImForDivF := shadow.imForDiv
    cordicRamRdAddrOd := shadow.cordicAddr
    fftRamWrImDataOd := shadow.wrIm }

/-- The words of the read ports reach a register that keeps them. -/
def captures (state : State) : Bool :=
  state.pstVecF.getLsbD 4 || state.pstVecF.getLsbD 5 || state.pstVecF.getLsbD 6

theorem captures_of {state : State} {k : Nat} (late : k = 4 ∨ k = 5 ∨ k = 6)
    (now : state.pstVecF.getLsbD k = true) : captures state = true := by
  rcases late with rfl | rfl | rfl <;> simp only [captures, now, Bool.or_true, Bool.true_or]

theorem captures_eq_false {state : State} :
    captures state = false ↔ state.pstVecF.getLsbD 4 = false ∧ state.pstVecF.getLsbD 5 = false ∧
      state.pstVecF.getLsbD 6 = false := by
  rw [captures, Bool.or_eq_false_iff, Bool.or_eq_false_iff, and_assoc]

section Shadowed

variable {state : State} (shadow : Shadow) (inputs : Inputs) {word : Complex 32}
  (cosine : BitVec 16)

/-- A shadow stays a shadow, as long as the words that are kept are the same. -/
theorem step_shadowed
    (port : captures state = true →
      word = inputs.fftRamRdDataId ∧ shadow.preDiv = state.preDivRealDataF)
    (load : state.divLoadF = true →
      shadow.realForDiv = state.sampleRealForDivF ∧ shadow.imForDiv = state.sampleImForDivF) :
    let next := step (state.shadowed shadow)
      { inputs with fftRamRdDataId := word, cordicRamRdDataId := cosine }
    next = (step state inputs).shadowed next.shadow := by
  intro next
  apply State.ext
  case sampleAOd =>
    change (if state.pstVecF.getLsbD 5 then word else state.sampleAOd) =
      if state.pstVecF.getLsbD 5 then inputs.fftRamRdDataId else state.sampleAOd
    cases now : state.pstVecF.getLsbD 5 with
    | true => rw [(port (captures_of (.inr (.inl rfl)) now)).1]
    | false => rfl
  case sampleBOd =>
    change (if state.pstVecF.getLsbD 6 then word else state.sampleBOd) =
      if state.pstVecF.getLsbD 6 then inputs.fftRamRdDataId else state.sampleBOd
    cases now : state.pstVecF.getLsbD 6 with
    | true => rw [(port (captures_of (.inr (.inr rfl)) now)).1]
    | false => rfl
  case normPreDivDataF =>
    change (state.pstVecF.getLsbD 4 && shadow.preDiv.extractLsb' 16 16 == 0) =
      (state.pstVecF.getLsbD 4 && state.preDivRealDataF.extractLsb' 16 16 == 0)
    cases now : state.pstVecF.getLsbD 4 with
    | true => rw [(port (captures_of (.inl rfl) now)).2]
    | false => rfl
  case div =>
    change DividerRad4.step state.div
        { load := state.divLoadF, n := shadow.imForDiv, d := shadow.realForDiv } =
      DividerRad4.step state.div
        { load := state.divLoadF, n := state.sampleImForDivF, d := state.sampleRealForDivF }
    cases now : state.divLoadF with
    | true => rw [(load now).1, (load now).2]
    | false => rfl
  all_goals rfl

theorem wrImData_shadowed
    (answer : state.fsmPstate = .cordic → state.pstVecExtnF.getLsbD 0 = true →
      cosine = inputs.cordicRamRdDataId)
    (wrIm : state.fftRamWrImEnOh = true → shadow.wrIm = state.fftRamWrImDataOd)
    (enabled : nextFftRamWrImEn state inputs = true) :
    nextFftRamWrImData (state.shadowed shadow)
        { inputs with fftRamRdDataId := word, cordicRamRdDataId := cosine } =
      nextFftRamWrImData state inputs := by
  rw [nextFftRamWrImEn] at enabled
  simp only [nextFftRamWrImData, State.shadowed]
  cases pstate : state.fsmPstate with
  | idle | decimate | fft | fftWait => rfl
  | cordic =>
      rw [pstate] at enabled
      rw [answer pstate enabled]
  | abs =>
      rw [pstate] at enabled
      exact wrIm enabled

section SameWord

variable (same : word = inputs.fftRamRdDataId) (realInv : shadow.realInv = state.sampleRealInvF)

include same realInv

theorem preDiv_shadowed
    (preDiv : state.normPreDivDataF = true → shadow.preDiv = state.preDivRealDataF) :
    nextPreDivRealData (state.shadowed shadow)
        { inputs with fftRamRdDataId := word, cordicRamRdDataId := cosine } =
      nextPreDivRealData state inputs := by
  subst same
  simp only [nextPreDivRealData, State.shadowed, realInv]
  cases whole : state.normPreDivDataF with
  | true => rw [preDiv whole]
  | false => rw [if_neg Bool.false_ne_true, if_neg Bool.false_ne_true]

theorem operands_shadowed (imInv : shadow.imInv = state.sampleImInvF)
    (preDiv : shadow.preDiv = state.preDivRealDataF) :
    nextSampleRealForDiv (state.shadowed shadow)
          { inputs with fftRamRdDataId := word, cordicRamRdDataId := cosine } =
        nextSampleRealForDiv state inputs ∧
      nextSampleImForDiv (state.shadowed shadow)
          { inputs with fftRamRdDataId := word, cordicRamRdDataId := cosine } =
        nextSampleImForDiv state inputs := by
  subst same
  constructor
  · simp only [nextSampleRealForDiv, State.shadowed, realInv]
  · simp only [nextSampleImForDiv, State.shadowed, imInv, preDiv]

end SameWord

end Shadowed

end Synesthesia.FgyrusFsm

namespace Synesthesia.ButterflyWing

/-- A request is in place `k` of the pipeline or in the next. -/
def Awaited (state : State) (k : Nat) : Prop :=
  state.pstVec.getLsbD k = true ∨ state.pstVec.getLsbD (k + 1) = true

/-- Two wings differ at most in words that belong to no request. -/
structure Agree (state other : State) : Prop where
  pstVec : other.pstVec = state.pstVec
  dataa : other.mult.dataa = state.mult.dataa
  dataOd : other.dataOd = state.dataOd
  dataRdy : other.dataRdyOh = state.dataRdyOh
  datab : Awaited state 0 → other.mult.datab = state.mult.datab
  products : Awaited state 1 → other.mult.realProducts = state.mult.realProducts ∧
    other.mult.imProducts = state.mult.imProducts
  result : Awaited state 2 → other.mult.result = state.mult.result
  mulRes : Awaited state 3 → other.mulResNormF = state.mulResNormF ∧
    other.mulResInvF = state.mulResInvF

theorem Agree.refl (state : State) : Agree state state :=
  { pstVec := rfl
    dataa := rfl
    dataOd := rfl
    dataRdy := rfl
    datab := fun _ => rfl
    products := fun _ => ⟨rfl, rfl⟩
    result := fun _ => rfl
    mulRes := fun _ => ⟨rfl, rfl⟩ }

section Step

variable {state other : State} {inputs : Inputs}

theorem awaited_step {k : Nat} (small : k < 3) (awaited : Awaited (step state inputs) (k + 1)) :
    Awaited state k := by
  rw [Awaited, step_pst_succ _ _ (Nat.lt_succ_of_lt small),
    step_pst_succ _ _ (Nat.succ_lt_succ small)] at awaited
  exact awaited

theorem Agree.step (agree : Agree state other) {twdlFactor : Complex 10}
    (asked : inputs.samplesRdyIh = true ∨ state.pstVec.getLsbD 0 = true →
      twdlFactor = inputs.twdlFactorId) :
    Agree (ButterflyWing.step state inputs)
      (ButterflyWing.step other { inputs with twdlFactorId := twdlFactor }) := by
  constructor
  case pstVec => rw [ButterflyWing.step, ButterflyWing.step, agree.pstVec]
  case dataa => rfl
  case dataOd =>
    rw [ButterflyWing.step, ButterflyWing.step, agree.pstVec, agree.dataOd]
    by_cases awaited : Awaited state 3
    · rw [(agree.mulRes awaited).1, (agree.mulRes awaited).2]
    · obtain ⟨sum, difference⟩ := not_or.mp awaited
      rw [if_neg sum, if_neg difference, if_neg sum, if_neg difference]
  case dataRdy => rw [ButterflyWing.step, ButterflyWing.step, agree.pstVec]
  case datab =>
    intro awaited
    rw [Awaited, step_pst_zero, step_pst_succ _ _ (by decide)] at awaited
    exact asked awaited
  case products =>
    intro awaited
    have datab := agree.datab (awaited_step (by decide) awaited)
    simp only [ButterflyWing.step, ComplexMult.step, agree.dataa, datab, and_self]
  case result =>
    intro awaited
    have products := agree.products (awaited_step (by decide) awaited)
    simp only [ButterflyWing.step, ComplexMult.step, products.1, products.2]
  case mulRes =>
    intro awaited
    have result := agree.result (awaited_step (by decide) awaited)
    simp only [ButterflyWing.step, result, and_self]

end Step

end Synesthesia.ButterflyWing
