/-
Control registers of `fgyrus_fsm` in the CORDIC pass.

A word of the cache takes 22 clocks: five to prepare and load the division,
sixteen for its digits and one for the rising edge of `ready`, which starts the
next word and, in the upper half of the shift register, the write-back of this
one.  Clock 0 is the first one in `CORDIC_S`.
-/

import Synesthesia.FusiformGyrus.FftFrame
import Synesthesia.FusiformGyrus.DividerRun

namespace Synesthesia.FgyrusFsm

def cordicPeriod : Nat := 22

/-- Clocks of the CORDIC pass.  The write-back of the last word ends it. -/
def cordicClocks : Nat := 128 * cordicPeriod + 5

/-- The shift register in clock `p` of a word: the phases of the division, and
the write-back of the word before. -/
def cordicVec (first : Bool) (p : Nat) : BitVec 7 :=
  (if p < 4 then hot p else 0) ||| (if p < 3 ∧ first = false then hot (p + 4) else 0)

def cordicExtn (first : Bool) (p : Nat) : BitVec 7 :=
  if 3 ≤ p ∧ p < 10 ∧ first = false then hot (p - 3) else 0

def cordicCntr (first : Bool) (p : Nat) : BitVec 7 :=
  if 5 ≤ p then BitVec.ofNat 7 (21 - p) else if first then BitVec.ofNat 7 (16 - p) else 0

def cordicShift (pstVec : BitVec 7) (pulse : Bool) : BitVec 7 :=
  pstVec.extractLsb' 4 2 ++ BitVec.ofBool pulse ++ pstVec.extractLsb' 0 3 ++ BitVec.ofBool pulse

theorem cordic_inside : ∀ first : Bool, ∀ p < 21,
    cordicShift (cordicVec first p) false = cordicVec first (p + 1) ∧
      (cordicExtn first p).extractLsb' 0 6 ++ BitVec.ofBool ((cordicVec first p).getLsbD 6) =
        cordicExtn first (p + 1) := by
  decide

theorem cordic_turn : ∀ first : Bool,
    cordicShift (cordicVec first 21) true = cordicVec false 0 ∧
      (cordicExtn first 21).extractLsb' 0 6 ++ BitVec.ofBool ((cordicVec first 21).getLsbD 6) =
        cordicExtn false 0 := by
  decide

structure CordicClock (c : Nat) (state : State) : Prop where
  pstate : state.fsmPstate = .cordic
  vec : state.pstVecF = cordicVec (decide (c < 22)) (c % 22)
  extn : state.pstVecExtnF = cordicExtn (decide (c < 22)) (c % 22)
  rdAddr : state.fftRamRdAddrOd = BitVec.ofNat 7 (c / 22)
  wrAddr : state.fftRamWrAddrOd = BitVec.ofNat 7 ((c + 17) / 22 - 1)
  realWrite : state.fftRamWrRealEnOh = false
  imWrite : state.fftRamWrImEnOh = decide (22 ≤ c ∧ c % 22 = 4)
  load : state.divLoadF = decide (c % 22 = 4)
  cntr : state.div.cntr = cordicCntr (decide (c < 22)) (c % 22)
  pulse : divResRdyPulseC state = decide (c % 22 = 21)

theorem cordicVec_three : ∀ first : Bool, ∀ p < 22,
    (cordicVec first p).getLsbD 3 = decide (p = 3) := by
  decide

theorem cordicExtn_zero : ∀ first : Bool, ∀ p < 22,
    (cordicExtn first p).getLsbD 0 = decide (first = false ∧ p = 3) := by
  decide

theorem cordicCntr_zero : ∀ first : Bool, ∀ p < 22,
    (cordicCntr first p == 0) = decide (p = 21 ∨ p ≤ 4 ∧ first = false) := by
  decide

theorem cordicCntr_step : ∀ first : Bool, ∀ p < 21,
    (if p = 4 then 16
      else if cordicCntr first p == 0 then cordicCntr first p else cordicCntr first p - 1) =
      cordicCntr first (p + 1) := by
  decide

section Step

variable {c : Nat} {state : State}

theorem CordicClock.ready (clock : CordicClock c state) :
    DividerRad4.ready state.div = decide (c % 22 = 21 ∨ c % 22 ≤ 4 ∧ 22 ≤ c) := by
  rw [DividerRad4.ready, DividerRad4.cntrZero, clock.cntr,
    cordicCntr_zero _ _ (Nat.mod_lt _ (by decide)), decide_eq_decide, decide_eq_false_iff_not,
    Nat.not_lt]

theorem CordicClock.ovr (clock : CordicClock c state) (inside : c < cordicClocks) :
    cordicOvrC state = decide (c = cordicClocks - 1) := by
  rw [cordicClocks, cordicPeriod] at *
  rw [cordicOvrC, clock.wrAddr, clock.imWrite, Bool.eq_iff_iff, Bool.and_eq_true, beq_iff_eq,
    decide_eq_true_eq, decide_eq_true_eq]
  constructor
  · rintro ⟨last, late, phase⟩
    have values := congrArg BitVec.toNat last
    rw [BitVec.toNat_ofNat, BitVec.toNat_allOnes] at values
    omega
  · intro last
    refine ⟨?_, by omega, by omega⟩
    rw [last]
    rfl

theorem cordic_cntr_next (clock : CordicClock c state) (inputs : Inputs) :
    (step state inputs).div.cntr =
      if c % 22 = 4 then 16
      else if state.div.cntr == 0 then state.div.cntr else state.div.cntr - 1 := by
  change (DividerRad4.step state.div _).cntr = _
  by_cases load : c % 22 = 4
  · rw [if_pos load]
    refine DividerRad4.cntr_load ?_
    rw [clock.load, decide_eq_true load]
  · rw [if_neg load]
    refine DividerRad4.cntr_step ?_
    rw [clock.load, decide_eq_false load]

theorem cordic_next (c : Nat) :
    c % 22 = 21 ∧ (c + 1) % 22 = 0 ∧ decide (c + 1 < 22) = false ∨
      c % 22 < 21 ∧ (c + 1) % 22 = c % 22 + 1 ∧ decide (c + 1 < 22) = decide (c < 22) := by
  by_cases turn : c % 22 = 21
  · exact .inl ⟨turn, by omega, decide_eq_false (by omega)⟩
  · exact .inr ⟨by omega, by omega, decide_eq_decide.mpr (by omega)⟩

theorem cordic_step (clock : CordicClock c state) (inside : c + 1 < cordicClocks)
    (inputs : Inputs) : CordicClock (c + 1) (step state inputs) := by
  have more : cordicOvrC state = false := by
    rw [clock.ovr (by omega), decide_eq_false_iff_not]
    omega
  have phase : c % 22 < 22 := Nat.mod_lt _ (by decide)
  have cntr : (step state inputs).div.cntr = cordicCntr (decide (c + 1 < 22)) ((c + 1) % 22) := by
    rw [cordic_cntr_next clock, clock.cntr]
    rcases cordic_next c with ⟨turn, start, later⟩ | ⟨within, next, same⟩
    · rw [turn, start, later]
      cases decide (c < 22) <;> rfl
    · rw [cordicCntr_step _ _ within, next, same]
  constructor
  case pstate =>
    simp only [step, nextPstate, clock.pstate, more, Bool.false_eq_true, reduceIte]
  case vec =>
    simp only [step, nextPstVec, clock.pstate, more, Bool.false_eq_true, reduceIte]
    change cordicShift state.pstVecF (divResRdyPulseC state) = _
    rw [clock.vec, clock.pulse]
    rcases cordic_next c with ⟨turn, start, later⟩ | ⟨within, next, same⟩
    · rw [turn, start, later, decide_eq_true rfl, (cordic_turn _).1]
    · rw [next, same, decide_eq_false (Nat.ne_of_lt within), (cordic_inside _ _ within).1]
  case extn =>
    simp only [step, nextPstVecExtn, clock.pstate, more, Bool.false_eq_true, reduceIte]
    rw [clock.vec, clock.extn]
    rcases cordic_next c with ⟨turn, start, later⟩ | ⟨within, next, same⟩
    · rw [turn, start, later, (cordic_turn _).2]
    · rw [next, same, (cordic_inside _ _ within).2]
  case rdAddr =>
    simp only [step, nextFftRamRdAddr, clock.pstate, more, Bool.false_eq_true, reduceIte,
      clock.rdAddr, clock.pulse]
    by_cases turn : c % 22 = 21
    · rw [decide_eq_true turn, show (c + 1) / 22 = c / 22 + 1 by omega]
      exact (BitVec.ofNat_add _ 1).symm
    · rw [decide_eq_false turn, show (c + 1) / 22 = c / 22 by omega]
      exact BitVec.add_zero _
  case wrAddr =>
    simp only [step, nextFftRamWrAddr, clock.pstate, clock.wrAddr, clock.imWrite]
    by_cases write : 22 ≤ c ∧ c % 22 = 4
    · rw [decide_eq_true write, show (c + 1 + 17) / 22 - 1 = (c + 17) / 22 - 1 + 1 by omega]
      exact (BitVec.ofNat_add _ 1).symm
    · rw [decide_eq_false write, show (c + 1 + 17) / 22 - 1 = (c + 17) / 22 - 1 by omega]
      exact BitVec.add_zero _
  case realWrite =>
    simp only [step, nextFftRamWrRealEn, clock.pstate, clock.realWrite]
  case imWrite =>
    simp only [step, nextFftRamWrImEn, clock.pstate, clock.extn, cordicExtn_zero _ _ phase,
      decide_eq_decide, decide_eq_false_iff_not]
    omega
  case load =>
    simp only [step, nextDivLoad, clock.pstate, clock.vec, cordicVec_three _ _ phase,
      decide_eq_decide]
    omega
  case cntr => exact cntr
  case pulse =>
    have now : divResRdyPulseC (step state inputs) =
        ((step state inputs).div.cntr == 0 && !DividerRad4.ready state.div) := rfl
    rw [now, clock.ready, cntr, cordicCntr_zero _ _ (Nat.mod_lt _ (by decide)),
      ← decide_not, ← Bool.decide_and, decide_eq_decide, decide_eq_false_iff_not]
    omega

end Step

end Synesthesia.FgyrusFsm
