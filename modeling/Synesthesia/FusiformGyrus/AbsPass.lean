/-
Control registers of `fgyrus_fsm` in the ABS pass.

A word takes 25 clocks: eight to normalise it and load the division, sixteen for
its digits and one for the rising edge of `ready`.  Clock 0 is the first one in
`ABS_S`; the division the CORDIC pass left behind is replaced before it ends.
-/

import Synesthesia.FusiformGyrus.CordicPass

namespace Synesthesia.FgyrusFsm

def absPeriod : Nat := 25

/-- Clocks of the ABS pass.  The write-back of the last word ends it. -/
def absClocks : Nat := 128 * absPeriod + 3

/-- The shift register in clock `p` of a word. -/
def absVec (p : Nat) : BitVec 7 := if p < 7 then hot p else 0

/-- Its extension: the write-back of the word before. -/
def absExtn (first : Bool) (p : Nat) : BitVec 7 :=
  if p < 2 ∧ first = false then hot p else 0

def absCntr (first : Bool) (p : Nat) : BitVec 7 :=
  if 8 ≤ p then BitVec.ofNat 7 (24 - p) else if first then BitVec.ofNat 7 (16 - p) else 0

def absShift (pstVec : BitVec 7) (pulse : Bool) : BitVec 7 :=
  pstVec.extractLsb' 0 6 ++ BitVec.ofBool pulse

/-- Only the two lower places of the extension move. -/
def absExtnShift (pstVecExtn : BitVec 7) (pulse : Bool) : BitVec 7 :=
  pstVecExtn.extractLsb' 2 5 ++ pstVecExtn.extractLsb' 0 1 ++ BitVec.ofBool pulse

theorem abs_inside : ∀ first : Bool, ∀ p < 24,
    absShift (absVec p) false = absVec (p + 1) ∧
      absExtnShift (absExtn first p) false = absExtn first (p + 1) := by
  decide

theorem abs_turn : ∀ first : Bool,
    absShift (absVec 24) true = absVec 0 ∧
      absExtnShift (absExtn first 24) true = absExtn false 0 := by
  decide

theorem absVec_bit : ∀ p < 25, ∀ k < 7, (absVec p).getLsbD k = decide (p = k) := by
  decide

theorem absExtn_one : ∀ first : Bool, ∀ p < 25,
    (absExtn first p).getLsbD 1 = decide (first = false ∧ p = 1) := by
  decide

theorem absCntr_zero : ∀ first : Bool, ∀ p < 25,
    (absCntr first p == 0) = decide (p = 24 ∨ p ≤ 7 ∧ first = false) := by
  decide

theorem absCntr_step : ∀ first : Bool, ∀ p < 24,
    (if p = 7 then 16
      else if absCntr first p == 0 then absCntr first p else absCntr first p - 1) =
      absCntr first (p + 1) := by
  decide

structure AbsClock (e : Nat) (state : State) : Prop where
  pstate : state.fsmPstate = .abs
  vec : state.pstVecF = absVec (e % 25)
  extn : state.pstVecExtnF = absExtn (decide (e < 25)) (e % 25)
  rdAddr : state.fftRamRdAddrOd = BitVec.ofNat 7 (e / 25)
  wrAddr : state.fftRamWrAddrOd = BitVec.ofNat 7 ((e + 22) / 25 - 1)
  realWrite : state.fftRamWrRealEnOh = decide (25 ≤ e ∧ e % 25 = 2)
  imWrite : state.fftRamWrImEnOh = false
  load : state.divLoadF = decide (e % 25 = 7)
  cntr : state.div.cntr = absCntr (decide (e < 25)) (e % 25)
  pulse : divResRdyPulseC state = decide (e % 25 = 24)

theorem cordic_end {state : State} (clock : CordicClock (cordicClocks - 1) state)
    (inputs : Inputs) : AbsClock 0 (step state inputs) := by
  have ended : cordicOvrC state = true := clock.ovr (by decide)
  have cntr : (step state inputs).div.cntr = 16 := by
    rw [cordic_cntr_next clock]
    rfl
  constructor
  case pstate =>
    simp only [step, nextPstate, clock.pstate, ended, reduceIte]
  case vec =>
    simp only [step, nextPstVec, clock.pstate, ended, reduceIte]
    rfl
  case extn =>
    simp only [step, nextPstVecExtn, clock.pstate, ended, reduceIte]
    rfl
  case rdAddr =>
    simp only [step, nextFftRamRdAddr, clock.pstate, ended, reduceIte]
    rfl
  case wrAddr =>
    simp only [step, nextFftRamWrAddr, clock.pstate, clock.wrAddr, clock.imWrite]
    rfl
  case realWrite =>
    simp only [step, nextFftRamWrRealEn, clock.pstate, clock.realWrite]
    rfl
  case imWrite =>
    simp only [step, nextFftRamWrImEn, clock.pstate, clock.extn]
    rfl
  case load =>
    simp only [step, nextDivLoad, clock.pstate, clock.vec]
    rfl
  case cntr =>
    rw [cntr]
    rfl
  case pulse =>
    have now : divResRdyPulseC (step state inputs) =
        ((step state inputs).div.cntr == 0 && !DividerRad4.ready state.div) := rfl
    rw [now, cntr]
    rfl

section Step

variable {e : Nat} {state : State}

theorem AbsClock.ready (clock : AbsClock e state) :
    DividerRad4.ready state.div = decide (e % 25 = 24 ∨ e % 25 ≤ 7 ∧ 25 ≤ e) := by
  rw [DividerRad4.ready, DividerRad4.cntrZero, clock.cntr,
    absCntr_zero _ _ (Nat.mod_lt _ (by decide)), decide_eq_decide, decide_eq_false_iff_not,
    Nat.not_lt]

theorem AbsClock.bit (clock : AbsClock e state) {k : Nat} (place : k < 7) :
    state.pstVecF.getLsbD k = decide (e % 25 = k) := by
  rw [clock.vec, absVec_bit _ (Nat.mod_lt _ (by decide)) k place]

theorem AbsClock.extn_one (clock : AbsClock e state) :
    state.pstVecExtnF.getLsbD 1 = decide (25 ≤ e ∧ e % 25 = 1) := by
  rw [clock.extn, absExtn_one _ _ (Nat.mod_lt _ (by decide)), decide_eq_decide,
    decide_eq_false_iff_not, Nat.not_lt]

theorem AbsClock.ovr (clock : AbsClock e state) (inside : e < absClocks) :
    absOvrC state = decide (e = absClocks - 1) := by
  rw [absClocks, absPeriod] at *
  rw [absOvrC, clock.wrAddr, clock.realWrite, Bool.eq_iff_iff, Bool.and_eq_true, beq_iff_eq,
    decide_eq_true_eq, decide_eq_true_eq]
  constructor
  · rintro ⟨last, late, phase⟩
    have values := congrArg BitVec.toNat last
    rw [BitVec.toNat_ofNat, BitVec.toNat_allOnes] at values
    omega
  · intro last
    refine ⟨?_, by omega, by omega⟩
    rw [last]
    rfl

theorem abs_cntr_next (clock : AbsClock e state) (inputs : Inputs) :
    (step state inputs).div.cntr =
      if e % 25 = 7 then 16
      else if state.div.cntr == 0 then state.div.cntr else state.div.cntr - 1 := by
  change (DividerRad4.step state.div _).cntr = _
  by_cases load : e % 25 = 7
  · rw [if_pos load]
    refine DividerRad4.cntr_load ?_
    rw [clock.load, decide_eq_true load]
  · rw [if_neg load]
    refine DividerRad4.cntr_step ?_
    rw [clock.load, decide_eq_false load]

theorem abs_next (e : Nat) :
    e % 25 = 24 ∧ (e + 1) % 25 = 0 ∧ decide (e + 1 < 25) = false ∨
      e % 25 < 24 ∧ (e + 1) % 25 = e % 25 + 1 ∧ decide (e + 1 < 25) = decide (e < 25) := by
  by_cases turn : e % 25 = 24
  · exact .inl ⟨turn, by omega, decide_eq_false (by omega)⟩
  · exact .inr ⟨by omega, by omega, decide_eq_decide.mpr (by omega)⟩

theorem abs_step (clock : AbsClock e state) (inside : e + 1 < absClocks) (inputs : Inputs) :
    AbsClock (e + 1) (step state inputs) := by
  have more : absOvrC state = false := by
    rw [clock.ovr (by omega), decide_eq_false_iff_not]
    omega
  have cntr : (step state inputs).div.cntr = absCntr (decide (e + 1 < 25)) ((e + 1) % 25) := by
    rw [abs_cntr_next clock, clock.cntr]
    rcases abs_next e with ⟨turn, start, later⟩ | ⟨within, next, same⟩
    · rw [turn, start, later]
      cases decide (e < 25) <;> rfl
    · rw [absCntr_step _ _ within, next, same]
  constructor
  case pstate =>
    simp only [step, nextPstate, clock.pstate, more, Bool.false_eq_true, reduceIte]
  case vec =>
    simp only [step, nextPstVec, clock.pstate]
    change absShift state.pstVecF (divResRdyPulseC state) = _
    rw [clock.vec, clock.pulse]
    rcases abs_next e with ⟨turn, start, _⟩ | ⟨within, next, _⟩
    · rw [turn, start, decide_eq_true rfl, (abs_turn true).1]
    · rw [next, decide_eq_false (Nat.ne_of_lt within), (abs_inside true _ within).1]
  case extn =>
    simp only [step, nextPstVecExtn, clock.pstate]
    change absExtnShift state.pstVecExtnF (divResRdyPulseC state) = _
    rw [clock.extn, clock.pulse]
    rcases abs_next e with ⟨turn, start, later⟩ | ⟨within, next, same⟩
    · rw [turn, start, later, decide_eq_true rfl, (abs_turn _).2]
    · rw [next, same, decide_eq_false (Nat.ne_of_lt within), (abs_inside _ _ within).2]
  case rdAddr =>
    simp only [step, nextFftRamRdAddr, clock.pstate, clock.rdAddr, clock.pulse]
    by_cases turn : e % 25 = 24
    · rw [decide_eq_true turn, show (e + 1) / 25 = e / 25 + 1 by omega]
      exact (BitVec.ofNat_add _ 1).symm
    · rw [decide_eq_false turn, show (e + 1) / 25 = e / 25 by omega]
      exact BitVec.add_zero _
  case wrAddr =>
    simp only [step, nextFftRamWrAddr, clock.pstate, clock.wrAddr, clock.realWrite]
    by_cases write : 25 ≤ e ∧ e % 25 = 2
    · rw [decide_eq_true write, show (e + 1 + 22) / 25 - 1 = (e + 22) / 25 - 1 + 1 by omega]
      exact (BitVec.ofNat_add _ 1).symm
    · rw [decide_eq_false write, show (e + 1 + 22) / 25 - 1 = (e + 22) / 25 - 1 by omega]
      exact BitVec.add_zero _
  case realWrite =>
    simp only [step, nextFftRamWrRealEn, clock.pstate, clock.extn_one, decide_eq_decide]
    omega
  case imWrite =>
    simp only [step, nextFftRamWrImEn, clock.pstate, clock.imWrite]
  case load =>
    simp only [step, nextDivLoad, clock.pstate, clock.bit (k := 6) (by decide), decide_eq_decide]
    omega
  case cntr => exact cntr
  case pulse =>
    have now : divResRdyPulseC (step state inputs) =
        ((step state inputs).div.cntr == 0 && !DividerRad4.ready state.div) := rfl
    rw [now, clock.ready, cntr, absCntr_zero _ _ (Nat.mod_lt _ (by decide)),
      ← decide_not, ← Bool.decide_and, decide_eq_decide, decide_eq_false_iff_not]
    omega

theorem abs_end (clock : AbsClock (absClocks - 1) state) (inputs : Inputs) :
    (step state inputs).fsmPstate = .idle := by
  have ended : absOvrC state = true := clock.ovr (by decide)
  simp only [step, nextPstate, clock.pstate, ended, reduceIte]

end Step

end Synesthesia.FgyrusFsm
