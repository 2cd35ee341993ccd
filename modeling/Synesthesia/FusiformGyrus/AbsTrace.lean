/-
The words of the ABS pass.

Word `i` is read from clock `25 * i` on.  Its real part is made positive and, when
its upper half is empty, scaled up in clock `25 * i + 6`; the quotient by the
cosine is there in clock `25 * i + 24`, is scaled up in the other case, and leaves
for the result RAM in clock `25 * i + 28`.
-/

import Synesthesia.FusiformGyrus.CordicTrace

namespace Synesthesia.FftEngine

open Synesthesia.Rtl
open Synesthesia.FgyrusFsm

/-- A trace that starts with the ABS pass. -/
structure AbsTrace (states : Nat → State) (inputs : Nat → Inputs) (code : BitVec 4) : Prop where
  runs : Runs states inputs
  clock : AbsClock 0 (states 0).fsm
  left : ∀ e < absClocks, CacheLeft (inputs e).lb2ram
  postNorm : ∀ e < absClocks, (inputs e).fgyrusPostNormId = code

section Pipeline

variable {states : Nat → State} {inputs : Nat → Inputs} {t : Nat}

theorem Runs.preDiv (runs : Runs states inputs) (t : Nat) :
    (states (t + 1)).fsm.preDivRealDataF =
      if (states t).fsm.normPreDivDataF then
        (states t).fsm.preDivRealDataF.extractLsb' 0 16 ++ (0 : BitVec 16)
      else if (fftRamRdData (states t)).real.getLsbD 31 then (states t).fsm.sampleRealInvF
      else (fftRamRdData (states t)).real := by
  rw [runs.fsm t]
  rfl

theorem Runs.normPre (runs : Runs states inputs) (t : Nat) :
    (states (t + 1)).fsm.normPreDivDataF =
      ((states t).fsm.pstVecF.getLsbD 4 &&
        (states t).fsm.preDivRealDataF.extractLsb' 16 16 == 0) := by
  rw [runs.fsm t]
  rfl

theorem Runs.normPost (runs : Runs states inputs) (abs : (states t).fsm.fsmPstate = .abs) :
    (states (t + 1)).fsm.normPostDivDataF =
      if (states t).fsm.pstVecExtnF.getLsbD 1 then false
      else if (states t).fsm.pstVecF.getLsbD 5 then !(states t).fsm.normPreDivDataF
      else (states t).fsm.normPostDivDataF := by
  rw [runs.fsm t]
  simp only [FgyrusFsm.step, nextNormPostDivData, abs, bne_self_eq_false, Bool.or_false]

theorem Runs.absOperands (runs : Runs states inputs) (abs : (states t).fsm.fsmPstate = .abs) :
    (states (t + 1)).fsm.sampleRealForDivF = (fftRamRdData (states t)).im ∧
      (states (t + 1)).fsm.sampleImForDivF = (states t).fsm.preDivRealDataF := by
  rw [runs.fsm t]
  simp only [FgyrusFsm.step, nextSampleRealForDiv, nextSampleImForDiv, abs, fsmInputs, and_self]

theorem Runs.absVal (runs : Runs states inputs) (t : Nat) :
    (states (t + 2)).fsm.absValF =
      if (states t).fsm.normPostDivDataF && divResRdyPulseC (states t).fsm then
        (states (t + 1)).fsm.divResQF.extractLsb' 0 16 ++ (0 : BitVec 16)
      else (states (t + 1)).fsm.divResQF := by
  have flag : (states (t + 1)).fsm.normPostDivData1d =
      ((states t).fsm.normPostDivDataF && divResRdyPulseC (states t).fsm) := by
    rw [runs.fsm t]
    rfl
  rw [runs.fsm (t + 1), ← flag]
  rfl

end Pipeline

section Abs

variable {states : Nat → State} {inputs : Nat → Inputs} {code : BitVec 4}

theorem AbsTrace.clocks (trace : AbsTrace states inputs code) :
    ∀ e < absClocks, AbsClock e (states e).fsm := by
  intro e
  induction e with
  | zero => exact fun _ => trace.clock
  | succ e ih =>
      intro inside
      rw [trace.runs.fsm e]
      exact abs_step (ih (by omega)) inside _

/-! ### The cache during the pass -/

theorem AbsTrace.im_keeps (trace : AbsTrace states inputs code) :
    ∀ e ≤ absClocks, (states e).fftImRam.memory = (states 0).fftImRam.memory := by
  intro e
  induction e with
  | zero => exact fun _ => rfl
  | succ e ih =>
      intro inside
      rw [trace.runs.im_write (trace.left e inside), (trace.clocks e inside).imWrite, store_false]
      exact ih (by omega)

/-- The clock in which word `i` is on the write port of the cache. -/
def absSlot (i : Nat) : Nat := 25 * i + 27

theorem AbsTrace.slot (trace : AbsTrace states inputs code) {i : Nat} (small : i < 128) :
    (states (absSlot i)).fsm.fftRamWrRealEnOh = true ∧
      (states (absSlot i)).fsm.fftRamWrAddrOd = BitVec.ofNat 7 i := by
  have clock := trace.clocks (absSlot i) (by rw [absClocks, absPeriod, absSlot]; omega)
  constructor
  · rw [clock.realWrite, decide_eq_true_eq, absSlot]
    omega
  · rw [clock.wrAddr, absSlot]
    congr 1
    omega

theorem AbsTrace.noSlot (trace : AbsTrace states inputs code) {e : Nat} (inside : e < absClocks)
    (free : ∀ i < 128, e ≠ absSlot i) : (states e).fsm.fftRamWrRealEnOh = false := by
  rw [(trace.clocks e inside).realWrite, decide_eq_false_iff_not]
  rintro ⟨later, phase⟩
  rw [absClocks, absPeriod] at inside
  refine free (e / 25 - 1) (by omega) ?_
  rw [absSlot]
  omega

theorem AbsTrace.real_filled (trace : AbsTrace states inputs code) :
    Filled (fun e => (states e).fftRealRam.memory) absSlot
      (fun i => (states (absSlot i)).fsm.fftRamWrRealDataOd) absClocks := by
  constructor
  case apart =>
    intro i j same
    rw [absSlot, absSlot] at same
    omega
  case stored =>
    intro i small inside
    obtain ⟨write, target⟩ := trace.slot small
    rw [trace.runs.real_write (trace.left _ inside), write, target]
  case kept =>
    intro e inside free
    rw [trace.runs.real_write (trace.left _ inside), trace.noSlot inside free, store_false]

theorem AbsTrace.read (trace : AbsTrace states inputs code) {e : Nat}
    (inside : e < 128 * absPeriod) :
    fftRamRdData (states (e + 2)) = cache (states 0) (BitVec.ofNat 7 (e / 25)) := by
  rw [absPeriod] at inside
  have before : e < absClocks := by
    rw [absClocks, absPeriod]
    omega
  have clock := trace.clocks e before
  have left := trace.left e before
  have apart : (states e).fsm.fftRamWrRealEnOh = true →
      (states e).fsm.fftRamRdAddrOd ≠ (states e).fsm.fftRamWrAddrOd := by
    rw [clock.realWrite, decide_eq_true_eq, clock.rdAddr, clock.wrAddr]
    rintro ⟨later, phase⟩ same
    have values := congrArg BitVec.toNat same
    rw [BitVec.toNat_ofNat, BitVec.toNat_ofNat] at values
    omega
  have real := trace.runs.real_read left apart
  have im := trace.runs.im_read left fun write => by
    rw [clock.imWrite] at write
    cases write
  have word := trace.real_filled.at (states e).fsm.fftRamRdAddrOd e (by omega)
  rw [clock.rdAddr] at word real im
  rw [if_neg (by rw [absSlot, BitVec.toNat_ofNat]; omega)] at word
  rw [trace.im_keeps e (by omega)] at im
  rw [fftRamRdData, real, im]
  exact congrArg (fun real => ButterflyWing.Complex.mk real _) word

/-! ### One word -/

section Word

variable {i : Nat}

theorem AbsTrace.inside (small : i < 128) {k : Nat} (window : k ≤ 27) :
    25 * i + k < absClocks := by
  rw [absClocks, absPeriod]
  omega

/-- Word `i` is on the read port from clock `25 * i + 2` to clock `25 * i + 26`. -/
theorem AbsTrace.word (trace : AbsTrace states inputs code) (small : i < 128) {k : Nat}
    (window : 2 ≤ k ∧ k ≤ 26) :
    fftRamRdData (states (25 * i + k)) = cache (states 0) (BitVec.ofNat 7 i) := by
  obtain ⟨j, rfl⟩ : ∃ j, k = j + 2 := ⟨k - 2, by omega⟩
  rw [← Nat.add_assoc, trace.read (by rw [absPeriod]; omega),
    show (25 * i + j) / 25 = i by omega]

theorem AbsTrace.bit (trace : AbsTrace states inputs code) (small : i < 128) {k p : Nat}
    (window : k < 25) (place : p < 7) :
    (states (25 * i + k)).fsm.pstVecF.getLsbD p = decide (k = p) := by
  rw [(trace.clocks _ (AbsTrace.inside small (by omega))).bit place, decide_eq_decide]
  omega

theorem AbsTrace.plain (trace : AbsTrace states inputs code) (small : i < 128) {k : Nat}
    (window : 3 ≤ k ∧ k ≤ 26) (free : (states (25 * i + k)).fsm.normPreDivDataF = false) :
    (states (25 * i + k + 1)).fsm.preDivRealDataF =
      (cache (states 0) (BitVec.ofNat 7 i)).real.abs := by
  obtain ⟨j, rfl⟩ : ∃ j, k = j + 1 := ⟨k - 1, by omega⟩
  rw [trace.runs.preDiv, free, trace.word small (by omega), ← Nat.add_assoc, trace.runs.realInv,
    trace.word small (by omega)]
  exact Magnitude.abs_of_inv _

theorem AbsTrace.normPre (trace : AbsTrace states inputs code) (small : i < 128) {k : Nat}
    (window : k < 25) (other : k ≠ 4) :
    (states (25 * i + k + 1)).fsm.normPreDivDataF = false := by
  rw [trace.runs.normPre, trace.bit small window (by decide), decide_eq_false other,
    Bool.false_and]

theorem AbsTrace.marked (trace : AbsTrace states inputs code) (small : i < 128) :
    (states (25 * i + 5)).fsm.normPreDivDataF =
      decide (Magnitude.modulus (cache (states 0) (BitVec.ofNat 7 i)).real < 2 ^ 16) := by
  have positive := trace.plain small (k := 3) (by omega)
    (trace.normPre small (k := 2) (by omega) (by omega))
  rw [trace.runs.normPre (25 * i + 4), trace.bit small (by omega) (by decide), positive,
    Magnitude.upper_empty]
  rfl

theorem AbsTrace.numerator (trace : AbsTrace states inputs code) (small : i < 128) :
    (states (25 * i + 6)).fsm.preDivRealDataF.toNat =
      if Magnitude.modulus (cache (states 0) (BitVec.ofNat 7 i)).real < 2 ^ 16 then
        Magnitude.modulus (cache (states 0) (BitVec.ofNat 7 i)).real * 2 ^ 16
      else Magnitude.modulus (cache (states 0) (BitVec.ofNat 7 i)).real := by
  have marked := trace.marked small
  have positive := trace.plain small (k := 4) (by omega)
    (trace.normPre small (k := 3) (by omega) (by omega))
  by_cases below : Magnitude.modulus (cache (states 0) (BitVec.ofNat 7 i)).real < 2 ^ 16
  · rw [if_pos below, trace.runs.preDiv (25 * i + 5), marked, decide_eq_true below, if_pos rfl,
      positive, Magnitude.lower_up_toNat]
    exact congrArg (· * 2 ^ 16) (Nat.mod_eq_of_lt below)
  · rw [decide_eq_false below] at marked
    rw [if_neg below, trace.plain small (k := 5) (by omega) marked]
    rfl

theorem AbsTrace.quotient (trace : AbsTrace states inputs code) (small : i < 128)
    (nonzero : 0 < (cache (states 0) (BitVec.ofNat 7 i)).im.toNat) :
    (states (25 * i + 25)).fsm.divResQF.toNat =
      (states (25 * i + 6)).fsm.preDivRealDataF.toNat /
        (cache (states 0) (BitVec.ofNat 7 i)).im.toNat := by
  have load : ∀ k ≤ 24, (states (25 * i + k)).fsm.divLoadF = decide (k = 7) := by
    intro k window
    rw [(trace.clocks _ (AbsTrace.inside small (by omega))).load, decide_eq_decide]
    omega
  have alone : ∀ k < 16, (states (25 * i + 7 + 1 + k)).fsm.divLoadF = false := by
    intro k window
    rw [show 25 * i + 7 + 1 + k = 25 * i + (8 + k) by omega, load _ (by omega),
      decide_eq_false (by omega)]
  obtain ⟨real, im⟩ := trace.runs.absOperands
    (trace.clocks (25 * i + 6) (AbsTrace.inside small (by omega))).pstate
  rw [trace.word small (by omega)] at real
  have divided := trace.runs.divides (load 7 (by omega)) alone (by
    rw [real]
    exact nonzero)
  rw [trace.runs.divResQ (25 * i + 24), divided, real, im]

theorem AbsTrace.normPost (trace : AbsTrace states inputs code) (small : i < 128) :
    (states (25 * i + 24)).fsm.normPostDivDataF =
      !decide (Magnitude.modulus (cache (states 0) (BitVec.ofNat 7 i)).real < 2 ^ 16) := by
  have extn : ∀ k, 2 ≤ k → k ≤ 24 → (states (25 * i + k)).fsm.pstVecExtnF.getLsbD 1 = false := by
    intro k later window
    rw [(trace.clocks _ (AbsTrace.inside small (by omega))).extn_one, decide_eq_false_iff_not]
    omega
  have taken : (states (25 * i + 6)).fsm.normPostDivDataF =
      !(states (25 * i + 5)).fsm.normPreDivDataF := by
    rw [trace.runs.normPost (trace.clocks (25 * i + 5) (AbsTrace.inside small (by omega))).pstate,
      extn 5 (by omega) (by omega), trace.bit small (by omega) (by decide), decide_eq_true rfl]
    rfl
  rw [← trace.marked small, ← taken]
  refine holds_over (fun t => (states t).fsm.normPostDivDataF) (t := 25 * i + 6)
    (fun k window => ?_)
    18 (Nat.le_refl _)
  rw [show 25 * i + 6 + k = 25 * i + (6 + k) by omega,
    trace.runs.normPost (trace.clocks _ (AbsTrace.inside small (by omega))).pstate,
    extn (6 + k) (by omega) (by omega), trace.bit small (by omega) (by decide),
    decide_eq_false (by omega)]
  rfl

theorem AbsTrace.absVal (trace : AbsTrace states inputs code) (small : i < 128)
    (nonzero : 0 < (cache (states 0) (BitVec.ofNat 7 i)).im.toNat) :
    (states (absSlot i)).fsm.fftRamWrRealDataOd.toNat =
      Magnitude.scaledQuotient (Magnitude.modulus (cache (states 0) (BitVec.ofNat 7 i)).real)
        (cache (states 0) (BitVec.ofNat 7 i)).im.toNat := by
  have data : (states (absSlot i)).fsm.fftRamWrRealDataOd = (states (25 * i + 26)).fsm.absValF := by
    have clock := trace.clocks (25 * i + 26) (AbsTrace.inside small (by omega))
    rw [absSlot, trace.runs.fsm (25 * i + 26)]
    simp only [FgyrusFsm.step, nextFftRamWrRealData, clock.pstate]
  have pulse : divResRdyPulseC (states (25 * i + 24)).fsm = true := by
    rw [(trace.clocks _ (AbsTrace.inside small (by omega))).pulse, decide_eq_true_eq]
    omega
  have quotient := trace.quotient small nonzero
  rw [trace.numerator small] at quotient
  rw [data, trace.runs.absVal (25 * i + 24), trace.normPost small, pulse, Bool.and_true,
    Magnitude.scaledQuotient]
  by_cases below : Magnitude.modulus (cache (states 0) (BitVec.ofNat 7 i)).real < 2 ^ 16
  · rw [if_pos below] at quotient ⊢
    rw [decide_eq_true below]
    exact quotient
  · rw [if_neg below] at quotient ⊢
    rw [decide_eq_false below, Bool.not_false, if_pos rfl, Magnitude.lower_up_toNat, quotient]

end Word

end Abs

end Synesthesia.FftEngine
