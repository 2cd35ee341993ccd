/-
The magnitudes of a frame in the result RAM.

The passes start with the divider busy: the shift register of the stages loads it
once in every butterfly, for the last time two clocks before `CORDIC_S`, so that
the first division of the pass comes before that one could end.
-/

import Synesthesia.FusiformGyrus.AbsTrace
import Synesthesia.FusiformGyrus.FgyrusIrq

namespace Synesthesia.FgyrusFsm

/-- The extension of the shift register is clear until the passes use it. -/
def ExtnClear (state : State) : Prop :=
  state.fsmPstate = .decimate ∨ state.fsmPstate = .fft ∨ state.fsmPstate = .fftWait →
    state.pstVecExtnF = 0

theorem nextPstate_cordic {state : State} (inputs : Inputs)
    (cordic : state.fsmPstate = .cordic) :
    nextPstate state inputs = .abs ∨ nextPstate state inputs = .cordic := by
  rw [nextPstate, cordic]
  cases cordicOvrC state with
  | true => exact .inl rfl
  | false => exact .inr rfl

theorem nextPstate_abs {state : State} (inputs : Inputs)
    (abs : state.fsmPstate = .abs) :
    nextPstate state inputs = .idle ∨ nextPstate state inputs = .abs := by
  rw [nextPstate, abs]
  cases absOvrC state with
  | true => exact .inl rfl
  | false => exact .inr rfl

theorem extnClear_step {state : State} (clear : ExtnClear state)
    (inputs : Inputs) : ExtnClear (step state inputs) := by
  intro later
  change nextPstate state inputs = _ ∨ nextPstate state inputs = _ ∨
    nextPstate state inputs = _ at later
  change nextPstVecExtn state = 0
  rw [nextPstVecExtn]
  cases pstate : state.fsmPstate with
  | idle => rfl
  | decimate => exact clear (.inl pstate)
  | fft => exact clear (.inr (.inl pstate))
  | fftWait => exact clear (.inr (.inr pstate))
  | cordic =>
      rcases nextPstate_cordic inputs pstate with next | next <;> rw [next] at later
      · exact absurd later (by decide)
      · exact absurd later (by decide)
  | abs =>
      rcases nextPstate_abs inputs pstate with next | next <;> rw [next] at later
      · exact absurd later (by decide)
      · exact absurd later (by decide)

end Synesthesia.FgyrusFsm

namespace Synesthesia.FftEngine

open Synesthesia.Rtl
open Synesthesia.FgyrusFsm
open Synesthesia.FftSchedule

/-! ### Entry -/

section Entry

variable {states : Nat → State} {inputs : Nat → Inputs}

theorem Runs.extnClear (runs : Runs states inputs) (start : ExtnClear (states 0).fsm) :
    ∀ t, ExtnClear (states t).fsm := by
  intro t
  induction t with
  | zero => exact start
  | succ t ih =>
      rw [runs.fsm t]
      exact extnClear_step ih _

theorem Runs.divLoad (runs : Runs states inputs) {t : Nat}
    (other : (states t).fsm.fsmPstate ≠ .cordic) :
    (states (t + 1)).fsm.divLoadF = (states t).fsm.pstVecF.getLsbD 6 := by
  rw [runs.fsm t]
  simp only [FgyrusFsm.step, nextDivLoad]
  cases pstate : (states t).fsm.fsmPstate with
  | cordic => exact absurd pstate other
  | idle | decimate | fft | fftWait | abs => rfl

theorem Paced.entry (paced : Paced states inputs)
    (clear : ∀ t, ExtnClear (states t).fsm) : CordicClock 0 (states stageClocks).fsm := by
  have waiting := paced.waiting 6 (by decide)
  have earlier := paced.waiting 5 (by decide)
  have last := paced.lastWrite
  have result : (states (7 * wings + 7)).wing.dataRdyOh = false := paced.done
  have loaded : (states (7 * wings + 7)).fsm.divLoadF = true := by
    rw [paced.runs.divLoad (t := 7 * wings + 6) (by rw [earlier.pstate]; decide), earlier.phase]
    decide
  have cntr : (states stageClocks).fsm.div.cntr = 16 := by
    rw [stageClocks, paced.runs.fsm (7 * wings + 7)]
    exact DividerRad4.cntr_load loaded
  have next := paced.runs.fsm (7 * wings + 7)
  change (states stageClocks).fsm = _ at next
  have write := waiting.computing.wrEn paced.runs
  change (states stageClocks).fsm.fftRamWrRealEnOh = _ ∧
    (states stageClocks).fsm.fftRamWrImEnOh = _ at write
  constructor
  case pstate => exact paced.cordic
  case vec =>
    rw [next]
    simp only [FgyrusFsm.step, nextPstVec, waiting.pstate, last, reduceIte]
    rfl
  case extn =>
    rw [next]
    simp only [FgyrusFsm.step, nextPstVecExtn, waiting.pstate]
    exact clear _ (.inr (.inr waiting.pstate))
  case rdAddr =>
    rw [next]
    simp only [FgyrusFsm.step, nextFftRamRdAddr, waiting.pstate]
    rfl
  case wrAddr =>
    rw [next]
    simp only [FgyrusFsm.step, nextFftRamWrAddr, waiting.pstate, last, reduceIte]
    rfl
  case realWrite =>
    rw [write.1]
    exact result
  case imWrite =>
    rw [write.2]
    exact result
  case load =>
    rw [stageClocks, paced.runs.divLoad (by rw [waiting.pstate]; decide), waiting.phase]
    decide
  case cntr =>
    rw [cntr]
    rfl
  case pulse =>
    rw [divResRdyPulseC, DividerRad4.ready, DividerRad4.cntrZero, cntr]
    rfl

end Entry

/-! ### Result port -/

def resultWrite (state : State) : List (BitVec 7 × BitVec 32) :=
  strobed state.fsm.fftResWrEnOh (state.fsm.fftResWrAddrOd, state.fsm.fftResWrDataOd)

def resultRam (contents : BitVec 7 → BitVec 32) (states : Nat → State) :
    Nat → BitVec 7 → BitVec 32
  | 0 => contents
  | t + 1 =>
      store (resultRam contents states t) (states t).fsm.fftResWrEnOh (states t).fsm.fftResWrAddrOd
        (states t).fsm.fftResWrDataOd

theorem resultRam_shift (contents : BitVec 7 → BitVec 32) (states : Nat → State) (t : Nat) :
    ∀ n, resultRam contents states (t + n) =
      resultRam (resultRam contents states t) (fun i => states (t + i)) n := by
  intro n
  induction n with
  | zero => rfl
  | succ n ih =>
      rw [← Nat.add_assoc, resultRam, resultRam, ih]

section Result

variable {states : Nat → State} {inputs : Nat → Inputs} {t : Nat}

theorem Runs.resultIdle (runs : Runs states inputs) (other : (states t).fsm.fsmPstate ≠ .abs) :
    (states (t + 1)).fsm.fftResWrEnOh = false := by
  rw [runs.fsm t]
  exact if_neg other

theorem Runs.resultPort (runs : Runs states inputs) (abs : (states t).fsm.fsmPstate = .abs) :
    (states (t + 1)).fsm.fftResWrEnOh = (states t).fsm.fftRamWrRealEnOh ∧
      (states (t + 1)).fsm.fftResWrAddrOd = (states t).fsm.fftRamWrAddrOd ∧
      (states (t + 1)).fsm.fftResWrDataOd =
        postNorm (inputs t).fgyrusPostNormId (states t).fsm.fftRamWrRealDataOd := by
  rw [runs.fsm t]
  simp only [FgyrusFsm.step, abs, reduceIte, fsmInputs, and_self]

end Result

section Passes

variable {states : Nat → State} {inputs : Nat → Inputs} {code : BitVec 4}

/-- The clock in which result `i` is on the result port. -/
def resultSlot (i : Nat) : Nat := absSlot i + 1

structure ResultAt (states : Nat → State) (results : Nat → BitVec 32) (i : Nat) : Prop where
  wrEn : (states (resultSlot i)).fsm.fftResWrEnOh = true
  wrAddr : (states (resultSlot i)).fsm.fftResWrAddrOd = BitVec.ofNat 7 i
  wrData : (states (resultSlot i)).fsm.fftResWrDataOd = results i

theorem ResultAt.write {results : Nat → BitVec 32} {i : Nat} (port : ResultAt states results i) :
    resultWrite (states (resultSlot i)) = [(BitVec.ofNat 7 i, results i)] := by
  rw [resultWrite, port.wrEn, port.wrAddr, port.wrData]
  rfl

theorem AbsTrace.resultAt (trace : AbsTrace states inputs code) {results : Nat → BitVec 32}
    {i : Nat} (small : i < 128)
    (word : (results i).toNat =
      (states (absSlot i)).fsm.fftRamWrRealDataOd.toNat >>> Magnitude.shift code) :
    ResultAt states results i := by
  have inside : absSlot i < absClocks := by
    rw [absClocks, absPeriod, absSlot]
    omega
  obtain ⟨write, target⟩ := trace.slot small
  obtain ⟨wrEn, wrAddr, wrData⟩ := trace.runs.resultPort (trace.clocks _ inside).pstate
  constructor
  case wrEn => exact wrEn.trans write
  case wrAddr => exact wrAddr.trans target
  case wrData =>
    apply BitVec.eq_of_toNat_eq
    rw [word, ← Magnitude.postNorm_toNat, ← trace.postNorm _ inside]
    exact congrArg BitVec.toNat wrData

theorem AbsTrace.resultQuiet (trace : AbsTrace states inputs code)
    (early : (states 0).fsm.fftResWrEnOh = false) {e : Nat} (inside : e ≤ absClocks)
    (free : ∀ i < 128, e ≠ resultSlot i) : (states e).fsm.fftResWrEnOh = false := by
  cases e with
  | zero => exact early
  | succ e =>
      obtain ⟨wrEn, _⟩ := trace.runs.resultPort (trace.clocks e inside).pstate
      rw [wrEn]
      refine trace.noSlot inside fun i small same => free i small ?_
      rw [resultSlot, same]

theorem AbsTrace.resultWrites (trace : AbsTrace states inputs code)
    (early : (states 0).fsm.fftResWrEnOh = false) {results : Nat → BitVec 32}
    (words : ∀ i < 128, ResultAt states results i) :
    ∀ e ≤ absClocks, collect (fun k => resultWrite (states k)) (e + 1) =
      (List.range ((e + 22) / 25 - 1)).map fun i => (BitVec.ofNat 7 i, results i) := by
  intro e
  induction e with
  | zero =>
      intro _
      rw [collect_succ, resultWrite, early]
      rfl
  | succ e ih =>
      intro inside
      rw [collect_succ, ih (by omega)]
      by_cases slot : ∃ i, i < 128 ∧ e + 1 = resultSlot i
      · obtain ⟨i, small, same⟩ := slot
        rw [same, (words i small).write]
        rw [resultSlot, absSlot] at same ⊢
        rw [show (25 * i + 27 + 1 + 22) / 25 - 1 = i + 1 by omega,
          show (e + 22) / 25 - 1 = i by omega, List.range_succ, List.map_append]
        rfl
      · have quiet := trace.resultQuiet early inside fun i small same => slot ⟨i, small, same⟩
        rw [absClocks, absPeriod] at inside
        have same : (e + 1 + 22) / 25 - 1 = (e + 22) / 25 - 1 := by
          by_contra other
          refine slot ⟨(e + 1) / 25 - 1, by omega, ?_⟩
          rw [resultSlot, absSlot]
          omega
        rw [resultWrite, quiet, same]
        exact List.append_nil _

theorem AbsTrace.result_filled (trace : AbsTrace states inputs code)
    (early : (states 0).fsm.fftResWrEnOh = false) {results : Nat → BitVec 32}
    (words : ∀ i < 128, ResultAt states results i) (contents : BitVec 7 → BitVec 32) :
    Filled (resultRam contents states) resultSlot results (absClocks + 1) := by
  constructor
  case apart =>
    intro i j same
    rw [resultSlot, resultSlot, absSlot, absSlot] at same
    omega
  case stored =>
    intro i small _
    have port := words i small
    rw [resultRam, port.wrEn, port.wrAddr, port.wrData]
  case kept =>
    intro e inside free
    rw [resultRam, trace.resultQuiet early (by omega) free, store_false]

end Passes

/-! ### Both passes -/

/-- Clocks from the entry to `CORDIC_S` to the return to `IDLE_S`. -/
def passClocks : Nat := cordicClocks + absClocks

section Both

variable {states : Nat → State} {inputs : Nat → Inputs} {table : BitVec 8 → BitVec 16}
  {code : BitVec 4}

theorem CordicTrace.absTrace (trace : CordicTrace states inputs table)
    (left : ∀ e < absClocks, CacheLeft (inputs (cordicClocks + e)).lb2ram)
    (postNorm : ∀ e < absClocks, (inputs (cordicClocks + e)).fgyrusPostNormId = code) :
    AbsTrace (fun e => states (cordicClocks + e)) (fun e => inputs (cordicClocks + e)) code :=
  { runs := trace.runs.shift cordicClocks
    clock := trace.abs
    left := left
    postNorm := postNorm }

theorem CordicTrace.resultQuiet (trace : CordicTrace states inputs table)
    (early : (states 0).fsm.fftResWrEnOh = false) {c : Nat} (inside : c ≤ cordicClocks) :
    (states c).fsm.fftResWrEnOh = false := by
  cases c with
  | zero => exact early
  | succ c =>
      refine trace.runs.resultIdle ?_
      rw [(trace.clocks c inside).pstate]
      decide

/-- From the first clock of the passes on nothing but the results is written. -/
theorem CordicTrace.resultWrites (trace : CordicTrace states inputs table)
    (abs : AbsTrace (fun e => states (cordicClocks + e)) (fun e => inputs (cordicClocks + e)) code)
    (early : (states 0).fsm.fftResWrEnOh = false) {results : Nat → BitVec 32}
    (words : ∀ i < 128, ResultAt (fun e => states (cordicClocks + e)) results i) :
    collect (fun k => resultWrite (states k)) (passClocks + 1) =
      (List.range 128).map fun i => (BitVec.ofNat 7 i, results i) := by
  have first : collect (fun k => resultWrite (states k)) cordicClocks = [] := by
    refine collect_eq_nil fun k before => ?_
    rw [resultWrite, trace.resultQuiet early (Nat.le_of_lt before)]
    rfl
  rw [passClocks, Nat.add_assoc, collect_add, first, List.nil_append]
  exact abs.resultWrites (trace.resultQuiet early (Nat.le_refl _)) words absClocks (Nat.le_refl _)

theorem CordicTrace.resultRam_eq (trace : CordicTrace states inputs table)
    (abs : AbsTrace (fun e => states (cordicClocks + e)) (fun e => inputs (cordicClocks + e)) code)
    (early : (states 0).fsm.fftResWrEnOh = false) {results : Nat → BitVec 32}
    (words : ∀ i < 128, ResultAt (fun e => states (cordicClocks + e)) results i)
    (contents : BitVec 7 → BitVec 32) (address : BitVec 7) :
    resultRam contents states (passClocks + 1) address = results address.toNat := by
  have small := address.isLt
  rw [passClocks, Nat.add_assoc, resultRam_shift,
    (abs.result_filled (trace.resultQuiet early (Nat.le_refl _)) words _).at address _
      (Nat.le_refl _), if_pos]
  rw [resultSlot, absSlot, absClocks, absPeriod]
  omega

theorem CordicTrace.pstates (trace : CordicTrace states inputs table)
    (abs :
      AbsTrace (fun e => states (cordicClocks + e)) (fun e => inputs (cordicClocks + e)) code) :
    (∀ k < passClocks, (states k).fsm.fsmPstate ≠ .idle) ∧
      (states passClocks).fsm.fsmPstate = .idle := by
  constructor
  · intro k inside
    by_cases first : k < cordicClocks
    · rw [(trace.clocks k first).pstate]
      decide
    · obtain ⟨e, rfl⟩ := Nat.exists_eq_add_of_le (Nat.le_of_not_lt first)
      rw [(abs.clocks e (Nat.lt_of_add_lt_add_left inside)).pstate]
      decide
  · have last := abs.clocks (absClocks - 1) (by decide)
    have next := abs.runs.fsm (absClocks - 1)
    change (states passClocks).fsm = _ at next
    rw [next]
    exact abs_end last _

def results (table : BitVec 8 → BitVec 16) (code : BitVec 4) (state : State) (i : Nat) :
    BitVec 32 :=
  Magnitude.result table code (cache state (BitVec.ofNat 7 i))

theorem CordicTrace.results_at (trace : CordicTrace states inputs table)
    (abs : AbsTrace (fun e => states (cordicClocks + e)) (fun e => inputs (cordicClocks + e)) code)
    (nonzero : ∀ address, table address ≠ 0) {i : Nat} (small : i < 128) :
    ResultAt (fun e => states (cordicClocks + e)) (results table code (states 0)) i := by
  have word := trace.cache_eq (BitVec.ofNat 7 i)
  have cosine : (cache (states cordicClocks) (BitVec.ofNat 7 i)).im.toNat =
      Magnitude.cosine table (cache (states 0) (BitVec.ofNat 7 i)) := by
    rw [word]
    exact Magnitude.lower_toNat _
  have positive : 0 < Magnitude.cosine table (cache (states 0) (BitVec.ofNat 7 i)) := by
    apply Nat.pos_of_ne_zero
    intro zero
    exact nonzero _ (BitVec.eq_of_toNat_eq zero)
  refine abs.resultAt small ?_
  have value := abs.absVal small (by
    change 0 < (cache (states cordicClocks) (BitVec.ofNat 7 i)).im.toNat
    rw [cosine]
    exact positive)
  change _ = Magnitude.scaledQuotient
    (Magnitude.modulus (cache (states cordicClocks) (BitVec.ofNat 7 i)).real)
    (cache (states cordicClocks) (BitVec.ofNat 7 i)).im.toNat at value
  rw [cosine, word] at value
  rw [value, results, Magnitude.result_toNat]
  rfl

end Both

end Synesthesia.FftEngine

namespace Synesthesia.FgyrusTop

open Synesthesia.Rtl
open Synesthesia.FgyrusFsm (CordicClock AbsClock cordicClocks absClocks)
open Synesthesia.FftEngine
open Synesthesia.FgyrusLb (Lb2Ram)

/-- The local bus leaves the FFT caches and the CORDIC RAM alone. -/
structure RamsLeft (lb2ram : Lb2Ram) : Prop extends CacheLeft lb2ram where
  cordicWr : lb2ram.cordicRamWrEnOh = false
  cordicRd : lb2ram.cordicRamRdEnOh = false

theorem cordicRam_step {state : State} (inputs : Inputs) (left : RamsLeft state.lb.lb2ram) :
    (step state inputs).cordicRam.memory = state.cordicRam.memory ∧
      (step state inputs).cordicRam.latch =
        state.cordicRam.memory state.engine.fsm.cordicRamRdAddrOd := by
  constructor
  · simp only [step, DualPortRam.step, cordicPorts, left.cordicWr, store_false]
  · simp only [step, DualPortRam.step, cordicPorts, left.cordicWr, left.cordicRd,
      Bool.false_eq_true, false_and, reduceIte]

section Run

variable {sampleRealIsZero3d : Bool} {real im twiddle : BitVec 7 → BitVec 32}
  {cordic : BitVec 8 → BitVec 16} {inputs : Nat → Inputs}

/-- The passes begin with the control registers in their first state, whatever the
local bus did before. -/
theorem cordicClock_entry {t : Nat}
    (outside : (engineAt sampleRealIsZero3d real im twiddle cordic inputs t).fsm.fsmPstate ≠
      .cordic)
    (entered : (engineAt sampleRealIsZero3d real im twiddle cordic inputs (t + 1)).fsm.fsmPstate =
      .cordic) :
    CordicClock 0 (engineAt sampleRealIsZero3d real im twiddle cordic inputs (t + 1)).fsm := by
  have runs := engine_runs sampleRealIsZero3d real im twiddle cordic inputs
  have ready : FgyrusFsm.StageReady
      (engineAt sampleRealIsZero3d real im twiddle cordic inputs 0).fsm :=
    FgyrusFsm.stageReady_reset _
  obtain ⟨start, starts, same⟩ := runs.entry_of_frame rfl ready outside entered
  have clear := runs.extnClear fun _ => rfl
  have entry :=
    (runs.opening ready starts).paced.entry fun k => clear (start + 1 + (copyClocks + k))
  rw [← same]
  exact entry

theorem cordicTrace {t : Nat}
    (clock : CordicClock 0 (engineAt sampleRealIsZero3d real im twiddle cordic inputs t).fsm)
    (left : ∀ k < passClocks,
      RamsLeft (stateAt sampleRealIsZero3d real im twiddle cordic inputs (t + k)).lb.lb2ram) :
    CordicTrace (fun k => engineAt sampleRealIsZero3d real im twiddle cordic inputs (t + k))
      (fun k => engineInputsAt sampleRealIsZero3d real im twiddle cordic inputs (t + k))
      (stateAt sampleRealIsZero3d real im twiddle cordic inputs t).cordicRam.memory := by
  have passes : ∀ k < cordicClocks, k < passClocks := fun k inside =>
    Nat.lt_of_lt_of_le inside (Nat.le_add_right _ _)
  constructor
  case runs => exact (engine_runs sampleRealIsZero3d real im twiddle cordic inputs).shift t
  case clock => exact clock
  case left => exact fun k inside => (left k (passes k inside)).toCacheLeft
  case answers =>
    intro k _ inside
    have keeps : ∀ i < k,
        (stateAt sampleRealIsZero3d real im twiddle cordic inputs (t + i + 1)).cordicRam.memory =
          (stateAt sampleRealIsZero3d real im twiddle cordic inputs (t + i)).cordicRam.memory :=
      fun i before => (cordicRam_step _ (left i (passes i (by omega)))).1
    have table := holds_over
      (fun k => (stateAt sampleRealIsZero3d real im twiddle cordic inputs k).cordicRam.memory)
      keeps k (Nat.le_refl k)
    have answer := (cordicRam_step (inputs (t + k)) (left k (passes k inside))).2
    exact answer.trans (congrFun table _)

theorem passTraces {code : BitVec 4} {t : Nat}
    (outside : (engineAt sampleRealIsZero3d real im twiddle cordic inputs t).fsm.fsmPstate ≠
      .cordic)
    (entered : (engineAt sampleRealIsZero3d real im twiddle cordic inputs (t + 1)).fsm.fsmPstate =
      .cordic)
    (left : ∀ k < passClocks,
      RamsLeft (stateAt sampleRealIsZero3d real im twiddle cordic inputs (t + 1 + k)).lb.lb2ram)
    (constant : ∀ k < passClocks,
      (stateAt sampleRealIsZero3d real im twiddle cordic inputs (t + 1 + k)).lb.fgyrusPostNormOd =
        code) :
    let engine := engineAt sampleRealIsZero3d real im twiddle cordic inputs
    let engineInputs := engineInputsAt sampleRealIsZero3d real im twiddle cordic inputs
    CordicTrace (fun k => engine (t + 1 + k)) (fun k => engineInputs (t + 1 + k))
        (stateAt sampleRealIsZero3d real im twiddle cordic inputs (t + 1)).cordicRam.memory ∧
      AbsTrace (fun e => engine (t + 1 + (cordicClocks + e)))
        (fun e => engineInputs (t + 1 + (cordicClocks + e))) code ∧
      (engine (t + 1)).fsm.fftResWrEnOh = false := by
  intro engine engineInputs
  have runs : Runs engine engineInputs :=
    engine_runs sampleRealIsZero3d real im twiddle cordic inputs
  have trace := cordicTrace (cordicClock_entry outside entered) left
  refine ⟨trace, trace.absTrace
    (fun e inside => (left (cordicClocks + e) (Nat.add_lt_add_left inside _)).toCacheLeft)
    (fun e inside => constant (cordicClocks + e) (Nat.add_lt_add_left inside _)), ?_⟩
  refine runs.resultIdle fun abs => ?_
  rw [runs.fsm t] at entered
  rcases FgyrusFsm.nextPstate_abs _ abs with next | next
  · exact absurd (next.symm.trans entered) (by decide)
  · exact absurd (next.symm.trans entered) (by decide)

end Run

/-- From the entry to `CORDIC_S` the passes take a fixed number of clocks.  They write
the magnitudes of the words the cache held at the entry, in the order of their
addresses, and one clock after the return to `IDLE_S` the result RAM holds them all. -/
theorem passes_compute_magnitudes (sampleRealIsZero3d : Bool)
    (real im twiddle : BitVec 7 → BitVec 32) (cordic : BitVec 8 → BitVec 16)
    (inputs : Nat → Inputs) (contents : BitVec 7 → BitVec 32) (code : BitVec 4) (t : Nat)
    (outside : (engineAt sampleRealIsZero3d real im twiddle cordic inputs t).fsm.fsmPstate ≠
      .cordic)
    (entered : (engineAt sampleRealIsZero3d real im twiddle cordic inputs (t + 1)).fsm.fsmPstate =
      .cordic)
    (left : ∀ k < passClocks,
      RamsLeft (stateAt sampleRealIsZero3d real im twiddle cordic inputs (t + 1 + k)).lb.lb2ram)
    (nonzero : ∀ address,
      (stateAt sampleRealIsZero3d real im twiddle cordic inputs (t + 1)).cordicRam.memory address ≠
        0)
    (constant : ∀ k < passClocks,
      (stateAt sampleRealIsZero3d real im twiddle cordic inputs (t + 1 + k)).lb.fgyrusPostNormOd =
        code) :
    let engine := engineAt sampleRealIsZero3d real im twiddle cordic inputs
    let table := (stateAt sampleRealIsZero3d real im twiddle cordic inputs (t + 1)).cordicRam.memory
    (∀ k < passClocks, (engine (t + 1 + k)).fsm.fsmPstate ≠ .idle) ∧
      (engine (t + 1 + passClocks)).fsm.fsmPstate = .idle ∧
      collect (fun k => resultWrite (engine (t + 1 + k))) (passClocks + 1) =
        (List.range 128).map (fun i => (BitVec.ofNat 7 i,
          Magnitude.result table code (cache (engine (t + 1)) (BitVec.ofNat 7 i)))) ∧
      ∀ address, (resultRam contents engine (t + 1 + passClocks + 1) address).toNat =
        Magnitude.magnitude table (cache (engine (t + 1)) address) >>> Magnitude.shift code := by
  intro engine table
  obtain ⟨trace, abs, early⟩ := passTraces outside entered left constant
  have words := fun i (small : i < 128) => trace.results_at abs nonzero small
  obtain ⟨busy, idle⟩ := trace.pstates abs
  refine ⟨busy, idle, trace.resultWrites abs early words, fun address => ?_⟩
  rw [Nat.add_assoc (t + 1), resultRam_shift, trace.resultRam_eq abs early words, results,
    BitVec.ofNat_toNat, BitVec.setWidth_eq]
  exact Magnitude.result_toNat _ _ _

/-! ### The first frame of `enableAt` -/

theorem enable_cordicBus (t : Nat) : (enableAt t).lb.lb2ram.cordicRamWrEnOh = false ∧
    (enableAt t).lb.lb2ram.cordicRamRdEnOh = false := by
  induction t with
  | zero => exact ⟨rfl, rfl⟩
  | succ t ih =>
      have next : (enableAt (t + 1)).lb =
          FgyrusLb.step (enableAt t).lb (lbInputs (enableAt t) (enableInputs t)) := rfl
      rw [next]
      constructor
      · simp only [FgyrusLb.step, FgyrusLb.nextLb2Ram, FgyrusLb.fgyrusCordicRamCode,
          enable_block t 4 (by decide), Bool.false_and]
      · simp only [FgyrusLb.step, FgyrusLb.nextLb2Ram, FgyrusLb.nextRamRdEn, ih.2,
          FgyrusLb.fgyrusCordicRamCode, enable_block t 4 (by decide), Bool.false_and,
          Bool.false_eq_true, reduceIte]

theorem enable_ramsLeft (t : Nat) : RamsLeft (enableAt t).lb.lb2ram :=
  { toCacheLeft := (enable_lb t).2.cacheLeft
    cordicWr := (enable_cordicBus t).1
    cordicRd := (enable_cordicBus t).2 }

theorem enable_postNorm (t : Nat) : (enableAt t).lb.fgyrusPostNormOd = 0 := by
  induction t with
  | zero => rfl
  | succ t ih =>
      have next : (enableAt (t + 1)).lb =
          FgyrusLb.step (enableAt t).lb (lbInputs (enableAt t) (enableInputs t)) := rfl
      rw [next, FgyrusLb.step]
      simp only [enable_regWrite]
      rw [decide_eq_false (fun both => absurd both.2 (by decide))]
      exact ih

theorem enable_cordicRam (t : Nat) : (enableAt t).cordicRam.memory = fun _ => 1 := by
  induction t with
  | zero => rfl
  | succ t ih => exact (cordicRam_step _ (enable_ramsLeft t)).1.trans ih

theorem enable_cordic_nonzero (t : Nat) (address : BitVec 8) :
    (enableAt t).cordicRam.memory address ≠ 0 := by
  rw [enable_cordicRam]
  exact (by decide : (1 : BitVec 16) ≠ 0)

theorem enable_entry :
    (enableEngine 3276).fsm.fsmPstate ≠ .cordic ∧ (enableEngine 3277).fsm.fsmPstate = .cordic := by
  obtain ⟨cordic, earlier⟩ := enable_frame.cordic
  exact ⟨(earlier (frameClocks - 1) (by decide)).1, cordic⟩

theorem passes_compute_magnitudes_enable :
    (enableEngine (3277 + passClocks)).fsm.fsmPstate = .idle ∧
      ∀ address, (resultRam (fun _ => 1) enableEngine (3277 + passClocks + 1) address).toNat =
        Magnitude.magnitude (enableAt 3277).cordicRam.memory (cache (enableEngine 3277) address) >>>
          Magnitude.shift 0 := by
  obtain ⟨outside, entered⟩ := enable_entry
  obtain ⟨_, idle, _, words⟩ := passes_compute_magnitudes false (fun _ => 0) (fun _ => 0)
    (fun _ => 0) (fun _ => 1) enableInputs (fun _ => 1) 0 3276 outside entered
    (fun _ _ => enable_ramsLeft _) (enable_cordic_nonzero _) (fun _ _ => enable_postNorm _)
  exact ⟨idle, words⟩

theorem enable_resultRam (contents : BitVec 7 → BitVec 32) {table : BitVec 8 → BitVec 16}
    (trace : CordicTrace (fun k => enableEngine (3277 + k))
      (fun k => enableEngineInputs (3277 + k)) table) :
    ∀ t ≤ 3277 + cordicClocks, resultRam contents enableEngine t = contents := by
  intro t
  induction t with
  | zero => exact fun _ => rfl
  | succ t ih =>
      intro inside
      have quiet : (enableEngine t).fsm.fftResWrEnOh = false := by
        cases t with
        | zero => rfl
        | succ t =>
            refine enable_runs.resultIdle ?_
            by_cases idle : t < 2
            · rcases Nat.le_one_iff_eq_zero_or_eq_one.mp (Nat.le_of_lt_succ idle) with rfl | rfl
              · exact FgyrusFsm.Pstate.noConfusion
              · rw [enable_starts.1]
                exact FgyrusFsm.Pstate.noConfusion
            · obtain ⟨i, rfl⟩ := Nat.exists_eq_add_of_le (Nat.le_of_not_lt idle)
              by_cases before : i < frameClocks
              · exact enable_frame.notAbs before
              · rw [show frameClocks = 3275 from rfl] at before
                obtain ⟨c, rfl⟩ := Nat.exists_eq_add_of_le (Nat.le_of_not_lt before)
                have clock := trace.clocks c (by omega)
                rw [show 2 + (3275 + c) = 3277 + c by omega, clock.pstate]
                exact FgyrusFsm.Pstate.noConfusion
      rw [resultRam, quiet, store_false]
      exact ih (by omega)

/-- When the sequencer is idle again, the last magnitude of the frame is still on its
way to the result RAM, which holds its old word. -/
theorem last_magnitude_missing :
    ((enableEngine 3276).fsm.fsmPstate ≠ .cordic ∧ (enableEngine 3277).fsm.fsmPstate = .cordic ∧
      (∀ address, (enableAt 3277).cordicRam.memory address ≠ 0) ∧
      ∀ t, (enableAt t).lb.fgyrusPostNormOd = 0) ∧
      (∀ k < passClocks, (enableEngine (3277 + k)).fsm.fsmPstate ≠ .idle) ∧
      (enableEngine (3277 + passClocks)).fsm.fsmPstate = .idle ∧
      ¬ ∀ address, (resultRam (fun _ => 1) enableEngine (3277 + passClocks) address).toNat =
        Magnitude.magnitude (enableAt 3277).cordicRam.memory (cache (enableEngine 3277) address) >>>
          Magnitude.shift 0 := by
  obtain ⟨outside, entered⟩ := enable_entry
  have trace : CordicTrace (fun k => enableEngine (3277 + k))
      (fun k => enableEngineInputs (3277 + k)) (enableAt 3277).cordicRam.memory :=
    cordicTrace (cordicClock_entry outside entered) fun k _ => enable_ramsLeft (3277 + k)
  have abs := trace.absTrace (fun e _ => (enable_ramsLeft _).toCacheLeft)
    (fun e _ => enable_postNorm _)
  have words := fun i (small : i < 128) => trace.results_at abs (enable_cordic_nonzero 3277) small
  have early : (enableEngine 3277).fsm.fftResWrEnOh = false :=
    enable_runs.resultIdle (enable_frame.notAbs (i := frameClocks - 1) (by decide))
  obtain ⟨busy, idle⟩ := trace.pstates abs
  refine ⟨⟨outside, entered, enable_cordic_nonzero _, enable_postNorm⟩, busy, idle, fun holds => ?_⟩
  have before := enable_resultRam (fun _ => 1) trace (3277 + cordicClocks) (Nat.le_refl _)
  have old := (abs.result_filled (trace.resultQuiet early (Nat.le_refl _)) words fun _ => 1).at 127
    absClocks (Nat.le_succ _)
  have last := holds 127
  rw [if_neg (by decide)] at old
  rw [passClocks, ← Nat.add_assoc, resultRam_shift, before] at last
  change (resultRam (fun _ => 1) (fun e => enableEngine (3277 + (cordicClocks + e))) absClocks
    127) = 1 at old
  simp only [Nat.add_assoc] at last
  rw [old, enable_cordicRam, Magnitude.magnitude_ones, show Magnitude.shift 0 = 0 from rfl,
    Nat.shiftRight_zero, show (1 : BitVec 32).toNat = 1 from rfl] at last
  omega

end Synesthesia.FgyrusTop
