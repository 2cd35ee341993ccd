/-
The words of the CORDIC pass.

Word `i` is read from clock `22 * i` on, its tangent leaves the divider in clock
`22 * i + 21`, the CORDIC RAM answers in clock `22 * i + 25`, and the cosine is
written over the imaginary part in clock `22 * i + 26`, when the division of the
next word has begun.
-/

import Synesthesia.FusiformGyrus.AbsPass
import Synesthesia.FusiformGyrus.Magnitude

namespace Synesthesia.FftEngine

open Synesthesia.Rtl
open Synesthesia.FgyrusFsm
open Synesthesia.FgyrusLb (Lb2Ram)

/-- The local bus leaves the FFT caches alone. -/
structure CacheLeft (lb2ram : Lb2Ram) : Prop where
  fftRealWr : lb2ram.fftRealRamWrEnOh = false
  fftImWr : lb2ram.fftImRamWrEnOh = false
  fftRealRd : lb2ram.fftRealRamRdEnOh = false
  fftImRd : lb2ram.fftImRamRdEnOh = false

theorem NoRamAccess.cacheLeft {lb2ram : Lb2Ram} (quiet : NoRamAccess lb2ram) : CacheLeft lb2ram :=
  { fftRealWr := quiet.fftRealWr
    fftImWr := quiet.fftImWr
    fftRealRd := quiet.fftRealRd
    fftImRd := quiet.fftImRd }

section Ports

variable {states : Nat → State} {inputs : Nat → Inputs} {t : Nat}

theorem Runs.real_write (runs : Runs states inputs) (left : CacheLeft (inputs t).lb2ram) :
    (states (t + 1)).fftRealRam.memory =
      store (states t).fftRealRam.memory (states t).fsm.fftRamWrRealEnOh
        (states t).fsm.fftRamWrAddrOd (states t).fsm.fftRamWrRealDataOd := by
  rw [runs t]
  simp only [step, DualPortRam.step, fftRealPorts, sharedPorts, left.fftRealWr, Bool.false_or,
    Bool.false_eq_true, reduceIte]

theorem Runs.im_write (runs : Runs states inputs) (left : CacheLeft (inputs t).lb2ram) :
    (states (t + 1)).fftImRam.memory =
      store (states t).fftImRam.memory (states t).fsm.fftRamWrImEnOh
        (states t).fsm.fftRamWrAddrOd (states t).fsm.fftRamWrImDataOd := by
  rw [runs t]
  simp only [step, DualPortRam.step, fftImPorts, sharedPorts, left.fftImWr, Bool.false_or,
    Bool.false_eq_true, reduceIte]

theorem Runs.real_read (runs : Runs states inputs) (left : CacheLeft (inputs t).lb2ram)
    (apart : (states t).fsm.fftRamWrRealEnOh = true →
      (states t).fsm.fftRamRdAddrOd ≠ (states t).fsm.fftRamWrAddrOd) :
    (states (t + 2)).fftRealRam.q =
      (states t).fftRealRam.memory (states t).fsm.fftRamRdAddrOd := by
  rw [runs (t + 1), runs t]
  simp only [step, DualPortRam.step, fftRealPorts, sharedPorts, left.fftRealWr, left.fftRealRd,
    Bool.false_or, Bool.false_eq_true, reduceIte]
  exact if_neg fun meets => apart meets.1 meets.2

theorem Runs.im_read (runs : Runs states inputs) (left : CacheLeft (inputs t).lb2ram)
    (apart : (states t).fsm.fftRamWrImEnOh = true →
      (states t).fsm.fftRamRdAddrOd ≠ (states t).fsm.fftRamWrAddrOd) :
    (states (t + 2)).fftImRam.q =
      (states t).fftImRam.memory (states t).fsm.fftRamRdAddrOd := by
  rw [runs (t + 1), runs t]
  simp only [step, DualPortRam.step, fftImPorts, sharedPorts, left.fftImWr, left.fftImRd,
    Bool.false_or, Bool.false_eq_true, reduceIte]
  exact if_neg fun meets => apart meets.1 meets.2

def divInputs (state : State) : DividerRad4.Inputs :=
  { load := state.fsm.divLoadF
    n := state.fsm.sampleImForDivF
    d := state.fsm.sampleRealForDivF }

theorem Runs.divides (runs : Runs states inputs) (load : (states t).fsm.divLoadF = true)
    (alone : ∀ i < 16, (states (t + 1 + i)).fsm.divLoadF = false)
    (positive : 0 < (states t).fsm.sampleRealForDivF.toNat) :
    (DividerRad4.q (states (t + 17)).fsm.div).toNat =
      (states t).fsm.sampleImForDivF.toNat / (states t).fsm.sampleRealForDivF.toNat := by
  have division : ∀ i, (states (i + 1)).fsm.div =
      DividerRad4.step (states i).fsm.div (divInputs (states i)) := by
    intro i
    rw [runs.fsm i]
    rfl
  exact @DividerRad4.divides (fun i => (states i).fsm.div) (fun i => divInputs (states i)) t
    division
    load positive alone

/-! ### Pipeline registers -/

theorem Runs.realInv (runs : Runs states inputs) (t : Nat) :
    (states (t + 1)).fsm.sampleRealInvF = ~~~(fftRamRdData (states t)).real + 1 := by
  rw [runs.fsm t]
  rfl

theorem Runs.imInv (runs : Runs states inputs) (t : Nat) :
    (states (t + 1)).fsm.sampleImInvF = ~~~(fftRamRdData (states t)).im + 1 := by
  rw [runs.fsm t]
  rfl

theorem Runs.realIsZero (runs : Runs states inputs) (t : Nat) :
    (states (t + 4)).fsm.sampleRealIsZero3d = ((fftRamRdData (states t)).real == 0) := by
  rw [runs.fsm (t + 3)]
  change (states (t + 3)).fsm.sampleRealIsZero2d = _
  rw [runs.fsm (t + 2)]
  change (states (t + 2)).fsm.sampleRealIsZero1d = _
  rw [runs.fsm (t + 1)]
  change (states (t + 1)).fsm.sampleRealIsZeroF = _
  rw [runs.fsm t]
  rfl

theorem Runs.divResQ (runs : Runs states inputs) (t : Nat) :
    (states (t + 1)).fsm.divResQF = DividerRad4.q (states t).fsm.div := by
  rw [runs.fsm t]
  rfl

theorem Runs.cordicAddr (runs : Runs states inputs) (t : Nat) :
    (states (t + 1)).fsm.cordicRamRdAddrOd =
      if ((states t).fsm.divResQF.extractLsb' 8 24 != 0 ||
        (states t).fsm.sampleRealIsZero3d) = true then 0xff
      else (states t).fsm.divResQF.extractLsb' 0 8 := by
  rw [runs.fsm t]
  rfl

theorem Runs.cordicOperands (runs : Runs states inputs)
    (cordic : (states (t + 1)).fsm.fsmPstate = .cordic)
    (steady : fftRamRdData (states (t + 1)) = fftRamRdData (states t)) :
    (states (t + 2)).fsm.sampleRealForDivF = (fftRamRdData (states t)).real.abs ∧
      (states (t + 2)).fsm.sampleImForDivF = (fftRamRdData (states t)).im.abs := by
  rw [runs.fsm (t + 1)]
  simp only [FgyrusFsm.step, nextSampleRealForDiv, nextSampleImForDiv, cordic, fsmInputs, steady,
    runs.realInv, runs.imInv, Magnitude.abs_of_inv, and_self]

end Ports

/-- A trace that starts with the CORDIC pass.  The CORDIC RAM holds `table` and
answers two clocks after its address. -/
structure CordicTrace (states : Nat → State) (inputs : Nat → Inputs)
    (table : BitVec 8 → BitVec 16) : Prop where
  runs : Runs states inputs
  clock : CordicClock 0 (states 0).fsm
  left : ∀ c < cordicClocks, CacheLeft (inputs c).lb2ram
  answers : ∀ c, 0 < c → c < cordicClocks →
    (inputs (c + 2)).cordicRamRdDataId = table (states c).fsm.cordicRamRdAddrOd

section Cordic

variable {states : Nat → State} {inputs : Nat → Inputs} {table : BitVec 8 → BitVec 16}

theorem CordicTrace.clocks (trace : CordicTrace states inputs table) :
    ∀ c < cordicClocks, CordicClock c (states c).fsm := by
  intro c
  induction c with
  | zero => exact fun _ => trace.clock
  | succ c ih =>
      intro inside
      rw [trace.runs.fsm c]
      exact cordic_step (ih (by omega)) inside _

/-! ### The cache during the pass -/

theorem CordicTrace.real_keeps (trace : CordicTrace states inputs table) :
    ∀ c ≤ cordicClocks, (states c).fftRealRam.memory = (states 0).fftRealRam.memory := by
  intro c
  induction c with
  | zero => exact fun _ => rfl
  | succ c ih =>
      intro inside
      rw [trace.runs.real_write (trace.left c inside), (trace.clocks c inside).realWrite,
        store_false]
      exact ih (by omega)

def cordicSlot (i : Nat) : Nat := 22 * i + 26

theorem CordicTrace.im_filled (trace : CordicTrace states inputs table) :
    Filled (fun c => (states c).fftImRam.memory) cordicSlot
      (fun i => (states (cordicSlot i)).fsm.fftRamWrImDataOd) cordicClocks := by
  constructor
  case apart =>
    intro i j same
    rw [cordicSlot, cordicSlot] at same
    omega
  case stored =>
    intro i small inside
    have clock := trace.clocks _ inside
    have write : (states (cordicSlot i)).fsm.fftRamWrImEnOh = true := by
      rw [clock.imWrite, decide_eq_true_eq, cordicSlot]
      omega
    have target : (states (cordicSlot i)).fsm.fftRamWrAddrOd = BitVec.ofNat 7 i := by
      rw [clock.wrAddr, cordicSlot]
      congr 1
      omega
    rw [trace.runs.im_write (trace.left _ inside), write, target]
  case kept =>
    intro c inside free
    have clock := trace.clocks _ inside
    have quiet : (states c).fsm.fftRamWrImEnOh = false := by
      rw [clock.imWrite, decide_eq_false_iff_not]
      rintro ⟨later, phase⟩
      rw [cordicClocks, cordicPeriod] at inside
      refine free (c / 22 - 1) (by omega) ?_
      rw [cordicSlot]
      omega
    rw [trace.runs.im_write (trace.left _ inside), quiet, store_false]

theorem CordicTrace.read (trace : CordicTrace states inputs table) {c : Nat}
    (inside : c < 128 * cordicPeriod) :
    fftRamRdData (states (c + 2)) = cache (states 0) (BitVec.ofNat 7 (c / 22)) := by
  rw [cordicPeriod] at inside
  have before : c < cordicClocks := by
    rw [cordicClocks, cordicPeriod]
    omega
  have clock := trace.clocks c before
  have left := trace.left c before
  have apart : (states c).fsm.fftRamWrImEnOh = true →
      (states c).fsm.fftRamRdAddrOd ≠ (states c).fsm.fftRamWrAddrOd := by
    rw [clock.imWrite, decide_eq_true_eq, clock.rdAddr, clock.wrAddr]
    rintro ⟨later, phase⟩ same
    have values := congrArg BitVec.toNat same
    rw [BitVec.toNat_ofNat, BitVec.toNat_ofNat] at values
    omega
  have real := trace.runs.real_read left fun write => by
    rw [clock.realWrite] at write
    cases write
  have im := trace.runs.im_read left apart
  have word := trace.im_filled.at (states c).fsm.fftRamRdAddrOd c (by omega)
  rw [clock.rdAddr] at word real im
  rw [if_neg (by rw [cordicSlot, BitVec.toNat_ofNat]; omega)] at word
  rw [trace.real_keeps c (by omega)] at real
  rw [fftRamRdData, real, im]
  exact congrArg _ word

/-! ### One word -/

section Word

variable {i : Nat}

theorem CordicTrace.word (trace : CordicTrace states inputs table) (small : i < 128) {k : Nat}
    (window : 2 ≤ k ∧ k ≤ 23) :
    fftRamRdData (states (22 * i + k)) = cache (states 0) (BitVec.ofNat 7 i) := by
  obtain ⟨j, rfl⟩ : ∃ j, k = j + 2 := ⟨k - 2, by omega⟩
  rw [← Nat.add_assoc, trace.read (by rw [cordicPeriod]; omega),
    show (22 * i + j) / 22 = i by omega]

theorem CordicTrace.operands (trace : CordicTrace states inputs table) (small : i < 128) :
    (states (22 * i + 4)).fsm.sampleRealForDivF =
        (cache (states 0) (BitVec.ofNat 7 i)).real.abs ∧
      (states (22 * i + 4)).fsm.sampleImForDivF =
        (cache (states 0) (BitVec.ofNat 7 i)).im.abs := by
  have clock := trace.clocks (22 * i + 3) (by rw [cordicClocks, cordicPeriod]; omega)
  have first := trace.word small (k := 2) (by omega)
  rw [← first]
  refine trace.runs.cordicOperands clock.pstate ?_
  rw [first]
  exact trace.word small (k := 3) (by omega)

theorem CordicTrace.tangent (trace : CordicTrace states inputs table) (small : i < 128)
    (nonzero : (cache (states 0) (BitVec.ofNat 7 i)).real ≠ 0) :
    (states (22 * i + 22)).fsm.divResQF.toNat =
      Magnitude.tangent (cache (states 0) (BitVec.ofNat 7 i)) := by
  obtain ⟨real, im⟩ := trace.operands small
  have load : ∀ k ≤ 22, (states (22 * i + k)).fsm.divLoadF = decide (k = 4) := by
    intro k inside
    have clock := trace.clocks (22 * i + k) (by rw [cordicClocks, cordicPeriod]; omega)
    rw [clock.load, decide_eq_decide]
    omega
  have alone : ∀ k < 16, (states (22 * i + 4 + 1 + k)).fsm.divLoadF = false := by
    intro k inside
    rw [show 22 * i + 4 + 1 + k = 22 * i + (5 + k) by omega, load _ (by omega),
      decide_eq_false (by omega)]
  have divided := trace.runs.divides (load 4 (by omega)) alone (by
    rw [real]
    exact Magnitude.modulus_pos nonzero)
  rw [trace.runs.divResQ (22 * i + 21), divided, real, im]
  rfl

theorem CordicTrace.index (trace : CordicTrace states inputs table) (small : i < 128) :
    (states (22 * i + 23)).fsm.cordicRamRdAddrOd =
      Magnitude.cordicIndex (cache (states 0) (BitVec.ofNat 7 i)) := by
  have zero := trace.runs.realIsZero (22 * i + 18)
  rw [trace.word small (by omega)] at zero
  rw [trace.runs.cordicAddr (22 * i + 22), zero]
  exact Magnitude.cordicIndex_eq (trace.tangent small)

theorem CordicTrace.cosine (trace : CordicTrace states inputs table) (small : i < 128) :
    (states (cordicSlot i)).fsm.fftRamWrImDataOd =
      (0 : BitVec 16) ++ table (Magnitude.cordicIndex (cache (states 0) (BitVec.ofNat 7 i))) := by
  have clock := trace.clocks (22 * i + 25) (by rw [cordicClocks, cordicPeriod]; omega)
  rw [cordicSlot, trace.runs.fsm (22 * i + 25)]
  simp only [FgyrusFsm.step, nextFftRamWrImData, clock.pstate, fsmInputs]
  rw [trace.answers (22 * i + 23) (by omega) (by rw [cordicClocks, cordicPeriod]; omega),
    trace.index small]

end Word

/-- The pass leaves the real parts and puts the cosines in place of the imaginary parts. -/
theorem CordicTrace.cache_eq (trace : CordicTrace states inputs table) (address : BitVec 7) :
    cache (states cordicClocks) address =
      { real := (cache (states 0) address).real
        im := (0 : BitVec 16) ++ table (Magnitude.cordicIndex (cache (states 0) address)) } := by
  have small := address.isLt
  have im := trace.im_filled.at address cordicClocks (Nat.le_refl _)
  rw [if_pos (by rw [cordicSlot, cordicClocks, cordicPeriod]; omega), trace.cosine small,
    BitVec.ofNat_toNat, BitVec.setWidth_eq] at im
  rw [← im, cache, trace.real_keeps _ (Nat.le_refl _)]
  rfl

theorem CordicTrace.abs (trace : CordicTrace states inputs table) :
    AbsClock 0 (states cordicClocks).fsm := by
  have clock := trace.clocks (cordicClocks - 1) (by decide)
  have next := trace.runs.fsm (cordicClocks - 1)
  rw [show cordicClocks - 1 + 1 = cordicClocks from rfl] at next
  rw [next]
  exact cordic_end clock _

end Cordic

end Synesthesia.FftEngine
