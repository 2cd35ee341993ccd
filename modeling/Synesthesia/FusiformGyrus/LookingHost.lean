/-
A host that looks does not change the spectrum, if it looks at the right time.

The two runs agree from power-up on: in `IDLE_S` and `DECIMATE_S` nothing that was read is
kept, and from the stages on the host leaves the ports alone that the sequencer needs.
-/

import Synesthesia.FusiformGyrus.FrameAccuracy
import Synesthesia.FusiformGyrus.ReadsApart

namespace Synesthesia.FgyrusTop

open Synesthesia.FftEngine
open Synesthesia.FgyrusFsm (captures)

/-! ### Clocks before the stages -/

/-- Nothing that was read is on its way to a register that keeps it. -/
structure Resting (fsm : FgyrusFsm.State) : Prop where
  port : captures fsm = false
  load : fsm.divLoadF = false
  request : fsm.samplesRdyOh = false

/-- Two runs agree, and outside the stages and the passes nothing is on its way. -/
structure Together (state other : State) : Prop where
  agree : Agree state other
  resting : state.engine.fsm.fsmPstate = .idle ∨ state.engine.fsm.fsmPstate = .decimate →
    Resting state.engine.fsm

theorem resting_reset (sampleRealIsZero3d : Bool) :
    Resting (FgyrusFsm.reset sampleRealIsZero3d) :=
  { port := by
      simp only [captures, FgyrusFsm.reset, BitVec.ofNat_eq_ofNat, BitVec.getLsbD_zero,
        Bool.or_self]
    load := rfl
    request := rfl }

theorem resting_step {fsm : FgyrusFsm.State} (resting : Resting fsm)
    (early : fsm.fsmPstate = .idle ∨ fsm.fsmPstate = .decimate) (inputs : FgyrusFsm.Inputs) :
    Resting (FgyrusFsm.step fsm inputs) := by
  have last := (FgyrusFsm.captures_eq_false.mp resting.port).2.2
  constructor
  case port =>
    rw [FgyrusFsm.captures_eq_false]
    change (FgyrusFsm.nextPstVec fsm inputs).getLsbD 4 = false ∧
      (FgyrusFsm.nextPstVec fsm inputs).getLsbD 5 = false ∧
      (FgyrusFsm.nextPstVec fsm inputs).getLsbD 6 = false
    rw [FgyrusFsm.nextPstVec]
    rcases early with idle | decimate
    · simp only [idle]
      cases inputs.fgyrusPcmRdyIh with
      | true | false => exact ⟨rfl, rfl, rfl⟩
    · simp only [decimate, BitVec.getLsbD_append]
      exact ⟨rfl, rfl, rfl⟩
  case load =>
    change FgyrusFsm.nextDivLoad fsm = false
    rw [FgyrusFsm.nextDivLoad]
    rcases early with idle | decimate
    · simp only [idle, last]
    · simp only [decimate, last]
  case request =>
    refine if_neg fun fft => ?_
    rw [fft] at early
    exact absurd early (by decide)

theorem Together.step {state other : State} {inputs others : Inputs}
    (together : Together state other) (beside : Beside state other inputs others)
    (early : state.engine.fsm.fsmPstate = .idle ∨ state.engine.fsm.fsmPstate = .decimate) :
    Together (FgyrusTop.step state inputs) (FgyrusTop.step other others) := by
  have resting := together.resting early
  have next := resting_step resting early (fsmInputs state.engine (engineInputs state inputs))
  refine ⟨together.agree.step beside (fun now => ?_) (fun now => ?_) (fun pass => ?_) fun now => ?_,
    fun _ => next⟩
  · rw [resting.port] at now
    cases now
  · rw [resting.load] at now
    cases now
  · rw [pass] at early
    exact absurd early (by decide)
  · rcases now with now | now
    · exact absurd (next.request.symm.trans now) Bool.false_ne_true
    · exact absurd (resting.request.symm.trans now) Bool.false_ne_true

end Synesthesia.FgyrusTop

namespace Synesthesia.FftEngine

open Synesthesia.FftSchedule (wings)
open Synesthesia.FgyrusFsm (captures captures_eq_false absClocks)
open Synesthesia.FgyrusTop (Pipelined Resting)

section Timed

variable {states : Nat → State} {inputs : Nat → Inputs} (timed : Timed states inputs)

include timed

theorem Timed.load_late {d : Nat} (early : d < 5) :
    (states (copyClocks + d)).fsm.divLoadF = false := by
  cases d with
  | zero =>
      have copying := timed.copying 130 (by decide)
      rw [show copyClocks + 0 = 130 + 1 from rfl,
        timed.runs.divLoad (by rw [copying.pstate]; decide)]
      exact copying.noLast
  | succ d =>
      have clock := timed.paced.clocks d (by rw [wings]; omega)
      rw [← Nat.add_assoc, timed.runs.divLoad (by rw [clock.pstate]; decide), clock.bit,
        decide_eq_false (by omega)]

theorem Timed.request_inside {d : Nat}
    (request : (states (copyClocks + d)).fsm.samplesRdyOh = true)
    (inside : copyClocks + d < busyClocks) : 1 ≤ d ∧ d ≤ 7 * wings + 1 := by
  cases d with
  | zero =>
      have quiet := timed.paced.noRequest
      exact absurd (quiet.symm.trans request) Bool.false_ne_true
  | succ d =>
      rw [← Nat.add_assoc, timed.runs.samplesRdy] at request
      split at request
      · rename_i fft
        rw [timed.schedule (by omega), schedule_late.2.2.1] at fft
        omega
      · cases request

theorem Timed.pipelined {d : Nat} (inside : copyClocks + d < busyClocks) :
    Pipelined d (states (copyClocks + d)).fsm := by
  have pstate := timed.schedule inside
  constructor
  case pstate => exact pstate
  case port =>
    intro now
    by_contra early
    have clock := timed.paced.clocks d (by rw [wings]; omega)
    have quiet : captures (states (copyClocks + d)).fsm = false := by
      rw [captures_eq_false, clock.bit, clock.bit, clock.bit, decide_eq_false (by omega),
        decide_eq_false (by omega), decide_eq_false (by omega)]
      exact ⟨rfl, rfl, rfl⟩
    exact absurd (quiet.symm.trans now) Bool.false_ne_true
  case load =>
    intro now
    by_contra early
    exact absurd ((timed.load_late (by omega)).symm.trans now) Bool.false_ne_true
  case whole =>
    rintro rfl
    have clock := timed.paced.clocks 2 (by decide)
    rw [show copyClocks + 3 = copyClocks + 2 + 1 from rfl, timed.runs.fsm]
    simp only [FgyrusFsm.step, clock.bit]
    rfl
  case request => exact fun now => timed.request_inside now inside
  case cosine =>
    intro pass now
    rw [pstate, schedule_late.2.2.2] at pass
    obtain ⟨c, rfl⟩ := Nat.exists_eq_add_of_le pass.1
    have clock := timed.runs.cordicClocks_from timed.cordicClock c (by omega)
    rw [frameClocks, Nat.add_assoc] at clock
    rw [clock.extn, FgyrusFsm.cordicExtn_zero _ _ (Nat.mod_lt _ (by decide)), decide_eq_true_eq,
      decide_eq_false_iff_not] at now
    omega

theorem Timed.resting : Resting (states busyClocks).fsm := by
  have last := timed.runs.absClocks_from (timed.runs.abs_after_cordic timed.cordicClock)
    (absClocks - 1) (by decide)
  have next := timed.runs.fsm (frameClocks + FgyrusFsm.cordicClocks + (absClocks - 1))
  rw [show frameClocks + FgyrusFsm.cordicClocks + (absClocks - 1) + 1 = busyClocks from rfl] at next
  rw [next]
  constructor
  case port =>
    rw [captures_eq_false]
    simp only [FgyrusFsm.step, FgyrusFsm.nextPstVec, last.pstate, last.vec]
    cases FgyrusFsm.divResRdyPulseC
        (states (frameClocks + FgyrusFsm.cordicClocks + (absClocks - 1))).fsm with
    | true | false => decide
  case load =>
    change FgyrusFsm.nextDivLoad _ = false
    simp only [FgyrusFsm.nextDivLoad, last.pstate, last.bit (k := 6) (by decide)]
    rfl
  case request => exact if_neg (by rw [last.pstate]; decide)

end Timed

end Synesthesia.FftEngine

namespace Synesthesia.FgyrusTop

open Synesthesia.Rtl
open Synesthesia.FftEngine
open Synesthesia.FftBounds (twiddleRamMif)
open Synesthesia.FgyrusFsm (cordicClocks absClocks)
open Synesthesia.Magnitude (cordicRamMif)

section Pair

variable {sampleRealIsZero3d sampleRealIsZero3d' : Bool}
  {real im twiddle : BitVec 7 → BitVec 32} {cordic : BitVec 8 → BitVec 16}

theorem together_reset :
    Together (reset sampleRealIsZero3d real im twiddle cordic)
      (reset sampleRealIsZero3d' real im twiddle cordic) :=
  { agree :=
      { fsm := rfl
        wing := ButterflyWing.Agree.refl _
        real := rfl
        im := rfl
        imData := fun _ => rfl
        factor := fun _ => rfl }
    resting := fun _ => resting_reset _ }

variable {inputs others : Nat → Inputs} (surroundings : SameSurroundings inputs others)

include surroundings

theorem SameSurroundings.beside (t : Nat) :
    Beside (stateAt sampleRealIsZero3d real im twiddle cordic inputs t)
      (stateAt sampleRealIsZero3d' real im twiddle cordic others t) (inputs t) (others t) :=
  { written := surroundings.written t
    stores := by
      cases t with
      | zero => exact ⟨rfl, rfl, fun _ => ⟨rfl, rfl⟩⟩
      | succ t =>
          exact sameStores_step (surroundings.wrEn t) (surroundings.addr t) (surroundings.wrData t)
    twiddles := surroundings.twiddles t
    cordics := surroundings.cordics t
    pcmRdy := surroundings.pcmRdy t
    pcmData := surroundings.pcmData t
    fftRealMixed := surroundings.fftRealMixed t
    fftImMixed := surroundings.fftImMixed t
    twiddleMixed := surroundings.twiddleMixed t
    cordicMixed := surroundings.cordicMixed t }

variable
  (apart : ∀ t, ReadsApart
    (stateAt sampleRealIsZero3d real im twiddle cordic inputs t).engine.fsm.fsmPstate
    (stateAt sampleRealIsZero3d real im twiddle cordic inputs t).lb.lb2ram)
  (apart' : ∀ t, ReadsApart
    (stateAt sampleRealIsZero3d real im twiddle cordic inputs t).engine.fsm.fsmPstate
    (stateAt sampleRealIsZero3d' real im twiddle cordic others t).lb.lb2ram)

include apart apart'

theorem SameSurroundings.fresh {start : Nat}
    (starts : Starts (engineAt sampleRealIsZero3d real im twiddle cordic inputs)
      (engineInputsAt sampleRealIsZero3d real im twiddle cordic inputs) start)
    (agree : Agree
      (stateAt sampleRealIsZero3d real im twiddle cordic inputs (start + 1 + copyClocks))
      (stateAt sampleRealIsZero3d' real im twiddle cordic others (start + 1 + copyClocks))) :
    ∀ d, copyClocks + d ≤ busyClocks →
      Fresh d (stateAt sampleRealIsZero3d real im twiddle cordic inputs
          (start + 1 + copyClocks + d))
        (stateAt sampleRealIsZero3d' real im twiddle cordic others
          (start + 1 + copyClocks + d)) := by
  intro d
  induction d with
  | zero => exact fun _ => agree.fresh
  | succ d ih =>
      intro inside
      have pipelined := (timed starts).pipelined inside
      rw [← Nat.add_assoc (start + 1)] at pipelined
      exact (ih (Nat.le_of_succ_le inside)).step pipelined (surroundings.beside _) (apart _)
        (apart' _)

theorem SameSurroundings.busy_step {start d : Nat}
    (starts : Starts (engineAt sampleRealIsZero3d real im twiddle cordic inputs)
      (engineInputsAt sampleRealIsZero3d real im twiddle cordic inputs) start)
    (copied : Agree
      (stateAt sampleRealIsZero3d real im twiddle cordic inputs (start + 1 + copyClocks))
      (stateAt sampleRealIsZero3d' real im twiddle cordic others (start + 1 + copyClocks)))
    (inside : copyClocks + d < busyClocks) :
    Together
      (stateAt sampleRealIsZero3d real im twiddle cordic inputs (start + 1 + (copyClocks + d) + 1))
      (stateAt sampleRealIsZero3d' real im twiddle cordic others
        (start + 1 + (copyClocks + d) + 1)) := by
  have frame := timed starts
  have fresh := surroundings.fresh apart apart' starts copied (d + 1) inside
  rw [← Nat.add_assoc, Nat.add_assoc (start + 1)] at fresh
  refine ⟨fresh.toAgree, fun rests => ?_⟩
  by_cases last : copyClocks + d + 1 = busyClocks
  · have resting := frame.resting
    rw [← last] at resting
    exact resting
  · have busy := frame.schedule (i := copyClocks + (d + 1)) (by omega)
    obtain ⟨idle, decimate, _⟩ := schedule_late (d := d + 1)
    rw [← busy] at idle decimate
    exact absurd rests (not_or.mpr ⟨idle, decimate⟩)

theorem SameSurroundings.together (t : Nat) :
    Together (stateAt sampleRealIsZero3d real im twiddle cordic inputs t)
      (stateAt sampleRealIsZero3d' real im twiddle cordic others t) := by
  induction t using Nat.strongRecOn with
  | ind t ih =>
      cases t with
      | zero => exact together_reset
      | succ t =>
          by_cases early :
              (engineAt sampleRealIsZero3d real im twiddle cordic inputs t).fsm.fsmPstate = .idle ∨
                (engineAt sampleRealIsZero3d real im twiddle cordic inputs t).fsm.fsmPstate =
                  .decimate
          · exact (ih t (Nat.lt_succ_self t)).step (surroundings.beside t) early
          · obtain ⟨start, i, starts, inside, rfl⟩ :=
              (engine_runs sampleRealIsZero3d real im twiddle cordic inputs).frame_of_busy
                (FgyrusFsm.stageReady_reset _) (fun _ => rfl) rfl (not_or.mp early).1
            have late : copyClocks ≤ i := by
              by_contra before
              exact early (.inr ((timed starts).copying i (by omega)).pstate)
            obtain ⟨d, rfl⟩ := Nat.exists_eq_add_of_le late
            have copying := ((timed starts).copying 130 (by decide)).pstate
            have copied := (ih (start + 1 + 130) (by rw [copyClocks]; omega)).step
              (surroundings.beside _) (.inr copying)
            exact surroundings.busy_step apart apart' starts copied.agree inside

end Pair

/-- The sequencer keeps its timing whatever the host reads.  The results are the same as
well, as long as the host reads no RAM in a state in which the sequencer reads it. -/
theorem reads_apart_harmless (sampleRealIsZero3d sampleRealIsZero3d' : Bool)
    (real im twiddle : BitVec 7 → BitVec 32) (cordic : BitVec 8 → BitVec 16)
    (inputs others : Nat → Inputs) (surroundings : SameSurroundings inputs others) :
    let state := stateAt sampleRealIsZero3d real im twiddle cordic inputs
    let other := stateAt sampleRealIsZero3d' real im twiddle cordic others
    (∀ t, (other t).engine.fsm.fsmPstate = (state t).engine.fsm.fsmPstate) ∧
      ((∀ t, ReadsApart (state t).engine.fsm.fsmPstate (state t).lb.lb2ram) →
        (∀ t, ReadsApart (other t).engine.fsm.fsmPstate (other t).lb.lb2ram) →
        ∀ t, resultWrite (other t).engine = resultWrite (state t).engine) := by
  intro state other
  have same : SameStarts (engineAt sampleRealIsZero3d real im twiddle cordic inputs)
      (engineAt sampleRealIsZero3d' real im twiddle cordic others) _ _ :=
    surroundings.sameStarts surroundings.pcmRdy
  have pstate : ∀ t, (other t).engine.fsm.fsmPstate = (state t).engine.fsm.fsmPstate :=
    fun t => same.pstate t
  refine ⟨pstate, fun apart apart' t => ?_⟩
  have agree : Agree (state t) (other t) :=
    (surroundings.together apart (fun k => pstate k ▸ apart' k) t).agree
  rw [resultWrite, agree.fsm]
  rfl

/-! ### A host that looks at a ramp -/

/-- The host of the ramp, which now looks at a word of a RAM window. -/
def lookInputs (reads : Nat → Bool) (window : BitVec 12) (t : Nat) : Inputs :=
  { rampInputs reads t with lbAddrId := if t = 0 then 0 else window }

theorem ramp_windows (t : Nat) :
    WindowsLeft (stateAt false (fun _ => 0) (fun _ => 0) twiddleRamMif cordicRamMif
      (rampInputs fun _ => false) t).lb.lb2ram :=
  (ramp_control _).windows t

section Look

variable (quiet reads : Nat → Bool) (window : BitVec 12)

theorem look_surroundings : SameSurroundings (rampInputs quiet) (lookInputs reads window) :=
  { wrEn := fun _ => rfl
    addr := fun _ write => if_pos (of_decide_eq_true write)
    wrData := fun _ _ => rfl
    pcmRdy := fun _ => rfl
    pcmData := fun _ => rfl
    fftRealMixed := fun _ => rfl
    fftImMixed := fun _ => rfl
    twiddleMixed := fun _ => rfl
    cordicMixed := fun _ => rfl }

theorem look_pstate (twiddle : BitVec 7 → BitVec 32) (cordic : BitVec 8 → BitVec 16) (t : Nat) :
    (engineAt false (fun _ => 0) (fun _ => 0) twiddle cordic
        (lookInputs reads window) t).fsm.fsmPstate =
      (engineAt false (fun _ => 0) (fun _ => 0) twiddle cordic
        (rampInputs fun _ => false) t).fsm.fsmPstate :=
  ((look_surroundings _ reads window).sameStarts fun _ => rfl).pstate t

variable (state : State) {t : Nat}

theorem look_code {code : BitVec 4} (first : code ≠ 0) (later : window.extractLsb' 8 4 ≠ code) :
    FgyrusLb.blockCode (lbInputs state (lookInputs reads window t)) ≠ code := by
  change (if t = 0 then 0 else window).extractLsb' 8 4 ≠ code
  split
  · exact first.symm
  · exact later

end Look

section Cosine

/-- The host that looks at the last cosine all the time. -/
def cosineInputs : Nat → Inputs := lookInputs (fun _ => true) 0x4ff

def cosineAt : Nat → State :=
  stateAt false (fun _ => 0) (fun _ => 0) twiddleRamMif cordicRamMif cosineInputs

def cosineEngine : Nat → FftEngine.State :=
  engineAt false (fun _ => 0) (fun _ => 0) twiddleRamMif cordicRamMif cosineInputs

def cosineEngineInputs : Nat → FftEngine.Inputs :=
  engineInputsAt false (fun _ => 0) (fun _ => 0) twiddleRamMif cordicRamMif cosineInputs

theorem cosine_beside (t : Nat) :
    Beside (stateAt false (fun _ => 0) (fun _ => 0) twiddleRamMif cordicRamMif
      (rampInputs fun _ => false) t) (cosineAt t) (rampInputs (fun _ => false) t)
      (cosineInputs t) :=
  (look_surroundings _ _ _).beside t

theorem cosine_reads (t : Nat) :
    (cosineAt t).lb.lb2ram.fftRealRamRdEnOh = false ∧
      (cosineAt t).lb.lb2ram.fftImRamRdEnOh = false ∧
      (cosineAt t).lb.lb2ram.twiddleRamRdEnOh = false := by
  induction t with
  | zero => exact ⟨rfl, rfl, rfl⟩
  | succ t ih =>
      obtain ⟨real, im, twiddle⟩ := ih
      exact ⟨nextRamRdEn_eq_false real (look_code _ _ _ (by decide) (by decide)),
        nextRamRdEn_eq_false im (look_code _ _ _ (by decide) (by decide)),
        nextRamRdEn_eq_false twiddle (look_code _ _ _ (by decide) (by decide))⟩

theorem cosine_quiet (t : Nat) : NoRamAccess (cosineAt t).lb.lb2ram := by
  have windows := ramp_windows t
  have beside := cosine_beside t
  obtain ⟨real, im, twiddle⟩ := cosine_reads t
  exact
    { fftRealWr := beside.stores.real.trans windows.fftRealWr
      fftImWr := beside.stores.im.trans windows.fftImWr
      twiddleWr := beside.written.twiddle.trans windows.twiddleWr
      fftRealRd := real
      fftImRd := im
      twiddleRd := twiddle }

theorem cosine_delay (t : Nat) :
    ∀ k < 4, (cosineAt t).lb.rdDelayVec.getLsbD k = decide (k < t) := by
  induction t with
  | zero => decide
  | succ t ih =>
      intro k small
      have shifted : (cosineAt (t + 1)).lb.rdDelayVec =
          (cosineAt t).lb.rdDelayVec.extractLsb' 0 3 ++ BitVec.ofBool true := rfl
      rw [shifted, shift_getLsbD _ _ (by omega)]
      by_cases first : k = 0
      · rw [if_pos first, decide_eq_true (by omega)]
      · rw [if_neg first, ih (k - 1) (by omega), decide_eq_decide]
        omega

/-- The reads follow each other without a gap, so that the window keeps its request. -/
theorem cosine_window (t : Nat) :
    (cosineAt (t + 2)).lb.lb2ram.cordicRamRdEnOh = true ∧
      (cosineAt (t + 2)).lb.lb2ram.addrOd = 0xff := by
  have addr : (cosineAt (t + 2)).lb.lb2ram.addrOd = 0xff := by
    change (if t + 1 = 0 then (0 : BitVec 12) else 0x4ff).extractLsb' 0 8 = 0xff
    rw [if_neg (Nat.succ_ne_zero t)]
    decide
  refine ⟨?_, addr⟩
  clear addr
  induction t with
  | zero => rfl
  | succ t ih =>
      change FgyrusLb.nextRamRdEn (cosineAt (t + 2)).lb.lb2ram.cordicRamRdEnOh
        FgyrusLb.fgyrusCordicRamCode (cosineAt (t + 2)).lb _ = true
      rw [FgyrusLb.nextRamRdEn, if_pos ih, cosine_delay _ 2 (by decide),
        cosine_delay _ 3 (by decide)]
      by_cases early : t = 0
      · rw [early]
        rfl
      · rw [decide_eq_true (by omega)]
        rfl

theorem cosine_word (t : Nat) : (cosineAt (t + 4)).cordicRam.q = cordicRamMif 255 := by
  obtain ⟨window, addr⟩ := cosine_window t
  have beside := cosine_beside (t + 2)
  have windows := ramp_windows (t + 2)
  have quiet : (cosineAt (t + 2)).lb.lb2ram.cordicRamWrEnOh = false :=
    beside.written.cordic.trans windows.cordicWr
  have table : (cosineAt (t + 2)).cordicRam.memory = cordicRamMif :=
    beside.cordics.trans ((ramp_control fun _ => false).tables (t + 2)).1
  have next : (cosineAt (t + 3)).cordicRam = (cosineAt (t + 2)).cordicRam.step
      (cordicPorts (cosineAt (t + 2)) (cosineInputs (t + 2))) := rfl
  have latch : (cosineAt (t + 3)).cordicRam.latch = cordicRamMif 255 := by
    rw [next]
    simp only [DualPortRam.step, cordicPorts, quiet, window, addr, table, Bool.false_eq_true,
      false_and, reduceIte]
  exact latch

theorem cosine_starts : Starts cosineEngine cosineEngineInputs 1 :=
  ((look_surroundings _ _ _).sameStarts fun _ => rfl).starts_of (look_pstate _ _ _ _ _)
    (ramp_starts twiddleRamMif cordicRamMif fun _ => false)

theorem received_ramp (reads : Nat → Bool) :
    received (rampInputs reads) 1 = fun index => index.setWidth 32 := by
  funext address
  change (BitVec.ofNat 7 (1 + 1 + (address.reverse.toNat + 2) - 4)).reverse.setWidth 32 = _
  rw [show 1 + 1 + (address.reverse.toNat + 2) - 4 = address.reverse.toNat by omega,
    BitVec.ofNat_toNat, BitVec.setWidth_eq, BitVec.reverse_reverse_eq]

theorem cosine_cache :
    cache (cosineEngine (2 + frameClocks)) = FftReference.fft twiddleRamMif
      (fun index => (index.setWidth 16 : BitVec 16).signExtend 32) := by
  have same : received cosineInputs 1 = received (rampInputs fun _ => false) 1 := rfl
  have words := frame_cache cosine_starts (received_pcm cosine_starts) fun t _ => cosine_quiet t
  have table : (cosineEngine 2).twiddleRam.memory = twiddleRamMif :=
    (cosine_beside 2).twiddles.trans ((ramp_control fun _ => false).tables 2).2
  rw [same, received_ramp, funext FftEngine.ramp_wide] at words
  exact words.trans (congrArg (fun twiddle => FftReference.fft twiddle _) table)

/-- The pass takes the last cosine for every word. -/
theorem cosine_trace :
    CordicTrace (fun k => cosineEngine (2 + frameClocks + k))
      (fun k => cosineEngineInputs (2 + frameClocks + k)) fun _ => cordicRamMif 255 :=
  { runs := (engine_runs _ _ _ _ _ _).shift _
    clock := (timed cosine_starts).cordicClock
    left := fun k _ => (cosine_quiet (2 + frameClocks + k)).cacheLeft
    answers := fun k _ _ => by
      have word := cosine_word (frameClocks + k)
      rw [show frameClocks + k + 4 = 2 + frameClocks + (k + 2) by omega] at word
      exact word }

theorem ramp_mean :
    Magnitude.result cordicRamMif 0 ⟨8128, 0⟩ = 8128 ∧
      Magnitude.result (fun _ => cordicRamMif 255) 0 ⟨8128, 0⟩ = 2072671 := by
  decide +kernel

theorem cosine_result : resultWrite (cosineEngine 6126) = [(0, 2072671)] := by
  have plain : ∀ e < absClocks,
      (cosineEngineInputs (2 + frameClocks + (cordicClocks + e))).fgyrusPostNormId = 0 :=
    fun e _ => (cosine_beside _).written.postNorm.trans ((ramp_control fun _ => false).postNorm _)
  have abs := cosine_trace.absTrace
    (fun e _ => (cosine_quiet (2 + frameClocks + (cordicClocks + e))).cacheLeft) plain
  have word := cosine_trace.results_at abs (fun _ => cordicRamMif_nonzero 255) (i := 0) (by decide)
  have write := word.write
  rw [results, show 2 + frameClocks + 0 = 2 + frameClocks from rfl, cosine_cache,
    show BitVec.ofNat 7 0 = 0 from rfl, ramp_bins.1.1, ramp_mean.2] at write
  exact write

end Cosine

theorem ramp_result :
    resultWrite (engineAt false (fun _ => 0) (fun _ => 0) twiddleRamMif cordicRamMif
      (rampInputs fun _ => false) 6126) = [(0, 8128)] := by
  have control := ramp_control fun _ => false
  have starts := ramp_starts twiddleRamMif cordicRamMif fun _ => false
  have pcm := ramp_pcm twiddleRamMif cordicRamMif fun _ => false
  rw [funext FftEngine.ramp_wide] at pcm
  have word := control.undisturbed.words starts pcm
    (control.nonzero cordicRamMif_nonzero _) (i := 0) (by decide)
  have mean := ramp_frameResult twiddleRamMif cordicRamMif (fun _ => false)
    (fun index => (index.setWidth 16 : BitVec 16).signExtend 32) 0
  rw [ramp_bins.1.1, ramp_mean.1] at mean
  exact word.write.trans (congrArg (fun result => [((0 : BitVec 7), result)]) mean)

/-- A host that looks at the last cosine again and again does nothing else than the host
that only enables the engine, and yet the mean of the ramp becomes 255 times as large. -/
theorem cosine_read_changes_mean :
    SameSurroundings (rampInputs fun _ => false) (lookInputs (fun _ => true) 0x4ff) ∧
      resultWrite (engineAt false (fun _ => 0) (fun _ => 0) twiddleRamMif cordicRamMif
        (rampInputs fun _ => false) 6126) = [(0, 8128)] ∧
      resultWrite (engineAt false (fun _ => 0) (fun _ => 0) twiddleRamMif cordicRamMif
        (lookInputs (fun _ => true) 0x4ff) 6126) = [(0, 2072671)] :=
  ⟨look_surroundings _ _ _, ramp_result, cosine_result⟩

section Glance

/-- The host that looks at the first word of the FFT cache once, during the copy. -/
def glanceAt : Nat → State :=
  stateAt false (fun _ => 0) (fun _ => 0) twiddleRamMif cordicRamMif
    (lookInputs (fun t => t == 1) 0x100)

theorem glance_reads (t : Nat) :
    (glanceAt (t + 6)).lb.lb2ram.fftRealRamRdEnOh = false ∧
      (glanceAt (t + 6)).lb.lb2ram.fftImRamRdEnOh = false ∧
      (glanceAt (t + 6)).lb.lb2ram.twiddleRamRdEnOh = false ∧
      (glanceAt (t + 6)).lb.lb2ram.cordicRamRdEnOh = false := by
  induction t with
  | zero => exact ⟨rfl, rfl, rfl, rfl⟩
  | succ t ih =>
      have still {code : BitVec 4} {rdEn : Bool} (low : rdEn = false) :
          FgyrusLb.nextRamRdEn rdEn code (glanceAt (t + 6)).lb
            (lbInputs (glanceAt (t + 6)) (lookInputs (fun t => t == 1) 0x100 (t + 6))) = false := by
        rw [FgyrusLb.nextRamRdEn, low, if_neg Bool.false_ne_true]
        exact Bool.and_false _
      obtain ⟨real, im, twiddle, cordic⟩ := ih
      exact ⟨still real, still im, still twiddle, still cordic⟩

theorem glance_early {t : Nat} (early : t < 6) :
    (glanceAt t).engine.fsm.fsmPstate = .idle ∨
      (glanceAt t).engine.fsm.fsmPstate = .decimate := by
  have same : (glanceAt t).engine.fsm.fsmPstate = _ := look_pstate _ _ twiddleRamMif cordicRamMif t
  have starts := ramp_starts twiddleRamMif cordicRamMif fun _ => false
  rw [same]
  by_cases copying : 2 ≤ t
  · obtain ⟨i, rfl⟩ := Nat.exists_eq_add_of_le copying
    exact .inr ((timed starts).copying i (by rw [copyClocks]; omega)).pstate
  · rcases Nat.le_one_iff_eq_zero_or_eq_one.mp (by omega : t ≤ 1) with rfl | rfl
    · exact .inl rfl
    · exact .inl starts.1

theorem glance_apart (t : Nat) :
    ReadsApart (glanceAt t).engine.fsm.fsmPstate (glanceAt t).lb.lb2ram := by
  by_cases early : t < 6
  · have copying := glance_early early
    constructor
    · exact fun idle decimate => absurd copying (not_or.mpr ⟨idle, decimate⟩)
    · intro fft
      rw [fft] at copying
      exact absurd copying (by decide)
    · intro pass
      rw [pass] at copying
      exact absurd copying (by decide)
  · obtain ⟨k, rfl⟩ := Nat.exists_eq_add_of_le' (Nat.le_of_not_lt early)
    obtain ⟨real, im, twiddle, cordic⟩ := glance_reads k
    exact ⟨fun _ _ => ⟨real, im⟩, fun _ => twiddle, fun _ => cordic⟩

end Glance

theorem glance_keeps_mean :
    (glanceAt 2).lb.lb2ram.fftRealRamRdEnOh = true ∧
      resultWrite (glanceAt 6126).engine = [(0, 8128)] := by
  refine ⟨rfl, ?_⟩
  have harmless := (reads_apart_harmless false false (fun _ => 0) (fun _ => 0) twiddleRamMif
    cordicRamMif (rampInputs fun _ => false) (lookInputs (fun t => t == 1) 0x100)
    (look_surroundings _ _ _)).2
  refine (harmless (fun t => ?_) glance_apart 6126).trans ramp_result
  have windows := ramp_windows t
  exact ⟨fun _ _ => ⟨windows.fftRealRd, windows.fftImRd⟩, fun _ => windows.twiddleRd,
    fun _ => windows.cordicRd⟩

end Synesthesia.FgyrusTop
