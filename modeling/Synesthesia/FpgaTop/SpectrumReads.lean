/-
The spectra as the software sees them.

Between two ABS passes the result memories of both channels keep the magnitudes of their
frames, and `read_fft_cache` copies them, whatever the ratio of the clocks of the engines
and the bus is.
-/

import Synesthesia.Avalon.FftCacheReads
import Synesthesia.FusiformGyrus.FrameResults

namespace Synesthesia.SpectrumReads

open Synesthesia.Rtl
open Synesthesia.Prog
open Synesthesia.FftEngine
open Synesthesia.FftCacheMmSl (Clock Prompt mmAddr readerAt)
open Synesthesia.FgyrusTop (Undisturbed engineAt engineInputsAt frameResult)
open Synesthesia.Sunshine (FftBffrs readFftCache)

/-- A frame of an undisturbed run of `fgyrus_top`, and its result memory. -/
structure FrameRun where
  sampleRealIsZero3d : Bool
  real : BitVec 7 → BitVec 32
  im : BitVec 7 → BitVec 32
  twiddle : BitVec 7 → BitVec 32
  cordic : BitVec 8 → BitVec 16
  inputs : Nat → FgyrusTop.Inputs
  undisturbed : Undisturbed sampleRealIsZero3d real im twiddle cordic inputs
  start : Nat
  starts : Starts (engineAt sampleRealIsZero3d real im twiddle cordic inputs)
    (engineInputsAt sampleRealIsZero3d real im twiddle cordic inputs) start
  samples : BitVec 7 → BitVec 32
  pcm : PcmRam
    (fun i => engineAt sampleRealIsZero3d real im twiddle cordic inputs (start + 1 + i))
    (fun i => engineInputsAt sampleRealIsZero3d real im twiddle cordic inputs (start + 1 + i))
    samples
  nonzero : ∀ address, (FgyrusTop.stateAt sampleRealIsZero3d real im twiddle cordic inputs
    (start + 1)).cordicRam.memory address ≠ 0
  contents : BitVec 7 → BitVec 32

namespace FrameRun

variable (frame : FrameRun)

def engine : Nat → FftEngine.State :=
  engineAt frame.sampleRealIsZero3d frame.real frame.im frame.twiddle frame.cordic frame.inputs

def ram : Nat → BitVec 7 → BitVec 32 := resultRam frame.contents frame.engine

def result : Nat → BitVec 32 :=
  frameResult frame.sampleRealIsZero3d frame.real frame.im frame.twiddle frame.cordic frame.inputs
    frame.start frame.samples

/-- The frame is over and no later one has got to its ABS pass before this clock. -/
structure Settled (clock : Nat) : Prop where
  done : frame.start + 1 + busyClocks < clock
  rests : ∀ k, frame.start + 1 + busyClocks ≤ k → k < clock →
    (frame.engine k).fsm.fsmPstate ≠ .abs

/-- What a read port returns at the edges of the bus clock, when so many clocks of the
engine have passed: the word of the memory, unless the engine is writing. -/
def Sees (clocks : Nat → Nat) (port : Nat → BitVec 7 → BitVec 32) : Prop :=
  ∀ t address, (frame.engine (clocks t)).fsm.fftResWrEnOh = false →
    port t address = frame.ram (clocks t) address

variable {frame}

theorem Settled.ram_eq {clock : Nat} (settled : frame.Settled clock) (address : BitVec 7) :
    frame.ram clock address = frame.result address.toNat := by
  have done := settled.done
  obtain ⟨gap, rfl⟩ := Nat.exists_eq_add_of_lt done
  rw [Nat.add_right_comm]
  exact frame.undisturbed.resultRam_kept frame.starts frame.pcm frame.nonzero frame.contents address
    gap fun k before => settled.rests _ (Nat.le_add_right _ _) (by omega)

theorem Settled.silent {clock : Nat} (settled : frame.Settled clock) :
    (frame.engine clock).fsm.fftResWrEnOh = false := by
  have done := settled.done
  obtain ⟨gap, rfl⟩ := Nat.exists_eq_add_of_lt done
  exact (FgyrusTop.engine_runs _ _ _ _ _ _).resultIdle
    (settled.rests _ (Nat.le_add_right _ _) (Nat.lt_succ_self _))

end FrameRun

theorem addresses : ∀ i < 128,
    (mmAddr (((BitVec.ofNat 8 i).setWidth 32 + Sunshine.fftRcacheBase) <<< 4)).getLsbD 9 = false ∧
      (mmAddr (((BitVec.ofNat 8 i).setWidth 32 + Sunshine.fftLcacheBase) <<< 4)).getLsbD 9 = true ∧
      (mmAddr (((BitVec.ofNat 8 i).setWidth 32 + Sunshine.fftRcacheBase) <<< 4)).extractLsb' 2 7 =
        BitVec.ofNat 7 i ∧
      (mmAddr (((BitVec.ofNat 8 i).setWidth 32 + Sunshine.fftLcacheBase) <<< 4)).extractLsb' 2 7 =
        BitVec.ofNat 7 i := by
  decide +kernel

/-- The words at the addresses of the bus, when the memories hold both results. -/
def cached (lchnl rchnl : Nat → BitVec 32) (addr : BitVec 32) : BitVec 32 :=
  if (mmAddr addr).getLsbD 9 then lchnl ((mmAddr addr).extractLsb' 2 7).toNat
  else rchnl ((mmAddr addr).extractLsb' 2 7).toNat

theorem filled_cached {lchnl rchnl : Nat → BitVec 32} {num : Nat} (inside : num ≤ 128)
    {bffrs : FftBffrs} (filled : Sunshine.Filled (cached lchnl rchnl) num bffrs) {i : BitVec 8}
    (before : i.toNat < num) :
    bffrs.lfftBffr i = lchnl i.toNat ∧ bffrs.rfftBffr i = rchnl i.toNat := by
  obtain ⟨right, left, rightPlace, leftPlace⟩ := addresses i.toNat (by omega)
  obtain ⟨rword, lword⟩ := filled i before
  rw [BitVec.ofNat_toNat, BitVec.setWidth_eq] at right left rightPlace leftPlace
  have place : (BitVec.ofNat 7 i.toNat).toNat = i.toNat := by
    rw [BitVec.toNat_ofNat]
    omega
  rw [lword, rword, cached, cached, left, right, rightPlace, leftPlace, if_pos rfl,
    if_neg Bool.false_ne_true, place]
  exact ⟨rfl, rfl⟩

/-- While both result memories rest, `read_fft_cache` is done in time, and leaves the
magnitudes of both frames in its buffers. -/
theorem spectrum_read (lchnl rchnl : FrameRun) (clocks : Nat → Nat) (env : Nat → Clock)
    (seesLeft : lchnl.Sees clocks fun t => (env t).lchnl)
    (seesRight : rchnl.Sees clocks fun t => (env t).rchnl) (last : Nat)
    (settled : ∀ t < last, lchnl.Settled (clocks t) ∧ rchnl.Settled (clocks t)) (patience : Nat)
    (prompt : Prompt patience env) (num : BitVec 8) (inside : num.toNat ≤ 128)
    (window : 2 * num.toNat * (patience + 3) ≤ last) (slave : FftCacheMmSl.State)
    (empty : slave.pstVecF = 0) (bffrs : FftBffrs) :
    ∃ spectra : FftBffrs,
      (∀ t, 2 * num.toNat * (patience + 3) < t →
        (readerAt
          { slave := slave
            host :=
              { program := readFftCache num bffrs
                waiting := false } }
          env t).host.program = .done spectra) ∧
      ∀ i : BitVec 8, i.toNat < num.toNat →
        spectra.lfftBffr i = lchnl.result i.toNat ∧ spectra.rfftBffr i = rchnl.result i.toNat := by
  have words : ∀ t < last, ∀ addr, (env t).word addr = cached lchnl.result rchnl.result addr := by
    intro t before addr
    obtain ⟨left, right⟩ := settled t before
    have lword (address : BitVec 7) : (env t).lchnl address = lchnl.result address.toNat :=
      (seesLeft t address left.silent).trans (left.ram_eq address)
    have rword (address : BitVec 7) : (env t).rchnl address = rchnl.result address.toNat :=
      (seesRight t address right.silent).trans (right.ram_eq address)
    rw [FftCacheMmSl.Clock.word, cached, lword, rword]
  obtain ⟨spectra, filled, done⟩ := FftCacheMmSl.reads_done prompt words
    (Sunshine.readPasses_atMost num.toNat 0 bffrs) (Sunshine.readFftCache_ensures num bffrs)
    (FftCacheMmSl.Ready.start empty (readFftCache num bffrs)) window
  exact ⟨spectra, done, fun i before => filled_cached inside filled before⟩

/-! ### The spectrum of a ramp -/

/-- A frame in which the PCM RAM answers with its addresses. -/
def rampRun : FrameRun :=
  { sampleRealIsZero3d := false
    real := fun _ => 0
    im := fun _ => 0
    twiddle := fun _ => 0x01000000
    cordic := fun _ => 1
    inputs := FgyrusTop.rampInputs fun _ => false
    undisturbed := (FgyrusTop.ramp_control _).undisturbed
    start := 1
    starts := FgyrusTop.ramp_starts _ _ _
    samples := fun index => index.setWidth 32
    pcm := FgyrusTop.ramp_pcm _ _ _
    nonzero := (FgyrusTop.ramp_control _).nonzero (by decide) _
    contents := fun _ => 0 }

theorem rampRun_settled : rampRun.Settled (1 + 1 + busyClocks + 1) := by
  refine
    { done := Nat.lt_succ_self _
      rests := fun k after before => ?_ }
  obtain rfl : k = 1 + 1 + busyClocks := Nat.le_antisymm (Nat.le_of_lt_succ before) after
  have idle : (rampRun.engine (1 + 1 + busyClocks)).fsm.fsmPstate = .idle :=
    (FgyrusTop.timed rampRun.starts).idle
  rw [idle]
  exact FgyrusFsm.Pstate.noConfusion

/-- The bus reads between two clocks of the engines. -/
def betweenClocks (clock : Nat) (_ : Nat) : Clock :=
  { host :=
      { go := true
        idleAddr := 0
        idleData := 0 }
    lchnl := rampRun.ram clock
    rchnl := rampRun.ram clock }

theorem betweenClocks_sees (clock : Nat) :
    rampRun.Sees (fun _ => clock) (fun t => (betweenClocks clock t).lchnl) ∧
      rampRun.Sees (fun _ => clock) (fun t => (betweenClocks clock t).rchnl) :=
  ⟨fun _ _ _ => rfl, fun _ _ _ => rfl⟩

theorem spectrum_read_ramp :
    ∃ spectra : FftBffrs,
      (∀ t, 2 * (128 : BitVec 8).toNat * (0 + 3) < t →
        (readerAt
          { slave := FftCacheMmSl.reset (fun _ => 0) (fun _ => 0)
            host :=
              { program := readFftCache 128 { lfftBffr := fun _ => 0, rfftBffr := fun _ => 0 }
                waiting := false } }
          (betweenClocks (1 + 1 + busyClocks + 1)) t).host.program = .done spectra) ∧
      ∀ i : BitVec 8, i.toNat < (128 : BitVec 8).toNat →
        spectra.lfftBffr i = rampRun.result i.toNat ∧
          spectra.rfftBffr i = rampRun.result i.toNat := by
  have settled := rampRun_settled
  generalize 1 + 1 + busyClocks + 1 = clock at settled ⊢
  obtain ⟨left, right⟩ := betweenClocks_sees clock
  exact spectrum_read rampRun rampRun (fun _ => clock) (betweenClocks clock) left right 768
    (fun _ _ => ⟨settled, settled⟩) 0 (fun _ => ⟨0, Nat.le_refl _, rfl⟩) 128 (by decide) (by decide)
    (FftCacheMmSl.reset (fun _ => 0) (fun _ => 0)) rfl
    { lfftBffr := fun _ => 0, rfftBffr := fun _ => 0 }

end Synesthesia.SpectrumReads
