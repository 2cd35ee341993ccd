/-
`acortex.c`: `adc_cap` on the capture logic of the audio block.

One call writes the trigger, polls the busy flag until it reads clear, and reads
each captured word in two halves through the address register of its channel.
-/

import Synesthesia.AudioCortex.AdcCapture

namespace Synesthesia.AdcCap

open Synesthesia.Rtl
open Synesthesia.AcortexRegMap
open Synesthesia.AcortexLb (blkCode rdenC wrenC ownRdenC acortexHostRstOl)
open Synesthesia.AdcCapture

inductive Channel where
  | left
  | right
  deriving DecidableEq, Repr

namespace Channel

def blk : Channel → BitVec 4
  | left => adcLcaptureRam
  | right => adcRcaptureRam

def ram : Channel → State → AdcCapRam
  | left => State.adcLcapRam
  | right => State.adcRcapRam

def raddr : Channel → State → BitVec 8
  | left => fun state => state.lb.adcLcapRaddrOd
  | right => fun state => state.lb.adcRcapRaddrOd

def word : Channel → BitVec 32 × BitVec 32 → BitVec 32
  | left => Prod.fst
  | right => Prod.snd

end Channel

/-- A read of a register of `acortex_lb`: a pulse, with the address held until the
answer comes four clocks later. -/
def ReadsAt (inputs : Nat → Inputs) (blk : BitVec 4) (t : Nat) : Prop :=
  (inputs t).request.lbRdEnIh = true ∧ ∀ k < 4, blkCode (inputs (t + k)).request = blk

variable {lcap rcap : AdcCapRam} {inputs : Nat → Inputs}

/-- Data of the answer to a read at clock `t`. -/
def answer (lcap rcap : AdcCapRam) (inputs : Nat → Inputs) (t : Nat) : BitVec 16 :=
  (stateAt lcap rcap inputs (t + 4)).lb.lbRdDataOd

def joinHalves (low high : BitVec 16) : BitVec 32 :=
  low.setWidth 32 + (high.setWidth 32 <<< 16)

/-- One call of `adc_cap`.  Other accesses of the local bus may come in between, but
none that writes an address register in use, resets the block, or triggers again
after the capture has been found complete. -/
structure Call (lcap rcap : AdcCapRam) (inputs : Nat → Inputs) where
  triggered : Nat
  polled : Nat
  addressed : Channel → Nat → Nat
  sampled : Channel → Nat → Nat
  returned : Nat
  trigger : wrenC adcStartCapture (inputs triggered).request = true
  later : triggered < polled
  poll : ReadsAt inputs adcStartCapture polled
  complete : (answer lcap rcap inputs polled).getLsbD 0 = false
  after : ∀ channel, ∀ j < 256, polled + 4 ≤ addressed channel j
  written : ∀ channel, ∀ j < 256,
    wrenC channel.blk (inputs (addressed channel j)).request = true ∧
      (inputs (addressed channel j)).request.lbWrDataId = BitVec.ofNat 16 j
  answered : ∀ channel, ∀ j < 256, addressed channel j < sampled channel j
  kept : ∀ channel, ∀ j < 256, ∀ t, addressed channel j < t → t < sampled channel j + 3 →
    wrenC channel.blk (inputs t).request = false
  read : ∀ channel, ∀ j < 256, ReadsAt inputs channel.blk (sampled channel j)
  done : ∀ channel, ∀ j < 256, sampled channel j + 3 < returned
  running : ∀ t, triggered ≤ t → t < returned → acortexHostRstOl (inputs t).request = true
  quiet : ∀ t, polled + 2 ≤ t → t < returned →
    wrenC adcStartCapture (inputs t).request = false

def Call.bffr (call : Call lcap rcap inputs) (channel : Channel) (i : Nat) : BitVec 32 :=
  joinHalves (answer lcap rcap inputs (call.sampled channel (2 * i)))
    (answer lcap rcap inputs (call.sampled channel (2 * i + 1)))

/-! ### Reads -/

theorem lbRdDataOd_succ (t : Nat) :
    (stateAt lcap rcap inputs (t + 1)).lb.lbRdDataOd =
      AcortexLb.nextLbRdData (stateAt lcap rcap inputs t).lb
        (lbInputs (stateAt lcap rcap inputs t) (inputs t)) := rfl

theorem answer_busy {t : Nat} (reads : ReadsAt inputs adcStartCapture t) :
    answer lcap rcap inputs t =
      (BitVec.ofBool (adcCapBusyC (stateAt lcap rcap inputs (t + 3)))).setWidth 16 := by
  have code : blkCode (lbInputs (stateAt lcap rcap inputs (t + 3)) (inputs (t + 3))).request =
      adcStartCapture := reads.2 3 (by omega)
  unfold answer
  rw [lbRdDataOd_succ, AcortexLb.nextLbRdData, code]
  rfl

theorem answer_ram {t : Nat} {channel : Channel} (reads : ReadsAt inputs channel.blk t) :
    answer lcap rcap inputs t = (channel.ram (stateAt lcap rcap inputs (t + 3))).q := by
  have code : blkCode (lbInputs (stateAt lcap rcap inputs (t + 3)) (inputs (t + 3))).request =
      channel.blk := reads.2 3 (by omega)
  unfold answer
  rw [lbRdDataOd_succ, AcortexLb.nextLbRdData, code]
  cases channel with
  | left => rfl
  | right => rfl

theorem q_succ (channel : Channel) (t : Nat) :
    (channel.ram (stateAt lcap rcap inputs (t + 1))).q =
      (channel.ram (stateAt lcap rcap inputs t)).latch := by
  cases channel with
  | left => rfl
  | right => rfl

theorem latch_succ (channel : Channel) {t : Nat}
    (idle : adcCapBusyC (stateAt lcap rcap inputs t) = false) :
    (channel.ram (stateAt lcap rcap inputs (t + 1))).latch =
      AdcCapRam.half (channel.ram (stateAt lcap rcap inputs t)).memory
        (channel.raddr (stateAt lcap rcap inputs t)) := by
  have off : capWren (stateAt lcap rcap inputs t) (inputs t) = false := by
    rw [capWren, idle]
    rfl
  rw [stateAt_succ]
  cases channel with
  | left =>
      simp only [Channel.ram, Channel.raddr, AdcCapture.step, AdcCapRam.step, lcapPorts, off,
        Bool.false_eq_true, false_and, reduceIte]
  | right =>
      simp only [Channel.ram, Channel.raddr, AdcCapture.step, AdcCapRam.step, rcapPorts, off,
        Bool.false_eq_true, false_and, reduceIte]

theorem raddr_succ (channel : Channel) (t : Nat) :
    channel.raddr (stateAt lcap rcap inputs (t + 1)) =
      if wrenC channel.blk (inputs t).request then
        (inputs t).request.lbWrDataId.extractLsb' 0 8
      else channel.raddr (stateAt lcap rcap inputs t) := by
  cases channel with
  | left => rfl
  | right => rfl

theorem half_low (memory : BitVec 7 → BitVec 32) {i : Nat} (small : i < 128) :
    AdcCapRam.half memory (BitVec.ofNat 8 (2 * i)) =
      (memory (BitVec.ofNat 7 i)).extractLsb' 0 16 := by
  have address : ∀ i < 128, (BitVec.ofNat 8 (2 * i)).getLsbD 0 = false ∧
      (BitVec.ofNat 8 (2 * i)).extractLsb' 1 7 = BitVec.ofNat 7 i := by decide
  rw [AdcCapRam.half, (address i small).1, (address i small).2]
  rfl

theorem half_high (memory : BitVec 7 → BitVec 32) {i : Nat} (small : i < 128) :
    AdcCapRam.half memory (BitVec.ofNat 8 (2 * i + 1)) =
      (memory (BitVec.ofNat 7 i)).extractLsb' 16 16 := by
  have address : ∀ i < 128, (BitVec.ofNat 8 (2 * i + 1)).getLsbD 0 = true ∧
      (BitVec.ofNat 8 (2 * i + 1)).extractLsb' 1 7 = BitVec.ofNat 7 i := by decide
  rw [AdcCapRam.half, (address i small).1, (address i small).2]
  rfl

theorem joinHalves_eq (word : BitVec 32) :
    joinHalves (word.extractLsb' 0 16) (word.extractLsb' 16 16) = word := by
  have apart : (word.extractLsb' 0 16).setWidth 32 &&&
      ((word.extractLsb' 16 16).setWidth 32 <<< 16) = 0 := by
    apply BitVec.eq_of_getLsbD_eq
    intro i inside
    grind
  rw [joinHalves, BitVec.add_eq_or_of_and_eq_zero _ _ apart]
  apply BitVec.eq_of_getLsbD_eq
  intro i inside
  simp only [BitVec.getLsbD_or, BitVec.getLsbD_shiftLeft, BitVec.getLsbD_setWidth,
    BitVec.getLsbD_extractLsb']
  grind

/-! ### The call -/

namespace Call

variable (call : Call lcap rcap inputs)

theorem bounds : call.polled + 3 < call.returned := by
  have after := call.after .left 0 (by omega)
  have answered := call.answered .left 0 (by omega)
  have done := call.done .left 0 (by omega)
  omega

theorem idle : adcCapBusyC (stateAt lcap rcap inputs (call.polled + 3)) = false := by
  have complete := call.complete
  rw [answer_busy call.poll] at complete
  cases busy : adcCapBusyC (stateAt lcap rcap inputs (call.polled + 3)) with
  | false => rfl
  | true =>
      rw [busy] at complete
      exact absurd complete (by decide)

theorem strobe_low {t : Nat} (after : call.polled + 3 ≤ t) (before : t ≤ call.returned) :
    (stateAt lcap rcap inputs t).lb.adcStartCapOh = false := by
  obtain ⟨k, rfl⟩ := Nat.exists_eq_add_of_le after
  have quiet := call.quiet (call.polled + 2 + k) (by omega) (by omega)
  rw [show call.polled + 3 + k = call.polled + 2 + k + 1 by omega, stateAt_succ]
  simp only [AdcCapture.step, AcortexLb.step, lbInputs, quiet, Bool.false_and]

theorem no_trigger {t : Nat} (after : call.polled + 3 ≤ t) (before : t ≤ call.returned) :
    triggersC (stateAt lcap rcap inputs t) (inputs t) = false := by
  rw [triggersC, call.strobe_low after before, Bool.and_false]

theorem strobe_released {t : Nat}
    (strobe : (stateAt lcap rcap inputs t).lb.adcStartCapOh = true) :
    (stateAt lcap rcap inputs t).acortexRstLF = true := by
  cases t with
  | zero => cases strobe
  | succ t =>
      have written : wrenC adcStartCapture (inputs t).request = true := by
        rw [stateAt_succ] at strobe
        simp only [AdcCapture.step, AcortexLb.step, Bool.and_eq_true] at strobe
        exact strobe.1
      have code : blkCode (inputs t).request = adcStartCapture := by
        rw [wrenC, Bool.and_eq_true] at written
        exact beq_iff_eq.mp written.2
      rw [stateAt_succ]
      simp only [AdcCapture.step, acortexHostRstOl, code]
      rfl

/-- The trigger of the call is either taken at once or met by a capture going on. -/
theorem begun : ∃ effect, LastTrigger lcap rcap inputs effect (call.triggered + 2) := by
  have bounds := call.bounds
  have later := call.later
  have running := call.running call.triggered (Nat.le_refl _) (by omega)
  have next := call.running (call.triggered + 1) (by omega) (by omega)
  have taken : ∀ t, (stateAt lcap rcap inputs t).lb.adcStartCapOh = true →
      acortexHostRstOl (inputs t).request = true →
      ∃ effect, LastTrigger lcap rcap inputs effect (t + 1) := by
    intro t strobe released
    cases trigger : triggersC (stateAt lcap rcap inputs t) (inputs t) with
    | true => exact ⟨t, lastTrigger_now trigger⟩
    | false =>
        have busy : adcCapBusyC (stateAt lcap rcap inputs t) = true := by
          rw [triggersC, strobe_released strobe, released, strobe, Bool.and_true,
            Bool.true_and, Bool.true_and] at trigger
          rw [adcCapBusyC, trigger]
          rfl
        obtain ⟨effect, last⟩ := lastTrigger_of_busy t busy
        exact ⟨effect, last.next released trigger⟩
  have strobe : (stateAt lcap rcap inputs (call.triggered + 1)).lb.adcStartCapOh =
      !(stateAt lcap rcap inputs call.triggered).lb.adcStartCapOh := by
    rw [stateAt_succ]
    simp only [AdcCapture.step, AcortexLb.step, lbInputs, call.trigger, Bool.true_and]
  cases before : (stateAt lcap rcap inputs call.triggered).lb.adcStartCapOh with
  | false =>
      rw [before] at strobe
      exact taken (call.triggered + 1) strobe next
  | true =>
      have first := taken call.triggered before running
      exact lastTrigger_on first 1 fun k inside => by
        rw [Nat.lt_one_iff.mp inside]
        exact next

theorem last : ∃ effect, LastTrigger lcap rcap inputs effect (call.polled + 3) := by
  have bounds := call.bounds
  obtain ⟨gap, later⟩ := Nat.exists_eq_add_of_lt call.later
  rw [show call.polled + 3 = call.triggered + 2 + (gap + 2) by omega]
  exact lastTrigger_on call.begun _ fun k inside =>
    call.running _ (by omega) (by omega)

theorem last_on {effect : Nat} (last : LastTrigger lcap rcap inputs effect (call.polled + 3)) :
    ∀ k, call.polled + 3 + k ≤ call.returned →
      LastTrigger lcap rcap inputs effect (call.polled + 3 + k) := by
  intro k
  induction k with
  | zero => exact fun _ => last
  | succ k ih =>
      intro inside
      have later := call.later
      exact (ih (by omega)).next (call.running _ (by omega) (by omega))
        (call.no_trigger (by omega) (by omega))

/-- The 128 samples the poll has found are in the RAMs as long as the call runs. -/
theorem stored {effect n : Nat} (last : LastTrigger lcap rcap inputs effect (call.polled + 3))
    (here : call.polled + 3 = effect + 1 + n) {i : Nat} (small : i < 128) :
    ∃ sample, (samples inputs (effect + 1) n)[i]? = some sample ∧
      ∀ k channel, call.polled + 3 + k ≤ call.returned →
        (Channel.ram channel (stateAt lcap rcap inputs (call.polled + 3 + k))).memory
          (BitVec.ofNat 7 i) = channel.word sample := by
  obtain ⟨n', same, captures⟩ := last.captures
  obtain rfl : n' = n := by omega
  have full : i < (samples inputs (effect + 1) n').length := by
    have idle := call.idle
    rw [same, ← Bool.not_eq_true, captures.busy_iff] at idle
    omega
  refine ⟨_, List.getElem?_eq_getElem full, ?_⟩
  intro k channel inside
  obtain ⟨m, later, kept⟩ := (call.last_on last k inside).captures
  obtain rfl : m = n' + k := by omega
  have prefixed : (samples inputs (effect + 1) (n' + k))[i]? =
      some ((samples inputs (effect + 1) n')[i]) := by
    obtain ⟨rest, whole⟩ := samples_isPrefix inputs (effect + 1) n' k
    rw [← whole, List.getElem?_append_left full]
    exact List.getElem?_eq_getElem full
  have words := kept.words i small _ prefixed
  rw [later]
  cases channel with
  | left => exact words.1
  | right => exact words.2

theorem raddr_held (channel : Channel) {j : Nat} (small : j < 256) :
    ∀ k, call.addressed channel j + 1 + k ≤ call.sampled channel j + 3 →
      channel.raddr (stateAt lcap rcap inputs (call.addressed channel j + 1 + k)) =
        BitVec.ofNat 8 j := by
  intro k
  induction k with
  | zero =>
      intro _
      obtain ⟨write, data⟩ := call.written channel j small
      rw [Nat.add_zero, raddr_succ, if_pos write, data,
        ← BitVec.setWidth_eq_extractLsb' (by decide), BitVec.setWidth_ofNat_of_le (by decide)]
  | succ k ih =>
      intro inside
      have kept := call.kept channel j small (call.addressed channel j + 1 + k) (by omega)
        (by omega)
      rw [← Nat.add_assoc, raddr_succ, kept, if_neg Bool.false_ne_true]
      exact ih (by omega)

theorem idle_on {t : Nat} (after : call.polled + 3 ≤ t) (inside : t ≤ call.returned) :
    adcCapBusyC (stateAt lcap rcap inputs t) = false := by
  obtain ⟨k, rfl⟩ := Nat.exists_eq_add_of_le after
  induction k with
  | zero => exact call.idle
  | succ k ih =>
      have before := ih (by omega) (by omega)
      have waiting : (stateAt lcap rcap inputs (call.polled + 3 + k)).adcCapCntrF.getLsbD 7 =
          true := by
        unfold adcCapBusyC at before
        rwa [Bool.not_eq_false'] at before
      have count : (stateAt lcap rcap inputs (call.polled + 3 + (k + 1))).adcCapCntrF = 128 :=
        nextAdcCapCntr_waiting waiting
          (call.no_trigger (t := call.polled + 3 + k) (by omega) (by omega))
      rw [adcCapBusyC, count]
      rfl

theorem answer_half (channel : Channel) {j : Nat} (small : j < 256) :
    ∃ k, call.polled + 3 + k ≤ call.returned ∧
      answer lcap rcap inputs (call.sampled channel j) =
        AdcCapRam.half (Channel.ram channel (stateAt lcap rcap inputs (call.polled + 3 + k))).memory
          (BitVec.ofNat 8 j) := by
  have after := call.after channel j small
  have answered := call.answered channel j small
  have done := call.done channel j small
  have address := call.raddr_held channel small (call.sampled channel j - call.addressed channel j)
    (by omega)
  rw [show call.addressed channel j + 1 + (call.sampled channel j - call.addressed channel j) =
    call.sampled channel j + 1 by omega] at address
  refine ⟨call.sampled channel j + 1 - (call.polled + 3), by omega, ?_⟩
  rw [answer_ram (call.read channel j small), q_succ channel, latch_succ channel, address,
    Nat.add_sub_cancel' (by omega)]
  exact call.idle_on (by omega) (by omega)

theorem bffr_eq {effect n : Nat}
    (last : LastTrigger lcap rcap inputs effect (call.polled + 3))
    (here : call.polled + 3 = effect + 1 + n) {i : Nat} (small : i < 128) :
    (samples inputs (effect + 1) n)[i]? =
      some (call.bffr .left i, call.bffr .right i) := by
  obtain ⟨sample, there, stored⟩ := call.stored last here small
  have word : ∀ channel, call.bffr channel i = channel.word sample := by
    intro channel
    obtain ⟨first, insideFirst, low⟩ := call.answer_half channel (by omega : 2 * i < 256)
    obtain ⟨second, insideSecond, high⟩ :=
      call.answer_half channel (by omega : 2 * i + 1 < 256)
    rw [bffr, low, high, half_low _ small, half_high _ small,
      stored first channel insideFirst, stored second channel insideSecond, joinHalves_eq]
  rw [there, word .left, word .right]
  rfl

end Call

/-! ### Captures are contiguous -/

/-- What every run of the capture logic does.  A call of `adc_cap` returns the first
128 samples after the last trigger that found the logic idle; and from such a trigger
on, whatever other triggers come during the capture, the logic is busy until 128
samples have come and the words behind them do not change. -/
theorem adc_capture (lcap rcap : AdcCapRam) (inputs : Nat → Inputs) :
    (∀ call : Call lcap rcap inputs, ∃ effect n,
      call.polled + 3 = effect + 1 + n ∧
        LastTrigger lcap rcap inputs effect (call.polled + 3) ∧
        ∀ i < 128, (samples inputs (effect + 1) n)[i]? =
          some (call.bffr .left i, call.bffr .right i)) ∧
    ∀ effect n, triggersC (stateAt lcap rcap inputs effect) (inputs effect) = true →
      QuietAfter lcap rcap inputs effect n →
        (adcCapBusyC (stateAt lcap rcap inputs (effect + 1 + n)) = true ↔
          (samples inputs (effect + 1) n).length < 128) ∧
        ∀ i < 128, ∀ sample, (samples inputs (effect + 1) n)[i]? = some sample →
          (stateAt lcap rcap inputs (effect + 1 + n)).adcLcapRam.memory (BitVec.ofNat 7 i) =
              sample.1 ∧
            (stateAt lcap rcap inputs (effect + 1 + n)).adcRcapRam.memory
              (BitVec.ofNat 7 i) = sample.2 := by
  constructor
  · intro call
    obtain ⟨effect, last⟩ := call.last
    obtain ⟨n, here, -⟩ := last.captures
    exact ⟨effect, n, here, last, fun i small => call.bffr_eq last here small⟩
  · intro effect n trigger quiet
    have captures := captures_of_trigger trigger n (undisturbed_of_quiet trigger n quiet)
    exact ⟨captures.busy_iff, captures.words⟩

/-! ### A call with a sample in every clock -/

/-- The block is triggered in clock 1, polled in clock 200, and read from clock 300 on
the left channel and from clock 3000 on the right one. -/
def steadyInputs (t : Nat) : Inputs :=
  { request :=
      { lbRdEnIh := decide (t = 200 ∨ (300 ≤ t ∧ t % 8 = 0))
        lbWrEnIh := decide (t = 1 ∨ (300 ≤ t ∧ t % 8 = 4))
        lbAddrId := if t < 300 then 0x600 else if t < 3000 then 0x400 else 0x500
        lbWrDataId :=
          if t < 3000 then BitVec.ofNat 16 ((t - 300) / 8)
          else BitVec.ofNat 16 ((t - 3004) / 8) }
    adc2fgyrusPcmValid := true
    adc2fgyrusLpcm := BitVec.ofNat 32 t
    adc2fgyrusRpcm := BitVec.ofNat 32 (2 * t)
    blkI2c := ⟨false, false, 0⟩
    blkSram := ⟨false, false, 0⟩
    blkPrsr := ⟨false, false, 0⟩
    blkDac := ⟨false, false, 0⟩
    mixedL := 0
    mixedR := 0 }

def blankRam : AdcCapRam :=
  { memory := fun _ => 0
    latch := 0
    q := 0 }

theorem steady_code (t : Nat) :
    blkCode (steadyInputs t).request =
      if t < 300 then adcStartCapture else if t < 3000 then adcLcaptureRam
      else adcRcaptureRam := by
  have trigger : (0x600 : BitVec 12).extractLsb' 8 4 = adcStartCapture := by decide
  have left : (0x400 : BitVec 12).extractLsb' 8 4 = adcLcaptureRam := by decide
  have right : (0x500 : BitVec 12).extractLsb' 8 4 = adcRcaptureRam := by decide
  unfold steadyInputs blkCode
  split
  · exact trigger
  · split
    · exact left
    · exact right

theorem steady_running (t : Nat) : acortexHostRstOl (steadyInputs t).request = true := by
  have other : blkCode (steadyInputs t).request ≠ AcortexRegMap.reset := by
    rw [steady_code]
    split
    · decide
    · split
      · decide
      · decide
  rw [acortexHostRstOl, if_neg other]

def steadyStart : Channel → Nat
  | .left => 300
  | .right => 3004

theorem steady_blk (channel : Channel) {t : Nat} (after : steadyStart channel ≤ t)
    (before : t < steadyStart channel + 2048) :
    blkCode (steadyInputs t).request = channel.blk := by
  rw [steady_code]
  cases channel with
  | left =>
      simp only [steadyStart] at after before
      rw [if_neg (by omega), if_pos (by omega)]
      rfl
  | right =>
      simp only [steadyStart] at after before
      rw [if_neg (by omega), if_neg (by omega)]
      rfl

theorem steady_write (t : Nat) (code : BitVec 4) (later : 300 ≤ t) :
    wrenC code (steadyInputs t).request =
      (decide (t % 8 = 4) && (blkCode (steadyInputs t).request == code)) := by
  have write : (steadyInputs t).request.lbWrEnIh = decide (t % 8 = 4) := by
    unfold steadyInputs
    apply decide_eq_decide.mpr
    omega
  rw [wrenC, AcortexLb.selC, write]

theorem steady_data (t : Nat) :
    (steadyInputs t).request.lbWrDataId =
      if t < 3000 then BitVec.ofNat 16 ((t - 300) / 8)
      else BitVec.ofNat 16 ((t - 3004) / 8) := rfl

def steadyCall : Call blankRam blankRam steadyInputs where
  triggered := 1
  polled := 200
  addressed := fun channel j => steadyStart channel + 8 * j
  sampled := fun channel j => steadyStart channel + 4 + 8 * j
  returned := 6000
  trigger := rfl
  later := by omega
  poll := by
    refine ⟨rfl, ?_⟩
    intro k inside
    rw [steady_code, if_pos (by omega)]
  complete := by
    decide +kernel
  after := by
    intro channel j _
    cases channel with
    | left => exact Nat.le_trans (by decide) (Nat.le_add_right 300 _)
    | right => exact Nat.le_trans (by decide) (Nat.le_add_right 3004 _)
  written := by
    intro channel j small
    have code := steady_blk channel (t := steadyStart channel + 8 * j) (by omega) (by omega)
    cases channel with
    | left =>
        simp only [steadyStart] at code ⊢
        rw [steady_write _ _ (by omega), code, decide_eq_true (by omega)]
        refine ⟨rfl, ?_⟩
        rw [steady_data, if_pos (by omega)]
        congr 1
        omega
    | right =>
        simp only [steadyStart] at code ⊢
        rw [steady_write _ _ (by omega), code, decide_eq_true (by omega)]
        refine ⟨rfl, ?_⟩
        rw [steady_data, if_neg (by omega)]
        congr 1
        omega
  answered := by
    intro channel j _
    omega
  kept := by
    intro channel j _ t after before
    have phase : t % 8 ≠ 4 := by
      cases channel with
      | left =>
          simp only [steadyStart] at after before
          omega
      | right =>
          simp only [steadyStart] at after before
          omega
    have later : 300 ≤ t := by
      cases channel with
      | left =>
          simp only [steadyStart] at after
          omega
      | right =>
          simp only [steadyStart] at after
          omega
    rw [steady_write _ _ later, decide_eq_false phase, Bool.false_and]
  read := by
    intro channel j small
    refine ⟨?_, fun k inside => steady_blk channel (by omega) (by omega)⟩
    cases channel with
    | left => exact decide_eq_true (by simp only [steadyStart]; omega)
    | right => exact decide_eq_true (by simp only [steadyStart]; omega)
  done := by
    intro channel j _
    cases channel with
    | left =>
        simp only [steadyStart]
        omega
    | right =>
        simp only [steadyStart]
        omega
  running := fun t _ _ => steady_running t
  quiet := by
    intro t after _
    rcases Nat.lt_or_ge t 300 with early | late
    · have off : (steadyInputs t).request.lbWrEnIh = false := decide_eq_false (by omega)
      rw [wrenC, off, Bool.false_and]
    · have other : (blkCode (steadyInputs t).request == adcStartCapture) = false := by
        rw [steady_code, if_neg (by omega)]
        split
        · rfl
        · rfl
      rw [steady_write _ _ late, other, Bool.and_false]

theorem steady_samples (n : Nat) :
    samples steadyInputs 3 n =
      (List.range n).map fun k => (BitVec.ofNat 32 (3 + k), BitVec.ofNat 32 (2 * (3 + k))) := by
  induction n with
  | zero => rfl
  | succ n ih =>
      rw [samples_succ, ih, List.range_succ, List.map_append]
      rfl

theorem steady_quiet : QuietAfter blankRam blankRam steadyInputs 2 150 := by
  have untriggered : ∀ k < 150,
      (stateAt blankRam blankRam steadyInputs (2 + 1 + k)).lb.adcStartCapOh = false := by
    decide +kernel
  exact fun k inside => ⟨steady_running _, fun _ => untriggered k inside⟩

theorem adc_capture_steady :
    (∃ effect n, 203 = effect + 1 + n ∧
      LastTrigger blankRam blankRam steadyInputs effect 203 ∧
      ∀ i < 128, (samples steadyInputs (effect + 1) n)[i]? =
        some (steadyCall.bffr .left i, steadyCall.bffr .right i)) ∧
    adcCapBusyC (stateAt blankRam blankRam steadyInputs 153) = false ∧
      ∀ i < 128,
        (stateAt blankRam blankRam steadyInputs 153).adcLcapRam.memory (BitVec.ofNat 7 i) =
            BitVec.ofNat 32 (3 + i) ∧
          (stateAt blankRam blankRam steadyInputs 153).adcRcapRam.memory (BitVec.ofNat 7 i) =
            BitVec.ofNat 32 (2 * (3 + i)) := by
  obtain ⟨calls, runs⟩ := adc_capture blankRam blankRam steadyInputs
  obtain ⟨busy, words⟩ := runs 2 150 (by decide +kernel) steady_quiet
  refine ⟨calls steadyCall, ?_, fun i inside =>
    words i inside (BitVec.ofNat 32 (3 + i), BitVec.ofNat 32 (2 * (3 + i))) ?_⟩
  · rw [steady_samples, List.length_map, List.length_range] at busy
    exact Bool.eq_false_iff.mpr fun still => absurd (busy.mp still) (by omega)
  · rw [steady_samples, List.getElem?_map, List.getElem?_range (by omega)]
    rfl

end Synesthesia.AdcCap
