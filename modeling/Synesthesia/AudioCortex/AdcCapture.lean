/-
Capture logic of `acortex_top`.

Bit 7 of the capture counter waits for the trigger; while it is clear, the lower
bits address the word that the next ADC sample is written to.
-/

import Synesthesia.AudioCortex.AcortexLb
import Synesthesia.Rtl.Memory

namespace Synesthesia.AdcCapture

open Synesthesia.Rtl
open Synesthesia.AcortexRegMap
open Synesthesia.AcortexLb (Request Reply wrenC acortexHostRstOl)

/-! ### Capture RAM

Written in words of 32 bits and read in halves, the low half at the even address,
with registered read address and output. -/

structure AdcCapRam where
  memory : BitVec 7 → BitVec 32
  latch : BitVec 16
  q : BitVec 16

def AdcCapRam.half (memory : BitVec 7 → BitVec 32) (rdaddress : BitVec 8) : BitVec 16 :=
  let word := memory (rdaddress.extractLsb' 1 7)
  if rdaddress.getLsbD 0 then word.extractLsb' 16 16 else word.extractLsb' 0 16

structure AdcCapRam.Ports where
  data : BitVec 32
  rdaddress : BitVec 8
  wraddress : BitVec 7
  wren : Bool
  /-- Half word returned when the two ports meet. -/
  mixed : BitVec 16

def AdcCapRam.step (ram : AdcCapRam) (ports : AdcCapRam.Ports) : AdcCapRam :=
  { memory := store ram.memory ports.wren ports.wraddress ports.data
    latch :=
      if ports.wren = true ∧ ports.rdaddress.extractLsb' 1 7 = ports.wraddress then ports.mixed
      else AdcCapRam.half ram.memory ports.rdaddress
    q := ram.latch }

/-! ### Registers -/

structure State where
  lb : AcortexLb.Regs
  acortexRstLF : Bool
  adcCapCntrF : BitVec 8
  adcLcapRam : AdcCapRam
  adcRcapRam : AdcCapRam

structure Inputs where
  request : Request
  adc2fgyrusPcmValid : Bool
  adc2fgyrusLpcm : BitVec 32
  adc2fgyrusRpcm : BitVec 32
  blkI2c : Reply
  blkSram : Reply
  blkPrsr : Reply
  blkDac : Reply
  mixedL : BitVec 16
  mixedR : BitVec 16

/-- After power-up the capture RAMs may hold anything. -/
def reset (lcap rcap : AdcCapRam) : State :=
  { lb := AcortexLb.resetRegs
    acortexRstLF := false
    adcCapCntrF := 128
    adcLcapRam := lcap
    adcRcapRam := rcap }

def adcCapBusyC (state : State) : Bool := !state.adcCapCntrF.getLsbD 7

def lbInputs (state : State) (inputs : Inputs) : AcortexLb.Inputs :=
  { request := inputs.request
    adcLcapDataId := state.adcLcapRam.q
    adcRcapDataId := state.adcRcapRam.q
    adcCapBusyIh := adcCapBusyC state
    blkI2c := inputs.blkI2c
    blkSram := inputs.blkSram
    blkPrsr := inputs.blkPrsr
    blkDac := inputs.blkDac }

/-- The counter is reset as long as the internal reset is low. -/
def nextAdcCapCntr (state : State) (inputs : Inputs) : BitVec 8 :=
  if !state.acortexRstLF || !acortexHostRstOl inputs.request then 128
  else if state.adcCapCntrF.getLsbD 7 then
    BitVec.ofBool (!state.lb.adcStartCapOh) ++ (0 : BitVec 7)
  else state.adcCapCntrF + BitVec.ofNat 8 inputs.adc2fgyrusPcmValid.toNat

def capWren (state : State) (inputs : Inputs) : Bool :=
  adcCapBusyC state && inputs.adc2fgyrusPcmValid

def lcapPorts (state : State) (inputs : Inputs) : AdcCapRam.Ports :=
  { data := inputs.adc2fgyrusLpcm
    rdaddress := state.lb.adcLcapRaddrOd
    wraddress := state.adcCapCntrF.extractLsb' 0 7
    wren := capWren state inputs
    mixed := inputs.mixedL }

def rcapPorts (state : State) (inputs : Inputs) : AdcCapRam.Ports :=
  { data := inputs.adc2fgyrusRpcm
    rdaddress := state.lb.adcRcapRaddrOd
    wraddress := state.adcCapCntrF.extractLsb' 0 7
    wren := capWren state inputs
    mixed := inputs.mixedR }

def step (state : State) (inputs : Inputs) : State :=
  { lb := AcortexLb.step state.lb (lbInputs state inputs)
    acortexRstLF := acortexHostRstOl inputs.request
    adcCapCntrF := nextAdcCapCntr state inputs
    adcLcapRam := state.adcLcapRam.step (lcapPorts state inputs)
    adcRcapRam := state.adcRcapRam.step (rcapPorts state inputs) }

/-- A trigger that takes effect: it finds the capture logic out of reset and idle. -/
def triggersC (state : State) (inputs : Inputs) : Bool :=
  state.acortexRstLF && acortexHostRstOl inputs.request && state.adcCapCntrF.getLsbD 7 &&
    state.lb.adcStartCapOh

theorem triggersC_busy {state : State} {inputs : Inputs} (busy : adcCapBusyC state = true) :
    triggersC state inputs = false := by
  unfold adcCapBusyC at busy
  rw [Bool.not_eq_true'] at busy
  rw [triggersC, busy, Bool.and_false, Bool.false_and]

theorem nextAdcCapCntr_trigger {state : State} {inputs : Inputs}
    (trigger : triggersC state inputs = true) : nextAdcCapCntr state inputs = 0 := by
  unfold triggersC at trigger
  simp only [Bool.and_eq_true] at trigger
  obtain ⟨⟨⟨released, running⟩, waiting⟩, started⟩ := trigger
  unfold nextAdcCapCntr
  rw [released, running, waiting, started]
  rfl

theorem nextAdcCapCntr_waiting {state : State} {inputs : Inputs}
    (waiting : state.adcCapCntrF.getLsbD 7 = true)
    (quiet : triggersC state inputs = false) : nextAdcCapCntr state inputs = 128 := by
  unfold nextAdcCapCntr
  cases released : state.acortexRstLF with
  | false => rfl
  | true =>
      cases running : acortexHostRstOl inputs.request with
      | false => rfl
      | true =>
          rw [triggersC, released, running, waiting, Bool.true_and, Bool.true_and,
            Bool.true_and] at quiet
          rw [waiting, quiet]
          rfl

theorem nextAdcCapCntr_busy {state : State} {inputs : Inputs}
    (released : state.acortexRstLF = true) (running : acortexHostRstOl inputs.request = true)
    (busy : state.adcCapCntrF.getLsbD 7 = false) :
    nextAdcCapCntr state inputs =
      state.adcCapCntrF + BitVec.ofNat 8 inputs.adc2fgyrusPcmValid.toNat := by
  unfold nextAdcCapCntr
  rw [released, running, busy]
  rfl

/-! ### Runs -/

section Run

variable (lcap rcap : AdcCapRam) (inputs : Nat → Inputs)

def stateAt : Nat → State := run AdcCapture.step (reset lcap rcap) inputs

theorem stateAt_succ (t : Nat) :
    stateAt lcap rcap inputs (t + 1) =
      AdcCapture.step (stateAt lcap rcap inputs t) (inputs t) := rfl

def samples (first n : Nat) : List (BitVec 32 × BitVec 32) :=
  collect (fun k => strobed (inputs (first + k)).adc2fgyrusPcmValid
    ((inputs (first + k)).adc2fgyrusLpcm, (inputs (first + k)).adc2fgyrusRpcm)) n

theorem samples_succ (first n : Nat) :
    samples inputs first (n + 1) = samples inputs first n ++
      strobed (inputs (first + n)).adc2fgyrusPcmValid
        ((inputs (first + n)).adc2fgyrusLpcm, (inputs (first + n)).adc2fgyrusRpcm) := rfl

/-- No reset and no further effective trigger in the `n` clocks after `effect`. -/
def Undisturbed (effect n : Nat) : Prop :=
  ∀ k < n, acortexHostRstOl (inputs (effect + 1 + k)).request = true ∧
    triggersC (stateAt lcap rcap inputs (effect + 1 + k)) (inputs (effect + 1 + k)) = false

/-- The capture begun by the trigger of clock `effect`, `n` clocks later. -/
structure Captures (effect n : Nat) : Prop where
  released : (stateAt lcap rcap inputs (effect + 1 + n)).acortexRstLF = true
  count : (stateAt lcap rcap inputs (effect + 1 + n)).adcCapCntrF =
    BitVec.ofNat 8 (min 128 (samples inputs (effect + 1) n).length)
  words : ∀ i < 128, ∀ sample, (samples inputs (effect + 1) n)[i]? = some sample →
    (stateAt lcap rcap inputs (effect + 1 + n)).adcLcapRam.memory (BitVec.ofNat 7 i) =
        sample.1 ∧
      (stateAt lcap rcap inputs (effect + 1 + n)).adcRcapRam.memory (BitVec.ofNat 7 i) =
        sample.2

variable {lcap rcap inputs} {effect n : Nat}

theorem captures_zero
    (trigger : triggersC (stateAt lcap rcap inputs effect) (inputs effect) = true) :
    Captures lcap rcap inputs effect 0 where
  released := by
    have running := trigger
    unfold triggersC at running
    simp only [Bool.and_eq_true] at running
    exact running.1.1.2
  count := nextAdcCapCntr_trigger trigger
  words := by
    intro i _ sample none
    cases none

theorem Captures.busy_iff (captures : Captures lcap rcap inputs effect n) :
    adcCapBusyC (stateAt lcap rcap inputs (effect + 1 + n)) = true ↔
      (samples inputs (effect + 1) n).length < 128 := by
  have bit : ∀ count ≤ 128, (!(BitVec.ofNat 8 count).getLsbD 7) = true ↔ count < 128 := by
    decide
  unfold adcCapBusyC
  rw [captures.count, bit _ (Nat.min_le_left _ _)]
  omega

theorem step_memory (state : State) (inputs : Inputs) :
    (AdcCapture.step state inputs).adcLcapRam.memory =
        store state.adcLcapRam.memory (capWren state inputs)
          (state.adcCapCntrF.extractLsb' 0 7) inputs.adc2fgyrusLpcm ∧
      (AdcCapture.step state inputs).adcRcapRam.memory =
        store state.adcRcapRam.memory (capWren state inputs)
          (state.adcCapCntrF.extractLsb' 0 7) inputs.adc2fgyrusRpcm := ⟨rfl, rfl⟩

theorem samples_isPrefix (inputs : Nat → Inputs) (first n k : Nat) :
    samples inputs first n <+: samples inputs first (n + k) := collect_isPrefix _ n k

theorem samples_append (inputs : Nat → Inputs) (first n : Nat) {i : Nat}
    (early : i < (samples inputs first n).length) :
    (samples inputs first (n + 1))[i]? = (samples inputs first n)[i]? := by
  rw [samples_succ, List.getElem?_append_left early]

theorem length_samples_succ (inputs : Nat → Inputs) (first n : Nat) :
    (samples inputs first (n + 1)).length =
      (samples inputs first n).length + (inputs (first + n)).adc2fgyrusPcmValid.toNat := by
  rw [samples_succ, List.length_append, length_strobed]

theorem ofNat_seven_ne {i j : Nat} (left : i < 128) (right : j < 128) (apart : i ≠ j) :
    BitVec.ofNat 7 i ≠ BitVec.ofNat 7 j := by
  intro same
  rw [← BitVec.toNat_inj, BitVec.toNat_ofNat, BitVec.toNat_ofNat] at same
  omega

theorem Captures.rest (captures : Captures lcap rcap inputs effect n)
    (full : 128 ≤ (samples inputs (effect + 1) n).length)
    (running : acortexHostRstOl (inputs (effect + 1 + n)).request = true)
    (quiet : triggersC (stateAt lcap rcap inputs (effect + 1 + n))
      (inputs (effect + 1 + n)) = false) :
    Captures lcap rcap inputs effect (n + 1) := by
  have count := captures.count
  rw [Nat.min_eq_left full] at count
  have waiting : (stateAt lcap rcap inputs (effect + 1 + n)).adcCapCntrF.getLsbD 7 = true := by
    rw [count]
    rfl
  have off : capWren (stateAt lcap rcap inputs (effect + 1 + n)) (inputs (effect + 1 + n)) =
      false := by
    rw [capWren, adcCapBusyC, waiting]
    rfl
  have memory := step_memory (stateAt lcap rcap inputs (effect + 1 + n)) (inputs (effect + 1 + n))
  rw [off, store_false, store_false] at memory
  have longer := length_samples_succ inputs (effect + 1) n
  exact
    { released := running
      count := by
        rw [Nat.min_eq_left (by omega)]
        exact nextAdcCapCntr_waiting waiting quiet
      words := by
        intro i small sample here
        rw [samples_append inputs _ _ (by omega)] at here
        have word := captures.words i small sample here
        rw [← Nat.add_assoc, stateAt_succ, memory.1, memory.2]
        exact word }

theorem Captures.advance (captures : Captures lcap rcap inputs effect n)
    (busy : (samples inputs (effect + 1) n).length < 128)
    (running : acortexHostRstOl (inputs (effect + 1 + n)).request = true) :
    Captures lcap rcap inputs effect (n + 1) := by
  have count := captures.count
  rw [Nat.min_eq_right (by omega)] at count
  have on := captures.busy_iff.mpr busy
  have low : (stateAt lcap rcap inputs (effect + 1 + n)).adcCapCntrF.getLsbD 7 = false := by
    unfold adcCapBusyC at on
    rwa [Bool.not_eq_true'] at on
  have address : (stateAt lcap rcap inputs (effect + 1 + n)).adcCapCntrF.extractLsb' 0 7 =
      BitVec.ofNat 7 (samples inputs (effect + 1) n).length := by
    rw [count, ← BitVec.setWidth_eq_extractLsb' (by decide),
      BitVec.setWidth_ofNat_of_le (by decide)]
  have memory := step_memory (stateAt lcap rcap inputs (effect + 1 + n)) (inputs (effect + 1 + n))
  rw [address, capWren, on, Bool.true_and] at memory
  have longer := length_samples_succ inputs (effect + 1) n
  exact
    { released := running
      count := by
        rw [longer, Nat.min_eq_right, ← Nat.add_assoc, stateAt_succ]
        · exact (nextAdcCapCntr_busy captures.released running low).trans
            (by rw [count, ← BitVec.ofNat_add])
        · cases (inputs (effect + 1 + n)).adc2fgyrusPcmValid with
          | true => exact busy
          | false => exact Nat.le_of_lt busy
      words := by
        intro i small sample here
        rw [← Nat.add_assoc, stateAt_succ, memory.1, memory.2]
        rcases Nat.lt_trichotomy i (samples inputs (effect + 1) n).length with old | now | late
        · rw [samples_append inputs _ _ old] at here
          have apart := ofNat_seven_ne small busy (by omega)
          rw [store_other _ _ _ apart, store_other _ _ _ apart]
          exact captures.words i small sample here
        · subst now
          cases valid : (inputs (effect + 1 + n)).adc2fgyrusPcmValid with
          | false =>
              rw [samples_succ, valid, strobed_false, List.append_nil,
                List.getElem?_eq_none (Nat.le_refl _)] at here
              cases here
          | true =>
              rw [samples_succ, valid, strobed_true, List.getElem?_concat_length] at here
              cases here
              rw [store_same, store_same]
              exact ⟨rfl, rfl⟩
        · rw [List.getElem?_eq_none] at here
          · cases here
          · rw [longer]
            cases (inputs (effect + 1 + n)).adc2fgyrusPcmValid with
            | true => exact late
            | false => exact Nat.le_of_lt late }

theorem Captures.next (captures : Captures lcap rcap inputs effect n)
    (running : acortexHostRstOl (inputs (effect + 1 + n)).request = true)
    (quiet : triggersC (stateAt lcap rcap inputs (effect + 1 + n))
      (inputs (effect + 1 + n)) = false) :
    Captures lcap rcap inputs effect (n + 1) := by
  rcases Nat.lt_or_ge (samples inputs (effect + 1) n).length 128 with busy | full
  · exact captures.advance busy running
  · exact captures.rest full running quiet

/-- The samples behind a trigger fill the capture RAMs until there are 128. -/
theorem captures_of_trigger
    (trigger : triggersC (stateAt lcap rcap inputs effect) (inputs effect) = true) :
    ∀ n, Undisturbed lcap rcap inputs effect n → Captures lcap rcap inputs effect n := by
  intro n
  induction n with
  | zero => exact fun _ => captures_zero trigger
  | succ n ih =>
      intro alone
      have before := ih fun k inside => alone k (by omega)
      obtain ⟨running, quiet⟩ := alone n (Nat.lt_succ_self n)
      exact before.next running quiet

/-- After a trigger, no reset, and no other trigger once there are 128 samples. -/
def QuietAfter (lcap rcap : AdcCapRam) (inputs : Nat → Inputs) (effect n : Nat) : Prop :=
  ∀ k < n, acortexHostRstOl (inputs (effect + 1 + k)).request = true ∧
    (128 ≤ (samples inputs (effect + 1) k).length →
      (stateAt lcap rcap inputs (effect + 1 + k)).lb.adcStartCapOh = false)

theorem undisturbed_of_quiet
    (trigger : triggersC (stateAt lcap rcap inputs effect) (inputs effect) = true) :
    ∀ n, QuietAfter lcap rcap inputs effect n → Undisturbed lcap rcap inputs effect n := by
  intro n
  induction n with
  | zero => exact fun _ k none => absurd none (Nat.not_lt_zero k)
  | succ n ih =>
      intro quiet k inside
      have before := ih fun k earlier => quiet k (by omega)
      rcases Nat.lt_succ_iff_lt_or_eq.mp inside with earlier | rfl
      · exact before k earlier
      · obtain ⟨running, strobe⟩ := quiet k inside
        refine ⟨running, ?_⟩
        have captures := captures_of_trigger trigger k before
        rcases Nat.lt_or_ge (samples inputs (effect + 1) k).length 128 with short | full
        · exact triggersC_busy (captures.busy_iff.mpr short)
        · rw [triggersC, strobe full, Bool.and_false]

/-- The last effective trigger before clock `t`. -/
def LastTrigger (lcap rcap : AdcCapRam) (inputs : Nat → Inputs) (effect t : Nat) : Prop :=
  triggersC (stateAt lcap rcap inputs effect) (inputs effect) = true ∧
    ∃ n, t = effect + 1 + n ∧ Undisturbed lcap rcap inputs effect n

theorem LastTrigger.next {t : Nat} (last : LastTrigger lcap rcap inputs effect t)
    (running : acortexHostRstOl (inputs t).request = true)
    (quiet : triggersC (stateAt lcap rcap inputs t) (inputs t) = false) :
    LastTrigger lcap rcap inputs effect (t + 1) := by
  obtain ⟨trigger, n, rfl, alone⟩ := last
  refine ⟨trigger, n + 1, by omega, ?_⟩
  intro k inside
  rcases Nat.lt_succ_iff_lt_or_eq.mp inside with before | rfl
  · exact alone k before
  · exact ⟨running, quiet⟩

theorem LastTrigger.captures {t : Nat} (last : LastTrigger lcap rcap inputs effect t) :
    ∃ n, t = effect + 1 + n ∧ Captures lcap rcap inputs effect n := by
  obtain ⟨trigger, n, later, alone⟩ := last
  exact ⟨n, later, captures_of_trigger trigger n alone⟩

theorem lastTrigger_now {t : Nat}
    (trigger : triggersC (stateAt lcap rcap inputs t) (inputs t) = true) :
    LastTrigger lcap rcap inputs t (t + 1) :=
  ⟨trigger, 0, rfl, fun k none => absurd none (Nat.not_lt_zero k)⟩

theorem lastTrigger_on {t : Nat} (first : ∃ effect, LastTrigger lcap rcap inputs effect t) :
    ∀ later, (∀ k < later, acortexHostRstOl (inputs (t + k)).request = true) →
      ∃ effect, LastTrigger lcap rcap inputs effect (t + later) := by
  intro later
  induction later with
  | zero => exact fun _ => first
  | succ later ih =>
      intro running
      obtain ⟨effect, last⟩ := ih fun k inside => running k (by omega)
      cases trigger : triggersC (stateAt lcap rcap inputs (t + later)) (inputs (t + later)) with
      | true => exact ⟨t + later, lastTrigger_now trigger⟩
      | false => exact ⟨effect, last.next (running later (Nat.lt_succ_self later)) trigger⟩

theorem lastTrigger_of_busy :
    ∀ t, adcCapBusyC (stateAt lcap rcap inputs t) = true →
      ∃ effect, LastTrigger lcap rcap inputs effect t := by
  intro t
  induction t with
  | zero =>
      intro busy
      have idle : adcCapBusyC (stateAt lcap rcap inputs 0) = false := by
        simp [adcCapBusyC, stateAt, reset]
      rw [idle] at busy
      cases busy
  | succ t ih =>
      intro busy
      cases trigger : triggersC (stateAt lcap rcap inputs t) (inputs t) with
      | true => exact ⟨t, lastTrigger_now trigger⟩
      | false =>
          have idle : ∀ state : State, state.adcCapCntrF = 128 → adcCapBusyC state ≠ true := by
            intro state count
            rw [adcCapBusyC, count]
            decide
          cases waiting : (stateAt lcap rcap inputs t).adcCapCntrF.getLsbD 7 with
          | true => exact absurd busy (idle _ (nextAdcCapCntr_waiting waiting trigger))
          | false =>
              have before : adcCapBusyC (stateAt lcap rcap inputs t) = true := by
                rw [adcCapBusyC, waiting]
                rfl
              obtain ⟨effect, last⟩ := ih before
              cases running : acortexHostRstOl (inputs t).request with
              | true => exact ⟨effect, last.next running trigger⟩
              | false =>
                  refine absurd busy (idle _ ?_)
                  rw [stateAt_succ]
                  simp only [AdcCapture.step, nextAdcCapCntr, running, Bool.not_false,
                    Bool.or_true, reduceIte]

end Run

end Synesthesia.AdcCapture
