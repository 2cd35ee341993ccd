/-
The PCM FIFOs of `acortex_top` between the WAV parser and the codec driver.

The SRAM behind the arbiter is part of the surroundings here: when words are
there and what they are is an input.  The parser stops asking at 192 words; what
it asked for before that still comes, at most one word in each of the four stages
between a request and a write.
-/

import Synesthesia.Rtl.ShowAheadFifo
import Synesthesia.AudioCortex.SramArb
import Synesthesia.AudioCortex.WavDecode
import Synesthesia.AudioCortex.DacFrame

namespace Synesthesia.PcmPlay

open Synesthesia.Rtl

structure State where
  arb : SramArb.Regs
  prsr : WavPrsr.Regs
  pcmFfLchnl : ShowAheadFifo 8 32
  pcmFfRchnl : ShowAheadFifo 8 32
  dac : Wm8731DrvrDac.State

structure Inputs where
  lbStDataId : BitVec 16
  lbStValidIh : Bool
  lbMmRdEnIh : Bool
  lbMmWrEnIh : Bool
  lbMmAddrId : BitVec 18
  lbMmWrDataId : BitVec 16
  sramFfRdAddrId : BitVec 18
  sramFfWrAddrId : BitVec 18
  sramFfFullIh : Bool
  sramFfEmptyIh : Bool
  sramRdDataId : BitVec 16
  blkPrsrRdEn : Bool
  blkPrsrWrEn : Bool
  blkDacRdEn : Bool
  blkDacWrEn : Bool
  blkAddr : BitVec 8
  blkWrData : BitVec 16
  hdrRamMixed : BitVec 16
  audAdcDatId : Bool

def reset (header : BitVec 8 → BitVec 16) (left right : BitVec 8 → BitVec 32) : State :=
  { arb := SramArb.reset
    prsr := WavPrsr.reset header
    pcmFfLchnl := ShowAheadFifo.init left
    pcmFfRchnl := ShowAheadFifo.init right
    dac := Wm8731DrvrDac.reset }

/-- The two highest bits of a word count. -/
def almostFull (usedw : BitVec 8) : Bool := usedw.extractLsb' 6 2 == BitVec.allOnes 2

def pcmFfAfullC (state : State) : Bool :=
  almostFull state.pcmFfRchnl.usedw || almostFull state.pcmFfLchnl.usedw

def pcmFfDacDataValidC (state : State) : Bool :=
  !(state.pcmFfRchnl.empty || state.pcmFfLchnl.empty)

def arbInputs (state : State) (inputs : Inputs) : SramArb.Inputs :=
  { lbStDataId := inputs.lbStDataId
    lbStValidIh := inputs.lbStValidIh
    lbMmRdEnIh := inputs.lbMmRdEnIh
    lbMmWrEnIh := inputs.lbMmWrEnIh
    lbMmAddrId := inputs.lbMmAddrId
    lbMmWrDataId := inputs.lbMmWrDataId
    imRdReqIh := WavPrsr.sramRdEnOh state.prsr (pcmFfAfullC state)
    sramFfRdAddrId := inputs.sramFfRdAddrId
    sramFfWrAddrId := inputs.sramFfWrAddrId
    sramFfFullIh := inputs.sramFfFullIh
    sramFfEmptyIh := inputs.sramFfEmptyIh }

def prsrInputs (state : State) (inputs : Inputs) : WavPrsr.Inputs :=
  { sramEmptyIh := inputs.sramFfEmptyIh
    sramRdDataValidIh := state.arb.imRdValidOh
    sramRdDataId := inputs.sramRdDataId
    lbRdEnIh := inputs.blkPrsrRdEn
    lbWrEnIh := inputs.blkPrsrWrEn
    lbAddrId := inputs.blkAddr
    lbWrDataId := inputs.blkWrData
    pcmFfAfullIh := pcmFfAfullC state
    hdrRamMixed := inputs.hdrRamMixed }

def dacInputs (state : State) (inputs : Inputs) : Wm8731DrvrDac.Inputs :=
  { lbRdEnIh := inputs.blkDacRdEn
    lbWrEnIh := inputs.blkDacWrEn
    lbAddrId := inputs.blkAddr
    lbWrDataId := inputs.blkWrData
    pcmFfDataValidIh := pcmFfDacDataValidC state
    pcmFfLdataId := state.pcmFfLchnl.q
    pcmFfRdataId := state.pcmFfRchnl.q
    audAdcDatId := inputs.audAdcDatId }

def step (state : State) (inputs : Inputs) : State :=
  { arb := SramArb.step state.arb (arbInputs state inputs)
    prsr := WavPrsr.step state.prsr (prsrInputs state inputs)
    pcmFfLchnl :=
      state.pcmFfLchnl.step state.prsr.pcmFfWrEnOh state.prsr.pcmFfLdataOd state.dac.pcmFfRdAckOh
    pcmFfRchnl :=
      state.pcmFfRchnl.step state.prsr.pcmFfWrEnOh state.prsr.pcmFfRdataOd state.dac.pcmFfRdAckOh
    dac := Wm8731DrvrDac.step state.dac (dacInputs state inputs) }

/-! ### What one clock keeps -/

/-- Words asked for and not yet in the FIFOs. -/
def coming (state : State) : Nat :=
  state.arb.arbImRdReq1d.toNat + state.arb.arbImRdReq2d.toNat + state.arb.imRdValidOh.toNat +
    state.prsr.pcmFfWrEnOh.toNat

/-- Both FIFOs hold the same number of words, they and what is coming fit, and an
acknowledge meets a word.  The pairs are those written and not yet taken. -/
structure Lockstep (taken : Nat) (pairs : List (BitVec 32 × BitVec 32)) (state : State) :
    Prop where
  left : state.pcmFfLchnl.Holds taken (pairs.map Prod.fst)
  right : state.pcmFfRchnl.Holds taken (pairs.map Prod.snd)
  bounded : pairs.length + coming state ≤ 196
  acked : state.dac.pcmFfRdAckOh = true → pairs ≠ []

section Lockstep

variable {taken : Nat} {pairs : List (BitVec 32 × BitVec 32)} {state : State}

theorem almostFull_iff (usedw : BitVec 8) : almostFull usedw = true ↔ 192 ≤ usedw.toNat := by
  have bound := usedw.isLt
  rw [almostFull, beq_iff_eq, ← BitVec.toNat_inj, BitVec.extractLsb'_toNat, BitVec.toNat_allOnes,
    Nat.shiftRight_eq_div_pow]
  omega

theorem Lockstep.afull (lockstep : Lockstep taken pairs state) :
    pcmFfAfullC state = decide (192 ≤ pairs.length) := by
  have bounded := lockstep.bounded
  have left := lockstep.left.usedw_toNat (by rw [List.length_map]; omega)
  have right := lockstep.right.usedw_toNat (by rw [List.length_map]; omega)
  rw [List.length_map] at left right
  rw [pcmFfAfullC, Bool.eq_iff_iff, Bool.or_eq_true, almostFull_iff, almostFull_iff, left, right,
    or_self, decide_eq_true_eq]

theorem Lockstep.valid (lockstep : Lockstep taken pairs state) :
    pcmFfDacDataValidC state = !pairs.isEmpty := by
  rw [pcmFfDacDataValidC, lockstep.left.empty_eq, lockstep.right.empty_eq]
  cases pairs <;> rfl

theorem reset_lockstep (header : BitVec 8 → BitVec 16) (left right : BitVec 8 → BitVec 32) :
    Lockstep 0 [] (reset header left right) where
  left := ShowAheadFifo.init_holds left
  right := ShowAheadFifo.init_holds right
  bounded := Nat.zero_le _
  acked := by
    intro ack
    cases ack

/-- What is coming grows only by a request, and that only below 192 words. -/
theorem coming_step (state : State) (inputs : Inputs) :
    coming (step state inputs) + state.prsr.pcmFfWrEnOh.toNat ≤
      coming state + (!pcmFfAfullC state).toNat := by
  have request : (step state inputs).arb.arbImRdReq1d.toNat ≤ (!pcmFfAfullC state).toNat := by
    simp only [step, SramArb.step, arbInputs, WavPrsr.sramRdEnOh]
    cases pcmFfAfullC state with
    | true => cases SramArb.arbImSelC state.arb <;> simp
    | false => exact Bool.toNat_le _
  have write : (step state inputs).prsr.pcmFfWrEnOh.toNat ≤ state.arb.imRdValidOh.toNat := by
    cases wrEn : (step state inputs).prsr.pcmFfWrEnOh with
    | false => exact Nat.zero_le _
    | true =>
        have valid : state.arb.imRdValidOh = true := WavPrsr.wrEn_needs_valid wrEn
        exact Nat.le_of_eq (congrArg Bool.toNat valid.symm)
  have second : (step state inputs).arb.arbImRdReq2d = state.arb.arbImRdReq1d := rfl
  have third : (step state inputs).arb.imRdValidOh = state.arb.arbImRdReq2d := rfl
  rw [coming, coming, second, third]
  omega

theorem step_lockstep (lockstep : Lockstep taken pairs state)
    (paced : state.dac.pcmFfRdAckOh = true → state.dac.bclkGenVec.getLsbD 6 = false)
    (inputs : Inputs) :
    Lockstep (taken + state.dac.pcmFfRdAckOh.toNat)
      (pairs.drop state.dac.pcmFfRdAckOh.toNat ++ state.prsr.pcm.written)
      (step state inputs) := by
  have bounded := lockstep.bounded
  have acked := lockstep.acked
  have frame : state.prsr.pcm.written =
      strobed state.prsr.pcmFfWrEnOh (state.prsr.pcmFfLdataOd, state.prsr.pcmFfRdataOd) := rfl
  constructor
  case left =>
    have moved := lockstep.left.step state.prsr.pcmFfWrEnOh state.prsr.pcmFfLdataOd
      state.dac.pcmFfRdAckOh (by rw [List.length_map]; omega)
      (fun ack none => acked ack (List.map_eq_nil_iff.mp none))
    rw [List.map_append, List.map_drop, frame, map_strobed]
    exact moved
  case right =>
    have moved := lockstep.right.step state.prsr.pcmFfWrEnOh state.prsr.pcmFfRdataOd
      state.dac.pcmFfRdAckOh (by rw [List.length_map]; omega)
      (fun ack none => acked ack (List.map_eq_nil_iff.mp none))
    rw [List.map_append, List.map_drop, frame, map_strobed]
    exact moved
  case bounded =>
    have step' := coming_step state inputs
    have few : coming (step state inputs) ≤ 4 := by
      have bits := fun level : Bool => Bool.toNat_le level
      have := bits (step state inputs).arb.arbImRdReq1d
      have := bits (step state inputs).arb.arbImRdReq2d
      have := bits (step state inputs).arb.imRdValidOh
      have := bits (step state inputs).prsr.pcmFfWrEnOh
      rw [coming]
      omega
    have one : state.prsr.pcmFfWrEnOh.toNat ≤ 1 := Bool.toNat_le _
    rw [List.length_append, frame, length_strobed, List.length_drop]
    rw [lockstep.afull] at step'
    by_cases many : 192 ≤ pairs.length
    · rw [decide_eq_true many, Bool.not_true, Bool.toNat_false] at step'
      omega
    · omega
  case acked =>
    intro ack none
    have request : (Wm8731DrvrDac.nextPcmFfRdAck state.dac (dacInputs state inputs)) = true := ack
    have held : pcmFfDacDataValidC state = true ∧ state.dac.bclkGenVec.getLsbD 6 = true := by
      rw [Wm8731DrvrDac.nextPcmFfRdAck] at request
      split at request
      · rw [Bool.and_eq_true, Bool.and_eq_true] at request
        exact request.1
      · cases request
    cases before : state.dac.pcmFfRdAckOh with
    | true =>
        rw [paced before] at held
        cases held.2
    | false =>
        rw [before, Bool.toNat_false, List.drop_zero, List.append_eq_nil_iff] at none
        have valid := held.1
        rw [lockstep.valid, none.1] at valid
        cases valid

end Lockstep

/-! ### Runs -/

section Run

variable (header : BitVec 8 → BitVec 16) (left right : BitVec 8 → BitVec 32)
  (inputs : Nat → Inputs)

def stateAt : Nat → State := run step (reset header left right) inputs

def written : Nat → List (BitVec 32 × BitVec 32) :=
  collect fun t => (stateAt header left right inputs t).prsr.pcm.written

def taken : Nat → List (BitVec 32 × BitVec 32) :=
  collect fun t =>
    strobed (stateAt header left right inputs t).dac.pcmFfRdAckOh
      ((stateAt header left right inputs t).pcmFfLchnl.q,
        (stateAt header left right inputs t).pcmFfRchnl.q)

theorem dac_run (t : Nat) :
    (stateAt header left right inputs t).dac =
      Wm8731DrvrDac.stateAt
        (fun k => dacInputs (stateAt header left right inputs k) (inputs k)) t := by
  induction t with
  | zero => rfl
  | succ t ih =>
      rw [Wm8731DrvrDac.stateAt_succ, ← ih]
      rfl

theorem ack_paced (t : Nat)
    (ack : (stateAt header left right inputs t).dac.pcmFfRdAckOh = true) :
    (stateAt header left right inputs t).dac.bclkGenVec.getLsbD 6 = false := by
  rw [dac_run] at ack ⊢
  obtain ⟨s, begins, rfl⟩ := Wm8731DrvrDac.ack_at ack
  have phase := begins.phase
  rw [Wm8731DrvrDac.ring_eq _ _ 6 (by decide), decide_eq_false_iff_not]
  omega

theorem lockstep_at (t : Nat) :
    ∃ pairs, written header left right inputs t = taken header left right inputs t ++ pairs ∧
      Lockstep (taken header left right inputs t).length pairs
        (stateAt header left right inputs t) := by
  induction t with
  | zero => exact ⟨[], rfl, reset_lockstep header left right⟩
  | succ t ih =>
      obtain ⟨pairs, split, lockstep⟩ := ih
      have moved := step_lockstep lockstep (ack_paced header left right inputs t) (inputs t)
      refine ⟨pairs.drop (stateAt header left right inputs t).dac.pcmFfRdAckOh.toNat ++
        (stateAt header left right inputs t).prsr.pcm.written, ?_, ?_⟩
      · rw [written, collect_succ, ← written, split, taken, collect_succ, ← taken]
        cases ack : (stateAt header left right inputs t).dac.pcmFfRdAckOh with
        | false =>
            rw [strobed_false, List.append_nil, Bool.toNat_false, List.drop_zero,
              List.append_assoc]
        | true =>
            obtain ⟨pair, rest, shape⟩ := List.exists_cons_of_ne_nil (lockstep.acked ack)
            have ldata := lockstep.left.q_eq pair.1 (rest.map Prod.fst) (by rw [shape]; rfl)
            have rdata := lockstep.right.q_eq pair.2 (rest.map Prod.snd) (by rw [shape]; rfl)
            rw [strobed_true, ldata, rdata, shape, Bool.toNat_true, List.append_assoc,
              List.append_assoc]
            rfl
      · rw [taken, collect_succ, ← taken, List.length_append, length_strobed]
        exact moved

end Run

/-- In every run, with any words from the SRAM at any time and any traffic on the
local bus: both FIFOs hold the pairs written and not yet taken, never more than
255; nothing is written to a full FIFO and nothing is taken from an empty one. -/
theorem pcmFifos_lockstep (header : BitVec 8 → BitVec 16) (left right : BitVec 8 → BitVec 32)
    (inputs : Nat → Inputs) (t : Nat) :
    let state := stateAt header left right inputs t
    let number := (written header left right inputs t).length -
      (taken header left right inputs t).length
    (taken header left right inputs t).length ≤ (written header left right inputs t).length ∧
      state.pcmFfLchnl.used.toNat = number ∧ state.pcmFfRchnl.used.toNat = number ∧
      number ≤ 255 ∧
      (state.prsr.pcmFfWrEnOh = true →
        state.pcmFfLchnl.full = false ∧ state.pcmFfRchnl.full = false) ∧
      (state.dac.pcmFfRdAckOh = true →
        state.pcmFfLchnl.empty = false ∧ state.pcmFfRchnl.empty = false) := by
  obtain ⟨pairs, split, lockstep⟩ := lockstep_at header left right inputs t
  have bounded := lockstep.bounded
  intro state number
  have length : number = pairs.length := by
    simp only [number, split, List.length_append]
    omega
  have usedLeft := lockstep.left.used_toNat
  have usedRight := lockstep.right.used_toNat
  have room : (pairs.length = 2 ^ 8) = False := by
    rw [eq_iff_iff, iff_false]
    omega
  rw [List.length_map, ← length] at usedLeft usedRight
  refine ⟨?_, usedLeft, usedRight, by omega, fun _ => ?_, fun ack => ?_⟩
  · rw [split, List.length_append]
    exact Nat.le_add_right _ _
  · rw [lockstep.left.full_eq, lockstep.right.full_eq, List.length_map, List.length_map]
    simp only [room, decide_false, and_self]
  · obtain ⟨pair, rest, shape⟩ := List.exists_cons_of_ne_nil (lockstep.acked ack)
    rw [lockstep.left.empty_eq, lockstep.right.empty_eq, shape]
    exact ⟨rfl, rfl⟩

end Synesthesia.PcmPlay
