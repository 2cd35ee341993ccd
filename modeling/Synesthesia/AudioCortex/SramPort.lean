/-
`sram_lb` in front of the SRAM path, as `acortex_top` wires the two.

An access of the host goes through stages: the request waits for a slot of the
memory-mapped port, and the word of a read then follows the arbiter and the driver
back to `sram_lb`.  One clock edge moves the access one stage further.
-/

import Synesthesia.AudioCortex.SramLb
import Synesthesia.AudioCortex.SramStream

namespace Synesthesia.SramPort

open Synesthesia.Rtl
open Synesthesia.AcortexRegMap

structure State where
  lb : SramLb.Regs
  path : SramPath.State

structure Inputs where
  lbRdEnIh : Bool
  lbWrEnIh : Bool
  lbAddrId : BitVec 8
  lbWrDataId : BitVec 16
  lbStDataId : BitVec 16
  lbStValidIh : Bool
  imRdReqIh : Bool

def reset (contents : BitVec 18 → BitVec 16) : State :=
  { lb := SramLb.reset
    path := SramPath.reset contents }

def pathInputs (state : State) (inputs : Inputs) : SramPath.Inputs :=
  { lbStDataId := inputs.lbStDataId
    lbStValidIh := inputs.lbStValidIh
    lbMmRdEnIh := state.lb.sramMmRdEnOh
    lbMmWrEnIh := state.lb.sramMmWrEnOh
    lbMmAddrId := state.lb.sramMmAddrOd
    lbMmWrDataId := SramLb.sramMmWrDataOd state.lb
    imRdReqIh := inputs.imRdReqIh }

def grant (state : State) : Bool := SramArb.lbMmArbGrantOh state.path.arb

def lbInputs (state : State) (inputs : Inputs) : SramLb.Inputs :=
  { lbRdEnIh := inputs.lbRdEnIh
    lbWrEnIh := inputs.lbWrEnIh
    lbAddrId := inputs.lbAddrId
    lbWrDataId := inputs.lbWrDataId
    sramFfRdEnIh := SramArb.sramFfRdEnOh state.path.arb inputs.imRdReqIh
    sramFfWrEnIh := SramArb.sramFfWrEnOh state.path.arb inputs.lbStValidIh
    sramFfFullIh := state.path.ff.sramFullOh
    sramFfEmptyIh := state.path.ff.sramEmptyOh
    sramFfAemptyIh := state.path.ff.sramAemptyOh
    sramMmRdValidId := state.path.arb.lbMmRdValidOd
    sramMmRdDataId := SramPath.sramRdDataId state.path
    sramArbMmGrantIh := grant state }

def step (state : State) (inputs : Inputs) : State :=
  { lb := SramLb.step state.lb (lbInputs state inputs)
    path := SramPath.step state.path (pathInputs state inputs) }

/-! ### Slots and pointers -/

/-- What every reachable state keeps: the strobes of the driver, the pointers of the
FIFO, and the slot owner of the clock. -/
structure Sound (state : State) (clock : Nat) : Prop where
  wired : SramPath.Wired state.path
  counts : ∃ writes reads, SramFfCntrlr.Counts state.path.ff writes reads
  slot : state.path.arb.arbSelF = SramArb.slotOwner (clock % 34)
  cntr : state.path.arb.arbCntrF = SramArb.slotCntr (clock % 34)

theorem reset_sound (contents : BitVec 18 → BitVec 16) : Sound (reset contents) 0 :=
  { wired := SramPath.reset_wired contents
    counts := ⟨0, 0, SramFfCntrlr.reset_counts⟩
    slot := rfl
    cntr := rfl }

theorem step_sound {state : State} {clock : Nat} (sound : Sound state clock)
    (inputs : Inputs) : Sound (step state inputs) (clock + 1) := by
  obtain ⟨writes, reads, counts⟩ := sound.counts
  have next := SramArb.slot_next ⟨clock % 34, Nat.mod_lt clock (by decide)⟩
  have later : (clock + 1) % 34 = (clock % 34 + 1) % 34 := by omega
  refine
    { wired := SramPath.step_wired sound.wired _
      counts := ⟨_, _, SramFfCntrlr.step_counts (by decide : 0 < 18) counts _⟩
      slot := ?_
      cntr := ?_ }
  · rw [later, ← next.1, ← sound.slot, ← sound.cntr]
    rfl
  · rw [later, ← next.2, ← sound.slot, ← sound.cntr]
    rfl

theorem slotOwner_grant : ∀ clock : Fin 34,
    (decide (SramArb.slotOwner clock = .avMm1) || decide (SramArb.slotOwner clock = .avMm2)) =
      decide ((clock.val + 1) % 17 = 0) := by
  decide

/-- The memory-mapped port owns one clock in seventeen. -/
theorem grant_eq {state : State} {clock : Nat} (sound : Sound state clock) :
    grant state = decide ((clock + 1) % 17 = 0) := by
  have owner := slotOwner_grant ⟨clock % 34, Nat.mod_lt clock (by decide)⟩
  have position : (clock % 34 + 1) % 17 = (clock + 1) % 17 := by omega
  rw [grant, SramArb.lbMmArbGrantOh, SramArb.arbAvMmSel1C, SramArb.arbAvMmSel2C, sound.slot,
    ← position]
  exact owner

/-! ### Stages of a host access -/

/-- Where the access of the host is, if there is one. -/
inductive Stage where
  | free
  | writing
  | reading
  | issued
  | driven
  | arrived
  | latched
  deriving DecidableEq, Repr

/-- The two request flags and the markers that follow a read. -/
structure Marks where
  wrEn : Bool
  rdEn : Bool
  rdReq1d : Bool
  rdReq2d : Bool
  rdValid : Bool
  rdValid1d : Bool
  deriving DecidableEq

def marks (state : State) : Marks :=
  { wrEn := state.lb.sramMmWrEnOh
    rdEn := state.lb.sramMmRdEnOh
    rdReq1d := state.path.arb.arbAvMmRdReq1d
    rdReq2d := state.path.arb.arbAvMmRdReq2d
    rdValid := state.path.arb.lbMmRdValidOd
    rdValid1d := state.lb.sramMmRdValid1d }

def Stage.marks : Stage → Marks
  | .free => ⟨false, false, false, false, false, false⟩
  | .writing => ⟨true, false, false, false, false, false⟩
  | .reading => ⟨false, true, false, false, false, false⟩
  | .issued => ⟨false, true, true, false, false, false⟩
  | .driven => ⟨false, true, false, true, false, false⟩
  | .arrived => ⟨false, true, false, false, true, false⟩
  | .latched => ⟨false, false, false, false, false, true⟩

def accCtrl (inputs : Inputs) (bit : Nat) : Bool :=
  inputs.lbAddrId == sramAccCtrlRegAddr && inputs.lbWrEnIh && inputs.lbWrDataId.getLsbD bit

/-- The marks move by themselves, given the grant and the control write. -/
def Marks.next (marks : Marks) (granted ctrlRd ctrlWr : Bool) : Marks :=
  { wrEn := if marks.wrEn then !granted else ctrlWr
    rdEn := if marks.rdEn then !marks.rdValid else ctrlRd
    rdReq1d := granted && marks.rdEn
    rdReq2d := marks.rdReq1d
    rdValid := marks.rdReq2d
    rdValid1d := marks.rdValid }

theorem nextSramMmEn_eq (state : State) (inputs : Inputs) (flag done : Bool) (bit : Nat) :
    SramLb.nextSramMmEn flag done bit (lbInputs state inputs) =
      if flag then !done else accCtrl inputs bit := by
  unfold SramLb.nextSramMmEn accCtrl
  cases flag with
  | true => rfl
  | false =>
      by_cases ctrl : inputs.lbAddrId = sramAccCtrlRegAddr
      · simp [lbInputs, ctrl]
      · simp [lbInputs, ctrl]

theorem marks_step (state : State) (inputs : Inputs) :
    marks (step state inputs) =
      (marks state).next (grant state) (accCtrl inputs 0) (accCtrl inputs 1) := by
  unfold marks Marks.next
  simp only [step, SramLb.step, nextSramMmEn_eq]
  rfl

def Stage.next (stage : Stage) (granted ctrlRd ctrlWr : Bool) : Stage :=
  match stage with
  | .free => if ctrlWr then .writing else if ctrlRd then .reading else .free
  | .writing => if granted then .free else .writing
  | .reading => if granted then .issued else .reading
  | .issued => .driven
  | .driven => .arrived
  | .arrived => .latched
  | .latched => .free

/-- A control write comes only when no access is under way, and asks for one. -/
def Fits (stage : Stage) (inputs : Inputs) : Prop :=
  (accCtrl inputs 0 = true → stage = .free ∧ accCtrl inputs 1 = false) ∧
    (accCtrl inputs 1 = true → stage = .free)

/-- While the word of a read travels, the port does not own the clock. -/
def Stage.Timed (stage : Stage) (clock : Nat) : Prop :=
  match stage with
  | .issued => clock % 17 = 0
  | .driven => clock % 17 = 1
  | .arrived => clock % 17 = 2
  | _ => True

theorem Stage.Timed.next {stage : Stage} {clock : Nat} (timed : stage.Timed clock)
    (ctrlRd ctrlWr : Bool) :
    (stage.next (decide ((clock + 1) % 17 = 0)) ctrlRd ctrlWr).Timed (clock + 1) := by
  unfold Stage.Timed at *
  cases stage with
  | free => cases ctrlRd <;> cases ctrlWr <;> trivial
  | writing => by_cases granted : (clock + 1) % 17 = 0 <;> simp [Stage.next, granted]
  | reading => by_cases granted : (clock + 1) % 17 = 0 <;> simp [Stage.next, granted]
  | issued => simp only [Stage.next] at *; omega
  | driven => simp only [Stage.next] at *; omega
  | arrived => trivial
  | latched => trivial

theorem Stage.marks_next {stage : Stage} {clock : Nat} {ctrlRd ctrlWr : Bool}
    (timed : stage.Timed clock)
    (readAlone : ctrlRd = true → stage = .free ∧ ctrlWr = false)
    (writeAlone : ctrlWr = true → stage = .free) :
    stage.marks.next (decide ((clock + 1) % 17 = 0)) ctrlRd ctrlWr =
      (stage.next (decide ((clock + 1) % 17 = 0)) ctrlRd ctrlWr).marks := by
  have closed : stage = .issued ∨ stage = .driven ∨ stage = .arrived →
      decide ((clock + 1) % 17 = 0) = false := by
    rintro (rfl | rfl | rfl) <;> simp only [Stage.Timed] at timed <;>
      exact decide_eq_false (by omega)
  generalize decide ((clock + 1) % 17 = 0) = granted at closed ⊢
  cases stage <;> cases granted <;> cases ctrlRd <;> cases ctrlWr <;> simp_all <;> rfl

/-- A reachable state with the access of the host at a stage. -/
structure At (state : State) (clock : Nat) (stage : Stage) : Prop where
  sound : Sound state clock
  marks : marks state = stage.marks
  timed : stage.Timed clock

theorem At.step {state : State} {clock : Nat} {stage : Stage} (at' : At state clock stage)
    {inputs : Inputs} (fits : Fits stage inputs) :
    At (step state inputs) (clock + 1)
      (stage.next (grant state) (accCtrl inputs 0) (accCtrl inputs 1)) := by
  have granted := grant_eq at'.sound
  refine
    { sound := step_sound at'.sound inputs
      marks := ?_
      timed := ?_ }
  · rw [marks_step, at'.marks, granted]
    exact Stage.marks_next at'.timed fits.1 fits.2
  · rw [granted]
    exact at'.timed.next _ _

/-- The acknowledge of a control write: the grant of a write, the latched word of
a read. -/
def Stage.acknowledges (stage : Stage) (granted : Bool) : Bool :=
  decide (stage = .writing) && granted || decide (stage = .latched)

theorem lbWrValid_step {state : State} {stage : Stage} (at' : marks state = stage.marks)
    (inputs : Inputs) :
    (step state inputs).lb.lbWrValidOd =
      if inputs.lbAddrId = sramAccCtrlRegAddr then stage.acknowledges (grant state)
      else inputs.lbWrEnIh := by
  have wrEn : state.lb.sramMmWrEnOh = stage.marks.wrEn := congrArg Marks.wrEn at'
  have valid1d : state.lb.sramMmRdValid1d = stage.marks.rdValid1d :=
    congrArg Marks.rdValid1d at'
  simp only [step, SramLb.step, lbInputs, wrEn, valid1d]
  cases stage <;> simp [Stage.marks, Stage.acknowledges]

/-! ### The registers of the request -/

theorem sramMmAddr_step {state : State} {inputs : Inputs}
    (kept : inputs.lbWrEnIh = true → inputs.lbAddrId ≠ sramAccAddrHRegAddr ∧
      inputs.lbAddrId ≠ sramAccAddrLRegAddr) :
    (step state inputs).lb.sramMmAddrOd = state.lb.sramMmAddrOd :=
  SramLb.nextSramMmAddr_kept kept

theorem sramData_step (state : State) {inputs : Inputs}
    (kept : inputs.lbWrEnIh = true → inputs.lbAddrId ≠ sramAccDataRegAddr) :
    (step state inputs).lb.sramDataF =
      if state.path.arb.lbMmRdValidOd then SramPath.sramRdDataId state.path
      else state.lb.sramDataF :=
  SramLb.nextSramData_kept kept

/-! ### The word of a read -/

/-- The word on its way back to the host, by the stage it has reached. -/
def word (state : State) : Stage → BitVec 16
  | .issued => SramPath.scheduled state.path state.path.arb.sramAddrOd
  | .driven => SramPath.landed state.path state.path.drvr.sramAddr
  | .arrived => SramPath.sramRdDataId state.path
  | _ => state.lb.sramDataF

theorem scheduled_next {state : State} (wired : SramPath.Wired state.path) (inputs : Inputs) :
    SramPath.scheduled (step state inputs).path =
      store
        (store (SramPath.scheduled state.path)
          (SramPath.stAccept state.path (pathInputs state inputs))
          (SramFfCntrlr.sramWrAddrOd state.path.ff) inputs.lbStDataId)
        (grant state && state.lb.sramMmWrEnOh) state.lb.sramMmAddrOd state.lb.sramDataF := by
  change SramPath.scheduled (SramPath.step state.path (pathInputs state inputs)) = _
  rw [SramPath.scheduled_step wired, SramPath.store_request]
  rfl

theorem word_granted {state : State} (inputs : Inputs)
    (at' : marks state = Stage.marks .reading) (granted : grant state = true) :
    word (step state inputs) .issued =
      SramPath.scheduled (step state inputs).path state.lb.sramMmAddrOd := by
  have reading : state.lb.sramMmRdEnOh = true := congrArg Marks.rdEn at'
  have asked : SramPath.mmRead state.path (pathInputs state inputs) = true := by
    unfold SramPath.mmRead
    rw [Bool.and_eq_true]
    exact ⟨granted, reading⟩
  have address := (SramPath.mmRead_request asked).2
  unfold word
  rw [show (step state inputs).path.arb.sramAddrOd = state.lb.sramMmAddrOd from address]

theorem word_step {state : State} {stage : Stage} (wired : SramPath.Wired state.path)
    (inputs : Inputs) (at' : marks state = stage.marks)
    (travels : stage = .issued ∨ stage = .driven ∨ stage = .arrived)
    (kept : inputs.lbWrEnIh = true → inputs.lbAddrId ≠ sramAccDataRegAddr) :
    word (step state inputs) (stage.next (grant state) (accCtrl inputs 0) (accCtrl inputs 1)) =
      word state stage := by
  rcases travels with rfl | rfl | rfl
  · change SramPath.landed (SramPath.step state.path _) _ = _
    rw [SramPath.landed_step wired]
    rfl
  · have tracked : state.path.arb.arbAvMmRdReq2d = true := congrArg Marks.rdReq2d at'
    exact SramPath.readdata_step wired _ (wired.mm2d tracked)
  · have arrived : state.path.arb.lbMmRdValidOd = true := congrArg Marks.rdValid at'
    have latched := sramData_step state kept
    rw [arrived, if_pos rfl] at latched
    exact latched

end Synesthesia.SramPort
