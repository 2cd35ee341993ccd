/-
One clock edge of the tree of local buses, with at most one answer on its way.

The answer of an access is at one place of the tree, or held back by the SRAM block
until the memory has been accessed.  A clock edge takes it to its next leg.
-/

import Synesthesia.FpgaTop.ConfigRegs

namespace Synesthesia.CortexTree

open Synesthesia.Rtl
open Synesthesia.Prog
open Synesthesia.SynCortexLb (Request)

/-! ### Accesses that are answered -/

/-- The address is mapped to a block that answers, and a control write to the SRAM
asks for either a read or a write. -/
structure Answerable (access : BusAccess) : Prop where
  mapped : blkOf access.addr ≤ SynCortexLb.vcortexBlk
  audio : blkOf access.addr = SynCortexLb.acortexBlk →
    codeOf access.addr ≤ AcortexRegMap.acortexAudioSrcSelReg
  request : ∀ addr data, access = .write addr data → isSramCtrl access = true →
    data.getLsbD 0 = !data.getLsbD 1

theorem blockOf_answers : ∀ blk code : BitVec 4, blk ≤ SynCortexLb.vcortexBlk →
    (blk = SynCortexLb.acortexBlk → code ≤ AcortexRegMap.acortexAudioSrcSelReg) →
    blockOf blk code ≠ .hostReset ∧ blockOf blk code ≠ .unmapped := by
  decide +kernel

theorem Answerable.block {access : BusAccess} (answerable : Answerable access) :
    block access.addr ≠ .hostReset ∧ block access.addr ≠ .unmapped :=
  blockOf_answers _ _ answerable.mapped answerable.audio

/-! ### Legs -/

/-- Where the answer is, if one is on its way. -/
inductive Leg where
  | rest
  | moving (place : Place)
  | held (stage : SramPort.Stage)

def Leg.token : Leg → Option Place
  | .rest => none
  | .moving place => some place
  | .held _ => none

def Leg.stage : Leg → SramPort.Stage
  | .rest => .free
  | .moving _ => .free
  | .held stage => stage

def Leg.next (granted : Bool) : Leg → Leg
  | .rest => .rest
  | .moving place =>
      match advance place with
      | some next => .moving next
      | none => .rest
  | .held stage =>
      if stage.acknowledges granted then .moving .sramWr
      else .held (stage.next granted false false)

/-- Nothing is on its way, or the answer has come out at the top. -/
def Leg.done : Leg → Prop
  | .rest => True
  | .moving place => advance place = none
  | .held _ => False

theorem Leg.token_of_done {leg : Leg} (done : leg.done) :
    leg.token.bind advance = none ∧ leg.stage = .free := by
  cases leg with
  | rest => exact ⟨rfl, rfl⟩
  | moving place => exact ⟨done, rfl⟩
  | held stage => exact done.elim

theorem Leg.next_of_done {leg : Leg} (done : leg.done) (granted : Bool) :
    leg.next granted = .rest := by
  cases leg with
  | rest => rfl
  | moving place =>
      have top : advance place = none := done
      simp only [Leg.next, top]
  | held stage => exact done.elim

def start (access : BusAccess) : Leg :=
  match entry access with
  | some place => .moving place
  | none =>
      match access with
      | .write _ data => .held (if data.getLsbD 1 then .writing else .reading)
      | .read _ => .rest

theorem Leg.next_token (granted : Bool) (leg : Leg) :
    (leg.next granted).token =
      if leg.stage.acknowledges granted then some .sramWr else leg.token.bind advance := by
  cases leg with
  | rest => rfl
  | moving place =>
      unfold Leg.next
      cases moves : advance place <;>
        simp [Leg.token, Leg.stage, SramPort.Stage.acknowledges, moves]
  | held stage =>
      unfold Leg.next
      cases acked : stage.acknowledges granted <;> simp [Leg.token, Leg.stage, acked]

theorem Leg.next_stage (granted : Bool) (leg : Leg) :
    (leg.next granted).stage = leg.stage.next granted false false := by
  cases leg with
  | rest => rfl
  | moving place =>
      unfold Leg.next
      cases moves : advance place <;> simp [Leg.stage, SramPort.Stage.next, moves]
  | held stage =>
      unfold Leg.next
      cases granted <;> cases stage <;> rfl

/-! ### One clock edge -/

/-- The tree with its answer on a leg. -/
structure Steady (tree : State) (clock : Nat) (leg : Leg) : Prop where
  up : tree.acortex.acortexRstLF = true
  single : ∀ place, occupied tree place = decide (leg.token = some place)
  at' : SramPort.At tree.acortex.sram clock leg.stage

section Edge

variable {tree : State} {clock : Nat} {leg : Leg} {inputs : Inputs}

theorem running_of_noReset (steady : Steady tree clock leg)
    (noReset : block inputs.request.lbAddrId = .hostReset → inputs.request.lbWrEnIh = false) :
    running tree inputs = true := by
  have host := hostRst_eq inputs.request
  have released : AcortexLb.acortexHostRstOl (acortexRequest inputs.request) = true := by
    by_cases selected : block inputs.request.lbAddrId = .hostReset
    · rw [noReset selected, Bool.and_false] at host
      simpa using host
    · rw [decide_eq_false selected, Bool.false_and] at host
      simpa using host
  unfold running AcortexBlocks.running
  rw [steady.up]
  exact released

theorem sramAck_eq (steady : Steady tree clock leg) :
    sramAck tree = leg.stage.acknowledges (SramPort.grant tree.acortex.sram) := by
  have wrEn : tree.acortex.sram.lb.sramMmWrEnOh = leg.stage.marks.wrEn :=
    congrArg SramPort.Marks.wrEn steady.at'.marks
  have valid1d : tree.acortex.sram.lb.sramMmRdValid1d = leg.stage.marks.rdValid1d :=
    congrArg SramPort.Marks.rdValid1d steady.at'.marks
  unfold sramAck
  rw [wrEn, valid1d]
  cases leg.stage <;> cases SramPort.grant tree.acortex.sram <;> rfl

theorem accCtrl_eq (bit : Nat) :
    SramPort.accCtrl (AcortexBlocks.sramInputs (acortexInputs inputs)) bit =
      (decide (regOf inputs.request.lbAddrId = AcortexRegMap.sramAccCtrlRegAddr) &&
        (decide (block inputs.request.lbAddrId = .sram) && inputs.request.lbWrEnIh) &&
        (inputs.request.lbWrDataId.extractLsb' 0 16).getLsbD bit) := by
  have wrEn : AcortexLb.wrenC AcortexRegMap.sram (acortexRequest inputs.request) =
      (decide (block inputs.request.lbAddrId = .sram) && inputs.request.lbWrEnIh) := by
    rw [wrenC_eq, (decodes _ _).sram]
    rfl
  rw [← wrEn]
  rfl

theorem sram_at (up : running tree inputs = true) {stage : SramPort.Stage}
    (at' : SramPort.At (SramPort.step tree.acortex.sram
      (AcortexBlocks.sramInputs (acortexInputs inputs))) (clock + 1) stage) :
    SramPort.At (step tree inputs).acortex.sram (clock + 1) stage := by
  have blocks : (step tree inputs).acortex = _ := AcortexBlocks.step_running up
  rw [blocks]
  exact at'

theorem up_step (up : running tree inputs = true) :
    (step tree inputs).acortex.acortexRstLF = true := by
  have blocks : (step tree inputs).acortex = _ := AcortexBlocks.step_running up
  rw [blocks]

theorem occupied_next (steady : Steady tree clock leg) (up : running tree inputs = true)
    (place : Place) :
    occupied (step tree inputs) place =
      (decide (leg.token.bind advance = some place) ||
        enters inputs.request (sramAck tree) place) := by
  have single : occupied tree = fun other => decide (leg.token = some other) :=
    funext steady.single
  rw [occupied_step up, single, flows_token]

theorem enters_sramAck {request : Request} (silent : Silent request)
    (ctrl : regOf request.lbAddrId = AcortexRegMap.sramAccCtrlRegAddr) (place : Place) :
    enters request true place = decide (some Place.sramWr = some place) := by
  rw [enters_eq, silent.1, silent.2, decide_eq_true ctrl]
  unfold entersBlock
  cases place <;> simp

theorem quiet_fits {stage : SramPort.Stage} {port : SramPort.Inputs}
    (quiet : ∀ bit, SramPort.accCtrl port bit = false) : SramPort.Fits stage port := by
  constructor
  · intro asked
    rw [quiet] at asked
    cases asked
  · intro asked
    rw [quiet] at asked
    cases asked

theorem steady_silent (steady : Steady tree clock leg) (silent : Silent inputs.request)
    (held : leg.stage ≠ .free →
      regOf inputs.request.lbAddrId = AcortexRegMap.sramAccCtrlRegAddr) :
    Steady (step tree inputs) (clock + 1)
      (leg.next (SramPort.grant tree.acortex.sram)) := by
  have up : running tree inputs = true := running_of_noReset steady fun _ => silent.1
  have quiet : ∀ bit, SramPort.accCtrl (AcortexBlocks.sramInputs (acortexInputs inputs)) bit =
      false := by
    intro bit
    rw [accCtrl_eq, silent.1, Bool.and_false, Bool.and_false, Bool.false_and]
  refine
    { up := up_step up
      single := ?_
      at' := sram_at up ?_ }
  · intro place
    rw [occupied_next steady up, sramAck_eq steady, Leg.next_token]
    cases acked : leg.stage.acknowledges (SramPort.grant tree.acortex.sram) with
    | false =>
        rw [enters_silent silent, Bool.or_false]
        rfl
    | true =>
        have busy : leg.stage ≠ .free := by
          intro free
          rw [free] at acked
          cases acked
        have alone : leg.token = none := by
          cases leg with
          | held stage => rfl
          | rest => exact absurd rfl busy
          | moving place => exact absurd rfl busy
        rw [alone, enters_sramAck silent (held busy)]
        rfl
  · have moved := steady.at'.step (quiet_fits quiet)
    rw [quiet 0, quiet 1] at moved
    rw [Leg.next_stage]
    exact moved

theorem entry_isNone {access : BusAccess} (answerable : Answerable access) :
    (entry access).isNone = isSramCtrl access := by
  obtain ⟨noReset, mapped⟩ := answerable.block
  unfold entry isSramCtrl
  generalize block access.addr = selected at noReset mapped ⊢
  generalize access.isWrite = write
  by_cases ctrl : regOf access.addr = AcortexRegMap.sramAccCtrlRegAddr
  · cases selected <;> cases write <;> simp_all
  · cases selected <;> cases write <;> simp_all

theorem accCtrl_pulse {access : BusAccess} (pulses : Pulses inputs.request access) (bit : Nat) :
    SramPort.accCtrl (AcortexBlocks.sramInputs (acortexInputs inputs)) bit =
      (isSramCtrl access && (inputs.request.lbWrDataId.extractLsb' 0 16).getLsbD bit) := by
  rw [accCtrl_eq, pulses.addr, pulses.write]
  unfold isSramCtrl
  congr 1
  cases access.isWrite <;> simp [Bool.and_comm]

theorem stage_pulse {access : BusAccess} (pulses : Pulses inputs.request access)
    (answerable : Answerable access) (granted : Bool) :
    SramPort.Fits .free (AcortexBlocks.sramInputs (acortexInputs inputs)) ∧
      SramPort.Stage.free.next granted
          (SramPort.accCtrl (AcortexBlocks.sramInputs (acortexInputs inputs)) 0)
          (SramPort.accCtrl (AcortexBlocks.sramInputs (acortexInputs inputs)) 1) =
        (start access).stage := by
  have entered := entry_isNone answerable
  unfold SramPort.Fits
  rw [accCtrl_pulse pulses, accCtrl_pulse pulses]
  cases ctrl : isSramCtrl access with
  | false =>
      rw [ctrl] at entered
      obtain ⟨place, at'⟩ := Option.isSome_iff_exists.mp (Option.isNone_eq_false_iff.mp entered)
      have first : start access = .moving place := by
        unfold start
        rw [at']
      rw [first]
      exact ⟨⟨fun asked => absurd asked Bool.false_ne_true,
        fun asked => absurd asked Bool.false_ne_true⟩, rfl⟩
  | true =>
      rw [ctrl] at entered
      cases access with
      | read addr => cases ctrl
      | write addr data =>
          have onBus : inputs.request.lbWrDataId = data := pulses.data addr data rfl
          have one := answerable.request addr data rfl ctrl
          have first : start (.write addr data) =
              .held (if data.getLsbD 1 then .writing else .reading) := by
            unfold start
            rw [Option.isNone_iff_eq_none.mp entered]
          rw [first, onBus, lower_half_bit (by decide), lower_half_bit (by decide), one]
          cases data.getLsbD 1 with
          | false => exact ⟨⟨fun _ => ⟨rfl, rfl⟩, fun _ => rfl⟩, rfl⟩
          | true => exact ⟨⟨fun asked => absurd asked Bool.false_ne_true, fun _ => rfl⟩, rfl⟩

/-- No block takes the access, or the audio block takes a read of its reset. -/
structure Lost (access : BusAccess) : Prop where
  noEntry : entry access = none
  noCtrl : isSramCtrl access = false
  noReset : block access.addr = .hostReset → access.isWrite = false

theorem lost_of_unmapped {access : BusAccess} (unmapped : block access.addr = .unmapped) :
    Lost access := by
  refine ⟨?_, ?_, ?_⟩
  · unfold entry
    rw [unmapped]
  · unfold isSramCtrl
    rw [unmapped]
    simp
  · rw [unmapped]
    exact fun reset => Block.noConfusion reset

section Pulse

variable {access : BusAccess} (steady : Steady tree clock leg) (done : leg.done)
  (pulses : Pulses inputs.request access)
  (noReset : block access.addr = .hostReset → access.isWrite = false)

include steady pulses noReset in
theorem running_pulse : running tree inputs = true := by
  refine running_of_noReset steady ?_
  rw [pulses.addr, pulses.write]
  exact noReset

include steady done pulses noReset in
theorem occupied_pulse (place : Place) :
    occupied (step tree inputs) place = decide (entry access = some place) := by
  obtain ⟨top, stage⟩ := Leg.token_of_done done
  have unasked : sramAck tree = false := by
    rw [sramAck_eq steady, stage]
    rfl
  rw [occupied_next steady (running_pulse steady pulses noReset), unasked, top,
    enters_pulse pulses noReset]
  rfl

include steady done in
theorem Steady.free : SramPort.At tree.acortex.sram clock .free := by
  rw [← (Leg.token_of_done done).2]
  exact steady.at'

include steady done pulses in
theorem steady_pulse (answerable : Answerable access) :
    Steady (step tree inputs) (clock + 1) (start access) := by
  have noReset : block access.addr = .hostReset → access.isWrite = false :=
    fun selected => absurd selected answerable.block.1
  have up := running_pulse steady pulses noReset
  have token : (start access).token = entry access := by
    unfold start
    cases entry access with
    | some place => rfl
    | none => cases access <;> rfl
  refine
    { up := up_step up
      single := ?_
      at' := sram_at up ?_ }
  · intro place
    rw [occupied_pulse steady done pulses noReset, token]
  · obtain ⟨fits, next⟩ := stage_pulse pulses answerable (SramPort.grant tree.acortex.sram)
    rw [← next]
    exact (steady.free done).step fits

include steady done pulses in
theorem steady_lost (lost : Lost access) : Steady (step tree inputs) (clock + 1) .rest := by
  have up := running_pulse steady pulses lost.noReset
  have noCtrl : ∀ bit,
      SramPort.accCtrl (AcortexBlocks.sramInputs (acortexInputs inputs)) bit = false := by
    intro bit
    rw [accCtrl_pulse pulses, lost.noCtrl]
    rfl
  refine
    { up := up_step up
      single := ?_
      at' := sram_at up ?_ }
  · intro place
    rw [occupied_pulse steady done pulses lost.noReset, lost.noEntry]
    rfl
  · have moved := (steady.free done).step (quiet_fits noCtrl)
    rw [noCtrl 0, noCtrl 1] at moved
    exact moved

end Pulse

end Edge

end Synesthesia.CortexTree
