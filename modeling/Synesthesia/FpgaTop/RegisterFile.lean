/-
The register file behind the tree of local buses.

In a run that accesses configuration registers only, a write leaves the bits of its
register, and a read returns what was written last, whatever the blocks do
meanwhile.
-/

import Synesthesia.FpgaTop.LbAnswers
import Synesthesia.FpgaTop.LbData

namespace Synesthesia.CortexTree

open Synesthesia.Rtl
open Synesthesia.Prog
open Synesthesia.SynCortexLb (Request)
open Synesthesia.CortexIrq (Channel)

/-! ### Addresses -/

def regAt (addr : BitVec 16) : Option ConfigReg :=
  match block addr with
  | .fgyrus channel =>
      if codeOf addr = FgyrusLb.fgyrusRegCode then
        if regOf addr = FgyrusLb.fgyrusControlRegAddr then some (.fgyrusControl channel)
        else if regOf addr = FgyrusLb.fgyrusPostNormRegAddr then some (.fgyrusPostNorm channel)
        else none
      else none
  | .vcortex =>
      if codeOf addr = VcortexTop.vcortexRegCode then some .vcortexControl
      else if codeOf addr = VcortexTop.vcortexPwmRamCode then
        some (.pwmWord ((addr.extractLsb' 0 12).extractLsb' 0 4))
      else none
  | .prsr =>
      if regOf addr = AcortexRegMap.prsrCtrlRegAddr then some .prsrCtrl
      else if regOf addr = AcortexRegMap.prsrHdrRamRdAddrRegAddr then some .prsrHdrRamRdAddr
      else none
  | .dac =>
      if regOf addr = AcortexRegMap.dacDrvrCtrlRegAddr then some .dacCtrl
      else if regOf addr = AcortexRegMap.dacDrvrFsDivRegAddr then some .dacFsDiv
      else if regOf addr = AcortexRegMap.dacDrvrMclkSelRegAddr then some .dacMclkSel
      else none
  | .i2c =>
      if regOf addr = AcortexRegMap.i2cDriverAddrRegAddr then some .i2cAddr
      else if regOf addr = AcortexRegMap.i2cDriverClkDivRegAddr then some .i2cClkDiv
      else none
  | .sram =>
      if regOf addr = AcortexRegMap.sramAccAddrHRegAddr then some .sramAccAddrH
      else if regOf addr = AcortexRegMap.sramAccAddrLRegAddr then some .sramAccAddrL
      else none
  | .own =>
      if codeOf addr = AcortexRegMap.acortexAudioSrcSelReg then some .audioSrcSel else none
  | .hostReset => none
  | .unmapped => none

theorem regAt_of_selects {addr : BitVec 16} {reg : ConfigReg} (selects : Selects addr reg) :
    regAt addr = some reg := by
  unfold regAt
  cases reg with
  | fgyrusControl channel =>
      obtain ⟨selected, code, place⟩ := selects
      rw [selected, code, place]
      rfl
  | fgyrusPostNorm channel =>
      obtain ⟨selected, code, place⟩ := selects
      rw [selected, code, place]
      rfl
  | pwmWord index =>
      obtain ⟨selected, code, place⟩ := selects
      rw [selected, code, place]
      rfl
  | _ =>
      obtain ⟨selected, place⟩ := selects
      rw [selected, place]
      rfl

theorem selects_unique {addr : BitVec 16} {reg other : ConfigReg} (selects : Selects addr reg)
    (selectsOther : Selects addr other) : other = reg :=
  Option.some.inj ((regAt_of_selects selectsOther).symm.trans (regAt_of_selects selects))

theorem blockOf_mapped : ∀ blk code : BitVec 4, blockOf blk code ≠ .hostReset →
    blockOf blk code ≠ .unmapped → blk ≤ SynCortexLb.vcortexBlk ∧
      (blk = SynCortexLb.acortexBlk → code ≤ AcortexRegMap.acortexAudioSrcSelReg) := by
  decide +kernel

theorem Selects.block {addr : BitVec 16} {reg : ConfigReg} (selects : Selects addr reg) :
    CortexTree.block addr ≠ .hostReset ∧ CortexTree.block addr ≠ .unmapped ∧
      (CortexTree.block addr = .sram → regOf addr ≠ AcortexRegMap.sramAccCtrlRegAddr) := by
  cases reg with
  | sramAccAddrH =>
      rw [selects.1, selects.2]
      decide
  | sramAccAddrL =>
      rw [selects.1, selects.2]
      decide
  | _ =>
      rw [selects.1]
      exact ⟨Block.noConfusion, Block.noConfusion, fun other => Block.noConfusion other⟩

theorem answerable_of_selects {access : BusAccess} {reg : ConfigReg}
    (selects : Selects access.addr reg) : Answerable access := by
  obtain ⟨noReset, mapped, noCtrl⟩ := selects.block
  obtain ⟨low, audio⟩ := blockOf_mapped _ _ noReset mapped
  refine ⟨low, audio, ?_⟩
  intro addr data written ctrl
  unfold isSramCtrl at ctrl
  simp only [Bool.and_eq_true, decide_eq_true_eq] at ctrl
  exact absurd ctrl.2 (noCtrl ctrl.1.2)

/-! ### The register file of a run -/

section Runs

variable (contents : Contents) (first : Activity) (env : Nat → Clock)

/-- What the register holds by the accesses issued before clock `t`. -/
def fileAt (reg : ConfigReg) : Nat → BitVec 32
  | 0 => resetValue contents reg
  | t + 1 =>
      match issuedAt contents first env t with
      | some (.write addr data) =>
          if Selects addr reg then data &&& writeMask reg else fileAt reg t
      | _ => fileAt reg t

def TargetsRegisters : Prop :=
  ∀ t access, issuedAt contents first env t = some access → ∃ reg, Selects access.addr reg

variable {contents first env}

theorem TargetsRegisters.answerable (targets : TargetsRegisters contents first env) :
    AllAnswerable contents first env := by
  intro t access issued
  obtain ⟨reg, selects⟩ := targets t access issued
  exact answerable_of_selects selects

theorem written_quiet {state : State} {request : Request} (quiet : request.lbWrEnIh = false)
    (reg : ConfigReg) : written state request reg = value state reg := by
  unfold written
  rw [quiet]
  exact if_neg fun both => Bool.false_ne_true both.1

theorem value_powerUp (reg : ConfigReg) :
    value (System.powerUp contents first).tree reg = resetValue contents reg := by
  obtain ⟨i2c, sram, prsr, dac⟩ := powerUp_blocks contents first
  have up : running (released (reset contents))
      { request := quietRequest
        activity := first } = true := by
    change (true && AcortexLb.acortexHostRstOl (acortexRequest quietRequest)) = true
    exact quiet_released
  have shown : value (step (released (reset contents))
      { request := quietRequest
        activity := first }) reg = resetValue contents reg := by
    rw [value_step up, written_quiet rfl]
    refine Eq.trans ?_ (value_reset contents reg)
    cases reg <;> rfl
  cases reg with
  | prsrCtrl =>
      unfold value
      rw [prsr]
      rfl
  | prsrHdrRamRdAddr =>
      unfold value
      rw [prsr]
      rfl
  | dacCtrl =>
      unfold value
      rw [dac]
      exact reset_words.1
  | dacFsDiv =>
      unfold value
      rw [dac]
      rfl
  | dacMclkSel =>
      unfold value
      rw [dac]
      exact reset_words.2.1
  | i2cAddr =>
      unfold value
      rw [i2c]
      rfl
  | i2cClkDiv =>
      unfold value
      rw [i2c]
      rfl
  | sramAccAddrH =>
      unfold value
      rw [sram]
      exact reset_words.2.2
  | sramAccAddrL =>
      unfold value
      rw [sram]
      rfl
  | _ => exact shown

theorem value_edge {t : Nat} {leg : Leg} (targets : TargetsRegisters contents first env)
    (steady : Steady (stateAt contents first env t).tree t leg) (reg : ConfigReg) :
    value (stateAt contents first env (t + 1)).tree reg =
      match issuedAt contents first env t with
      | some (.write addr data) =>
          if Selects addr reg then data &&& writeMask reg
          else value (stateAt contents first env t).tree reg
      | _ => value (stateAt contents first env t).tree reg := by
  have edge : ∀ up : running (stateAt contents first env t).tree
      ((stateAt contents first env t).treeInputs (env t)) = true,
      value (stateAt contents first env (t + 1)).tree reg =
        written (stateAt contents first env t).tree
          ((stateAt contents first env t).treeInputs (env t)).request reg :=
    fun up => value_step up reg
  cases issued : issuedAt contents first env t with
  | none =>
      have silent : Silent ((stateAt contents first env t).treeInputs (env t)).request :=
        BusMaster.quiet_of_no_issue issued
      rw [edge (running_of_noReset steady fun _ => silent.1), written_quiet silent.1]
  | some access =>
      have pulses := pulses_of_issue issued
      obtain ⟨target, selects⟩ := targets t access issued
      have up := running_pulse steady pulses fun selected => absurd selected selects.block.1
      rw [edge up]
      cases access with
      | read addr => exact written_quiet pulses.write reg
      | write addr data =>
          unfold written
          rw [pulses.addr, pulses.write, pulses.data addr data rfl]
          by_cases hit : Selects addr reg
          · exact (if_pos ⟨rfl, hit⟩).trans (if_pos hit).symm
          · exact (if_neg fun both => hit both.2).trans (if_neg hit).symm

theorem steadyAt (targets : TargetsRegisters contents first env) (t : Nat) :
    ∃ leg, Steady (stateAt contents first env t).tree t leg := by
  cases situationAt targets.answerable t with
  | idle idle => exact ⟨.rest, idle.steady⟩
  | waiting access leg waiting => exact ⟨leg, waiting.steady⟩

theorem value_fileAt (targets : TargetsRegisters contents first env) (reg : ConfigReg) (t : Nat) :
    value (stateAt contents first env t).tree reg = fileAt contents first env reg t := by
  induction t with
  | zero => exact value_powerUp reg
  | succ t ih =>
      obtain ⟨leg, steady⟩ := steadyAt targets t
      rw [value_edge targets steady, ih]
      rfl

/-- The answer to a read carries the word of the register to the top. -/
def Brings (addr : BitVec 16) (reg : ConfigReg) (word : BitVec 32) (system : System) (leg : Leg) :
    Prop :=
  value system.tree reg = word ∧
    ∃ place, leg = .moving place ∧ Carries system.tree addr word place

theorem brings_step {t : Nat} {leg : Leg} {addr : BitVec 16} {reg : ConfigReg} {word : BitVec 32}
    (targets : TargetsRegisters contents first env) (selects : Selects addr reg)
    (waiting : Waiting (.read addr) (stateAt contents first env t) t leg) (way : ¬ leg.done)
    (brings : Brings addr reg word (stateAt contents first env t) leg) :
    Brings addr reg word (stateAt contents first env (t + 1))
      (leg.next (SramPort.grant (stateAt contents first env t).tree.acortex.sram)) := by
  obtain ⟨idle, onBus⟩ := waiting.kept (env t) way
  obtain ⟨same, place, rfl, carries⟩ := brings
  cases moves : advance place with
  | none => exact absurd moves way
  | some next =>
      have kept := value_edge targets waiting.steady reg
      rw [show issuedAt contents first env t = none from idle] at kept
      refine ⟨kept.trans same, next, ?_, ?_⟩
      · simp only [Leg.next, moves]
      · rw [← same] at carries ⊢
        exact carries_step onBus selects waiting.steady.single carries moves

theorem brings_start {t : Nat} {addr : BitVec 16} {reg : ConfigReg}
    (targets : TargetsRegisters contents first env) (selects : Selects addr reg)
    (issued : issuedAt contents first env t = some (.read addr)) :
    Brings addr reg (value (stateAt contents first env t).tree reg)
      (stateAt contents first env (t + 1)) (start (.read addr)) := by
  have pulses := pulses_of_issue issued
  have answerable : Answerable (.read addr) := answerable_of_selects selects
  obtain ⟨leg, steady⟩ := steadyAt targets t
  have up := running_pulse steady pulses fun selected => absurd selected selects.block.1
  have kept := value_edge targets steady reg
  rw [issued] at kept
  have entered := entry_isNone answerable
  cases first' : entry (.read addr) with
  | none =>
      rw [first'] at entered
      cases entered
  | some place =>
      refine ⟨kept, place, ?_, carries_start pulses.addr selects up pulses.write first'⟩
      unfold start
      rw [first']

theorem read_arrives {t : Nat} {addr : BitVec 16} {reg : ConfigReg}
    (targets : TargetsRegisters contents first env) (selects : Selects addr reg)
    (issued : issuedAt contents first env t = some (.read addr)) :
    ∃ r, AnsweredOnce contents first env t r (.read addr) ∧
      lbRdDataOd (stateAt contents first env r).tree = fileAt contents first env reg t := by
  have waiting := waiting_of_issue targets.answerable issued
  obtain ⟨r, last, later, arrived, top, brings, before⟩ :=
    waiting_run (Brings addr reg (value (stateAt contents first env t).tree reg))
      (fun u leg waits way brings => brings_step targets selects waits way brings) _ (t + 1) _ rfl
      waiting (brings_start targets selects issued)
  refine ⟨r, answeredOnce_of_arrival later arrived top before, ?_⟩
  obtain ⟨-, place, rfl, carries⟩ := brings
  rw [← value_fileAt targets]
  have kind : place.isWrite = false := arrived.fits
  rcases top_of_advance place (mem_places place) top with rfl | rfl
  · exact carries
  · cases kind

/-- Every access to the configuration registers is answered once, and a read returns
what was last written to its register. -/
theorem registers_hold (targets : TargetsRegisters contents first env) :
    (∀ t access, issuedAt contents first env t = some access →
      ∃ r, AnsweredOnce contents first env t r access) ∧
    ∀ t addr reg, issuedAt contents first env t = some (.read addr) → Selects addr reg →
      (∀ other, Selects addr other → other = reg) ∧
        ∃ r, AnsweredOnce contents first env t r (.read addr) ∧
          lbRdDataOd (stateAt contents first env r).tree = fileAt contents first env reg t := by
  constructor
  · intro t access issued
    have waiting := waiting_of_issue targets.answerable issued
    obtain ⟨r, last, later, arrived, top, -, before⟩ :=
      waiting_run (fun _ _ => True) (fun _ _ _ _ _ => trivial) _ (t + 1) _ rfl waiting trivial
    exact ⟨r, answeredOnce_of_arrival later arrived top before⟩
  · intro t addr reg issued selects
    exact ⟨fun other => selects_unique selects, read_arrives targets selects issued⟩

end Runs

/-- The host writes the sampling divider and reads it afterwards. -/
def dividerEnv (t : Nat) : Clock :=
  { offer :=
      { access := some (if t = 0 then .write 0x2302 0xfffff234 else .read 0x2302)
        idleAddr := 0
        idleData := 0 }
    activity := calm }

theorem divider_selects : Selects 0x2302 .dacFsDiv := by
  decide

theorem divider_targets : TargetsRegisters blank calm dividerEnv := by
  intro t access issued
  have offered := offered_of_issue issued
  refine ⟨.dacFsDiv, ?_⟩
  cases t with
  | zero =>
      cases offered
      exact divider_selects
  | succ t =>
      cases offered
      exact divider_selects

theorem divider_issued :
    issuedAt blank calm dividerEnv 0 = some (.write 0x2302 0xfffff234) ∧
      issuedAt blank calm dividerEnv 1 = none ∧
      issuedAt blank calm dividerEnv 2 = some (.read 0x2302) :=
  ⟨rfl, rfl, rfl⟩

theorem divider_file : fileAt blank calm dividerEnv .dacFsDiv 2 = 0x234 := by
  unfold fileAt
  rw [divider_issued.2.1]
  unfold fileAt
  rw [divider_issued.1]
  exact if_pos divider_selects

theorem registers_hold_divider :
    TargetsRegisters blank calm dividerEnv ∧
      issuedAt blank calm dividerEnv 2 = some (.read 0x2302) ∧
      ∃ r, AnsweredOnce blank calm dividerEnv 2 r (.read 0x2302) ∧
        lbRdDataOd (stateAt blank calm dividerEnv r).tree = 0x234 := by
  have issued := divider_issued.2.2
  obtain ⟨-, r, answered, word⟩ :=
    (registers_hold divider_targets).2 2 0x2302 .dacFsDiv issued divider_selects
  exact ⟨divider_targets, issued, r, answered, word.trans divider_file⟩

end Synesthesia.CortexTree
