/-
The way of a request through the tree of local buses.

An access enters the tree at one place, and its answer moves from place to place up to
the top.  What enters depends on the block the address selects.
-/

import Synesthesia.FpgaTop.CortexTree
import Synesthesia.Prog.BusMaster

namespace Synesthesia.CortexTree

open Synesthesia.Rtl
open Synesthesia.Prog
open Synesthesia.SynCortexLb (Request)
open Synesthesia.CortexIrq (Channel)

abbrev BusAccess : Type := Access (BitVec 16) (BitVec 32)

/-! ### Decoding -/

inductive Block where
  | fgyrus (channel : Channel)
  | vcortex
  | i2c
  | sram
  | prsr
  | dac
  | own
  | hostReset
  | unmapped
  deriving DecidableEq

def acortexBlock (code : BitVec 4) : Block :=
  if code = AcortexRegMap.i2cDriver then .i2c
  else if code = AcortexRegMap.sram then .sram
  else if code = AcortexRegMap.wavPrsr then .prsr
  else if code = AcortexRegMap.dacDrvr then .dac
  else if code = AcortexRegMap.adcLcaptureRam then .own
  else if code = AcortexRegMap.adcRcaptureRam then .own
  else if code = AcortexRegMap.adcStartCapture then .own
  else if code = AcortexRegMap.acortexAudioSrcSelReg then .own
  else if code = AcortexRegMap.reset then .hostReset
  else .unmapped

def blockOf (blk code : BitVec 4) : Block :=
  if blk = SynCortexLb.fgyrusLchnlBlk then .fgyrus .lchnl
  else if blk = SynCortexLb.fgyrusRchnlBlk then .fgyrus .rchnl
  else if blk = SynCortexLb.acortexBlk then acortexBlock code
  else if blk = SynCortexLb.vcortexBlk then .vcortex
  else .unmapped

def blkOf (addr : BitVec 16) : BitVec 4 := addr.extractLsb' 12 4

def codeOf (addr : BitVec 16) : BitVec 4 := (addr.extractLsb' 0 12).extractLsb' 8 4

def regOf (addr : BitVec 16) : BitVec 8 := (addr.extractLsb' 0 12).extractLsb' 0 8

def block (addr : BitVec 16) : Block := blockOf (blkOf addr) (codeOf addr)

def isSramCtrl (access : BusAccess) : Bool :=
  access.isWrite && decide (block access.addr = .sram) &&
    decide (regOf access.addr = AcortexRegMap.sramAccCtrlRegAddr)

/-- The place where an access enters the tree.  The answer of a control write to the
SRAM comes later, and some blocks answer nothing. -/
def entry (access : BusAccess) : Option Place :=
  match block access.addr, access.isWrite with
  | .fgyrus channel, true => some (.fgyrusWr channel)
  | .fgyrus channel, false => some (.fgyrusRd channel 0)
  | .vcortex, true => some .vcortexWr
  | .vcortex, false => some (.vcortexRd 0)
  | .i2c, true => some .acortexWr
  | .i2c, false => some .i2cRd
  | .sram, true =>
      if regOf access.addr = AcortexRegMap.sramAccCtrlRegAddr then none else some .sramWr
  | .sram, false => some .sramRd
  | .prsr, true => some .acortexWr
  | .prsr, false => some .prsrRd
  | .dac, true => some .acortexWr
  | .dac, false => some .dacRd
  | .own, true => some .acortexWr
  | .own, false => some (.own 0)
  | .hostReset, _ => none
  | .unmapped, _ => none

/-- The decoders of the source select the block of the address. -/
structure Decodes (blk code : BitVec 4) : Prop where
  fgyrusL : (blk == SynCortexLb.fgyrusLchnlBlk) = decide (blockOf blk code = .fgyrus .lchnl)
  fgyrusR : (blk == SynCortexLb.fgyrusRchnlBlk) = decide (blockOf blk code = .fgyrus .rchnl)
  vcortex : (blk == SynCortexLb.vcortexBlk) = decide (blockOf blk code = .vcortex)
  i2c : ((blk == SynCortexLb.acortexBlk) && (code == AcortexRegMap.i2cDriver)) =
    decide (blockOf blk code = .i2c)
  sram : ((blk == SynCortexLb.acortexBlk) && (code == AcortexRegMap.sram)) =
    decide (blockOf blk code = .sram)
  prsr : ((blk == SynCortexLb.acortexBlk) && (code == AcortexRegMap.wavPrsr)) =
    decide (blockOf blk code = .prsr)
  dac : ((blk == SynCortexLb.acortexBlk) && (code == AcortexRegMap.dacDrvr)) =
    decide (blockOf blk code = .dac)
  hostReset : ((blk == SynCortexLb.acortexBlk) && (code == AcortexRegMap.reset)) =
    decide (blockOf blk code = .hostReset)
  own : ((blk == SynCortexLb.acortexBlk) &&
      (code == AcortexRegMap.adcLcaptureRam || code == AcortexRegMap.adcRcaptureRam ||
        code == AcortexRegMap.adcStartCapture ||
        code == AcortexRegMap.acortexAudioSrcSelReg)) =
    decide (blockOf blk code = .own)

theorem decodes (blk code : BitVec 4) : Decodes blk code := by
  have table : ∀ blk code : BitVec 4,
      ((blk == SynCortexLb.fgyrusLchnlBlk) = decide (blockOf blk code = .fgyrus .lchnl) ∧
        (blk == SynCortexLb.fgyrusRchnlBlk) = decide (blockOf blk code = .fgyrus .rchnl) ∧
        (blk == SynCortexLb.vcortexBlk) = decide (blockOf blk code = .vcortex)) ∧
      ((blk == SynCortexLb.acortexBlk) && (code == AcortexRegMap.i2cDriver)) =
        decide (blockOf blk code = .i2c) ∧
      ((blk == SynCortexLb.acortexBlk) && (code == AcortexRegMap.sram)) =
        decide (blockOf blk code = .sram) ∧
      ((blk == SynCortexLb.acortexBlk) && (code == AcortexRegMap.wavPrsr)) =
        decide (blockOf blk code = .prsr) ∧
      ((blk == SynCortexLb.acortexBlk) && (code == AcortexRegMap.dacDrvr)) =
        decide (blockOf blk code = .dac) ∧
      ((blk == SynCortexLb.acortexBlk) && (code == AcortexRegMap.reset)) =
        decide (blockOf blk code = .hostReset) ∧
      ((blk == SynCortexLb.acortexBlk) &&
          (code == AcortexRegMap.adcLcaptureRam || code == AcortexRegMap.adcRcaptureRam ||
            code == AcortexRegMap.adcStartCapture ||
            code == AcortexRegMap.acortexAudioSrcSelReg)) =
        decide (blockOf blk code = .own) := by
    decide +kernel
  obtain ⟨⟨left, right, vcortex⟩, i2c, sram, prsr, dac, hostReset, own⟩ := table blk code
  exact
    { fgyrusL := left
      fgyrusR := right
      vcortex := vcortex
      i2c := i2c
      sram := sram
      prsr := prsr
      dac := dac
      hostReset := hostReset
      own := own }

/-! ### What a request enters -/

/-- `enters` in terms of the selected block. -/
def entersBlock (block : Block) (ctrlReg rd wr sramAck : Bool) : Place → Bool
  | .topRd => false
  | .topWr => false
  | .fgyrusWr channel => decide (block = .fgyrus channel) && wr
  | .fgyrusRd channel stage => decide (block = .fgyrus channel) && rd && decide (0 = stage)
  | .vcortexWr => decide (block = .vcortex) && wr
  | .vcortexRd stage => decide (block = .vcortex) && rd && decide (0 = stage)
  | .acortexRd => decide (block = .hostReset) && wr
  | .acortexWr =>
      decide (block = .i2c) && wr ||
        (decide (block = .prsr) && wr ||
          (decide (block = .dac) && wr ||
            (decide (block = .hostReset) && wr || decide (block = .own) && wr)))
  | .own stage => decide (block = .own) && rd && decide (0 = stage)
  | .i2cRd => decide (block = .i2c) && rd
  | .prsrRd => decide (block = .prsr) && rd
  | .dacRd => decide (block = .dac) && rd
  | .sramRd => decide (block = .sram) && rd
  | .sramWr => if ctrlReg then sramAck else decide (block = .sram) && wr

theorem wrenC_eq (code : BitVec 4) (request : Request) :
    AcortexLb.wrenC code (acortexRequest request) =
      ((blkOf request.lbAddrId == SynCortexLb.acortexBlk && codeOf request.lbAddrId == code) &&
        request.lbWrEnIh) :=
  Bool.and_right_comm _ _ _

theorem rdenC_eq (code : BitVec 4) (request : Request) :
    AcortexLb.rdenC code (acortexRequest request) =
      ((blkOf request.lbAddrId == SynCortexLb.acortexBlk && codeOf request.lbAddrId == code) &&
        request.lbRdEnIh) :=
  Bool.and_right_comm _ _ _

theorem ownWrenC_eq (request : Request) :
    AcortexLb.ownWrenC (acortexRequest request) =
      (decide (block request.lbAddrId = .own) && request.lbWrEnIh) := by
  unfold AcortexLb.ownWrenC block
  rw [wrenC_eq, wrenC_eq, wrenC_eq, wrenC_eq, ← (decodes _ _).own]
  simp only [Bool.and_or_distrib_left, Bool.and_or_distrib_right]

theorem ownRdenC_eq (request : Request) :
    AcortexLb.ownRdenC (acortexRequest request) =
      (decide (block request.lbAddrId = .own) && request.lbRdEnIh) := by
  unfold AcortexLb.ownRdenC block
  rw [rdenC_eq, rdenC_eq, rdenC_eq, rdenC_eq, ← (decodes _ _).own]
  simp only [Bool.and_or_distrib_left, Bool.and_or_distrib_right]

theorem hostRst_eq (request : Request) :
    (!AcortexLb.acortexHostRstOl (acortexRequest request)) =
      (decide (block request.lbAddrId = .hostReset) && request.lbWrEnIh) := by
  unfold block
  rw [← (decodes _ _).hostReset]
  change (!if codeOf request.lbAddrId = AcortexRegMap.reset then
      !((blkOf request.lbAddrId == SynCortexLb.acortexBlk) && request.lbWrEnIh) else true) = _
  by_cases reset : codeOf request.lbAddrId = AcortexRegMap.reset
  · rw [if_pos reset, Bool.not_not, beq_iff_eq.mpr reset, Bool.and_true]
  · rw [if_neg reset, beq_eq_false_iff_ne.mpr reset, Bool.and_false, Bool.false_and]
    rfl

theorem enters_eq (request : Request) (ack : Bool) (place : Place) :
    enters request ack place =
      entersBlock (block request.lbAddrId)
        (decide (regOf request.lbAddrId = AcortexRegMap.sramAccCtrlRegAddr))
        request.lbRdEnIh request.lbWrEnIh ack place := by
  obtain ⟨left, right, vcortex, i2c, sram, prsr, dac, -, -⟩ :=
    decodes (blkOf request.lbAddrId) (codeOf request.lbAddrId)
  unfold enters entersBlock
  cases place with
  | topRd => rfl
  | topWr => rfl
  | fgyrusWr channel =>
      cases channel with
      | lchnl => exact congrArg (· && request.lbWrEnIh) left
      | rchnl => exact congrArg (· && request.lbWrEnIh) right
  | fgyrusRd channel stage =>
      cases channel with
      | lchnl => exact congrArg (· && request.lbRdEnIh && decide (0 = stage)) left
      | rchnl => exact congrArg (· && request.lbRdEnIh && decide (0 = stage)) right
  | vcortexWr => exact congrArg (· && request.lbWrEnIh) vcortex
  | vcortexRd stage => exact congrArg (· && request.lbRdEnIh && decide (0 = stage)) vcortex
  | acortexRd => exact hostRst_eq request
  | acortexWr =>
      simp only [wrenC_eq, i2c, prsr, dac, hostRst_eq, ownWrenC_eq]
      rfl
  | own stage =>
      simp only [ownRdenC_eq]
  | i2cRd =>
      simp only [rdenC_eq, i2c]
      rfl
  | prsrRd =>
      simp only [rdenC_eq, prsr]
      rfl
  | dacRd =>
      simp only [rdenC_eq, dac]
      rfl
  | sramRd =>
      simp only [rdenC_eq, sram]
      rfl
  | sramWr =>
      simp only [wrenC_eq, sram, decide_eq_true_eq]
      rfl

structure Pulses (request : Request) (access : BusAccess) : Prop where
  addr : request.lbAddrId = access.addr
  write : request.lbWrEnIh = access.isWrite
  read : request.lbRdEnIh = !access.isWrite
  data : ∀ addr data, access = .write addr data → request.lbWrDataId = data

def Silent (request : Request) : Prop :=
  request.lbWrEnIh = false ∧ request.lbRdEnIh = false

theorem enters_silent {request : Request} (silent : Silent request) (place : Place) :
    enters request false place = false := by
  rw [enters_eq, silent.1, silent.2]
  unfold entersBlock
  cases place <;> simp

/-- The pulse of an access enters the tree at its place only, unless it is a write to
the host reset. -/
theorem enters_pulse {request : Request} {access : BusAccess} (pulses : Pulses request access)
    (noReset : block access.addr = .hostReset → access.isWrite = false) (place : Place) :
    enters request false place = decide (entry access = some place) := by
  rw [enters_eq, pulses.addr, pulses.write, pulses.read]
  unfold entry
  generalize block access.addr = selected at noReset ⊢
  generalize access.isWrite = write at noReset ⊢
  by_cases ctrl : regOf access.addr = AcortexRegMap.sramAccCtrlRegAddr
  · rw [decide_eq_true ctrl]
    cases selected <;> cases write <;> cases place <;> simp_all [entersBlock]
  · rw [decide_eq_false ctrl]
    cases selected <;> cases write <;> cases place <;> simp_all [entersBlock]

/-! ### The way up -/

def advance : Place → Option Place
  | .topRd => none
  | .topWr => none
  | .fgyrusWr _ => some .topWr
  | .fgyrusRd channel 0 => some (.fgyrusRd channel 1)
  | .fgyrusRd channel 1 => some (.fgyrusRd channel 2)
  | .fgyrusRd channel 2 => some (.fgyrusRd channel 3)
  | .fgyrusRd _ 3 => some .topRd
  | .vcortexWr => some .topWr
  | .vcortexRd 0 => some (.vcortexRd 1)
  | .vcortexRd 1 => some (.vcortexRd 2)
  | .vcortexRd 2 => some .topRd
  | .acortexRd => some .topRd
  | .acortexWr => some .topWr
  | .own 0 => some (.own 1)
  | .own 1 => some (.own 2)
  | .own 2 => some .acortexRd
  | .i2cRd => some .acortexRd
  | .prsrRd => some .acortexRd
  | .dacRd => some .acortexRd
  | .sramRd => some .acortexRd
  | .sramWr => some .acortexWr

def places : List Place :=
  [.topRd, .topWr, .fgyrusWr .lchnl, .fgyrusWr .rchnl, .fgyrusRd .lchnl 0, .fgyrusRd .lchnl 1,
    .fgyrusRd .lchnl 2, .fgyrusRd .lchnl 3, .fgyrusRd .rchnl 0, .fgyrusRd .rchnl 1,
    .fgyrusRd .rchnl 2, .fgyrusRd .rchnl 3, .vcortexWr, .vcortexRd 0, .vcortexRd 1, .vcortexRd 2,
    .acortexRd, .acortexWr, .own 0, .own 1, .own 2, .i2cRd, .prsrRd, .dacRd, .sramRd, .sramWr]

theorem mem_places (place : Place) : place ∈ places := by
  cases place with
  | fgyrusWr channel => cases channel <;> decide
  | fgyrusRd channel stage => cases channel <;> revert stage <;> decide
  | vcortexRd stage =>
      revert stage
      decide
  | own stage =>
      revert stage
      decide
  | topRd | topWr | vcortexWr | acortexRd | acortexWr | i2cRd | prsrRd | dacRd | sramRd
  | sramWr => decide

theorem flows_places : ∀ token ∈ none :: places.map some, ∀ place ∈ places,
    flows (fun other => decide (token = some other)) place =
      decide (token.bind advance = some place) := by
  decide +kernel

theorem flows_token (token : Option Place) (place : Place) :
    flows (fun other => decide (token = some other)) place =
      decide (token.bind advance = some place) := by
  refine flows_places token ?_ place (mem_places place)
  cases token with
  | none => exact List.mem_cons_self ..
  | some token => exact List.mem_cons_of_mem _ (List.mem_map_of_mem (mem_places token))

end Synesthesia.CortexTree
