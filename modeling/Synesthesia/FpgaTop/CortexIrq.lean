/-
The interrupt line of the top level: `syn_cortex_lb` and the interrupt latches
of the two `fgyrus_lb` instances it decodes for.

The answers of the other two blocks and everything the FFT engines show to their
register blocks are inputs.
-/

import Synesthesia.FpgaTop.SynCortexLb
import Synesthesia.FusiformGyrus.FgyrusLb

namespace Synesthesia.CortexIrq

open Synesthesia.Rtl
open Synesthesia.ButterflyWing (Complex)
open Synesthesia.SynCortexLb (Request Response)

inductive Channel where
  | lchnl
  | rchnl
deriving DecidableEq

structure Engine where
  fgyrusBusyIh : Bool
  fgyrusFsmPstateId : FgyrusFsm.Pstate
  fgyrusFftDoneIh : Bool
  fftRamRdDataId : Complex 32
  twiddleRamRdDataId : BitVec 32
  cordicRamRdDataId : BitVec 16

structure State where
  cortexLb : SynCortexLb.State
  fgyrusLb : Channel → FgyrusLb.State

structure Inputs where
  request : Request
  blkAcortex : Response
  blkVcortex : Response
  engine : Channel → Engine

def reset : State :=
  { cortexLb := SynCortexLb.reset
    fgyrusLb := fun _ => FgyrusLb.reset }

def fgyrusSelC : Channel → Request → Bool
  | .lchnl => SynCortexLb.fgyrusLchnlSelC
  | .rchnl => SynCortexLb.fgyrusRchnlSelC

def fgyrusLbInputs (inputs : Inputs) (channel : Channel) : FgyrusLb.Inputs :=
  { fgyrusBusyIh := (inputs.engine channel).fgyrusBusyIh
    fgyrusFsmPstateId := (inputs.engine channel).fgyrusFsmPstateId
    fgyrusFftDoneIh := (inputs.engine channel).fgyrusFftDoneIh
    fftRamRdDataId := (inputs.engine channel).fftRamRdDataId
    twiddleRamRdDataId := (inputs.engine channel).twiddleRamRdDataId
    cordicRamRdDataId := (inputs.engine channel).cordicRamRdDataId
    irqRstIh := SynCortexLb.irqRstOh inputs.request
    lbRdEnIh := SynCortexLb.blkRdEnOh (fgyrusSelC channel) inputs.request
    lbWrEnIh := SynCortexLb.blkWrEnOh (fgyrusSelC channel) inputs.request
    lbAddrId := SynCortexLb.blkAddrOd inputs.request
    lbWrDataId := SynCortexLb.blkWrDataOd inputs.request }

def fgyrusResponse (state : State) (channel : Channel) : Response :=
  { wrValid := (state.fgyrusLb channel).lbWrValidOd
    rdValid := FgyrusLb.lbRdValidOd (state.fgyrusLb channel)
    rdData := (state.fgyrusLb channel).lbRdDataOd }

def cortexLbInputs (state : State) (inputs : Inputs) : SynCortexLb.Inputs :=
  { request := inputs.request
    blkAcortex := inputs.blkAcortex
    blkVcortex := inputs.blkVcortex
    blkFgyrusLchnl := fgyrusResponse state .lchnl
    blkFgyrusRchnl := fgyrusResponse state .rchnl }

def step (state : State) (inputs : Inputs) : State :=
  { cortexLb := SynCortexLb.step state.cortexLb (cortexLbInputs state inputs)
    fgyrusLb := fun channel =>
      FgyrusLb.step (state.fgyrusLb channel) (fgyrusLbInputs inputs channel) }

def stateAt (inputs : Nat → Inputs) : Nat → State :=
  run step reset inputs

def irqAt (inputs : Nat → Inputs) (channel : Channel) (t : Nat) : Bool :=
  ((stateAt inputs t).fgyrusLb channel).irqOh

/-- The host accesses the block that clears the interrupts. -/
def ClearAccess (request : Request) : Prop :=
  SynCortexLb.blkCodeW request = SynCortexLb.irqClearBlk ∧
    (request.lbRdEnIh = true ∨ request.lbWrEnIh = true)

theorem irqRstOh_eq (request : Request) : SynCortexLb.irqRstOh request = false := by
  rw [SynCortexLb.irqRstOh, ite_self]

theorem irqAt_succ (inputs : Nat → Inputs) (channel : Channel) (t : Nat) :
    irqAt inputs channel (t + 1) =
      (irqAt inputs channel t || ((inputs t).engine channel).fgyrusFftDoneIh) := by
  have latch : irqAt inputs channel (t + 1) =
      if SynCortexLb.irqRstOh (inputs t).request then false
      else irqAt inputs channel t || ((inputs t).engine channel).fgyrusFftDoneIh := rfl
  rw [latch, irqRstOh_eq]
  rfl

/-- No access of the host lowers an interrupt, in any run: once raised it stays. -/
theorem irq_clear_without_effect (inputs : Nat → Inputs) (channel : Channel) (t : Nat)
    (raised : irqAt inputs channel t = true) :
    ∀ later, t ≤ later → irqAt inputs channel later = true := by
  intro later after
  induction later, after using Nat.le_induction with
  | base => exact raised
  | succ later _ ih => rw [irqAt_succ, ih, Bool.true_or]

/-- The left engine finishes in clock 0; from clock 1 on the host clears. -/
def clearInputs (t : Nat) : Inputs :=
  { request :=
      { lbRdEnIh := false
        lbWrEnIh := decide (1 ≤ t)
        lbAddrId := 0x4000
        lbWrDataId := 0 }
    blkAcortex := ⟨false, false, 0⟩
    blkVcortex := ⟨false, false, 0⟩
    engine := fun channel =>
      { fgyrusBusyIh := false
        fgyrusFsmPstateId := .idle
        fgyrusFftDoneIh := decide (t = 0) && decide (channel = .lchnl)
        fftRamRdDataId := ⟨0, 0⟩
        twiddleRamRdDataId := 0
        cordicRamRdDataId := 0 } }

theorem irq_clear_without_effect_first :
    irqAt clearInputs .lchnl 1 = true ∧ ClearAccess (clearInputs 1).request ∧
      ∀ later, 1 ≤ later → irqAt clearInputs .lchnl later = true :=
  ⟨rfl, ⟨rfl, .inr rfl⟩, irq_clear_without_effect clearInputs .lchnl 1 rfl⟩

/-- The interrupt is still there after the access, without another completion. -/
theorem irq_not_cleared :
    irqAt clearInputs .lchnl 1 = true ∧ ClearAccess (clearInputs 1).request ∧
      ((clearInputs 1).engine .lchnl).fgyrusFftDoneIh = false ∧
      irqAt clearInputs .lchnl 2 = true :=
  ⟨rfl, ⟨rfl, .inr rfl⟩, rfl, rfl⟩

end Synesthesia.CortexIrq
