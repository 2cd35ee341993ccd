/-
`divider_rad4`: unsigned iterative divider, two quotient bits a clock.
-/

import Synesthesia.Rtl.Clocked

namespace Synesthesia.DividerRad4

structure State where
  working : BitVec 66
  denom : BitVec 32
  tripleDenom : BitVec 34
  cntr : BitVec 7

structure Inputs where
  load : Bool
  n : BitVec 32
  d : BitVec 32

def reset : State :=
  { working := 0
    denom := 0
    tripleDenom := 0
    cntr := 0 }

def lowerWorking (state : State) : BitVec 32 := state.working.extractLsb' 0 32

def upperWorking (state : State) : BitVec 34 := state.working.extractLsb' 32 34

def minusZero (state : State) : BitVec 35 := (upperWorking state).setWidth 35

def minusOne (state : State) : BitVec 35 :=
  (upperWorking state).setWidth 35 - state.denom.setWidth 35

def minusTwo (state : State) : BitVec 35 :=
  (upperWorking state).setWidth 35 - state.denom.setWidth 35 <<< 1

def minusThree (state : State) : BitVec 35 :=
  (upperWorking state).setWidth 35 - state.tripleDenom.setWidth 35

def quotBits (state : State) : BitVec 2 :=
  BitVec.ofBool (!(minusTwo state).getLsbD 34) ++
    BitVec.ofBool (!(minusOne state).getLsbD 34 &&
      !((minusThree state).getLsbD 34 ^^ (minusTwo state).getLsbD 34))

def approMinus (state : State) : BitVec 35 :=
  if (quotBits state).getLsbD 1 then
    if (quotBits state).getLsbD 0 then minusThree state else minusTwo state
  else
    if (quotBits state).getLsbD 0 then minusOne state else minusZero state

def cntrZero (state : State) : Bool := state.cntr == 0

def ready (state : State) : Bool := cntrZero state

def q (state : State) : BitVec 32 := lowerWorking state

def step (state : State) (inputs : Inputs) : State :=
  if inputs.load then
    { working := (0 : BitVec 32) ++ inputs.n ++ (0 : BitVec 2)
      denom := inputs.d
      tripleDenom := inputs.d.setWidth 34 + inputs.d.setWidth 34 <<< 1
      cntr := 16 }
  else if cntrZero state then state
  else
    { state with
      cntr := state.cntr - 1
      working := (approMinus state).extractLsb' 0 32 ++ lowerWorking state ++ quotBits state }

end Synesthesia.DividerRad4
