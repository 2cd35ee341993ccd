/-
`butterfly_wing`: one radix-2 butterfly on 32-bit complex samples.

`complex_mult` is a pair of `altmult_add` blocks with registered inputs,
registered products and a registered sum.  Products and sums are 42 bits wide.
-/

import Synesthesia.Rtl.Clocked

namespace Synesthesia.ButterflyWing

structure Complex (bits : Nat) where
  real : BitVec bits
  im : BitVec bits
deriving DecidableEq

structure ComplexMult where
  dataa : Complex 32
  datab : Complex 10
  /-- real * real and imaginary * imaginary -/
  realProducts : BitVec 42 × BitVec 42
  /-- real * imaginary and imaginary * real -/
  imProducts : BitVec 42 × BitVec 42
  result : Complex 42

structure State where
  mult : ComplexMult
  pstVec : BitVec 5
  mulResNormF : Complex 33
  mulResInvF : Complex 33
  dataOd : Complex 32
  dataRdyOh : Bool

structure Inputs where
  sampleAId : Complex 32
  sampleBId : Complex 32
  twdlFactorId : Complex 10
  samplesRdyIh : Bool

def reset : State :=
  { mult :=
      { dataa := ⟨0, 0⟩
        datab := ⟨0, 0⟩
        realProducts := (0, 0)
        imProducts := (0, 0)
        result := ⟨0, 0⟩ }
    pstVec := 0
    mulResNormF := ⟨0, 0⟩
    mulResInvF := ⟨0, 0⟩
    dataOd := ⟨0, 0⟩
    dataRdyOh := false }

def product (left : BitVec 32) (right : BitVec 10) : BitVec 42 :=
  left.signExtend 42 * right.signExtend 42

def ComplexMult.step (mult : ComplexMult) (dataa : Complex 32) (datab : Complex 10) :
    ComplexMult :=
  { dataa := dataa
    datab := datab
    realProducts := (product mult.dataa.real mult.datab.real, product mult.dataa.im mult.datab.im)
    imProducts := (product mult.dataa.real mult.datab.im, product mult.dataa.im mult.datab.real)
    result :=
      { real := mult.realProducts.1 - mult.realProducts.2
        im := mult.imProducts.1 + mult.imProducts.2 } }

/-- The product shifted right by `P_DIV` = 8, cut to 33 bits. -/
def mulResNorm (mulRes : BitVec 42) : BitVec 33 := (mulRes.sshiftRight 8).setWidth 33

def mulResInv (mulRes : BitVec 42) : BitVec 33 := ~~~(mulResNorm mulRes) + 1

/-- The last sum: both operands are sign extended to 34 bits and the result is
cut to 32. -/
def dataSum (sample : BitVec 32) (mulRes : BitVec 33) : BitVec 32 :=
  (sample.signExtend 34 +
    (BitVec.ofBool (mulRes.getLsbD 32) ++ BitVec.ofBool (mulRes.getLsbD 32) ++
      mulRes.extractLsb' 0 32 : BitVec 34)).extractLsb' 0 32

def step (state : State) (inputs : Inputs) : State :=
  { mult := state.mult.step inputs.sampleBId inputs.twdlFactorId
    pstVec := state.pstVec.extractLsb' 0 4 ++ BitVec.ofBool inputs.samplesRdyIh
    mulResNormF :=
      { real := mulResNorm state.mult.result.real
        im := mulResNorm state.mult.result.im }
    mulResInvF :=
      { real := mulResInv state.mult.result.real
        im := mulResInv state.mult.result.im }
    dataOd :=
      if state.pstVec.getLsbD 3 then
        { real := dataSum inputs.sampleAId.real state.mulResNormF.real
          im := dataSum inputs.sampleAId.im state.mulResNormF.im }
      else if state.pstVec.getLsbD 4 then
        { real := dataSum inputs.sampleAId.real state.mulResInvF.real
          im := dataSum inputs.sampleAId.im state.mulResInvF.im }
      else state.dataOd
    dataRdyOh := state.pstVec.getLsbD 4 || state.pstVec.getLsbD 3 }

section Step

variable (state : State) (inputs : Inputs)

theorem step_pst_zero : (step state inputs).pstVec.getLsbD 0 = inputs.samplesRdyIh :=
  Rtl.shift_getLsbD _ _ (by decide)

theorem step_pst_succ {k : Nat} (small : k < 4) :
    (step state inputs).pstVec.getLsbD (k + 1) = state.pstVec.getLsbD k :=
  Rtl.shift_getLsbD _ _ small

end Step

end Synesthesia.ButterflyWing
