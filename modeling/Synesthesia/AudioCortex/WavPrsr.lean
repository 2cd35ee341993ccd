/-
`wav_prsr`: hardware parser for WAV files streamed as 16-bit words.

The state register is split as in the source into status, chunk and field.
The next value of each register is a function of the registers and inputs it
reads, so that the header logic and the PCM formatting can be treated apart.
-/

import Synesthesia.Rtl.Clocked
import Synesthesia.Rtl.DualPortRam
import Synesthesia.AudioCortex.AcortexRegMap

namespace Synesthesia.WavPrsr

open Synesthesia.Rtl
open Synesthesia.AcortexRegMap

inductive Status where
  | idle
  | activ
  deriving DecidableEq, Repr

inductive Chunk where
  | wave
  | fmt
  | data
  | pcmData
  deriving DecidableEq, Repr

inductive Field where
  | id
  | size
  | fmt
  | nchnnl
  | fs
  | brate
  | blka
  | bps
  deriving DecidableEq, Repr

def Status.code : Status → BitVec 1
  | .idle => 0
  | .activ => 1

def Chunk.code : Chunk → BitVec 2
  | .wave => 0
  | .fmt => 1
  | .data => 2
  | .pcmData => 3

def Field.code : Field → BitVec 3
  | .id => 0
  | .size => 1
  | .fmt => 2
  | .nchnnl => 3
  | .fs => 4
  | .brate => 5
  | .blka => 6
  | .bps => 7

structure Regs where
  lbRdValidOd : Bool
  lbRdDataOd : BitVec 16
  prsrEnF : Bool
  hdrRamRdAddrF : BitVec 8
  status : Status
  chunk : Chunk
  field : Field
  wordCntrF : BitVec 32
  pcmDataSizeF : BitVec 32
  lastWordF : Bool
  fmtChnkEndPtrF : BitVec 5
  pstVecF : BitVec 12
  numChnnlsF : Bool
  bpsF : Bool
  pcmFfWrEnOh : Bool
  pcmFfLdataOd : BitVec 32
  pcmFfRdataOd : BitVec 32
  tgglF : BitVec 2
  wavHdrRam : DualPortRam 8 16

structure Inputs where
  sramEmptyIh : Bool
  sramRdDataValidIh : Bool
  sramRdDataId : BitVec 16
  lbRdEnIh : Bool
  lbWrEnIh : Bool
  lbAddrId : BitVec 8
  lbWrDataId : BitVec 16
  pcmFfAfullIh : Bool
  /-- Header RAM word when both ports meet. -/
  hdrRamMixed : BitVec 16

def reset (header : BitVec 8 → BitVec 16) : Regs :=
  { lbRdValidOd := false
    lbRdDataOd := 0
    prsrEnF := false
    hdrRamRdAddrF := 0
    status := .idle
    chunk := .wave
    field := .id
    wordCntrF := 0
    pcmDataSizeF := 4294967295
    lastWordF := false
    fmtChnkEndPtrF := 0
    pstVecF := 0
    numChnnlsF := false
    bpsF := false
    pcmFfWrEnOh := false
    pcmFfLdataOd := 0
    pcmFfRdataOd := 0
    tgglF := 0
    wavHdrRam := DualPortRam.init header }

/-! ### Combinational signals -/

def endOfFileC (regs : Regs) (valid : Bool) : Bool := regs.lastWordF && valid

def dataChnkEndPtrC (fmtChnkEndPtrF : BitVec 5) : BitVec 5 := fmtChnkEndPtrF + 4

def pcmDataEndPtrOffstC (fmtChnkEndPtrF : BitVec 5) : BitVec 5 := fmtChnkEndPtrF + 3

def activateC (regs : Regs) (sramEmptyIh : Bool) : Bool :=
  decide (regs.status = .idle) && (regs.prsrEnF && !sramEmptyIh)

/-- A valid word ends the current chunk of the header. -/
def chunkEndC (chunk : Chunk) (wordCntrF : BitVec 32) (fmtChnkEndPtrF : BitVec 5)
    (valid : Bool) : Bool :=
  match chunk with
  | .wave => valid && wordCntrF.extractLsb' 0 3 == 5
  | .fmt => valid && wordCntrF.extractLsb' 0 5 == fmtChnkEndPtrF
  | .data => valid && wordCntrF.extractLsb' 0 5 == dataChnkEndPtrC fmtChnkEndPtrF
  | .pcmData => false

def rstFieldC (chunk : Chunk) (activate chunkEnd : Bool) : Bool :=
  activate || chunkEnd || decide (chunk = .pcmData)

def nextStatus (status : Status) (activate endOfFile : Bool) : Status :=
  match status with
  | .idle => if activate then .activ else .idle
  | .activ => if endOfFile then .idle else .activ

def nextChunk (chunk : Chunk) (chunkEnd endOfFile : Bool) : Chunk :=
  match chunk with
  | .wave => if chunkEnd then .fmt else .wave
  | .fmt => if chunkEnd then .data else .fmt
  | .data => if chunkEnd then .pcmData else .data
  | .pcmData => if endOfFile then .wave else .pcmData

def nextField (chunk : Chunk) (field : Field) (pstVecF : BitVec 12)
    (rstField valid : Bool) : Field :=
  if rstField then .id
  else if valid then
    match field with
    | .id => if pstVecF.getLsbD 1 then .size else .id
    | .size => if pstVecF.getLsbD 3 then .fmt else .size
    | .fmt => if chunk = .fmt then .nchnnl else .fmt
    | .nchnnl => .fs
    | .fs => if pstVecF.getLsbD 7 then .brate else .fs
    | .brate => if pstVecF.getLsbD 9 then .blka else .brate
    | .blka => .bps
    | .bps => .id
  else field

def nextWordCntr (wordCntrF : BitVec 32) (endOfFile valid : Bool) : BitVec 32 :=
  if endOfFile then 0 else wordCntrF + BitVec.ofNat 32 valid.toNat

def swapBytes (word : BitVec 16) : BitVec 16 :=
  word.extractLsb' 0 8 ++ word.extractLsb' 8 8

def nextPcmDataSize (pcmDataSizeF : BitVec 32) (field : Field) (endOfFile valid : Bool)
    (word : BitVec 16) : BitVec 32 :=
  if endOfFile then 4294967295
  else if valid = true ∧ field = .size then
    swapBytes word ++ pcmDataSizeF.extractLsb' 16 16
  else pcmDataSizeF

/-- Word count at which the early end-of-file indication is raised. -/
def lastWordAt (pcmDataSizeF : BitVec 32) (fmtChnkEndPtrF : BitVec 5) : BitVec 32 :=
  (pcmDataSizeF >>> 1) + BitVec.ofNat 32 (pcmDataSizeF.getLsbD 0).toNat +
    (pcmDataEndPtrOffstC fmtChnkEndPtrF).setWidth 32

def nextLastWord (lastWordF : Bool) (wordCntrF pcmDataSizeF : BitVec 32)
    (fmtChnkEndPtrF : BitVec 5) (endOfFile valid : Bool) : Bool :=
  if lastWordF then !endOfFile
  else if wordCntrF == lastWordAt pcmDataSizeF fmtChnkEndPtrF then valid
  else false

def nextFmtChnkEndPtr (fmtChnkEndPtrF : BitVec 5) (wordCntrF : BitVec 32)
    (valid : Bool) (word : BitVec 16) : BitVec 5 :=
  if wordCntrF == 8 && valid then
    if word.extractLsb' 8 8 == 18 then 18 else 17
  else fmtChnkEndPtrF

def nextPstVec (pstVecF : BitVec 12) (rstField valid : Bool) : BitVec 12 :=
  let low : Bool := if pstVecF.getLsbD 0 then !(valid && !rstField) else rstField
  let high : BitVec 11 :=
    if rstField then 0
    else if valid then pstVecF.extractLsb' 0 11
    else pstVecF.extractLsb' 1 11
  high ++ BitVec.ofBool low

def nextNumChnnls (numChnnlsF : Bool) (field : Field) (valid : Bool)
    (word : BitVec 16) : Bool :=
  if field = .nchnnl then (if valid then word.getLsbD 1 else numChnnlsF)
  else numChnnlsF

def nextBps (bpsF : Bool) (field : Field) (valid : Bool) (word : BitVec 16) : Bool :=
  if field = .bps then (if valid then word.getLsbD 5 else bpsF) else bpsF

/-! ### PCM formatting -/

/-- Output and assembly registers of the PCM formatting block. -/
structure Pcm where
  wrEn : Bool
  ldata : BitVec 32
  rdata : BitVec 32
  tggl : BitVec 2

def Regs.pcm (regs : Regs) : Pcm :=
  { wrEn := regs.pcmFfWrEnOh
    ldata := regs.pcmFfLdataOd
    rdata := regs.pcmFfRdataOd
    tggl := regs.tgglF }

/-- A half sample is shifted in from below. -/
def shiftIn (sample : BitVec 32) (word : BitVec 16) : BitVec 32 :=
  sample.extractLsb' 0 16 ++ word

/-- The assembly registers move in every clock of the PCM chunk; only the
write strobe and the toggle look at the valid flag. -/
def nextPcm (pcm : Pcm) (chunk : Chunk) (numChnnlsF bpsF valid : Bool)
    (word : BitVec 16) : Pcm :=
  if chunk = .pcmData then
    match numChnnlsF, bpsF with
    | false, false =>
        { wrEn := valid
          ldata := word.signExtend 32
          rdata := 0
          tggl := pcm.tggl }
    | false, true =>
        { wrEn := valid && pcm.tggl.getLsbD 0
          ldata := shiftIn pcm.ldata word
          rdata := 0
          tggl := pcm.tggl + BitVec.ofNat 2 valid.toNat }
    | true, false =>
        { wrEn := valid && pcm.tggl.getLsbD 0
          ldata := if !pcm.tggl.getLsbD 0 then word.signExtend 32 else pcm.ldata
          rdata := if pcm.tggl.getLsbD 0 then word.signExtend 32 else pcm.rdata
          tggl := pcm.tggl + BitVec.ofNat 2 valid.toNat }
    | true, true =>
        { wrEn := valid && (pcm.tggl == 3)
          ldata := if !pcm.tggl.getLsbD 1 then shiftIn pcm.ldata word else pcm.ldata
          rdata := if pcm.tggl.getLsbD 1 then shiftIn pcm.rdata word else pcm.rdata
          tggl := pcm.tggl + BitVec.ofNat 2 valid.toNat }
  else { pcm with wrEn := false }

/-! ### Local bus -/

def fsmPstate (regs : Regs) : BitVec 6 :=
  regs.status.code ++ regs.chunk.code ++ regs.field.code

def nextLbRdData (regs : Regs) (lbAddrId : BitVec 8) : BitVec 16 :=
  if lbAddrId = prsrCtrlRegAddr then (BitVec.ofBool regs.prsrEnF).setWidth 16
  else if lbAddrId = prsrFsmPstateRegAddr then (fsmPstate regs).setWidth 16
  else if lbAddrId = prsrBytesReadHRegAddr then regs.wordCntrF.extractLsb' 15 16
  else if lbAddrId = prsrBytesReadLRegAddr then
    regs.wordCntrF.extractLsb' 0 15 ++ (0 : BitVec 1)
  else if lbAddrId = prsrHdrRamRdAddrRegAddr then regs.hdrRamRdAddrF.setWidth 16
  else if lbAddrId = prsrHdrRamRdDataRegAddr then regs.wavHdrRam.q
  else 57005

def lbWrValidOd (inputs : Inputs) : Bool := inputs.lbWrEnIh

/-! ### Header RAM -/

def hdrRamWrEnC (regs : Regs) (valid : Bool) : Bool :=
  valid && decide (regs.status = .activ) && decide (regs.chunk ≠ .pcmData)

def hdrRamPorts (regs : Regs) (inputs : Inputs) : DualPortRam.Ports 8 16 :=
  { data := inputs.sramRdDataId
    rdaddress := regs.hdrRamRdAddrF
    wraddress := regs.wordCntrF.extractLsb' 0 8
    wren := hdrRamWrEnC regs inputs.sramRdDataValidIh
    mixed := inputs.hdrRamMixed }

def sramRdEnOh (regs : Regs) (pcmFfAfullIh : Bool) : Bool :=
  if regs.status = .activ then !pcmFfAfullIh else false

def step (regs : Regs) (inputs : Inputs) : Regs :=
  let valid := inputs.sramRdDataValidIh
  let word := inputs.sramRdDataId
  let activate := activateC regs inputs.sramEmptyIh
  let endOfFile := endOfFileC regs valid
  let chunkEnd := chunkEndC regs.chunk regs.wordCntrF regs.fmtChnkEndPtrF valid
  let rstField := rstFieldC regs.chunk activate chunkEnd
  let pcm := nextPcm regs.pcm regs.chunk regs.numChnnlsF regs.bpsF valid word
  { lbRdValidOd := inputs.lbRdEnIh
    lbRdDataOd := nextLbRdData regs inputs.lbAddrId
    prsrEnF :=
      if inputs.lbWrEnIh = true ∧ inputs.lbAddrId = prsrCtrlRegAddr then
        inputs.lbWrDataId.getLsbD 0
      else regs.prsrEnF
    hdrRamRdAddrF :=
      if inputs.lbWrEnIh = true ∧ inputs.lbAddrId = prsrHdrRamRdAddrRegAddr then
        inputs.lbWrDataId.extractLsb' 0 8
      else regs.hdrRamRdAddrF
    status := nextStatus regs.status activate endOfFile
    chunk := nextChunk regs.chunk chunkEnd endOfFile
    field := nextField regs.chunk regs.field regs.pstVecF rstField valid
    wordCntrF := nextWordCntr regs.wordCntrF endOfFile valid
    pcmDataSizeF := nextPcmDataSize regs.pcmDataSizeF regs.field endOfFile valid word
    lastWordF :=
      nextLastWord regs.lastWordF regs.wordCntrF regs.pcmDataSizeF
        regs.fmtChnkEndPtrF endOfFile valid
    fmtChnkEndPtrF :=
      nextFmtChnkEndPtr regs.fmtChnkEndPtrF regs.wordCntrF valid word
    pstVecF := nextPstVec regs.pstVecF rstField valid
    numChnnlsF := nextNumChnnls regs.numChnnlsF regs.field valid word
    bpsF := nextBps regs.bpsF regs.field valid word
    pcmFfWrEnOh := pcm.wrEn
    pcmFfLdataOd := pcm.ldata
    pcmFfRdataOd := pcm.rdata
    tgglF := pcm.tggl
    wavHdrRam := DualPortRam.step regs.wavHdrRam (hdrRamPorts regs inputs) }

theorem wrEn_needs_valid {regs : Regs} {inputs : Inputs}
    (write : (step regs inputs).pcmFfWrEnOh = true) : inputs.sramRdDataValidIh = true := by
  have next : (step regs inputs).pcmFfWrEnOh =
      (nextPcm regs.pcm regs.chunk regs.numChnnlsF regs.bpsF inputs.sramRdDataValidIh
        inputs.sramRdDataId).wrEn := rfl
  rw [next] at write
  cases valid : inputs.sramRdDataValidIh with
  | true => rfl
  | false =>
      rw [valid] at write
      simp only [nextPcm, Bool.false_and] at write
      split at write
      · split at write <;> cases write
      · cases write

end Synesthesia.WavPrsr
