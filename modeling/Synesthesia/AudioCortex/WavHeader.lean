/-
The header of a WAV file as `wav_prsr` follows it.

The word counter, the chunk and field registers, the one-hot position vector
and the size register move independently.  `Tracks item k regs` says what they
hold after `k` words of `item`; it is kept by every gap and every word, and the
last word leaves the registers ready for any other item.
-/

import Synesthesia.AudioCortex.WavPrsr
import Synesthesia.AudioCortex.WavItem

namespace Synesthesia.WavPrsr

open Synesthesia.Rtl

/-! ### Size words

A size field is streamed low half first, with the bytes of each half exchanged. -/

theorem swapBytes_low (size : BitVec 32) :
    swapBytes ((((size &&& 0xff) <<< 8) + ((size &&& 0xff00) >>> 8)).setWidth 16) =
      size.extractLsb' 0 16 := by
  have first : ∀ j < 32, (0xff : BitVec 32).getLsbD j = decide (j < 8) := by decide
  have second : ∀ j < 32, (0xff00 : BitVec 32).getLsbD j =
      (decide (8 ≤ j) && decide (j < 16)) := by decide
  have apart : ((size &&& 0xff) <<< 8) &&& ((size &&& 0xff00) >>> 8) = 0 := by
    apply BitVec.eq_of_getLsbD_eq
    intro i inside
    grind
  rw [BitVec.add_eq_or_of_and_eq_zero _ _ apart]
  apply BitVec.eq_of_getLsbD_eq
  intro i inside
  simp only [swapBytes, BitVec.getLsbD_append, BitVec.getLsbD_extractLsb',
    BitVec.getLsbD_setWidth, BitVec.getLsbD_or, BitVec.getLsbD_shiftLeft,
    BitVec.getLsbD_ushiftRight, BitVec.getLsbD_and]
  rcases Nat.lt_or_ge i 8 with low | high
  · have kept : 8 + i < 16 ∧ 8 + i < 32 ∧ ¬ 8 + (8 + i) < 16 := by omega
    rw [if_pos low, second _ (by omega), show 8 + i - 8 = i by omega, first i (by omega)]
    simp [low, inside, kept]
  · have moved : i - 8 < 8 ∧ i - 8 < 16 ∧ 8 + (i - 8) = i := by omega
    rw [if_neg (Nat.not_lt.mpr high), Nat.zero_add, moved.2.2, second i (by omega)]
    simp [high, inside, moved]

theorem swapBytes_high (size : BitVec 32) :
    swapBytes ((((size &&& 0xff0000) >>> 8) +
      ((size &&& 0xff000000) >>> 24)).setWidth 16) = size.extractLsb' 16 16 := by
  have third : ∀ j < 32, (0xff0000 : BitVec 32).getLsbD j =
      (decide (16 ≤ j) && decide (j < 24)) := by decide
  have fourth : ∀ j < 32, (0xff000000 : BitVec 32).getLsbD j = decide (24 ≤ j) := by
    decide
  have apart : ((size &&& 0xff0000) >>> 8) &&& ((size &&& 0xff000000) >>> 24) = 0 := by
    apply BitVec.eq_of_getLsbD_eq
    intro i inside
    grind
  rw [BitVec.add_eq_or_of_and_eq_zero _ _ apart]
  apply BitVec.eq_of_getLsbD_eq
  intro i inside
  simp only [swapBytes, BitVec.getLsbD_append, BitVec.getLsbD_extractLsb',
    BitVec.getLsbD_setWidth, BitVec.getLsbD_or, BitVec.getLsbD_ushiftRight,
    BitVec.getLsbD_and]
  grind

theorem halves (size : BitVec 32) :
    size.extractLsb' 16 16 ++ size.extractLsb' 0 16 = size := by
  apply BitVec.eq_of_getLsbD_eq
  intro i inside
  simp only [BitVec.getLsbD_append, BitVec.getLsbD_extractLsb']
  grind

theorem toNat_halves (high low : BitVec 16) :
    (high ++ low).toNat = high.toNat * 65536 + low.toNat := by
  rw [BitVec.toNat_append, ← Nat.shiftLeft_add_eq_or_of_lt low.isLt, Nat.shiftLeft_eq]

theorem swapBytes_rawWord_two (item : WavItem) :
    swapBytes (item.rawWord 2) = item.chunkSize.extractLsb' 0 16 := swapBytes_low _

theorem swapBytes_rawWord_three (item : WavItem) :
    swapBytes (item.rawWord 3) = item.chunkSize.extractLsb' 16 16 := swapBytes_high _

theorem swapBytes_rawWord_eight (item : WavItem) :
    swapBytes (item.rawWord 8) = item.subchunk1Size.extractLsb' 0 16 := swapBytes_low _

theorem swapBytes_rawWord_nine (item : WavItem) :
    swapBytes (item.rawWord 9) = item.subchunk1Size.extractLsb' 16 16 :=
  swapBytes_high _

theorem swapBytes_rawWord_sizeLow (item : WavItem) :
    swapBytes (item.rawWord (20 + item.offst)) =
      item.subchunk2Size.extractLsb' 0 16 := by
  have word : item.rawWord (20 + item.offst) =
      (((item.subchunk2Size &&& 0xff) <<< 8) +
        ((item.subchunk2Size &&& 0xff00) >>> 8)).setWidth 16 := by
    rw [BitVec.add_comm]
    unfold WavItem.rawWord
    iterate 20 rw [if_neg (by omega)]
    rw [if_pos rfl]
  rw [word, swapBytes_low]

theorem swapBytes_rawWord_sizeHigh (item : WavItem) :
    swapBytes (item.rawWord (21 + item.offst)) =
      item.subchunk2Size.extractLsb' 16 16 := by
  have word : item.rawWord (21 + item.offst) =
      (((item.subchunk2Size &&& 0xff0000) >>> 8) +
        ((item.subchunk2Size &&& 0xff000000) >>> 24)).setWidth 16 := by
    unfold WavItem.rawWord
    iterate 21 rw [if_neg (by omega)]
    rw [if_pos rfl]
  rw [word, swapBytes_high]

/-! ### Position in the header

The three registers after `k` words, for a format chunk that ends at word
`17 + offst`.  The first six words are the RIFF chunk. -/

def chunkAt (offst k : Nat) : Chunk :=
  if k ≤ 5 then .wave
  else if k ≤ 17 + offst then .fmt
  else if k ≤ 21 + offst then .data
  else .pcmData

def fmtField : Nat → Field
  | 0 | 1 => .id
  | 2 | 3 => .size
  | 4 => .fmt
  | 5 => .nchnnl
  | 6 | 7 => .fs
  | 8 | 9 => .brate
  | 10 => .blka
  | 11 => .bps
  | _ => .id

def fieldAt (offst k : Nat) : Field :=
  if k ≤ 17 + offst then fmtField (k - 6)
  else if k ≤ 21 + offst then (if k ≤ 19 + offst then .id else .size)
  else .id

def pstVecAt (offst k : Nat) : BitVec 12 :=
  if k ≤ 17 + offst then 1 <<< (k - 6)
  else if k ≤ 21 + offst then 1 <<< (k - (18 + offst))
  else 1

def fmtEndAt (offst : Nat) : BitVec 5 := BitVec.ofNat 5 (17 + offst)

theorem nextPstVec_rst (pstVecF : BitVec 12) (valid : Bool) :
    nextPstVec pstVecF true valid = 1 := by
  simp [nextPstVec]

theorem nextPstVec_hold (pstVecF : BitVec 12) :
    nextPstVec pstVecF false false = pstVecF := by
  apply BitVec.eq_of_getLsbD_eq
  intro i inside
  simp only [nextPstVec, Bool.false_and, Bool.not_false, Bool.false_eq_true,
    reduceIte, BitVec.getLsbD_append, BitVec.getLsbD_extractLsb',
    BitVec.getLsbD_ofBool]
  grind

/-- What a word does to the three registers while the parser is active. -/
def nextPosition (position : Chunk × Field × BitVec 12) (wordCntrF : BitVec 32)
    (fmtEnd : BitVec 5) : Chunk × Field × BitVec 12 :=
  let chunkEnd := chunkEndC position.1 wordCntrF fmtEnd true
  let rstField := rstFieldC position.1 false chunkEnd
  (nextChunk position.1 chunkEnd false,
    nextField position.1 position.2.1 position.2.2 rstField true,
    nextPstVec position.2.2 rstField true)

def positionAt (offst k : Nat) : Chunk × Field × BitVec 12 :=
  (chunkAt offst k, fieldAt offst k, pstVecAt offst k)

set_option synthInstance.maxSize 1000 in
/-- One word moves the three registers one position.  Until word 8 the end
pointer is still that of an earlier file, or its reset value. -/
theorem position_step {fmtEnd : BitVec 5} {offst : Nat}
    (known : fmtEnd = 17 ∨ fmtEnd = 18 ∨ fmtEnd = 0) (sized : offst = 0 ∨ offst = 1) :
    ∀ k < 22 + offst, 6 ≤ k → (9 ≤ k → fmtEnd = fmtEndAt offst) →
      nextPosition (positionAt offst k) (BitVec.ofNat 32 k) fmtEnd =
        positionAt offst (k + 1) := by
  rcases known with rfl | rfl | rfl <;> rcases sized with rfl | rfl <;> decide +kernel

/-- Field register in the RIFF chunk of a file met in step. -/
def waveFieldAt (k : Nat) : Field :=
  if k ≤ 1 then .id else if k ≤ 3 then .size else .fmt

theorem wave_position_step :
    ∀ fmtEnd : BitVec 5, ∀ k < 5,
      nextPosition (.wave, waveFieldAt k, 1#12 <<< k) (BitVec.ofNat 32 k) fmtEnd =
        (Chunk.wave, waveFieldAt (k + 1), 1#12 <<< (k + 1)) := by
  decide +kernel

/-- The sixth word opens the format chunk, whatever the field register did. -/
theorem wave_position_end (field : Field) (pstVecF : BitVec 12) (fmtEnd : BitVec 5)
    (offst : Nat) :
    nextPosition (.wave, field, pstVecF) (BitVec.ofNat 32 5) fmtEnd =
      positionAt offst 6 := by
  have ended : chunkEndC .wave (BitVec.ofNat 32 5) fmtEnd true = true := rfl
  have opened : positionAt offst 6 = (.fmt, .id, 1) := by
    simp [positionAt, chunkAt, fieldAt, pstVecAt, fmtField, Nat.le_add_right_of_le]
  simp only [nextPosition, ended, opened, rstFieldC, nextChunk, nextField,
    nextPstVec_rst, reduceIte, Bool.or_true, Bool.true_or]

/-! ### Registers after `k` words -/

/-- In the RIFF chunk the field register is in step with the word counter. -/
structure InStep (k : Nat) (regs : Regs) : Prop where
  field : regs.field = waveFieldAt k
  active : 1 ≤ k → regs.status = .activ
  pstVec : regs.status = .activ → regs.pstVecF = 1#12 <<< k

/-- In the first file after reset the size register, too, has its final value
after four words. -/
structure Aligned (item : WavItem) (k : Nat) (regs : Regs) : Prop extends InStep k regs where
  sizeUnset : k ≤ 2 → regs.pcmDataSizeF = 4294967295
  sizeHalf : k = 3 → regs.pcmDataSizeF = item.chunkSize.extractLsb' 0 16 ++ 65535#16
  size : 4 ≤ k → regs.pcmDataSizeF = item.chunkSize

/-- The header registers after `k` words of `item`, at least one still to come.

A file may start while the field register is out of step (words that arrive in
an IDLE cycle are counted but the field register restarts when the parser does).
The end pointer of the earlier file then keeps the size comparison out of reach
until the format chunk has been entered. -/
structure Tracks (item : WavItem) (k : Nat) (regs : Regs) : Prop where
  within : k < item.rawLength
  count : regs.wordCntrF = BitVec.ofNat 32 k
  last : regs.lastWordF = decide (k + 1 = item.rawLength)
  wave : k ≤ 5 → regs.chunk = .wave ∧
    (regs.fmtChnkEndPtrF = 17 ∨ regs.fmtChnkEndPtrF = 18 ∨
      (regs.fmtChnkEndPtrF = 0 ∧ Aligned item k regs))
  active : 6 ≤ k → regs.status = .activ
  chunk : 6 ≤ k → regs.chunk = chunkAt item.offst k
  field : 6 ≤ k → regs.field = fieldAt item.offst k
  pstVec : 6 ≤ k → regs.pstVecF = pstVecAt item.offst k
  fmtEndOld : 6 ≤ k → k ≤ 8 →
    regs.fmtChnkEndPtrF = 17 ∨ regs.fmtChnkEndPtrF = 18 ∨
      (regs.fmtChnkEndPtrF = 0 ∧ regs.pcmDataSizeF = item.chunkSize)
  fmtEnd : 9 ≤ k → regs.fmtChnkEndPtrF = fmtEndAt item.offst
  sizeFmtHalf : k = 9 →
    regs.pcmDataSizeF.extractLsb' 16 16 = item.subchunk1Size.extractLsb' 0 16
  sizeFmt : 10 ≤ k → k ≤ 20 + item.offst → regs.pcmDataSizeF = item.subchunk1Size
  sizeDataHalf : k = 21 + item.offst → regs.pcmDataSizeF =
    item.subchunk2Size.extractLsb' 0 16 ++ item.subchunk1Size.extractLsb' 16 16
  sizeData : 22 + item.offst ≤ k → regs.pcmDataSizeF = item.subchunk2Size
  channels : 12 ≤ k → regs.numChnnlsF = item.subchunk1NoChnls.getLsbD 1
  bits : 18 ≤ k → regs.bpsF = item.subchunk1BitsPerSample.getLsbD 5

/-! ### Early end-of-file comparison -/

theorem lastWordAt_toNat (size : BitVec 32) {fmtEnd : BitVec 5}
    (small : fmtEnd.toNat ≤ 18) :
    (lastWordAt size fmtEnd).toNat =
      size.toNat / 2 + size.toNat % 2 + (fmtEnd.toNat + 3) := by
  have odd : (size.getLsbD 0).toNat = size.toNat % 2 := by
    rw [BitVec.getLsbD, Nat.testBit_zero]
    rcases Nat.mod_two_eq_zero_or_one size.toNat with even | odd <;> simp [*]
  have bound := size.isLt
  simp only [lastWordAt, pcmDataEndPtrOffstC, BitVec.toNat_add, BitVec.toNat_ushiftRight,
    BitVec.toNat_setWidth, BitVec.toNat_ofNat, BitVec.reduceToNat, odd,
    Nat.shiftRight_eq_div_pow]
  omega

theorem chunkSize_large {item : WavItem} (wellFormed : item.WellFormed) :
    36 ≤ item.chunkSize.toNat := by
  have announced := WavItem.subchunk2Size_lt wellFormed
  rw [wellFormed.chunkSize, BitVec.toNat_add]
  simp only [BitVec.reduceToNat]
  omega

theorem Aligned.size_large {item : WavItem} {k : Nat} {regs : Regs}
    (wellFormed : item.WellFormed) (aligned : Aligned item k regs) :
    36 ≤ regs.pcmDataSizeF.toNat := by
  rcases Nat.lt_trichotomy k 3 with early | half | late
  · rw [aligned.sizeUnset (by omega)]
    decide
  · rw [aligned.sizeHalf half, toNat_halves]
    simp only [BitVec.reduceToNat]
    omega
  · rw [aligned.size late]
    exact chunkSize_large wellFormed

theorem Tracks.fmtEnd_early {item : WavItem} {k : Nat} {regs : Regs}
    (wellFormed : item.WellFormed) (tracks : Tracks item k regs) (early : k < 9) :
    regs.fmtChnkEndPtrF = 17 ∨ regs.fmtChnkEndPtrF = 18 ∨
      (regs.fmtChnkEndPtrF = 0 ∧ 36 ≤ regs.pcmDataSizeF.toNat) := by
  rcases Nat.lt_or_ge k 6 with wave | fmt
  · obtain ⟨-, old | old | ⟨unset, aligned⟩⟩ := tracks.wave (by omega)
    · exact .inl old
    · exact .inr (.inl old)
    · exact .inr (.inr ⟨unset, aligned.size_large wellFormed⟩)
  · obtain old | old | ⟨unset, size⟩ := tracks.fmtEndOld fmt (by omega)
    · exact .inl old
    · exact .inr (.inl old)
    · exact .inr (.inr ⟨unset, size ▸ chunkSize_large wellFormed⟩)

theorem lastWord_hit {item : WavItem} {k : Nat} {regs : Regs}
    (wellFormed : item.WellFormed) (tracks : Tracks item k regs) :
    (regs.wordCntrF == lastWordAt regs.pcmDataSizeF regs.fmtChnkEndPtrF) =
      decide (k + 2 = item.rawLength) := by
  have within := tracks.within
  have length := WavItem.rawLength_eq wellFormed
  have pcm := wellFormed.pcm
  have announced := WavItem.subchunk2Size_lt wellFormed
  have sized : item.offst ≤ 1 := item.offst_le
  unfold WavItem.headerWords WavItem.pcmWords at length
  unfold WavItem.pcmWords at pcm
  suffices compare : k = (lastWordAt regs.pcmDataSizeF regs.fmtChnkEndPtrF).toNat ↔
      k + 2 = item.rawLength by
    rw [Bool.eq_iff_iff, beq_iff_eq, decide_eq_true_iff, ← compare, tracks.count,
      ← BitVec.toNat_inj, BitVec.toNat_ofNat, Nat.mod_eq_of_lt (by omega)]
  rcases Nat.lt_or_ge k 9 with early | late
  · have away : 9 ≤ (lastWordAt regs.pcmDataSizeF regs.fmtChnkEndPtrF).toNat := by
      rcases tracks.fmtEnd_early wellFormed early with old | old | ⟨unset, large⟩
      · rw [old, lastWordAt_toNat _ (by decide)]
        simp only [BitVec.reduceToNat]
        omega
      · rw [old, lastWordAt_toNat _ (by decide)]
        simp only [BitVec.reduceToNat]
        omega
      · rw [unset, lastWordAt_toNat _ (by decide)]
        omega
    omega
  · have small : (fmtEndAt item.offst).toNat = 17 + item.offst := by
      rw [fmtEndAt, BitVec.toNat_ofNat, Nat.mod_eq_of_lt (by omega)]
    rw [tracks.fmtEnd late, lastWordAt_toNat _ (by omega), small]
    rcases Nat.lt_trichotomy k (21 + item.offst) with header | half | data
    · rcases Nat.lt_or_ge k (20 + item.offst) with below | last
      · omega
      · rw [tracks.sizeFmt (by omega) (by omega)]
        rcases wellFormed.fmtSize with size | size <;>
          simp only [size, BitVec.reduceToNat] <;> omega
    · have high : (item.subchunk1Size.extractLsb' 16 16).toNat = 0 := by
        rcases wellFormed.fmtSize with size | size <;> rw [size] <;> decide
      rw [tracks.sizeDataHalf half, toNat_halves, high]
      omega
    · have even : item.subchunk2Size.toNat % 2 = 0 := item.subchunk2Size_even wellFormed
      rw [tracks.sizeData (by omega)]
      omega

/-! ### Gaps -/

@[simp] theorem endOfFileC_gap (regs : Regs) : endOfFileC regs false = false := by
  simp [endOfFileC]

@[simp] theorem chunkEndC_gap (chunk : Chunk) (wordCntrF : BitVec 32)
    (fmtEnd : BitVec 5) : chunkEndC chunk wordCntrF fmtEnd false = false := by
  cases chunk <;> rfl

@[simp] theorem nextChunk_hold (chunk : Chunk) : nextChunk chunk false false = chunk := by
  cases chunk <;> rfl

@[simp] theorem nextWordCntr_gap (wordCntrF : BitVec 32) :
    nextWordCntr wordCntrF false false = wordCntrF := by
  simp [nextWordCntr]

@[simp] theorem nextPcmDataSize_gap (size : BitVec 32) (field : Field)
    (word : BitVec 16) : nextPcmDataSize size field false false word = size := by
  simp [nextPcmDataSize]

@[simp] theorem nextLastWord_gap (lastWordF : Bool) (wordCntrF size : BitVec 32)
    (fmtEnd : BitVec 5) :
    nextLastWord lastWordF wordCntrF size fmtEnd false false = lastWordF := by
  cases lastWordF <;> simp [nextLastWord]

@[simp] theorem nextFmtChnkEndPtr_gap (fmtEnd : BitVec 5) (wordCntrF : BitVec 32)
    (word : BitVec 16) : nextFmtChnkEndPtr fmtEnd wordCntrF false word = fmtEnd := by
  simp [nextFmtChnkEndPtr]

@[simp] theorem nextNumChnnls_gap (numChnnlsF : Bool) (field : Field)
    (word : BitVec 16) : nextNumChnnls numChnnlsF field false word = numChnnlsF := by
  simp [nextNumChnnls]

@[simp] theorem nextBps_gap (bpsF : Bool) (field : Field) (word : BitVec 16) :
    nextBps bpsF field false word = bpsF := by
  simp [nextBps]

theorem activateC_active {regs : Regs} (active : regs.status = .activ)
    (sramEmptyIh : Bool) : activateC regs sramEmptyIh = false := by
  simp [activateC, active]

theorem inStep_gap {k : Nat} {regs : Regs} {inputs : Inputs} (inStep : InStep k regs)
    (wave : regs.chunk = .wave) (gap : inputs.sramRdDataValidIh = false) :
    InStep k (step regs inputs) := by
  have place : (step regs inputs).field = waveFieldAt k ∧
      ((step regs inputs).status = .activ → (step regs inputs).pstVecF = 1#12 <<< k) := by
    cases phase : regs.status with
    | activ =>
        rw [← inStep.field, ← inStep.pstVec phase]
        simp [step, gap, activateC_active phase, rstFieldC, wave, nextField,
          nextPstVec_hold]
    | idle =>
        have first : k = 0 := by
          by_contra later
          have active := inStep.active (by omega)
          rw [phase] at active
          cases active
        have field := inStep.field
        subst first
        cases start : activateC regs inputs.sramEmptyIh <;>
          simp_all [step, rstFieldC, nextField, nextStatus, nextPstVec_rst, waveFieldAt]
  exact
    { field := place.1
      active := by
        intro later
        simp [step, gap, nextStatus, inStep.active later]
      pstVec := place.2 }

theorem aligned_gap {item : WavItem} {k : Nat} {regs : Regs} {inputs : Inputs}
    (aligned : Aligned item k regs) (wave : regs.chunk = .wave)
    (gap : inputs.sramRdDataValidIh = false) : Aligned item k (step regs inputs) := by
  have sizeHeld : (step regs inputs).pcmDataSizeF = regs.pcmDataSizeF := by
    simp [step, gap]
  exact
    { toInStep := inStep_gap aligned.toInStep wave gap
      sizeUnset := sizeHeld ▸ aligned.sizeUnset
      sizeHalf := sizeHeld ▸ aligned.sizeHalf
      size := sizeHeld ▸ aligned.size }

theorem tracks_gap {item : WavItem} {k : Nat} {regs : Regs} {inputs : Inputs}
    (tracks : Tracks item k regs) (gap : inputs.sramRdDataValidIh = false) :
    Tracks item k (step regs inputs) := by
  have idle : regs.status = .activ → (step regs inputs).status = .activ := by
    intro active
    simp [step, gap, nextStatus, active]
  have held : regs.status = .activ → regs.chunk ≠ .pcmData →
      (step regs inputs).field = regs.field ∧
        (step regs inputs).pstVecF = regs.pstVecF := by
    intro active header
    simp [step, gap, activateC_active active, rstFieldC, header, nextField,
      nextPstVec_hold]
  have pcm : regs.chunk = .pcmData →
      (step regs inputs).field = .id ∧ (step regs inputs).pstVecF = 1 := by
    intro data
    simp [step, gap, rstFieldC, data, nextField, nextPstVec_rst]
  have chunkHeld : (step regs inputs).chunk = regs.chunk := by simp [step, gap]
  have fmtEndHeld : (step regs inputs).fmtChnkEndPtrF = regs.fmtChnkEndPtrF := by
    simp [step, gap]
  have sizeHeld : (step regs inputs).pcmDataSizeF = regs.pcmDataSizeF := by
    simp [step, gap]
  have place : 6 ≤ k → (step regs inputs).field = fieldAt item.offst k ∧
      (step regs inputs).pstVecF = pstVecAt item.offst k := by
    intro late
    by_cases data : regs.chunk = .pcmData
    · have beyond : 21 + item.offst < k := by
        rw [tracks.chunk late] at data
        unfold chunkAt at data
        grind
      rw [(pcm data).1, (pcm data).2]
      simp [fieldAt, pstVecAt, show ¬ k ≤ 17 + item.offst by omega,
        show ¬ k ≤ 21 + item.offst by omega]
    · rw [(held (tracks.active late) data).1, (held (tracks.active late) data).2]
      exact ⟨tracks.field late, tracks.pstVec late⟩
  exact
    { within := tracks.within
      count := by simpa [step, gap] using tracks.count
      last := by simpa [step, gap] using tracks.last
      wave := by
        intro early
        obtain ⟨wave, old⟩ := tracks.wave early
        rw [chunkHeld, fmtEndHeld]
        refine ⟨wave, old.imp_right (Or.imp_right ?_)⟩
        rintro ⟨unset, aligned⟩
        exact ⟨unset, aligned_gap aligned wave gap⟩
      active := fun late => idle (tracks.active late)
      chunk := fun late => chunkHeld ▸ tracks.chunk late
      field := fun late => (place late).1
      pstVec := fun late => (place late).2
      fmtEndOld := by
        rw [fmtEndHeld, sizeHeld]
        exact tracks.fmtEndOld
      fmtEnd := fmtEndHeld ▸ tracks.fmtEnd
      sizeFmtHalf := sizeHeld ▸ tracks.sizeFmtHalf
      sizeFmt := sizeHeld ▸ tracks.sizeFmt
      sizeDataHalf := sizeHeld ▸ tracks.sizeDataHalf
      sizeData := sizeHeld ▸ tracks.sizeData
      channels := by simpa [step, gap] using tracks.channels
      bits := by simpa [step, gap] using tracks.bits }

/-! ### Words -/

theorem fieldAt_eq_size {offst k : Nat} (sized : offst ≤ 1) (late : 6 ≤ k) :
    fieldAt offst k = .size ↔ k = 8 ∨ k = 9 ∨ k = 20 + offst ∨ k = 21 + offst := by
  unfold fieldAt fmtField
  grind

theorem fieldAt_eq_nchnnl {offst k : Nat} (late : 6 ≤ k) :
    fieldAt offst k = .nchnnl ↔ k = 11 := by
  unfold fieldAt fmtField
  grind

theorem fieldAt_eq_bps {offst k : Nat} (late : 6 ≤ k) :
    fieldAt offst k = .bps ↔ k = 17 := by
  unfold fieldAt fmtField
  grind

theorem step_position {regs : Regs} {inputs : Inputs} (active : regs.status = .activ)
    (valid : inputs.sramRdDataValidIh = true) (more : regs.lastWordF = false) :
    ((step regs inputs).chunk, (step regs inputs).field, (step regs inputs).pstVecF) =
      nextPosition (regs.chunk, regs.field, regs.pstVecF) regs.wordCntrF
        regs.fmtChnkEndPtrF := by
  simp [step, nextPosition, activateC_active active, valid, endOfFileC, more]

theorem fmtEndAt_known (item : WavItem) :
    fmtEndAt item.offst = 17 ∨ fmtEndAt item.offst = 18 := by
  rcases item.offst_cases with short | long
  · exact .inl (by rw [short]; rfl)
  · exact .inr (by rw [long]; rfl)

theorem Tracks.fmtEnd_known {item : WavItem} {k : Nat} {regs : Regs}
    (tracks : Tracks item k regs) :
    regs.fmtChnkEndPtrF = 17 ∨ regs.fmtChnkEndPtrF = 18 ∨ regs.fmtChnkEndPtrF = 0 := by
  rcases Nat.lt_or_ge k 9 with early | late
  · rcases Nat.lt_or_ge k 6 with wave | fmt
    · exact (tracks.wave (by omega)).2.imp_right (Or.imp_right And.left)
    · exact (tracks.fmtEndOld fmt (by omega)).imp_right (Or.imp_right And.left)
  · rw [tracks.fmtEnd late]
    exact (fmtEndAt_known item).imp_right Or.inl

theorem positionAt_pcm {offst k : Nat} (data : 22 + offst ≤ k) :
    positionAt offst k = (.pcmData, .id, 1) := by
  simp [positionAt, chunkAt, fieldAt, pstVecAt, show ¬ k ≤ 5 by omega,
    show ¬ k ≤ 17 + offst by omega, show ¬ k ≤ 21 + offst by omega]

theorem Tracks.position {item : WavItem} {k : Nat} {regs : Regs}
    (tracks : Tracks item k regs) (late : 5 ≤ k) :
    nextPosition (regs.chunk, regs.field, regs.pstVecF) regs.wordCntrF
        regs.fmtChnkEndPtrF = positionAt item.offst (k + 1) := by
  rcases Nat.lt_or_ge k 6 with last | fmt
  · obtain rfl : k = 5 := by omega
    rw [(tracks.wave (Nat.le_refl 5)).1, tracks.count]
    exact wave_position_end _ _ _ _
  · have place : (regs.chunk, regs.field, regs.pstVecF) = positionAt item.offst k := by
      rw [tracks.chunk fmt, tracks.field fmt, tracks.pstVec fmt, positionAt]
    rw [place]
    rcases Nat.lt_or_ge k (22 + item.offst) with header | data
    · rw [tracks.count]
      exact position_step tracks.fmtEnd_known item.offst_cases k header fmt tracks.fmtEnd
    · rw [positionAt_pcm data, positionAt_pcm (Nat.le_succ_of_le data)]
      simp [nextPosition, chunkEndC, rstFieldC, nextField, nextPstVec_rst]

theorem nextFmtChnkEndPtr_eight {item : WavItem}
    (fmtSize : item.subchunk1Size = 16 ∨ item.subchunk1Size = 18) (fmtEnd : BitVec 5) :
    nextFmtChnkEndPtr fmtEnd 8 true (item.rawWord 8) = fmtEndAt item.offst := by
  have word : item.rawWord 8 = (((item.subchunk1Size &&& 0xff) <<< 8) +
      ((item.subchunk1Size &&& 0xff00) >>> 8)).setWidth 16 := rfl
  rw [word]
  rcases fmtSize with size | size <;>
    simp [nextFmtChnkEndPtr, size, WavItem.offst, fmtEndAt]

theorem count_eq_eight {k : Nat} (small : k < 2 ^ 32) :
    (BitVec.ofNat 32 k == (8 : BitVec 32)) = decide (k = 8) := by
  rw [Bool.eq_iff_iff, beq_iff_eq, decide_eq_true_iff, ← BitVec.toNat_inj,
    BitVec.toNat_ofNat, Nat.mod_eq_of_lt small]
  rfl

theorem extract_high (high low : BitVec 16) : (high ++ low).extractLsb' 16 16 = high := by
  apply BitVec.eq_of_getLsbD_eq
  intro i inside
  simp only [BitVec.getLsbD_append, BitVec.getLsbD_extractLsb']
  grind

section Word

variable {item : WavItem} {k : Nat} {regs : Regs} {inputs : Inputs}

theorem step_size (valid : inputs.sramRdDataValidIh = true)
    (more : regs.lastWordF = false) :
    (step regs inputs).pcmDataSizeF =
      if regs.field = .size then
        swapBytes inputs.sramRdDataId ++ regs.pcmDataSizeF.extractLsb' 16 16
      else regs.pcmDataSizeF := by
  simp [step, nextPcmDataSize, endOfFileC, valid, more]

theorem inStep_word (inStep : InStep k regs) (early : k < 5)
    (wave : regs.chunk = .wave) (count : regs.wordCntrF = BitVec.ofNat 32 k)
    (active : regs.status = .activ) (more : regs.lastWordF = false)
    (valid : inputs.sramRdDataValidIh = true) : InStep (k + 1) (step regs inputs) := by
  have place := step_position active valid more
  rw [wave, count, inStep.field, inStep.pstVec active, wave_position_step _ k early]
    at place
  exact
    { field := congrArg (fun position => position.2.1) place
      active := by
        intro _
        simp [step, nextStatus, endOfFileC, active, more]
      pstVec := fun _ => congrArg (fun position => position.2.2) place }

theorem aligned_word (aligned : Aligned item k regs) (early : k < 5)
    (wave : regs.chunk = .wave) (count : regs.wordCntrF = BitVec.ofNat 32 k)
    (active : regs.status = .activ) (more : regs.lastWordF = false)
    (valid : inputs.sramRdDataValidIh = true)
    (word : inputs.sramRdDataId = item.rawWord k) :
    Aligned item (k + 1) (step regs inputs) := by
  have size := step_size valid more
  rw [aligned.field] at size
  exact
    { toInStep := inStep_word aligned.toInStep early wave count active more valid
      sizeUnset := by
        intro first
        rw [size, if_neg (by unfold waveFieldAt; grind), aligned.sizeUnset (by omega)]
      sizeHalf := by
        intro third
        obtain rfl : k = 2 := by omega
        rw [size, if_pos (by decide), word, swapBytes_rawWord_two,
          aligned.sizeUnset (by omega)]
        rfl
      size := by
        intro late
        rcases Nat.lt_or_ge k 4 with fourth | fifth
        · obtain rfl : k = 3 := by omega
          rw [size, if_pos (by decide), word, swapBytes_rawWord_three,
            aligned.sizeHalf rfl, extract_high, halves]
        · rw [size, if_neg (by unfold waveFieldAt; grind), aligned.size fifth] }

/-- The words that an idle parser may meet: the first words of a file that
follows another one. -/
def Admitted (k : Nat) (regs : Regs) : Prop :=
  regs.status = .activ ∨ (k < 5 ∧ regs.fmtChnkEndPtrF ≠ 0)

theorem Tracks.more (tracks : Tracks item k regs) (next : k + 1 < item.rawLength) :
    regs.lastWordF = false := by
  rw [tracks.last]
  simp only [decide_eq_false_iff_not]
  omega

theorem Tracks.small (wellFormed : item.WellFormed) (tracks : Tracks item k regs) :
    k + 2 < 2 ^ 32 := by
  have within := tracks.within
  have length := WavItem.rawLength_eq wellFormed
  have announced := WavItem.subchunk2Size_lt wellFormed
  have sized := item.offst_le
  unfold WavItem.headerWords WavItem.pcmWords at length
  omega

theorem tracks_fmtEnd_word (wellFormed : item.WellFormed) (tracks : Tracks item k regs)
    (valid : inputs.sramRdDataValidIh = true)
    (word : inputs.sramRdDataId = item.rawWord k) :
    (step regs inputs).fmtChnkEndPtrF =
      if k = 8 then fmtEndAt item.offst else regs.fmtChnkEndPtrF := by
  have small := tracks.small wellFormed
  by_cases eight : k = 8
  · subst eight
    rw [if_pos rfl]
    simp only [step, valid, word, tracks.count]
    exact nextFmtChnkEndPtr_eight wellFormed.fmtSize _
  · rw [if_neg eight]
    simp only [step, nextFmtChnkEndPtr, tracks.count, count_eq_eight (k := k) (by omega)]
    simp [eight]

theorem tracks_wave_word (wellFormed : item.WellFormed) (tracks : Tracks item k regs)
    (early : k < 5) (admitted : Admitted k regs)
    (valid : inputs.sramRdDataValidIh = true)
    (word : inputs.sramRdDataId = item.rawWord k) :
    (step regs inputs).chunk = .wave ∧
      ((step regs inputs).fmtChnkEndPtrF = 17 ∨ (step regs inputs).fmtChnkEndPtrF = 18 ∨
        ((step regs inputs).fmtChnkEndPtrF = 0 ∧ Aligned item (k + 1) (step regs inputs))) := by
  have length := WavItem.rawLength_eq wellFormed
  have more := tracks.more (by unfold WavItem.headerWords at length; omega)
  obtain ⟨wave, old⟩ := tracks.wave (by omega)
  have fmtEnd := tracks_fmtEnd_word wellFormed tracks valid word
  rw [if_neg (by omega)] at fmtEnd
  have open' : chunkEndC .wave (BitVec.ofNat 32 k) regs.fmtChnkEndPtrF true = false := by
    have all : ∀ j < 5, (true && (BitVec.ofNat 32 j).extractLsb' 0 3 == 5) = false := by
      decide
    exact all k early
  refine ⟨?_, ?_⟩
  · simp [step, wave, tracks.count, valid, open', endOfFileC, more]
  · rw [fmtEnd]
    refine old.imp_right (Or.imp_right ?_)
    rintro ⟨unset, aligned⟩
    have active : regs.status = .activ := admitted.resolve_right (fun late => late.2 unset)
    exact ⟨unset, aligned_word aligned early wave tracks.count active more valid word⟩

theorem tracks_word (wellFormed : item.WellFormed) (tracks : Tracks item k regs)
    (next : k + 1 < item.rawLength) (admitted : Admitted k regs)
    (valid : inputs.sramRdDataValidIh = true)
    (word : inputs.sramRdDataId = item.rawWord k) :
    Tracks item (k + 1) (step regs inputs) := by
  have sized := item.offst_le
  have more := tracks.more next
  have active : 5 ≤ k → regs.status = .activ := fun late =>
    admitted.resolve_right (fun early => by omega)
  have place : 5 ≤ k → ((step regs inputs).chunk, (step regs inputs).field,
      (step regs inputs).pstVecF) = positionAt item.offst (k + 1) := fun late =>
    (step_position (active late) valid more).trans (tracks.position late)
  have fmtEnd := tracks_fmtEnd_word wellFormed tracks valid word
  have size := step_size valid more
  have kept : 6 ≤ k → k ≠ 8 → k ≠ 9 → k ≠ 20 + item.offst → k ≠ 21 + item.offst →
      (step regs inputs).pcmDataSizeF = regs.pcmDataSizeF := by
    intro late
    intros
    rw [size, if_neg]
    rw [tracks.field late, fieldAt_eq_size sized late]
    omega
  have shifted : 6 ≤ k → k = 8 ∨ k = 9 ∨ k = 20 + item.offst ∨ k = 21 + item.offst →
      (step regs inputs).pcmDataSizeF =
        swapBytes (item.rawWord k) ++ regs.pcmDataSizeF.extractLsb' 16 16 := by
    intro late here
    rw [size, if_pos, word]
    rwa [tracks.field late, fieldAt_eq_size sized late]
  exact
    { within := next
      count := by
        simp [step, nextWordCntr, endOfFileC, more, valid, tracks.count, BitVec.ofNat_add]
      last := by
        simp only [step, nextLastWord, more, endOfFileC, valid,
          lastWord_hit wellFormed tracks]
        simp [Nat.add_assoc]
      wave := fun early => tracks_wave_word wellFormed tracks early admitted valid word
      active := by
        intro late
        simp [step, nextStatus, endOfFileC, more, active (by omega)]
      chunk := fun late => congrArg (fun position => position.1) (place (by omega))
      field := fun late => congrArg (fun position => position.2.1) (place (by omega))
      pstVec := fun late => congrArg (fun position => position.2.2) (place (by omega))
      fmtEndOld := by
        intro late early
        rw [fmtEnd, if_neg (by omega)]
        rcases Nat.lt_or_ge k 6 with last | fmt
        · obtain rfl : k = 5 := by omega
          refine (tracks.wave (Nat.le_refl 5)).2.imp_right (Or.imp_right ?_)
          rintro ⟨unset, aligned⟩
          refine ⟨unset, ?_⟩
          rw [size, if_neg (by rw [aligned.field]; decide), aligned.size (by omega)]
        · rw [kept fmt (by omega) (by omega) (by omega) (by omega)]
          exact tracks.fmtEndOld fmt (by omega)
      fmtEnd := by
        intro late
        rw [fmtEnd]
        split
        · rfl
        · exact tracks.fmtEnd (by omega)
      sizeFmtHalf := by
        intro ninth
        obtain rfl : k = 8 := by omega
        rw [shifted (by omega) (by omega), swapBytes_rawWord_eight, extract_high]
      sizeFmt := by
        intro late inFmt
        rcases Nat.lt_or_ge k 10 with tenth | later
        · obtain rfl : k = 9 := by omega
          rw [shifted (by omega) (by omega), swapBytes_rawWord_nine,
            tracks.sizeFmtHalf rfl, halves]
        · rw [kept (by omega) (by omega) (by omega) (by omega) (by omega)]
          exact tracks.sizeFmt later (by omega)
      sizeDataHalf := by
        intro here
        obtain rfl : k = 20 + item.offst := by omega
        rw [shifted (by omega) (by omega), swapBytes_rawWord_sizeLow,
          tracks.sizeFmt (by omega) (by omega)]
      sizeData := by
        intro late
        rcases Nat.lt_or_ge k (22 + item.offst) with last | data
        · obtain rfl : k = 21 + item.offst := by omega
          rw [shifted (by omega) (by omega), swapBytes_rawWord_sizeHigh,
            tracks.sizeDataHalf rfl, extract_high, halves]
        · rw [kept (by omega) (by omega) (by omega) (by omega) (by omega)]
          exact tracks.sizeData data
      channels := by
        intro late
        by_cases here : k = 11
        · have field : regs.field = .nchnnl := by
            rw [tracks.field (by omega), fieldAt_eq_nchnnl (by omega)]
            exact here
          subst here
          simp only [step, nextNumChnnls, field, valid, word]
          rfl
        · have field : regs.field ≠ .nchnnl := by
            rw [tracks.field (by omega), ne_eq, fieldAt_eq_nchnnl (by omega)]
            exact here
          simp only [step, nextNumChnnls, if_neg field]
          exact tracks.channels (by omega)
      bits := by
        intro late
        by_cases here : k = 17
        · have field : regs.field = .bps := by
            rw [tracks.field (by omega), fieldAt_eq_bps (by omega)]
            exact here
          subst here
          simp only [step, nextBps, field, valid, word]
          rfl
        · have field : regs.field ≠ .bps := by
            rw [tracks.field (by omega), ne_eq, fieldAt_eq_bps (by omega)]
            exact here
          simp only [step, nextBps, if_neg field]
          exact tracks.bits (by omega) }

theorem Tracks.data (tracks : Tracks item k regs) (data : item.headerWords ≤ k) :
    regs.chunk = .pcmData := by
  unfold WavItem.headerWords at data
  rw [tracks.chunk (by omega)]
  exact congrArg Prod.fst (positionAt_pcm data)

theorem Tracks.header (tracks : Tracks item k regs) (header : k < item.headerWords) :
    regs.chunk ≠ .pcmData := by
  unfold WavItem.headerWords at header
  rcases Nat.lt_or_ge k 6 with early | late
  · rw [(tracks.wave (by omega)).1]
    decide
  · rw [tracks.chunk late, chunkAt]
    grind

/-- The last word returns the parser to IDLE with its header registers ready
for the first word of any other file. -/
theorem tracks_last (wellFormed : item.WellFormed) (tracks : Tracks item k regs)
    (ends : k + 1 = item.rawLength) (valid : inputs.sramRdDataValidIh = true)
    (word : inputs.sramRdDataId = item.rawWord k) :
    (step regs inputs).status = .idle ∧
      ∀ after : WavItem, after.WellFormed → Tracks after 0 (step regs inputs) := by
  have length := WavItem.rawLength_eq wellFormed
  have pcm := wellFormed.pcm
  have header : 22 ≤ item.headerWords := Nat.le_add_right 22 _
  have last : endOfFileC regs inputs.sramRdDataValidIh = true := by
    rw [endOfFileC, tracks.last, valid]
    simp [ends]
  refine ⟨?_, ?_⟩
  · simp only [step, last, nextStatus, tracks.active (by omega)]
    rfl
  · intro after afterWellFormed
    have fmtEnd : (step regs inputs).fmtChnkEndPtrF = fmtEndAt item.offst := by
      rw [tracks_fmtEnd_word wellFormed tracks valid word, if_neg (by omega),
        tracks.fmtEnd (by omega)]
    have afterLength := WavItem.rawLength_eq afterWellFormed
    have afterHeader : 22 ≤ after.headerWords := Nat.le_add_right 22 _
    exact
      { within := by omega
        count := by simp [step, last, nextWordCntr]
        last := by
          have raised : regs.lastWordF = true := by
            rw [tracks.last]
            exact decide_eq_true ends
          simp only [step, last, nextLastWord, raised]
          rw [decide_eq_false (by omega)]
          rfl
        wave := by
          intro _
          refine ⟨?_, ?_⟩
          · simp [step, last, nextChunk, tracks.data (by omega)]
          · rw [fmtEnd]
            exact (fmtEndAt_known item).imp_right Or.inl
        active := fun late => by omega
        chunk := fun late => by omega
        field := fun late => by omega
        pstVec := fun late => by omega
        fmtEndOld := fun late => by omega
        fmtEnd := fun late => by omega
        sizeFmtHalf := fun late => by omega
        sizeFmt := fun late => by omega
        sizeDataHalf := fun late => by omega
        sizeData := fun late => by omega
        channels := fun late => by omega
        bits := fun late => by omega }

theorem tracks_reset (header : BitVec 8 → BitVec 16) (enabled : Bool)
    (wellFormed : item.WellFormed) :
    Tracks item 0 { reset header with prsrEnF := enabled } := by
  have length := WavItem.rawLength_eq wellFormed
  have headerWords : 22 ≤ item.headerWords := Nat.le_add_right 22 _
  exact
    { within := by omega
      count := rfl
      last := (decide_eq_false (by omega)).symm
      wave := fun _ => ⟨rfl, .inr (.inr ⟨rfl,
        { field := rfl
          active := fun late => by omega
          pstVec := fun active => by cases active
          sizeUnset := fun _ => rfl
          sizeHalf := fun late => by omega
          size := fun late => by omega }⟩)⟩
      active := fun late => by omega
      chunk := fun late => by omega
      field := fun late => by omega
      pstVec := fun late => by omega
      fmtEndOld := fun late => by omega
      fmtEnd := fun late => by omega
      sizeFmtHalf := fun late => by omega
      sizeFmt := fun late => by omega
      sizeDataHalf := fun late => by omega
      sizeData := fun late => by omega
      channels := fun late => by omega
      bits := fun late => by omega }

end Word

end Synesthesia.WavPrsr
