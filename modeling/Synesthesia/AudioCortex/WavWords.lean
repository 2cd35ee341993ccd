/-
The header registers of `wav_prsr` for words of any kind.

`Follows word contents k regs` is what `k` words leave behind when nothing is
known about them: the parser takes its place in the header from the high byte of
word 8 alone, and keeps every word in front of the PCM data in its header RAM.
-/

import Synesthesia.AudioCortex.WavHeader

namespace Synesthesia.WavPrsr

open Synesthesia.Rtl

/-- A parser that waits for the first word of a file. -/
structure FileStart (regs : Regs) : Prop where
  status : regs.status = .idle
  chunk : regs.chunk = .wave
  field : regs.field = .id
  count : regs.wordCntrF = 0
  fmtEnd : regs.fmtChnkEndPtrF = 17 ∨ regs.fmtChnkEndPtrF = 18 ∨ regs.fmtChnkEndPtrF = 0

theorem fileStart_reset (header : BitVec 8 → BitVec 16) (enable : Bool) :
    FileStart { reset header with prsrEnF := enable } where
  status := rfl
  chunk := rfl
  field := rfl
  count := rfl
  fmtEnd := .inr (.inr rfl)

/-- One more word in the format chunk, as word 8 announces it. -/
def offstOf (word : Nat → BitVec 16) : Nat :=
  if (word 8).extractLsb' 8 8 == 18 then 1 else 0

theorem offstOf_cases (word : Nat → BitVec 16) : offstOf word = 0 ∨ offstOf word = 1 := by
  unfold offstOf
  split
  · exact .inr rfl
  · exact .inl rfl

theorem offstOf_le (word : Nat → BitVec 16) : offstOf word ≤ 1 := by
  rcases offstOf_cases word with short | long
  · omega
  · omega

theorem fmtEndAt_offst {offst : Nat} (sized : offst = 0 ∨ offst = 1) :
    fmtEndAt offst = 17 ∨ fmtEndAt offst = 18 ∨ fmtEndAt offst = 0 := by
  rcases sized with rfl | rfl
  · exact .inl rfl
  · exact .inr (.inl rfl)

theorem nextFmtChnkEndPtr_offstOf (word : Nat → BitVec 16) (fmtEnd : BitVec 5) :
    nextFmtChnkEndPtr fmtEnd 8 true (word 8) = fmtEndAt (offstOf word) := by
  have hit : ((8 : BitVec 32) == 8 && true) = true := rfl
  unfold nextFmtChnkEndPtr offstOf
  rw [if_pos hit]
  split
  · rfl
  · rfl

/-- The registers after `k` words, no file having ended; `contents` is what the
header RAM held before the first of them. -/
structure Follows (word : Nat → BitVec 16) (contents : BitVec 8 → BitVec 16) (k : Nat)
    (regs : Regs) : Prop where
  count : regs.wordCntrF = BitVec.ofNat 32 k
  active : 1 ≤ k → regs.status = .activ
  wave : k ≤ 5 → regs.chunk = .wave ∧ InStep k regs
  place : 6 ≤ k → (regs.chunk, regs.field, regs.pstVecF) = positionAt (offstOf word) k
  fmtEndOld : k ≤ 8 →
    regs.fmtChnkEndPtrF = 17 ∨ regs.fmtChnkEndPtrF = 18 ∨ regs.fmtChnkEndPtrF = 0
  fmtEnd : 9 ≤ k → k ≤ 22 + offstOf word → regs.fmtChnkEndPtrF = fmtEndAt (offstOf word)
  sizeHalf : k = 21 + offstOf word →
    regs.pcmDataSizeF.extractLsb' 16 16 = swapBytes (word (20 + offstOf word))
  size : 22 + offstOf word ≤ k → regs.pcmDataSizeF =
    swapBytes (word (21 + offstOf word)) ++ swapBytes (word (20 + offstOf word))
  channels : 12 ≤ k → regs.numChnnlsF = (word 11).getLsbD 1
  bits : 18 ≤ k → regs.bpsF = (word 17).getLsbD 5
  stored : ∀ j < k, j < 22 + offstOf word →
    regs.wavHdrRam.memory (BitVec.ofNat 8 j) = word j
  kept : ∀ j < 256, k ≤ j ∨ 22 + offstOf word ≤ j →
    regs.wavHdrRam.memory (BitVec.ofNat 8 j) = contents (BitVec.ofNat 8 j)

variable {word : Nat → BitVec 16} {contents : BitVec 8 → BitVec 16} {k : Nat} {regs : Regs}
  {inputs : Inputs}

theorem follows_zero (word : Nat → BitVec 16) (ready : FileStart regs) :
    Follows word regs.wavHdrRam.memory 0 regs where
  count := ready.count
  active := fun late => by omega
  wave := fun _ => ⟨ready.chunk,
    { field := ready.field
      active := fun late => by omega
      pstVec := by
        intro active
        rw [ready.status] at active
        cases active }⟩
  place := fun late => by omega
  fmtEndOld := fun _ => ready.fmtEnd
  fmtEnd := fun late => by omega
  sizeHalf := fun late => by omega
  size := fun late => by omega
  channels := fun late => by omega
  bits := fun late => by omega
  stored := fun j before => by omega
  kept := fun _ _ _ => rfl

theorem Follows.chunk (follows : Follows word contents k regs) :
    regs.chunk = .pcmData ↔ 22 + offstOf word ≤ k := by
  rcases Nat.lt_or_ge k 6 with early | late
  · rw [(follows.wave (by omega)).1]
    constructor
    · intro data
      cases data
    · omega
  · have chunk : regs.chunk = chunkAt (offstOf word) k :=
      congrArg Prod.fst (follows.place late)
    rw [chunk]
    unfold chunkAt
    grind

/-! ### The header RAM -/

theorem step_memory (regs : Regs) (inputs : Inputs) :
    (step regs inputs).wavHdrRam.memory =
      store regs.wavHdrRam.memory (hdrRamWrEnC regs inputs.sramRdDataValidIh)
        (regs.wordCntrF.extractLsb' 0 8) inputs.sramRdDataId := rfl

theorem memory_gap (gap : inputs.sramRdDataValidIh = false) :
    (step regs inputs).wavHdrRam.memory = regs.wavHdrRam.memory := by
  rw [step_memory, hdrRamWrEnC, gap]
  rfl

theorem memory_pcm (data : regs.chunk = .pcmData) :
    (step regs inputs).wavHdrRam.memory = regs.wavHdrRam.memory := by
  have off : hdrRamWrEnC regs inputs.sramRdDataValidIh = false := by
    simp [hdrRamWrEnC, data]
  rw [step_memory, off]
  rfl

theorem memory_header (valid : inputs.sramRdDataValidIh = true)
    (active : regs.status = .activ) (header : regs.chunk ≠ .pcmData) :
    (step regs inputs).wavHdrRam.memory =
      store regs.wavHdrRam.memory true (regs.wordCntrF.extractLsb' 0 8)
        inputs.sramRdDataId := by
  have on : hdrRamWrEnC regs inputs.sramRdDataValidIh = true := by
    simp [hdrRamWrEnC, valid, active, header]
  rw [step_memory, on]

theorem ofNat_eight_inj {i j : Nat} (left : i < 256) (right : j < 256) :
    BitVec.ofNat 8 i = BitVec.ofNat 8 j ↔ i = j := by
  rw [← BitVec.toNat_inj, BitVec.toNat_ofNat, BitVec.toNat_ofNat, Nat.mod_eq_of_lt left,
    Nat.mod_eq_of_lt right]

/-! ### Gaps and words -/

theorem follows_gap (follows : Follows word contents k regs)
    (gap : inputs.sramRdDataValidIh = false) : Follows word contents k (step regs inputs) := by
  have chunkHeld : (step regs inputs).chunk = regs.chunk := by simp [step, gap]
  have fmtEndHeld : (step regs inputs).fmtChnkEndPtrF = regs.fmtChnkEndPtrF := by
    simp [step, gap]
  have sizeHeld : (step regs inputs).pcmDataSizeF = regs.pcmDataSizeF := by simp [step, gap]
  have memoryHeld : (step regs inputs).wavHdrRam.memory = regs.wavHdrRam.memory :=
    memory_gap gap
  exact
    { count := by
        have counted := follows.count
        simpa [step, gap] using counted
      active := by
        intro late
        simp [step, gap, nextStatus, follows.active late]
      wave := by
        intro early
        obtain ⟨wave, inStep⟩ := follows.wave early
        exact ⟨chunkHeld.trans wave, inStep_gap inStep wave gap⟩
      place := by
        intro late
        have active := follows.active (by omega)
        have place := follows.place late
        by_cases data : regs.chunk = .pcmData
        · rw [positionAt_pcm (follows.chunk.mp data), chunkHeld, data]
          simp [step, gap, rstFieldC, data, nextField, nextPstVec_rst]
        · rw [← place, chunkHeld]
          simp [step, gap, activateC_active active, rstFieldC, data, nextField,
            nextPstVec_hold]
      fmtEndOld := fmtEndHeld ▸ follows.fmtEndOld
      fmtEnd := fmtEndHeld ▸ follows.fmtEnd
      sizeHalf := sizeHeld ▸ follows.sizeHalf
      size := sizeHeld ▸ follows.size
      channels := by
        have channels := follows.channels
        simpa [step, gap] using channels
      bits := by
        have bits := follows.bits
        simpa [step, gap] using bits
      stored := memoryHeld ▸ follows.stored
      kept := memoryHeld ▸ follows.kept }

theorem Follows.known (follows : Follows word contents k regs) (header : k < 22 + offstOf word) :
    regs.fmtChnkEndPtrF = 17 ∨ regs.fmtChnkEndPtrF = 18 ∨ regs.fmtChnkEndPtrF = 0 := by
  rcases Nat.lt_or_ge k 9 with early | late
  · exact follows.fmtEndOld (by omega)
  · rw [follows.fmtEnd late (by omega)]
    exact fmtEndAt_offst (offstOf_cases word)

theorem Follows.next (follows : Follows word contents k regs) (late : 5 ≤ k) :
    nextPosition (regs.chunk, regs.field, regs.pstVecF) regs.wordCntrF
        regs.fmtChnkEndPtrF = positionAt (offstOf word) (k + 1) := by
  rcases Nat.lt_or_ge k 6 with last | fmt
  · obtain rfl : k = 5 := by omega
    rw [(follows.wave (Nat.le_refl 5)).1, follows.count]
    exact wave_position_end _ _ _ _
  · rw [follows.place fmt]
    rcases Nat.lt_or_ge k (22 + offstOf word) with header | data
    · rw [follows.count]
      exact position_step (follows.known header) (offstOf_cases word) k header fmt
        fun past => follows.fmtEnd past (by omega)
    · rw [positionAt_pcm data, positionAt_pcm (Nat.le_succ_of_le data)]
      simp [nextPosition, chunkEndC, rstFieldC, nextField, nextPstVec_rst]

section Word

variable (follows : Follows word contents k regs) (active : regs.status = .activ)
  (more : regs.lastWordF = false) (valid : inputs.sramRdDataValidIh = true)
  (same : inputs.sramRdDataId = word k)

include follows

theorem Follows.field (late : 6 ≤ k) : regs.field = fieldAt (offstOf word) k :=
  congrArg (fun position => position.2.1) (follows.place late)

include valid same

theorem follows_fmtEnd_word (small : k ≤ 22 + offstOf word) :
    (step regs inputs).fmtChnkEndPtrF =
      if k = 8 then fmtEndAt (offstOf word) else regs.fmtChnkEndPtrF := by
  have sized := offstOf_le word
  by_cases eight : k = 8
  · subst eight
    rw [if_pos rfl]
    simp only [step, valid, same, follows.count]
    exact nextFmtChnkEndPtr_offstOf word _
  · rw [if_neg eight]
    simp only [step, nextFmtChnkEndPtr, follows.count, count_eq_eight (k := k) (by omega)]
    simp [eight]

theorem follows_memory_word (active : regs.status = .activ) :
    (step regs inputs).wavHdrRam.memory =
      if k < 22 + offstOf word then
        store regs.wavHdrRam.memory true (BitVec.ofNat 8 k) (word k)
      else regs.wavHdrRam.memory := by
  by_cases header : k < 22 + offstOf word
  · have low : (BitVec.ofNat 32 k).extractLsb' 0 8 = BitVec.ofNat 8 k := by
      rw [← BitVec.setWidth_eq_extractLsb' (by decide), BitVec.setWidth_ofNat_of_le (by decide)]
    rw [if_pos header, memory_header valid active, follows.count, same, low]
    rw [ne_eq, follows.chunk]
    omega
  · rw [if_neg header]
    exact memory_pcm (follows.chunk.mpr (by omega))

include more

theorem follows_size_word (late : 18 + offstOf word ≤ k) :
    (step regs inputs).pcmDataSizeF =
      if k = 20 + offstOf word ∨ k = 21 + offstOf word then
        swapBytes (word k) ++ regs.pcmDataSizeF.extractLsb' 16 16
      else regs.pcmDataSizeF := by
  have here := fieldAt_eq_size (offstOf_le word) (k := k) (by omega)
  rw [step_size valid more, same, follows.field (by omega)]
  by_cases size : k = 20 + offstOf word ∨ k = 21 + offstOf word
  · rw [if_pos size, if_pos (here.mpr (by omega))]
  · rw [if_neg size, if_neg]
    intro field
    have cases := here.mp field
    omega

include active

theorem follows_word : Follows word contents (k + 1) (step regs inputs) := by
  have sized := offstOf_le word
  have place : 5 ≤ k → ((step regs inputs).chunk, (step regs inputs).field,
      (step regs inputs).pstVecF) = positionAt (offstOf word) (k + 1) := fun late =>
    (step_position active valid more).trans (follows.next late)
  have memory := follows_memory_word follows valid same active
  exact
    { count := by
        simp [step, nextWordCntr, endOfFileC, more, valid, follows.count, BitVec.ofNat_add]
      active := by
        intro _
        simp [step, nextStatus, endOfFileC, more, active]
      wave := by
        intro early
        obtain ⟨wave, inStep⟩ := follows.wave (by omega)
        have moved := step_position active valid more
        rw [wave, follows.count, inStep.field, inStep.pstVec active,
          wave_position_step _ k (by omega)] at moved
        exact ⟨congrArg Prod.fst moved,
          inStep_word inStep (by omega) wave follows.count active more valid⟩
      place := fun late => place (by omega)
      fmtEndOld := by
        intro early
        rw [follows_fmtEnd_word follows valid same (by omega), if_neg (by omega)]
        exact follows.fmtEndOld (by omega)
      fmtEnd := by
        intro late header
        rw [follows_fmtEnd_word follows valid same (by omega)]
        split
        · rfl
        · exact follows.fmtEnd (by omega) (by omega)
      sizeHalf := by
        intro half
        rw [follows_size_word follows more valid same (by omega), if_pos (by omega),
          extract_high]
        congr 2
        omega
      size := by
        intro late
        rw [follows_size_word follows more valid same (by omega)]
        by_cases last : k = 21 + offstOf word
        · rw [if_pos (.inr last), follows.sizeHalf last, last]
        · rw [if_neg (by omega)]
          exact follows.size (by omega)
      channels := by
        intro late
        by_cases here : k = 11
        · have field : regs.field = .nchnnl :=
            (follows.field (by omega)).trans ((fieldAt_eq_nchnnl (by omega)).mpr here)
          subst here
          simp only [step, nextNumChnnls, field, valid, same]
          rfl
        · have field : regs.field ≠ .nchnnl := by
            rw [follows.field (by omega), ne_eq, fieldAt_eq_nchnnl (by omega)]
            exact here
          simp only [step, nextNumChnnls, if_neg field]
          exact follows.channels (by omega)
      bits := by
        intro late
        by_cases here : k = 17
        · have field : regs.field = .bps :=
            (follows.field (by omega)).trans ((fieldAt_eq_bps (by omega)).mpr here)
          subst here
          simp only [step, nextBps, field, valid, same]
          rfl
        · have field : regs.field ≠ .bps := by
            rw [follows.field (by omega), ne_eq, fieldAt_eq_bps (by omega)]
            exact here
          simp only [step, nextBps, if_neg field]
          exact follows.bits (by omega)
      stored := by
        intro j before header
        rw [memory]
        by_cases now : j = k
        · subst now
          rw [if_pos header, store_same]
        · have old := follows.stored j (by omega) header
          split
          · rw [store_other, old]
            rw [ne_eq, ofNat_eight_inj (by omega) (by omega)]
            exact now
          · exact old
      kept := by
        intro j inside apart
        rw [memory]
        have old := follows.kept j inside (by omega)
        split
        · rw [store_other, old]
          rw [ne_eq, ofNat_eight_inj inside (by omega)]
          omega
        · exact old }

end Word

end Synesthesia.WavPrsr
