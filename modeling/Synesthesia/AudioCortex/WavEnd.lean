/-
The end of a file in `wav_prsr`, for every announced size.

Only the three size fields of the header matter.  The end is predicted one word
early, by comparing the word counter with the size register, and the register
has its final value only after the last header word: a file with at most one
word of PCM data is over before the comparison can hit.
-/

import Synesthesia.AudioCortex.WavDecode

namespace Synesthesia.WavPrsr

open Synesthesia.Rtl

/-! ### Announced sizes -/

/-- The header of a file, with any number of channels and any sample width. -/
structure Announced (item : WavItem) : Prop where
  fmtSize : item.subchunk1Size = 16 ∨ item.subchunk1Size = 18
  chunkSize : item.chunkSize.toNat = 36 + item.subchunk2Size.toNat

/-- Words of the file; the last one is padded when the size is odd. -/
def fileWords (item : WavItem) : Nat :=
  item.headerWords + (item.subchunk2Size.toNat + 1) / 2

def sizeAt (item : WavItem) (k : Nat) : BitVec 32 :=
  if k ≤ 2 then 4294967295
  else if k = 3 then item.chunkSize.extractLsb' 0 16 ++ 65535#16
  else if k ≤ 8 then item.chunkSize
  else if k = 9 then
    item.subchunk1Size.extractLsb' 0 16 ++ item.chunkSize.extractLsb' 16 16
  else if k ≤ 20 + item.offst then item.subchunk1Size
  else if k = 21 + item.offst then
    item.subchunk2Size.extractLsb' 0 16 ++ item.subchunk1Size.extractLsb' 16 16
  else item.subchunk2Size

def fmtEndPtrAt (item : WavItem) (k : Nat) : BitVec 5 :=
  if k ≤ 8 then 0 else fmtEndAt item.offst

theorem fmtEndPtrAt_toNat (item : WavItem) (k : Nat) :
    (fmtEndPtrAt item k).toNat = if k ≤ 8 then 0 else 17 + item.offst := by
  have sized := item.offst_le
  rw [fmtEndPtrAt]
  split
  · rfl
  · rw [fmtEndAt, BitVec.toNat_ofNat, Nat.mod_eq_of_lt (by omega)]

/-- As a number, the register is never small enough to end the header. -/
theorem sizeAt_large {item : WavItem} (announced : Announced item) {k : Nat} (early : k ≤ 9) :
    36 ≤ (sizeAt item k).toNat := by
  have large : 36 ≤ item.chunkSize.toNat := by
    rw [announced.chunkSize]
    omega
  have half : 65536 ≤
      (item.subchunk1Size.extractLsb' 0 16 ++ item.chunkSize.extractLsb' 16 16).toNat := by
    rw [toNat_halves]
    rcases announced.fmtSize with size | size <;>
      rw [size] <;>
      simp only [BitVec.extractLsb'_toNat, BitVec.reduceToNat] <;>
      omega
  rw [sizeAt]
  split
  · decide
  split
  · rw [toNat_halves]
    simp only [BitVec.reduceToNat]
    omega
  split
  · exact large
  · rw [if_pos (by omega)]
    omega

theorem fmtSize_toNat {item : WavItem} (announced : Announced item) :
    item.subchunk1Size.toNat = 16 + 2 * item.offst ∧
      (item.subchunk1Size.extractLsb' 16 16).toNat = 0 := by
  rcases announced.fmtSize with size | size <;>
    rw [WavItem.offst, size] <;>
    decide

theorem lastWordAt_sizeAt {item : WavItem} (announced : Announced item) {k : Nat}
    (within : k < fileWords item) :
    (BitVec.ofNat 32 k == lastWordAt (sizeAt item k) (fmtEndPtrAt item k)) =
      decide (k + 2 = fileWords item ∧ 3 ≤ item.subchunk2Size.toNat) := by
  have sized := item.offst_le
  have small := item.chunkSize.isLt
  obtain ⟨fmtSize, fmtHigh⟩ := fmtSize_toNat announced
  have ptr := fmtEndPtrAt_toNat item k
  have chunkSize := announced.chunkSize
  unfold fileWords WavItem.headerWords at *
  have bound : (fmtEndPtrAt item k).toNat ≤ 18 := by
    rw [ptr]
    split <;> omega
  suffices compare : k = (lastWordAt (sizeAt item k) (fmtEndPtrAt item k)).toNat ↔
      (k + 2 = 22 + item.offst + (item.subchunk2Size.toNat + 1) / 2 ∧
        3 ≤ item.subchunk2Size.toNat) by
    rw [Bool.eq_iff_iff, beq_iff_eq, decide_eq_true_iff, ← compare, ← BitVec.toNat_inj,
      BitVec.toNat_ofNat, Nat.mod_eq_of_lt (by omega)]
  rw [lastWordAt_toNat _ bound, ptr]
  rcases Nat.lt_or_ge k 10 with early | late
  · have large := sizeAt_large announced (k := k) (by omega)
    split <;> omega
  · rw [if_neg (by omega)]
    rcases Nat.lt_trichotomy k (21 + item.offst) with header | half | data
    · have size : sizeAt item k = item.subchunk1Size := by
        rw [sizeAt, if_neg (by omega), if_neg (by omega), if_neg (by omega), if_neg (by omega),
          if_pos (by omega)]
      rw [size, fmtSize]
      omega
    · have size : sizeAt item k =
          item.subchunk2Size.extractLsb' 0 16 ++ item.subchunk1Size.extractLsb' 16 16 := by
        rw [sizeAt, if_neg (by omega), if_neg (by omega), if_neg (by omega), if_neg (by omega),
          if_neg (by omega), if_pos half]
      rw [size, toNat_halves, fmtHigh]
      omega
    · have size : sizeAt item k = item.subchunk2Size := by
        rw [sizeAt, if_neg (by omega), if_neg (by omega), if_neg (by omega), if_neg (by omega),
          if_neg (by omega), if_neg (by omega)]
      rw [size]
      omega

/-- Places of the words of the three size fields. -/
def SizeWord (item : WavItem) (k : Nat) : Prop :=
  k = 2 ∨ k = 3 ∨ k = 8 ∨ k = 9 ∨ k = 20 + item.offst ∨ k = 21 + item.offst

theorem sizeAt_shift {item : WavItem} {k : Nat} (here : SizeWord item k) :
    sizeAt item (k + 1) =
      swapBytes (item.rawWord k) ++ (sizeAt item k).extractLsb' 16 16 := by
  have sized := item.offst_le
  rcases here with rfl | rfl | rfl | rfl | rfl | rfl
  · have unset : (sizeAt item 2).extractLsb' 16 16 = 65535#16 := by
      rw [sizeAt, if_pos (by decide)]
      decide
    rw [swapBytes_rawWord_two, unset]
    rfl
  · rw [swapBytes_rawWord_three]
    exact ((congrArg _ (extract_high _ _)).trans (halves _)).symm
  · rw [swapBytes_rawWord_eight]
    rfl
  · have after : sizeAt item (9 + 1) = item.subchunk1Size := by
      rw [sizeAt, if_neg (by decide), if_neg (by decide), if_neg (by decide),
        if_neg (by decide), if_pos (by omega)]
    rw [swapBytes_rawWord_nine, after]
    exact ((congrArg _ (extract_high _ _)).trans (halves _)).symm
  · have before : sizeAt item (20 + item.offst) = item.subchunk1Size := by
      rw [sizeAt, if_neg (by omega), if_neg (by omega), if_neg (by omega), if_neg (by omega),
        if_pos (by omega)]
    rw [swapBytes_rawWord_sizeLow, before, sizeAt, if_neg (by omega), if_neg (by omega),
      if_neg (by omega), if_neg (by omega), if_neg (by omega), if_pos (by omega)]
  · have before : sizeAt item (21 + item.offst) =
        item.subchunk2Size.extractLsb' 0 16 ++ item.subchunk1Size.extractLsb' 16 16 := by
      rw [sizeAt, if_neg (by omega), if_neg (by omega), if_neg (by omega), if_neg (by omega),
        if_neg (by omega), if_pos rfl]
    rw [swapBytes_rawWord_sizeHigh, before, extract_high, halves, sizeAt, if_neg (by omega),
      if_neg (by omega), if_neg (by omega), if_neg (by omega), if_neg (by omega),
      if_neg (by omega)]

theorem sizeAt_keep {item : WavItem} {k : Nat} (elsewhere : ¬ SizeWord item k) :
    sizeAt item (k + 1) = sizeAt item k := by
  have sized := item.offst_le
  unfold SizeWord at elsewhere
  unfold sizeAt
  grind

/-! ### Registers after `k` words -/

structure Reads (item : WavItem) (k : Nat) (regs : Regs) : Prop where
  count : regs.wordCntrF = BitVec.ofNat 32 k
  last : regs.lastWordF =
    decide (k + 1 = fileWords item ∧ 3 ≤ item.subchunk2Size.toNat)
  active : 1 ≤ k → regs.status = .activ
  wave : k ≤ 5 → regs.chunk = .wave ∧ InStep k regs
  position : 6 ≤ k →
    (regs.chunk, regs.field, regs.pstVecF) = positionAt item.offst k
  fmtEnd : regs.fmtChnkEndPtrF = fmtEndPtrAt item k
  size : regs.pcmDataSizeF = sizeAt item k

theorem reads_reset (item : WavItem) (header : BitVec 8 → BitVec 16) :
    Reads item 0 (reset header) := by
  have length : 22 ≤ fileWords item := by
    unfold fileWords WavItem.headerWords
    omega
  exact
    { count := rfl
      last := (decide_eq_false (by omega)).symm
      active := nofun
      wave := fun _ => ⟨rfl, ⟨rfl, nofun, nofun⟩⟩
      position := nofun
      fmtEnd := rfl
      size := rfl }

/-- A gap leaves an active parser where it is in the header; in the PCM data the
position is cleared again and again. -/
theorem position_gap {regs : Regs} {inputs : Inputs} {offst k : Nat}
    (place : (regs.chunk, regs.field, regs.pstVecF) = positionAt offst k)
    (active : regs.status = .activ) (gap : inputs.sramRdDataValidIh = false) :
    ((step regs inputs).chunk, (step regs inputs).field, (step regs inputs).pstVecF) =
      positionAt offst k := by
  have chunk : (step regs inputs).chunk = regs.chunk := by
    simp [step, gap]
  by_cases data : regs.chunk = .pcmData
  · have beyond : 22 + offst ≤ k := by
      have same := congrArg Prod.fst place
      rw [data] at same
      simp only [positionAt, chunkAt] at same
      grind
    rw [positionAt_pcm beyond, chunk, data]
    simp [step, gap, rstFieldC, data, nextField, nextPstVec_rst]
  · rw [← place, chunk]
    simp [step, gap, activateC_active active, rstFieldC, data, nextField, nextPstVec_hold]

theorem reads_gap {item : WavItem} {k : Nat} {regs : Regs} {inputs : Inputs}
    (reads : Reads item k regs) (gap : inputs.sramRdDataValidIh = false) :
    Reads item k (step regs inputs) := by
  have chunk : (step regs inputs).chunk = regs.chunk := by
    simp [step, gap]
  exact
    { count := by simpa [step, gap] using reads.count
      last := by simpa [step, gap] using reads.last
      active := by
        intro late
        simp [step, gap, nextStatus, reads.active late]
      wave := by
        intro early
        obtain ⟨wave, inStep⟩ := reads.wave early
        exact ⟨chunk.trans wave, inStep_gap inStep wave gap⟩
      position := fun late => position_gap (reads.position late) (reads.active (by omega)) gap
      fmtEnd := by simpa [step, gap] using reads.fmtEnd
      size := by simpa [step, gap] using reads.size }

section Word

variable {item : WavItem} {k : Nat} {regs : Regs} {inputs : Inputs}

theorem fileWords_small (announced : Announced item) : fileWords item < 2 ^ 32 := by
  have small := item.chunkSize.isLt
  have sized := item.offst_le
  have chunkSize := announced.chunkSize
  unfold fileWords WavItem.headerWords
  omega

theorem Reads.more (reads : Reads item k regs) (next : k + 1 < fileWords item) :
    regs.lastWordF = false := by
  rw [reads.last, decide_eq_false_iff_not]
  omega

theorem Reads.fmtEnd_known (reads : Reads item k regs) :
    regs.fmtChnkEndPtrF = 17 ∨ regs.fmtChnkEndPtrF = 18 ∨ regs.fmtChnkEndPtrF = 0 := by
  rw [reads.fmtEnd, fmtEndPtrAt]
  split
  · exact .inr (.inr rfl)
  · exact (fmtEndAt_known item).imp_right Or.inl

theorem Reads.position_word (reads : Reads item k regs) (late : 5 ≤ k) :
    nextPosition (regs.chunk, regs.field, regs.pstVecF) regs.wordCntrF
        regs.fmtChnkEndPtrF = positionAt item.offst (k + 1) := by
  rcases Nat.lt_or_ge k 6 with last | fmt
  · obtain rfl : k = 5 := by omega
    rw [(reads.wave (Nat.le_refl 5)).1, reads.count]
    exact wave_position_end _ _ _ _
  · rw [reads.position fmt]
    rcases Nat.lt_or_ge k (22 + item.offst) with header | data
    · rw [reads.count]
      refine position_step reads.fmtEnd_known item.offst_cases k header fmt fun known => ?_
      rw [reads.fmtEnd, fmtEndPtrAt, if_neg (by omega)]
    · rw [positionAt_pcm data, positionAt_pcm (Nat.le_succ_of_le data)]
      simp [nextPosition, chunkEndC, rstFieldC, nextField, nextPstVec_rst]

theorem reads_size_word (reads : Reads item k regs) (next : k + 1 < fileWords item)
    (valid : inputs.sramRdDataValidIh = true)
    (word : k < item.headerWords → inputs.sramRdDataId = item.rawWord k) :
    (step regs inputs).pcmDataSizeF = sizeAt item (k + 1) := by
  have sized := item.offst_le
  have size := step_size valid (reads.more next)
  have field : regs.field = .size ↔ SizeWord item k := by
    unfold SizeWord
    rcases Nat.lt_or_ge k 6 with early | late
    · rw [(reads.wave (by omega)).2.field, waveFieldAt]
      grind
    · have place : regs.field = fieldAt item.offst k :=
        congrArg (fun position => position.2.1) (reads.position late)
      rw [place, fieldAt_eq_size sized late]
      omega
  rw [size, reads.size]
  by_cases here : SizeWord item k
  · have header : k < item.headerWords := by
      unfold SizeWord at here
      unfold WavItem.headerWords
      omega
    rw [if_pos (field.mpr here), word header, sizeAt_shift here]
  · rw [if_neg (mt field.mp here), sizeAt_keep here]

theorem reads_fmtEnd_word (announced : Announced item) (reads : Reads item k regs)
    (within : k < fileWords item) (valid : inputs.sramRdDataValidIh = true)
    (word : k < item.headerWords → inputs.sramRdDataId = item.rawWord k) :
    (step regs inputs).fmtChnkEndPtrF = fmtEndPtrAt item (k + 1) := by
  have small := fileWords_small announced
  by_cases eight : k = 8
  · subst eight
    have header : 8 < item.headerWords := by
      unfold WavItem.headerWords
      omega
    simp only [step, valid, word header, reads.count]
    exact nextFmtChnkEndPtr_eight announced.fmtSize _
  · simp only [step, nextFmtChnkEndPtr, reads.count, count_eq_eight (k := k) (by omega),
      reads.fmtEnd, fmtEndPtrAt]
    grind

theorem reads_wave_word (reads : Reads item k regs) (early : k < 5)
    (active : regs.status = .activ) (next : k + 1 < fileWords item)
    (valid : inputs.sramRdDataValidIh = true) :
    (step regs inputs).chunk = .wave ∧ InStep (k + 1) (step regs inputs) := by
  have more := reads.more next
  obtain ⟨wave, inStep⟩ := reads.wave (by omega)
  constructor
  · have stays : chunkEndC .wave (BitVec.ofNat 32 k) regs.fmtChnkEndPtrF true = false := by
      have all : ∀ j < 5, (true && (BitVec.ofNat 32 j).extractLsb' 0 3 == 5) = false := by
        decide
      exact all k early
    simp [step, wave, reads.count, valid, stays, endOfFileC, more]
  · exact inStep_word inStep early wave reads.count active more valid

theorem reads_word (announced : Announced item) (reads : Reads item k regs)
    (active : regs.status = .activ) (next : k + 1 < fileWords item)
    (valid : inputs.sramRdDataValidIh = true)
    (word : k < item.headerWords → inputs.sramRdDataId = item.rawWord k) :
    Reads item (k + 1) (step regs inputs) := by
  have more := reads.more next
  exact
    { count := by
        simp [step, nextWordCntr, endOfFileC, more, valid, reads.count, BitVec.ofNat_add]
      last := by
        simp only [step, nextLastWord, more, endOfFileC, valid, reads.count, reads.size,
          reads.fmtEnd, lastWordAt_sizeAt announced (k := k) (by omega)]
        simp [Nat.add_assoc]
      active := by
        intro _
        simp [step, nextStatus, endOfFileC, more, active]
      wave := fun early => reads_wave_word reads (by omega) active next valid
      position := fun late =>
        (step_position active valid more).trans (reads.position_word (by omega))
      fmtEnd := reads_fmtEnd_word announced reads (by omega) valid word
      size := reads_size_word reads next valid word }

end Word

/-! ### The first file after reset -/

/-- The run from reset; the host may use the local bus at any time. -/
def fromReset (header : BitVec 8 → BitVec 16) (inputs : Nat → Inputs) : Nat → Regs :=
  run step (reset header) inputs

theorem fromReset_succ (header : BitVec 8 → BitVec 16) (inputs : Nat → Inputs) (t : Nat) :
    fromReset header inputs (t + 1) = step (fromReset header inputs t) (inputs t) := rfl

/-- The header words of `item` arrive in order with arbitrary gaps, none before
the parser has gone ACTIVE.  The words after them are arbitrary. -/
structure Delivers (item : WavItem) (header : BitVec 8 → BitVec 16)
    (inputs : Nat → Inputs) : Prop where
  words : ∀ t, (inputs t).sramRdDataValidIh = true →
    (received inputs t).length < item.headerWords →
    (inputs t).sramRdDataId = item.rawWord (received inputs t).length
  started : ∀ t, (inputs t).sramRdDataValidIh = true →
    ∃ earlier ≤ t, (fromReset header inputs earlier).status = .activ

/-- The parser leaves ACTIVE with the clock edge at the end of cycle `t`. -/
def Leaves (header : BitVec 8 → BitVec 16) (inputs : Nat → Inputs) (t : Nat) : Prop :=
  (fromReset header inputs t).status = .activ ∧
    (fromReset header inputs (t + 1)).status = .idle

def Arrives (inputs : Nat → Inputs) (n t : Nat) : Prop :=
  (inputs t).sramRdDataValidIh = true ∧ (received inputs t).length + 1 = n

/-- The parser leaves ACTIVE for the first time on word number `n`, and then. -/
def EndsWith (header : BitVec 8 → BitVec 16) (inputs : Nat → Inputs) (n : Nat) : Prop :=
  ∀ t, Arrives inputs n t ↔
    Leaves header inputs t ∧ ∀ earlier < t, ¬ Leaves header inputs earlier

section Stream

variable {item : WavItem} {header : BitVec 8 → BitVec 16} {inputs : Nat → Inputs}

theorem leaves_iff (t : Nat) :
    Leaves header inputs t ↔ (fromReset header inputs t).status = .activ ∧
      (fromReset header inputs t).lastWordF = true ∧ (inputs t).sramRdDataValidIh = true := by
  have next : (fromReset header inputs t).status = .activ →
      (fromReset header inputs (t + 1)).status =
        if (fromReset header inputs t).lastWordF && (inputs t).sramRdDataValidIh then .idle
        else .activ := by
    intro active
    simp only [fromReset_succ, step, active, nextStatus, endOfFileC]
    rfl
  unfold Leaves
  constructor
  · rintro ⟨active, idle⟩
    rw [next active, ite_eq_left_iff] at idle
    refine ⟨active, ?_⟩
    rw [← Bool.and_eq_true]
    by_contra more
    cases idle more
  · rintro ⟨active, ended⟩
    refine ⟨active, ?_⟩
    rw [next active, if_pos (by rw [Bool.and_eq_true]; exact ended)]

/-- What is known in cycle `t` while the file is not over. -/
structure Reading (item : WavItem) (header : BitVec 8 → BitVec 16) (inputs : Nat → Inputs)
    (t : Nat) : Prop where
  reads : Reads item (received inputs t).length (fromReset header inputs t)
  active : (∃ earlier ≤ t, (fromReset header inputs earlier).status = .activ) →
    (fromReset header inputs t).status = .activ

theorem reading (announced : Announced item) (delivers : Delivers item header inputs) (t : Nat)
    (within : (received inputs t).length < fileWords item) :
    Reading item header inputs t := by
  induction t with
  | zero =>
      refine ⟨reads_reset item header, ?_⟩
      rintro ⟨earlier, before, seen⟩
      obtain rfl : earlier = 0 := by omega
      exact seen
  | succ t ih =>
      have active : Reading item header inputs t →
          ((inputs t).sramRdDataValidIh = true →
            (fromReset header inputs t).lastWordF = false) →
          (∃ earlier ≤ t + 1, (fromReset header inputs earlier).status = .activ) →
          (fromReset header inputs (t + 1)).status = .activ := by
        rintro before more ⟨earlier, upto, seen⟩
        rcases Nat.lt_or_ge t earlier with last | past
        · obtain rfl : earlier = t + 1 := by omega
          exact seen
        · have now := before.active ⟨earlier, past, seen⟩
          cases after : (fromReset header inputs (t + 1)).status with
          | activ => rfl
          | idle =>
              obtain ⟨_, ended, valid⟩ := (leaves_iff t).mp ⟨now, after⟩
              rw [more valid] at ended
              cases ended
      cases valid : (inputs t).sramRdDataValidIh with
      | false =>
          rw [received_gap valid] at within
          have before := ih within
          refine ⟨?_, active before fun word => absurd (valid.symm.trans word) (by decide)⟩
          rw [received_gap valid]
          exact reads_gap before.reads valid
      | true =>
          rw [received_length_word valid] at within
          have before := ih (by omega)
          refine ⟨?_, active before fun _ => before.reads.more within⟩
          rw [received_length_word valid]
          exact reads_word announced before.reads (before.active (delivers.started t valid))
            within valid (delivers.words t valid)

theorem received_length_mono (inputs : Nat → Inputs) {earlier later : Nat}
    (before : earlier ≤ later) :
    (received inputs earlier).length ≤ (received inputs later).length := by
  obtain ⟨gap, rfl⟩ := Nat.exists_eq_add_of_le before
  exact (collect_isPrefix _ earlier gap).length_le

theorem arrived (inputs : Nat → Inputs) {n : Nat} (positive : 0 < n) :
    ∀ t, n ≤ (received inputs t).length → ∃ earlier < t, Arrives inputs n earlier := by
  intro t
  induction t with
  | zero =>
      intro enough
      exact absurd enough (by rw [received, collect_zero, List.length_nil]; omega)
  | succ t ih =>
      intro enough
      by_cases already : n ≤ (received inputs t).length
      · obtain ⟨earlier, before, arrives⟩ := ih already
        exact ⟨earlier, by omega, arrives⟩
      · cases valid : (inputs t).sramRdDataValidIh with
        | false =>
            rw [received_gap valid] at enough
            exact absurd enough already
        | true =>
            rw [received_length_word valid] at enough
            exact ⟨t, Nat.lt_succ_self t, valid, by omega⟩

/-- Within the file the parser leaves ACTIVE on the last word only, and on that
only if the announced size is at least three. -/
theorem leaves_within (announced : Announced item) (delivers : Delivers item header inputs)
    {t : Nat} (within : (received inputs t).length < fileWords item) :
    Leaves header inputs t ↔
      Arrives inputs (fileWords item) t ∧ 3 ≤ item.subchunk2Size.toNat := by
  obtain ⟨reads, active⟩ := reading announced delivers t within
  rw [leaves_iff, reads.last, decide_eq_true_eq, Arrives]
  constructor
  · rintro ⟨_, ⟨ends, large⟩, valid⟩
    exact ⟨⟨valid, ends⟩, large⟩
  · rintro ⟨⟨valid, ends⟩, large⟩
    exact ⟨active (delivers.started t valid), ⟨ends, large⟩, valid⟩

end Stream

/-- For every announced size and every gap pattern in which the whole file is
delivered: the parser leaves ACTIVE exactly on the last word of the file if and
only if the file announces at least three bytes. -/
theorem wavPrsr_ends_iff (item : WavItem) (announced : Announced item)
    (header : BitVec 8 → BitVec 16) (inputs : Nat → Inputs)
    (delivers : Delivers item header inputs)
    (delivered : ∃ t, Arrives inputs (fileWords item) t) :
    EndsWith header inputs (fileWords item) ↔ 3 ≤ item.subchunk2Size.toNat := by
  constructor
  · intro ends
    obtain ⟨t, arrives⟩ := delivered
    have within : (received inputs t).length < fileWords item := by
      rw [← arrives.2]
      exact Nat.lt_succ_self _
    exact ((leaves_within announced delivers within).mp ((ends t).mp arrives).1).2
  · intro large t
    constructor
    · intro arrives
      have within : ∀ earlier ≤ t, (received inputs earlier).length < fileWords item := by
        intro earlier before
        have := received_length_mono inputs before
        have := arrives.2
        omega
      refine ⟨(leaves_within announced delivers (within t (Nat.le_refl t))).mpr
        ⟨arrives, large⟩, fun earlier before leaves => ?_⟩
      have sooner :=
        ((leaves_within announced delivers (within earlier (by omega))).mp leaves).1
      have more := received_length_mono inputs (show earlier + 1 ≤ t from before)
      rw [received_length_word sooner.1, sooner.2, ← arrives.2] at more
      omega
    · rintro ⟨leaves, first⟩
      rcases Nat.lt_or_ge (received inputs t).length (fileWords item) with within | past
      · exact ((leaves_within announced delivers within).mp leaves).1
      · have positive : 0 < fileWords item := by
          unfold fileWords WavItem.headerWords
          omega
        obtain ⟨earlier, before, arrives⟩ := arrived inputs positive t past
        have within : (received inputs earlier).length < fileWords item := by
          rw [← arrives.2]
          exact Nat.lt_succ_self _
        exact absurd ((leaves_within announced delivers within).mpr ⟨arrives, large⟩)
          (first earlier before)

/-! ### The smallest files -/

/-- The host enables the parser, and one word arrives in every clock as soon as
it is active. -/
def enabling (item : WavItem) (t : Nat) : Inputs :=
  { sramEmptyIh := false
    sramRdDataValidIh := decide (2 ≤ t)
    sramRdDataId := item.rawWord (t - 2)
    lbRdEnIh := false
    lbWrEnIh := decide (t = 0)
    lbAddrId := AcortexRegMap.prsrCtrlRegAddr
    lbWrDataId := 1
    pcmFfAfullIh := false
    hdrRamMixed := 0 }

theorem received_enabling (item : WavItem) (t : Nat) :
    (received (enabling item) t).length = t - 2 := by
  induction t with
  | zero => rfl
  | succ t ih =>
      by_cases started : 2 ≤ t
      · rw [received_length_word (decide_eq_true started), ih]
        omega
      · rw [received_gap (decide_eq_false started), ih]
        omega

theorem delivers_enabling (item : WavItem) : Delivers item (fun _ => 0) (enabling item) := by
  constructor
  · intro t _ _
    rw [received_enabling]
    rfl
  · intro t valid
    refine ⟨2, of_decide_eq_true valid, ?_⟩
    simp [fromReset, run, step, reset, enabling, nextStatus, activateC, endOfFileC]

theorem arrives_enabling (item : WavItem) : Arrives (enabling item) (fileWords item)
    (fileWords item + 1) := by
  have header : 22 ≤ fileWords item := by
    unfold fileWords WavItem.headerWords
    omega
  refine ⟨decide_eq_true (by omega), ?_⟩
  rw [received_enabling]
  omega

def sizedItem (size : BitVec 32) : WavItem :=
  { noSamples := 0
    chunkSize := 36 + size
    subchunk1NoChnls := 1
    subchunk1SampleRate := 48000
    subchunk1ByteRate := 96000
    subchunk1BlockAlign := 2
    subchunk1BitsPerSample := 16
    subchunk2Size := size
    data := [] }

theorem wavPrsr_ends_odd :
    Announced (sizedItem 3) ∧ Delivers (sizedItem 3) (fun _ => 0) (enabling (sizedItem 3)) ∧
      EndsWith (fun _ => 0) (enabling (sizedItem 3)) 24 :=
  ⟨⟨.inl rfl, rfl⟩, delivers_enabling _,
    (wavPrsr_ends_iff (sizedItem 3) ⟨.inl rfl, rfl⟩ (fun _ => 0) (enabling (sizedItem 3))
      (delivers_enabling _) ⟨_, arrives_enabling _⟩).mpr (by decide)⟩

/-- An empty file does not end with its last header word. -/
theorem empty_file_runs_on :
    Announced (sizedItem 0) ∧ Delivers (sizedItem 0) (fun _ => 0) (enabling (sizedItem 0)) ∧
      Arrives (enabling (sizedItem 0)) 22 23 ∧
      ¬ EndsWith (fun _ => 0) (enabling (sizedItem 0)) 22 := by
  have announced : Announced (sizedItem 0) := ⟨.inl rfl, rfl⟩
  refine ⟨announced, delivers_enabling _, arrives_enabling _, fun ends => ?_⟩
  have leaves := ((ends 23).mp (arrives_enabling (sizedItem 0))).1
  have within : (received (enabling (sizedItem 0)) 23).length < fileWords (sizedItem 0) := by
    rw [received_enabling]
    decide
  have large := ((leaves_within announced (delivers_enabling _) within).mp leaves).2
  exact absurd large (by decide)

end Synesthesia.WavPrsr
