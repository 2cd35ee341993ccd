/-
Decoding undoes encoding: the samples `wav_prsr` writes for the words of
`get_raw`.

The half-word registers of the parser move in every clock of the PCM chunk, so
the invariant also names the value on the data bus in the clock before: it is
what a gap shifts in.
-/

import Synesthesia.AudioCortex.WavHeader

namespace Synesthesia.WavPrsr

open Synesthesia.Rtl

/-! ### Samples from PCM words -/

theorem signExtend_low {sample : BitVec 32}
    (limits : -32767 ≤ sample.toInt ∧ sample.toInt ≤ 32767) :
    (sample.extractLsb' 0 16).signExtend 32 = sample := by
  apply BitVec.eq_of_toInt_eq
  rw [BitVec.toInt_signExtend_of_le (by decide),
    ← BitVec.setWidth_eq_extractLsb' (by decide), BitVec.toInt_setWidth]
  rw [BitVec.toInt_eq_toNat_cond] at limits ⊢
  simp only [Int.bmod]
  have bound := sample.isLt
  split at limits <;> split <;> omega

theorem mask_low (sample : BitVec 32) :
    (sample &&& 0xffff).setWidth 16 = sample.extractLsb' 0 16 := by
  have mask : ∀ j < 16, (0xffff : BitVec 32).getLsbD j = true := by decide
  apply BitVec.eq_of_getLsbD_eq
  intro i inside
  simp only [BitVec.getLsbD_setWidth, BitVec.getLsbD_and, BitVec.getLsbD_extractLsb',
    mask i inside]
  grind

theorem mask_high (sample : BitVec 32) :
    ((sample &&& 0xffff0000) >>> 16).setWidth 16 = sample.extractLsb' 16 16 := by
  have mask : ∀ j < 16, (0xffff0000 : BitVec 32).getLsbD (16 + j) = true := by decide
  apply BitVec.eq_of_getLsbD_eq
  intro i inside
  simp only [BitVec.getLsbD_setWidth, BitVec.getLsbD_and, BitVec.getLsbD_ushiftRight,
    BitVec.getLsbD_extractLsb', mask i inside]
  grind

theorem rawWord_pcm (item : WavItem) (j : Nat) :
    item.rawWord (item.headerWords + j) = item.pcmWord j := by
  unfold WavItem.rawWord WavItem.headerWords WavItem.pcmWord
  iterate 22 rw [if_neg (by omega)]
  rw [if_pos (by omega), mask_low, mask_high, mask_low]
  have start : 22 + item.offst + j - (22 + item.offst) = j := by omega
  have pair : 22 + item.offst + j - 22 - item.offst = j := by omega
  have parity : (22 + item.offst + j - item.offst) % 2 = j % 2 := by omega
  rw [start, pair, parity]
  by_cases even : j % 2 = 0
  · simp only [even, reduceIte]
  · have second : (22 + item.offst + j - 23 - item.offst) / 2 = j / 2 := by omega
    rw [second]

theorem signExtend_pcmWord {item : WavItem} (wellFormed : item.WellFormed)
    (short : item.subchunk1BitsPerSample = 16) (j : Nat) :
    (item.pcmWord j).signExtend 32 = item.data.getD j 0 := by
  rw [WavItem.pcmWord, if_pos short]
  apply signExtend_low
  by_cases inside : j < item.data.length
  · rw [List.getD_eq_getElem _ _ inside]
    exact wellFormed.dataLim16 short _ (List.getElem_mem inside)
  · rw [List.getD_eq_default _ _ (by omega)]
    decide

theorem shiftIn_pcmWord {item : WavItem} (long : item.subchunk1BitsPerSample = 32)
    {j : Nat} (odd : j % 2 = 1) {sample : BitVec 32}
    (upper : sample.extractLsb' 0 16 = item.pcmWord (j - 1)) :
    shiftIn sample (item.pcmWord j) = item.data.getD (j / 2) 0 := by
  have before : (j - 1) / 2 = j / 2 := by omega
  rw [shiftIn, upper, WavItem.pcmWord, WavItem.pcmWord, long, if_neg (by decide),
    if_pos (by omega), if_neg (by decide), if_neg (by omega), before, halves]

theorem shiftIn_low (sample : BitVec 32) (word : BitVec 16) :
    (shiftIn sample word).extractLsb' 0 16 = word := by
  apply BitVec.eq_of_getLsbD_eq
  intro i inside
  simp only [shiftIn, BitVec.getLsbD_append, BitVec.getLsbD_extractLsb']
  grind

/-! ### Toggle phase -/

/-- The toggle register counts modulo four. -/
theorem tggl_getLsbD_zero {base : BitVec 2} (even : base.getLsbD 0 = false) (j : Nat) :
    (base + BitVec.ofNat 2 j).getLsbD 0 = decide (j % 2 = 1) := by
  have reduced : BitVec.ofNat 2 j = BitVec.ofNat 2 (j % 4) := by
    apply BitVec.eq_of_toNat_eq
    simp [BitVec.toNat_ofNat]
  have all : ∀ base : BitVec 2, ∀ phase < 4, base.getLsbD 0 = false →
      (base + BitVec.ofNat 2 phase).getLsbD 0 = decide (phase % 2 = 1) := by decide
  rw [reduced, all base (j % 4) (Nat.mod_lt _ (by decide)) even]
  exact decide_eq_decide.mpr (by omega)

theorem tggl_getLsbD_one (j : Nat) :
    (0 + BitVec.ofNat 2 j).getLsbD 1 = decide (2 ≤ j % 4) := by
  have reduced : BitVec.ofNat 2 j = BitVec.ofNat 2 (j % 4) := by
    apply BitVec.eq_of_toNat_eq
    simp [BitVec.toNat_ofNat]
  have all : ∀ phase < 4, (0 + BitVec.ofNat 2 phase).getLsbD 1 = decide (2 ≤ phase) := by
    decide
  rw [reduced, all (j % 4) (Nat.mod_lt _ (by decide))]

theorem tggl_eq_three (j : Nat) :
    (0 + BitVec.ofNat 2 j == 3) = decide (j % 4 = 3) := by
  have reduced : BitVec.ofNat 2 j = BitVec.ofNat 2 (j % 4) := by
    apply BitVec.eq_of_toNat_eq
    simp [BitVec.toNat_ofNat]
  have all : ∀ phase < 4, (0 + BitVec.ofNat 2 phase == 3) = decide (phase = 3) := by
    decide
  rw [reduced, all (j % 4) (Nat.mod_lt _ (by decide))]

theorem tggl_succ (base : BitVec 2) (j : Nat) :
    base + BitVec.ofNat 2 j + BitVec.ofNat 2 true.toNat = base + BitVec.ofNat 2 (j + 1) := by
  rw [BitVec.add_assoc, ← BitVec.ofNat_add]
  rfl

/-! ### Assembly of a frame -/

/-- What the assembly registers hold of a frame that is not complete after `j`
PCM words, with `bus` on the data bus in the clock before. -/
def Pending (item : WavItem) (j : Nat) (bus : BitVec 16) (pcm : Pcm) : Prop :=
  match item.stereo, item.wide with
  | false, false => True
  | false, true => j % 2 = 1 →
      pcm.ldata.extractLsb' 0 16 = item.pcmWord (j - 1) ∧ bus = item.pcmWord (j - 1)
  | true, false => j % 2 = 1 → pcm.ldata = item.data.getD (j - 1) 0
  | true, true =>
      (j % 4 = 1 → pcm.ldata.extractLsb' 0 16 = item.pcmWord (j - 1) ∧
        bus = item.pcmWord (j - 1)) ∧
      (2 ≤ j % 4 → pcm.ldata = item.data.getD (2 * (j / 4)) 0) ∧
      (j % 4 = 3 → pcm.rdata.extractLsb' 0 16 = item.pcmWord (j - 1) ∧
        bus = item.pcmWord (j - 1))

/-- The PCM registers after `j` PCM words of `item`; `base` is the toggle value
the file started with. -/
structure Assembles (item : WavItem) (base : BitVec 2) (j : Nat) (bus : BitVec 16)
    (pcm : Pcm) : Prop where
  toggle : pcm.tggl =
    if item.stereo || item.wide then base + BitVec.ofNat 2 j else base
  pending : Pending item j bus pcm

/-- Toggle values a file can start with: even, and zero if every fourth word
completes a frame. -/
structure Phased (item : WavItem) (base : BitVec 2) : Prop where
  even : base.getLsbD 0 = false
  zero : item.stereo = true → item.wide = true → base = 0

theorem assembles_gap {item : WavItem} {base : BitVec 2} {j : Nat} {bus : BitVec 16}
    {pcm : Pcm} (phased : Phased item base) (assembles : Assembles item base j bus pcm) :
    Assembles item base j bus
        (nextPcm pcm .pcmData item.stereo item.wide false bus) ∧
      (nextPcm pcm .pcmData item.stereo item.wide false bus).wrEn = false := by
  obtain ⟨toggle, pending⟩ := assembles
  unfold Pending at pending
  cases stereo : item.stereo <;> cases wide : item.wide <;>
    simp only [stereo, wide, Bool.or_true, Bool.or_false, Bool.false_eq_true,
      reduceIte] at toggle pending
  case false.false =>
    refine ⟨⟨?_, ?_⟩, rfl⟩
    · simpa [nextPcm, stereo, wide] using toggle
    · simp [Pending, stereo, wide]
  case false.true =>
    refine ⟨⟨?_, ?_⟩, rfl⟩
    · simpa [nextPcm, stereo, wide] using toggle
    · simp only [Pending, stereo, wide, nextPcm, shiftIn_low, reduceIte]
      exact fun odd => ⟨(pending odd).2, (pending odd).2⟩
  case true.false =>
    have bit : pcm.tggl.getLsbD 0 = decide (j % 2 = 1) := by
      rw [toggle, tggl_getLsbD_zero phased.even]
    refine ⟨⟨?_, ?_⟩, rfl⟩
    · simpa [nextPcm, stereo, wide] using toggle
    · simp only [Pending, stereo, wide, nextPcm, reduceIte, bit]
      intro odd
      simpa [odd] using pending odd
  case true.true =>
    have bit : pcm.tggl.getLsbD 1 = decide (2 ≤ j % 4) := by
      rw [toggle, phased.zero stereo wide, tggl_getLsbD_one]
    refine ⟨⟨?_, ?_⟩, rfl⟩
    · simpa [nextPcm, stereo, wide] using toggle
    · simp only [Pending, stereo, wide, nextPcm, reduceIte, bit]
      refine ⟨fun first => ?_, fun second => ?_, fun third => ?_⟩
      · simp only [first, decide_false, Bool.not_false, Nat.reduceLeDiff, reduceIte,
          shiftIn_low]
        exact ⟨(pending.1 first).2, (pending.1 first).2⟩
      · simpa [second] using pending.2.1 second
      · simp only [third, decide_true, Nat.reduceLeDiff, reduceIte, shiftIn_low]
        exact ⟨(pending.2.2 third).2, (pending.2.2 third).2⟩

def Pcm.written (pcm : Pcm) : List (BitVec 32 × BitVec 32) :=
  strobed pcm.wrEn (pcm.ldata, pcm.rdata)

theorem assembles_word {item : WavItem} {base : BitVec 2} {j : Nat} {bus : BitVec 16}
    {pcm : Pcm} (wellFormed : item.WellFormed) (phased : Phased item base)
    (assembles : Assembles item base j bus pcm) :
    Assembles item base (j + 1) (item.pcmWord j)
        (nextPcm pcm .pcmData item.stereo item.wide true (item.pcmWord j)) ∧
      (nextPcm pcm .pcmData item.stereo item.wide true (item.pcmWord j)).written =
        if (j + 1) % item.wordsPerFrame = 0 then [item.frameAt (j / item.wordsPerFrame)]
        else [] := by
  obtain ⟨toggle, pending⟩ := assembles
  obtain ⟨channels, bits, words⟩ := WavItem.format_of_bits wellFormed
  unfold Pending at pending
  cases stereo : item.stereo <;> cases wide : item.wide <;>
    simp only [stereo, wide, Bool.or_true, Bool.or_false, Bool.false_eq_true,
      reduceIte] at toggle pending channels bits words
  case false.false =>
    refine ⟨⟨?_, ?_⟩, ?_⟩
    · simpa [nextPcm, stereo, wide] using toggle
    · simp [Pending, stereo, wide]
    · simp [nextPcm, Pcm.written, words, Nat.mod_one, WavItem.frameAt, channels,
        signExtend_pcmWord wellFormed bits]
  case false.true =>
    have bit : pcm.tggl.getLsbD 0 = decide (j % 2 = 1) := by
      rw [toggle, tggl_getLsbD_zero phased.even]
    refine ⟨⟨?_, ?_⟩, ?_⟩
    · simp only [nextPcm, stereo, wide, reduceIte, Bool.or_true, toggle, tggl_succ]
    · simp only [Pending, stereo, wide, nextPcm, shiftIn_low, reduceIte,
        Nat.add_sub_cancel]
      exact fun _ => ⟨trivial, trivial⟩
    · simp only [nextPcm, Pcm.written, words, reduceIte, Bool.true_and, bit]
      by_cases odd : j % 2 = 1
      · rw [shiftIn_pcmWord bits odd (pending odd).1, if_pos (by omega)]
        simp [odd, WavItem.frameAt, channels]
      · rw [if_neg (by omega)]
        simp [odd]
  case true.false =>
    have bit : pcm.tggl.getLsbD 0 = decide (j % 2 = 1) := by
      rw [toggle, tggl_getLsbD_zero phased.even]
    refine ⟨⟨?_, ?_⟩, ?_⟩
    · simp only [nextPcm, stereo, wide, reduceIte, Bool.true_or, toggle, tggl_succ]
    · simp only [Pending, stereo, wide, nextPcm, reduceIte, Nat.add_sub_cancel, bit]
      intro odd
      simp [show ¬ j % 2 = 1 by omega, signExtend_pcmWord wellFormed bits]
    · simp only [nextPcm, Pcm.written, words, reduceIte, Bool.true_and, bit]
      by_cases odd : j % 2 = 1
      · have first : 2 * (j / 2) = j - 1 := by omega
        have second : j - 1 + 1 = j := by omega
        have complete : (j + 1) % (2 * 1) = 0 := by omega
        rw [if_pos complete, signExtend_pcmWord wellFormed bits, pending odd]
        simp [odd, WavItem.frameAt, channels, first, second]
      · have partway : ¬ (j + 1) % (2 * 1) = 0 := by omega
        rw [if_neg partway]
        simp [odd]
  case true.true =>
    have zero := phased.zero stereo wide
    have bit : pcm.tggl.getLsbD 1 = decide (2 ≤ j % 4) := by
      rw [toggle, zero, tggl_getLsbD_one]
    have full : (pcm.tggl == 3) = decide (j % 4 = 3) := by
      rw [toggle, zero, tggl_eq_three]
    obtain ⟨leftUpper, left, rightUpper⟩ := pending
    refine ⟨⟨?_, ?_⟩, ?_⟩
    · simp only [nextPcm, stereo, wide, reduceIte, Bool.true_or, toggle, tggl_succ]
    · simp only [Pending, stereo, wide, nextPcm, reduceIte, Nat.add_sub_cancel, bit]
      refine ⟨fun first => ?_, fun second => ?_, fun third => ?_⟩
      · simp [show j % 4 = 0 by omega, shiftIn_low]
      · by_cases late : 2 ≤ j % 4
        · simp only [late, decide_true, Bool.not_true, Bool.false_eq_true, reduceIte]
          rw [left late]
          congr 1
          omega
        · have here : j % 4 = 1 := by omega
          simp only [late, decide_false, Bool.not_false, reduceIte]
          rw [shiftIn_pcmWord bits (by omega) (leftUpper here).1]
          congr 1
          omega
      · simp [show j % 4 = 2 by omega, shiftIn_low]
    · simp only [nextPcm, Pcm.written, words, reduceIte, Bool.true_and, bit, full]
      by_cases last : j % 4 = 3
      · have right : j / 2 = 2 * (j / 4) + 1 := by omega
        have complete : (j + 1) % (2 * 2) = 0 := by omega
        rw [if_pos complete, shiftIn_pcmWord bits (by omega) (rightUpper last).1,
          left (by omega)]
        simp [last, WavItem.frameAt, channels, right]
      · have partway : ¬ (j + 1) % (2 * 2) = 0 := by omega
        rw [if_neg partway]
        simp [last]

/-! ### One clock of a file -/

/-- Frames complete after `k` words of the file. -/
def playedFrames (item : WavItem) (k : Nat) : List (BitVec 32 × BitVec 32) :=
  (List.range ((k - item.headerWords) / item.wordsPerFrame)).map item.frameAt

theorem playedFrames_succ {item : WavItem} (wellFormed : item.WellFormed) (k : Nat) :
    playedFrames item (k + 1) = playedFrames item k ++
      if item.headerWords ≤ k ∧ (k - item.headerWords + 1) % item.wordsPerFrame = 0 then
        [item.frameAt ((k - item.headerWords) / item.wordsPerFrame)]
      else [] := by
  have pos := WavItem.wordsPerFrame_pos wellFormed
  unfold playedFrames
  rcases Nat.lt_or_ge k item.headerWords with header | data
  · rw [if_neg (by omega), Nat.sub_eq_zero_of_le (by omega : k + 1 ≤ item.headerWords),
      Nat.sub_eq_zero_of_le (by omega : k ≤ item.headerWords), List.append_nil]
  · have index : k + 1 - item.headerWords = k - item.headerWords + 1 := by omega
    rw [index, Nat.succ_div]
    by_cases complete : (k - item.headerWords + 1) % item.wordsPerFrame = 0
    · rw [if_pos (Nat.dvd_of_mod_eq_zero complete), if_pos ⟨data, complete⟩,
        List.range_succ, List.map_append]
      rfl
    · rw [if_neg (fun divides => complete (Nat.mod_eq_zero_of_dvd divides)),
        if_neg (fun both => complete both.2), List.append_nil]
      rfl

theorem playedFrames_zero (item : WavItem) : playedFrames item 0 = [] := by
  simp [playedFrames]

theorem playedFrames_all {item : WavItem} (wellFormed : item.WellFormed) :
    playedFrames item item.rawLength = item.frames := by
  have pos := WavItem.wordsPerFrame_pos wellFormed
  rw [playedFrames, WavItem.rawLength_eq wellFormed, Nat.add_sub_cancel_left,
    WavItem.pcmWords_eq wellFormed, Nat.mul_div_cancel _ pos]
  rfl

theorem playedFrames_eq_take {item : WavItem} (wellFormed : item.WellFormed) {k : Nat}
    (inside : k ≤ item.rawLength) :
    playedFrames item k =
      item.frames.take ((k - item.headerWords) / item.wordsPerFrame) := by
  have pos := WavItem.wordsPerFrame_pos wellFormed
  have bound : (k - item.headerWords) / item.wordsPerFrame ≤ item.frameCount := by
    apply Nat.div_le_of_le_mul
    rw [Nat.mul_comm, ← WavItem.pcmWords_eq wellFormed]
    have length := WavItem.rawLength_eq wellFormed
    omega
  rw [playedFrames, WavItem.frames, ← List.map_take, List.take_range,
    Nat.min_eq_left bound]

/-- The parser after `k` words of `item`, at least one still to come. -/
structure Playing (item : WavItem) (base : BitVec 2) (k : Nat) (bus : BitVec 16)
    (regs : Regs) : Prop where
  tracks : Tracks item k regs
  assembles : Assembles item base (k - item.headerWords) bus regs.pcm

theorem step_pcm (regs : Regs) (inputs : Inputs) :
    (step regs inputs).pcm =
      nextPcm regs.pcm regs.chunk regs.numChnnlsF regs.bpsF
        inputs.sramRdDataValidIh inputs.sramRdDataId := rfl

theorem nextPcm_header (pcm : Pcm) {chunk : Chunk} (header : chunk ≠ .pcmData)
    (numChnnlsF bpsF valid : Bool) (word : BitVec 16) :
    nextPcm pcm chunk numChnnlsF bpsF valid word = { pcm with wrEn := false } := by
  simp [nextPcm, header]

theorem assembles_header {item : WavItem} {base : BitVec 2} {bus bus' : BitVec 16}
    {pcm pcm' : Pcm} (assembles : Assembles item base 0 bus pcm)
    (same : pcm'.tggl = pcm.tggl) : Assembles item base 0 bus' pcm' := by
  refine ⟨same.trans assembles.toggle, ?_⟩
  unfold Pending
  cases item.stereo <;> cases item.wide <;> simp

section Clock

variable {item : WavItem} {base : BitVec 2} {k : Nat} {bus : BitVec 16} {regs : Regs}
  {inputs : Inputs}

theorem Playing.pcm_step (playing : Playing item base k bus regs)
    (data : item.headerWords ≤ k) :
    (step regs inputs).pcm =
      nextPcm regs.pcm .pcmData item.stereo item.wide inputs.sramRdDataValidIh
        inputs.sramRdDataId := by
  have tracks := playing.tracks
  have late : 22 ≤ k := Nat.le_trans (Nat.le_add_right 22 _) data
  rw [step_pcm, tracks.data data, tracks.channels (by omega), tracks.bits (by omega)]
  rfl

theorem playing_gap (phased : Phased item base) (playing : Playing item base k bus regs)
    (gap : inputs.sramRdDataValidIh = false) (held : inputs.sramRdDataId = bus) :
    Playing item base k bus (step regs inputs) ∧ (step regs inputs).pcm.written = [] := by
  have tracks := playing.tracks
  rcases Nat.lt_or_ge k item.headerWords with header | data
  · have quiet : (step regs inputs).pcm = { regs.pcm with wrEn := false } := by
      rw [step_pcm, nextPcm_header _ (tracks.header header)]
    have start : k - item.headerWords = 0 := by omega
    refine ⟨⟨tracks_gap tracks gap, ?_⟩, ?_⟩
    · have assembles := playing.assembles
      rw [start] at assembles ⊢
      exact assembles_header assembles (by rw [quiet])
    · rw [quiet]
      rfl
  · obtain ⟨assembles, silent⟩ := assembles_gap phased playing.assembles
    have moved : (step regs inputs).pcm = _ := playing.pcm_step data
    rw [gap, held] at moved
    rw [← moved] at assembles silent
    refine ⟨⟨tracks_gap tracks gap, assembles⟩, ?_⟩
    rw [Pcm.written, silent]
    rfl

theorem playing_pcm_word (wellFormed : item.WellFormed) (phased : Phased item base)
    (playing : Playing item base k bus regs) (valid : inputs.sramRdDataValidIh = true)
    (word : inputs.sramRdDataId = item.rawWord k) :
    Assembles item base (k + 1 - item.headerWords) (item.rawWord k)
        (step regs inputs).pcm ∧
      playedFrames item k ++ (step regs inputs).pcm.written =
        playedFrames item (k + 1) := by
  have tracks := playing.tracks
  rw [playedFrames_succ wellFormed]
  rcases Nat.lt_or_ge k item.headerWords with header | data
  · have quiet : (step regs inputs).pcm = { regs.pcm with wrEn := false } := by
      rw [step_pcm, nextPcm_header _ (tracks.header header)]
    have start : k - item.headerWords = 0 := by omega
    have next : k + 1 - item.headerWords = 0 := by omega
    refine ⟨?_, ?_⟩
    · have assembles := playing.assembles
      rw [start] at assembles
      rw [next]
      exact assembles_header assembles (by rw [quiet])
    · rw [quiet, if_neg (by omega)]
      rfl
  · have position : item.rawWord k = item.pcmWord (k - item.headerWords) := by
      rw [← rawWord_pcm, Nat.add_sub_cancel' data]
    have next : k + 1 - item.headerWords = k - item.headerWords + 1 := by omega
    obtain ⟨assembles, written⟩ := assembles_word wellFormed phased playing.assembles
    have moved : (step regs inputs).pcm = _ := playing.pcm_step data
    rw [valid, word, position] at moved
    rw [← moved] at assembles written
    refine ⟨?_, ?_⟩
    · rw [next, position]
      exact assembles
    · rw [written]
      simp only [data, true_and]

theorem playing_word (wellFormed : item.WellFormed) (phased : Phased item base)
    (playing : Playing item base k bus regs) (next : k + 1 < item.rawLength)
    (admitted : Admitted k regs) (valid : inputs.sramRdDataValidIh = true)
    (word : inputs.sramRdDataId = item.rawWord k) :
    Playing item base (k + 1) (item.rawWord k) (step regs inputs) :=
  { tracks := tracks_word wellFormed playing.tracks next admitted valid word
    assembles := (playing_pcm_word wellFormed phased playing valid word).1 }

end Clock

/-- Toggle value the file leaves behind. -/
def nextBase (item : WavItem) (base : BitVec 2) : BitVec 2 :=
  if item.stereo || item.wide then base + BitVec.ofNat 2 item.pcmWords else base

/-- The last word leaves the parser idle and at the start of any other file,
with the toggle where this file left it. -/
theorem playing_last {item : WavItem} {base : BitVec 2} {k : Nat} {bus : BitVec 16}
    {regs : Regs} {inputs : Inputs} (wellFormed : item.WellFormed)
    (phased : Phased item base) (playing : Playing item base k bus regs)
    (ends : k + 1 = item.rawLength) (valid : inputs.sramRdDataValidIh = true)
    (word : inputs.sramRdDataId = item.rawWord k) :
    (step regs inputs).status = .idle ∧
      ∀ after : WavItem, after.WellFormed →
        Playing after (nextBase item base) 0 (item.rawWord k) (step regs inputs) := by
  obtain ⟨idle, ready⟩ := tracks_last wellFormed playing.tracks ends valid word
  refine ⟨idle, fun after afterWellFormed => ⟨ready after afterWellFormed, ?_⟩⟩
  have toggle := (playing_pcm_word wellFormed phased playing valid word).1.toggle
  rw [ends, WavItem.rawLength_eq wellFormed, Nat.add_sub_cancel_left] at toggle
  refine ⟨?_, ?_⟩
  · rw [toggle, Nat.zero_sub, BitVec.add_zero, ite_self]
    rfl
  · rw [Nat.zero_sub]
    unfold Pending
    cases after.stereo <;> cases after.wide <;> simp

/-! ### A whole file -/

def enabled (header : BitVec 8 → BitVec 16) : Regs :=
  { reset header with prsrEnF := true }

def stateAt (header : BitVec 8 → BitVec 16) (inputs : Nat → Inputs) : Nat → Regs :=
  run step (enabled header) inputs

theorem stateAt_succ (header : BitVec 8 → BitVec 16) (inputs : Nat → Inputs) (t : Nat) :
    stateAt header inputs (t + 1) = step (stateAt header inputs t) (inputs t) := rfl

def received (inputs : Nat → Inputs) : Nat → List (BitVec 16) :=
  collect fun t => strobed (inputs t).sramRdDataValidIh (inputs t).sramRdDataId

def emitted (header : BitVec 8 → BitVec 16) (inputs : Nat → Inputs) :
    Nat → List (BitVec 32 × BitVec 32) :=
  collect fun t => (stateAt header inputs t).pcm.written

/-- The words of `item` arrive in order with arbitrary gaps, in which the data
bus holds its last value, and none before the parser has gone ACTIVE. -/
structure Streams (item : WavItem) (header : BitVec 8 → BitVec 16)
    (inputs : Nat → Inputs) : Prop where
  ordered : ∀ t, received inputs t <+: item.getRaw
  held : ∀ t, (inputs (t + 1)).sramRdDataValidIh = false →
    (inputs (t + 1)).sramRdDataId = (inputs t).sramRdDataId
  started : ∀ t, (inputs t).sramRdDataValidIh = true →
    ∃ earlier ≤ t, (stateAt header inputs earlier).status = .activ

theorem phased_zero (item : WavItem) : Phased item 0 :=
  { even := rfl
    zero := fun _ _ => rfl }

inductive Progress (item : WavItem) (header : BitVec 8 → BitVec 16)
    (inputs : Nat → Inputs) (t k : Nat) : Prop where
  | playing (bus : BitVec 16)
      (held : (inputs t).sramRdDataValidIh = false → (inputs t).sramRdDataId = bus)
      (playing : Playing item 0 k bus (stateAt header inputs t))
      (active : (∃ earlier ≤ t, (stateAt header inputs earlier).status = .activ) →
        (stateAt header inputs t).status = .activ)
      (written : emitted header inputs (t + 1) = playedFrames item k)
  | done (all : k = item.rawLength)
      (last : (stateAt header inputs t).lastWordF = false)
      (wave : (stateAt header inputs t).chunk = .wave)
      (written : emitted header inputs (t + 1) = playedFrames item k)

theorem Streams.word {item : WavItem} {header : BitVec 8 → BitVec 16}
    {inputs : Nat → Inputs} (streams : Streams item header inputs) {t : Nat}
    (valid : (inputs t).sramRdDataValidIh = true) :
    (received inputs t).length < item.rawLength ∧
      (inputs t).sramRdDataId = item.rawWord (received inputs t).length := by
  obtain ⟨rest, whole⟩ := streams.ordered (t + 1)
  rw [received, collect_succ, valid, strobed_true, ← received, List.append_assoc] at whole
  have inside : (received inputs t).length < item.rawLength := by
    rw [← WavItem.getRaw_length, ← whole]
    simp
  refine ⟨inside, ?_⟩
  have place := WavItem.getRaw_getElem? inside
  rw [← whole, List.getElem?_append_right (Nat.le_refl _), Nat.sub_self] at place
  simpa using place

theorem received_gap {inputs : Nat → Inputs} {t : Nat}
    (gap : (inputs t).sramRdDataValidIh = false) :
    received inputs (t + 1) = received inputs t := by
  simp [received, collect_succ, gap]

theorem received_length_word {inputs : Nat → Inputs} {t : Nat}
    (valid : (inputs t).sramRdDataValidIh = true) :
    (received inputs (t + 1)).length = (received inputs t).length + 1 := by
  simp [received, collect_succ, valid]

section Stream

variable {item : WavItem} {header : BitVec 8 → BitVec 16} {inputs : Nat → Inputs}

theorem active_step {t : Nat} (more : endOfFileC (stateAt header inputs t)
      (inputs t).sramRdDataValidIh = false)
    (active : (∃ earlier ≤ t, (stateAt header inputs earlier).status = .activ) →
      (stateAt header inputs t).status = .activ) :
    (∃ earlier ≤ t + 1, (stateAt header inputs earlier).status = .activ) →
      (stateAt header inputs (t + 1)).status = .activ := by
  rintro ⟨earlier, before, seen⟩
  rcases Nat.lt_or_ge t earlier with last | within
  · obtain rfl : earlier = t + 1 := by omega
    exact seen
  · have now := active ⟨earlier, within, seen⟩
    simp only [stateAt_succ, step, now, more, nextStatus]
    rfl

theorem emitted_succ (header : BitVec 8 → BitVec 16) (inputs : Nat → Inputs) (t : Nat) :
    emitted header inputs (t + 2) = emitted header inputs (t + 1) ++
      (step (stateAt header inputs t) (inputs t)).pcm.written := rfl

theorem progress_gap {t : Nat} (streams : Streams item header inputs)
    (gap : (inputs t).sramRdDataValidIh = false)
    (progress : Progress item header inputs t (received inputs t).length) :
    Progress item header inputs (t + 1) (received inputs t).length := by
  cases progress with
  | playing bus held playing active written =>
      obtain ⟨still, silent⟩ := playing_gap (phased_zero item) playing gap (held gap)
      refine .playing bus ?_ still (active_step (by rw [gap, endOfFileC_gap]) active) ?_
      · intro nextGap
        rw [streams.held t nextGap, held gap]
      · rw [emitted_succ, silent, List.append_nil, written]
  | done all last wave written =>
      refine .done all ?_ ?_ ?_
      · simp [stateAt_succ, step, gap, last]
      · simp [stateAt_succ, step, gap, wave]
      · rw [emitted_succ, step_pcm, nextPcm_header _ (by rw [wave]; decide), written]
        simp [Pcm.written]

theorem progress_word {t : Nat} (wellFormed : item.WellFormed)
    (streams : Streams item header inputs)
    (valid : (inputs t).sramRdDataValidIh = true)
    (progress : Progress item header inputs t (received inputs t).length) :
    Progress item header inputs (t + 1) ((received inputs t).length + 1) := by
  obtain ⟨inside, word⟩ := streams.word valid
  cases progress with
  | done all => omega
  | playing bus held playing active written =>
      have now := active (streams.started t valid)
      have frames := (playing_pcm_word wellFormed (phased_zero item) playing valid word).2
      rcases Nat.lt_or_ge ((received inputs t).length + 1) item.rawLength with next | last
      · have more : endOfFileC (stateAt header inputs t) (inputs t).sramRdDataValidIh =
            false := by
          rw [endOfFileC, playing.tracks.more next, Bool.false_and]
        refine .playing (item.rawWord (received inputs t).length) ?_
          (playing_word wellFormed (phased_zero item) playing next (.inl now) valid word)
          (active_step more active) ?_
        · intro nextGap
          rw [streams.held t nextGap, word]
        · rw [emitted_succ, written, frames]
      · have ends : (received inputs t).length + 1 = item.rawLength := by omega
        obtain ⟨-, ready⟩ :=
          playing_last wellFormed (phased_zero item) playing ends valid word
        have fresh := (ready item wellFormed).tracks
        have length := WavItem.rawLength_eq wellFormed
        refine .done ends ?_ ((fresh.wave (by omega)).1) ?_
        · exact fresh.more (by unfold WavItem.headerWords at length; omega)
        · rw [emitted_succ, written, frames]

theorem stream_progress (wellFormed : item.WellFormed)
    (streams : Streams item header inputs) (t : Nat) :
    Progress item header inputs t (received inputs t).length := by
  induction t with
  | zero =>
      refine .playing (inputs 0).sramRdDataId (fun _ => rfl)
        ⟨tracks_reset header true wellFormed, ?_⟩ ?_ ?_
      · refine ⟨?_, ?_⟩
        · rw [received, collect_zero, List.length_nil, Nat.zero_sub, BitVec.add_zero,
            ite_self]
          rfl
        · rw [received, collect_zero, List.length_nil, Nat.zero_sub]
          unfold Pending
          cases item.stereo <;> cases item.wide <;> simp
      · rintro ⟨earlier, before, seen⟩
        obtain rfl : earlier = 0 := by omega
        exact seen
      · rw [received, collect_zero, List.length_nil, playedFrames_zero]
        rfl
  | succ t ih =>
      cases valid : (inputs t).sramRdDataValidIh with
      | false =>
          rw [received_gap valid]
          exact progress_gap streams valid ih
      | true =>
          rw [received_length_word valid]
          exact progress_word wellFormed streams valid ih

theorem stream_written (wellFormed : item.WellFormed)
    (streams : Streams item header inputs) (t : Nat) :
    emitted header inputs (t + 1) = playedFrames item (received inputs t).length := by
  cases stream_progress wellFormed streams t with
  | playing _ _ _ _ written => exact written
  | done _ _ _ written => exact written

theorem received_length_le (streams : Streams item header inputs) (t : Nat) :
    (received inputs t).length ≤ item.rawLength := by
  rw [← WavItem.getRaw_length]
  exact (streams.ordered t).length_le

/-- The parser leaves ACTIVE on the last word of the file and on no other. -/
theorem stream_idle_iff (wellFormed : item.WellFormed)
    (streams : Streams item header inputs) (t : Nat) :
    ((stateAt header inputs t).status = .activ ∧
        (stateAt header inputs (t + 1)).status = .idle) ↔
      ((inputs t).sramRdDataValidIh = true ∧ received inputs (t + 1) = item.getRaw) := by
  constructor
  · rintro ⟨active, idle⟩
    have ended : endOfFileC (stateAt header inputs t) (inputs t).sramRdDataValidIh = true := by
      by_contra more
      rw [Bool.not_eq_true] at more
      simp only [stateAt_succ, step, active, more, nextStatus] at idle
      cases idle
    simp only [endOfFileC, Bool.and_eq_true] at ended
    obtain ⟨last, valid⟩ := ended
    refine ⟨valid, (streams.ordered (t + 1)).eq_of_length ?_⟩
    rw [received_length_word valid, WavItem.getRaw_length]
    cases stream_progress wellFormed streams t with
    | playing bus held playing =>
        rw [playing.tracks.last] at last
        exact of_decide_eq_true last
    | done all more =>
        rw [more] at last
        cases last
  · rintro ⟨valid, whole⟩
    have ends := congrArg List.length whole
    rw [received_length_word valid, WavItem.getRaw_length] at ends
    cases stream_progress wellFormed streams t with
    | done all => omega
    | playing bus held playing active =>
        have word := (streams.word valid).2
        exact ⟨active (streams.started t valid),
          (playing_last wellFormed (phased_zero item) playing ends valid word).1⟩

/-- Decoding undoes encoding: for any gap pattern, the parser has written
exactly the frames whose words have arrived, none of them during the header,
all of them after the last word, and it returns to IDLE on that word only. -/
theorem wavPrsr_decodes_raw (wellFormed : item.WellFormed)
    (streams : Streams item header inputs) :
    (∀ t, emitted header inputs (t + 1) =
        item.frames.take
          (((received inputs t).length - item.headerWords) / item.wordsPerFrame)) ∧
      (∀ t, (received inputs t).length ≤ item.headerWords →
        emitted header inputs (t + 1) = []) ∧
      (∀ t, received inputs t = item.getRaw →
        emitted header inputs (t + 1) = item.frames) ∧
      ∀ t, ((stateAt header inputs t).status = .activ ∧
          (stateAt header inputs (t + 1)).status = .idle) ↔
        ((inputs t).sramRdDataValidIh = true ∧
          received inputs (t + 1) = item.getRaw) := by
  refine ⟨fun t => ?_, fun t early => ?_, fun t whole => ?_,
    stream_idle_iff wellFormed streams⟩
  · rw [stream_written wellFormed streams,
      playedFrames_eq_take wellFormed (received_length_le streams t)]
  · rw [stream_written wellFormed streams, playedFrames, Nat.sub_eq_zero_of_le early,
      Nat.zero_div]
    rfl
  · rw [stream_written wellFormed streams, whole, WavItem.getRaw_length,
      playedFrames_all wellFormed]

end Stream

/-! ### A stream without gaps -/

/-- One word per clock as soon as the parser is active; the last word stays on
the bus. -/
def gapless (item : WavItem) (t : Nat) : Inputs :=
  { sramEmptyIh := false
    sramRdDataValidIh := decide (1 ≤ t ∧ t ≤ item.rawLength)
    sramRdDataId := item.rawWord (min (t - 1) (item.rawLength - 1))
    lbRdEnIh := false
    lbWrEnIh := false
    lbAddrId := 0
    lbWrDataId := 0
    pcmFfAfullIh := false
    hdrRamMixed := 0 }

theorem received_gapless (item : WavItem) (t : Nat) :
    received (gapless item) t = item.getRaw.take (t - 1) := by
  induction t with
  | zero => rfl
  | succ t ih =>
      rw [received, collect_succ, ← received, ih, Nat.add_sub_cancel]
      by_cases inside : 1 ≤ t ∧ t ≤ item.rawLength
      · obtain ⟨index, rfl⟩ : ∃ index, t = index + 1 := ⟨t - 1, by omega⟩
        have place : item.getRaw[index]? = some (item.rawWord index) :=
          WavItem.getRaw_getElem? (by omega)
        rw [List.take_add_one, Nat.add_sub_cancel, place]
        simp [gapless, show min index (item.rawLength - 1) = index by omega,
          show index + 1 ≤ item.rawLength by omega]
      · rw [gapless]
        simp only [inside, decide_false, strobed_false, List.append_nil]
        rcases Nat.eq_zero_or_pos t with first | later
        · rw [first]
        · rw [List.take_of_length_le, List.take_of_length_le] <;>
            rw [WavItem.getRaw_length] <;> omega

theorem streams_gapless (item : WavItem) (header : BitVec 8 → BitVec 16) :
    Streams item header (gapless item) where
  ordered := by
    intro t
    rw [received_gapless]
    exact List.take_prefix _ _
  held := by
    intro t gap
    simp only [gapless, decide_eq_false_iff_not] at gap ⊢
    congr 1
    omega
  started := by
    intro t valid
    refine ⟨1, ?_, rfl⟩
    simp only [gapless, decide_eq_true_eq] at valid
    exact valid.1

def monoItem : WavItem :=
  { noSamples := 1
    chunkSize := 40
    subchunk1NoChnls := 1
    subchunk1SampleRate := 44100
    subchunk1ByteRate := 176400
    subchunk1BlockAlign := 4
    subchunk1BitsPerSample := 32
    subchunk2Size := 4
    data := [0x00010002] }

theorem monoItem_wellFormed : monoItem.WellFormed where
  chunkSize := by decide
  numChnnlsLim := by decide
  sampleRateLim := by decide
  byteRate := by rfl
  blockAlign := by decide
  bpsLim := by decide
  subchunk2Size := by decide
  noSamples := by decide
  dataLim16 := fun short => absurd short (by decide)
  dataLim32 := fun _ => by simp [monoItem]
  fmtSize := by decide
  pcm := by decide

def shortItem : WavItem :=
  { noSamples := 2
    chunkSize := 44
    subchunk1NoChnls := 2
    subchunk1SampleRate := 44100
    subchunk1ByteRate := 176400
    subchunk1BlockAlign := 4
    subchunk1BitsPerSample := 16
    subchunk2Size := 8
    data := [1, -1, 2, -2] }

theorem shortItem_wellFormed : shortItem.WellFormed where
  chunkSize := by decide
  numChnnlsLim := by decide
  sampleRateLim := by decide
  byteRate := by rfl
  blockAlign := by decide
  bpsLim := by decide
  subchunk2Size := by decide
  noSamples := by decide
  dataLim16 := fun _ => by simp [shortItem]
  dataLim32 := fun wide => absurd wide (by decide)
  fmtSize := by decide
  pcm := by decide

/-- Both frames of the short file are out after its 26 words. -/
theorem wavPrsr_decodes_raw_short :
    emitted (fun _ => 0) (gapless shortItem) 28 = [(1, -1), (2, -2)] := by
  have decoded := (wavPrsr_decodes_raw shortItem_wellFormed
    (streams_gapless shortItem (fun _ => 0))).2.2.1 27
  rw [decoded (by rw [received_gapless]; decide)]
  decide

end Synesthesia.WavPrsr
