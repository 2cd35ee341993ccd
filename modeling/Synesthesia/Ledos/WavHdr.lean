/-
`ledos.c`, `ledos.h`: the WAV header the software makes of the words in the header
RAM of `wav_prsr`.

`get_wav_hdr_frm_prsr` copies 23 half words over a `WavHdrType`, which the target
lays out little-endian with natural alignment: a pad of two bytes follows `Extra`,
and the upper half of `Subchunk2Size` is not written.
-/

import Synesthesia.AudioCortex.WavHeader
import Mathlib.Data.Bool.Basic

namespace Synesthesia.WavHdr

open Synesthesia.WavPrsr

structure WavHdrType where
  chunkID : BitVec 32
  chunkSize : BitVec 32
  format : BitVec 32
  subchunk1ID : BitVec 32
  subchunk1Size : BitVec 32
  audioFormat : BitVec 16
  numChannels : BitVec 16
  sampleRate : BitVec 32
  byteRate : BitVec 32
  blockAlign : BitVec 16
  bitsPerSample : BitVec 16
  extra : BitVec 16
  subchunk2ID : BitVec 32
  subchunk2Size : BitVec 32
  deriving DecidableEq, Repr

def byteSwap16 (data : BitVec 16) : BitVec 16 :=
  ((data &&& 0xff00) >>> 8) + ((data &&& 0xff) <<< 8)

def byteSwap32 (data : BitVec 32) : BitVec 32 :=
  ((data &&& 0xff000000) >>> 24) + ((data &&& 0xff0000) >>> 8) +
    ((data &&& 0xff00) <<< 8) + ((data &&& 0xff) <<< 24)

/-- The 23 half words read by `get_wav_hdr_frm_prsr`, laid over the struct; word 19
falls into the pad. -/
def getWavHdrFrmPrsr (hdr : WavHdrType) (bffr : Nat → BitVec 16) : WavHdrType :=
  { chunkID := bffr 1 ++ bffr 0
    chunkSize := bffr 3 ++ bffr 2
    format := bffr 5 ++ bffr 4
    subchunk1ID := bffr 7 ++ bffr 6
    subchunk1Size := bffr 9 ++ bffr 8
    audioFormat := bffr 10
    numChannels := bffr 11
    sampleRate := bffr 13 ++ bffr 12
    byteRate := bffr 15 ++ bffr 14
    blockAlign := bffr 16
    bitsPerSample := bffr 17
    extra := bffr 18
    subchunk2ID := bffr 21 ++ bffr 20
    subchunk2Size := hdr.subchunk2Size.extractLsb' 16 16 ++ bffr 22 }

def correctEndianess (hdr : WavHdrType) : WavHdrType :=
  { hdr with
    chunkSize := byteSwap32 hdr.chunkSize
    subchunk1Size := byteSwap32 hdr.subchunk1Size
    audioFormat := byteSwap16 hdr.audioFormat
    numChannels := byteSwap16 hdr.numChannels
    sampleRate := byteSwap32 hdr.sampleRate
    byteRate := byteSwap32 hdr.byteRate
    blockAlign := byteSwap16 hdr.blockAlign
    bitsPerSample := byteSwap16 hdr.bitsPerSample }

def reAlign (hdr : WavHdrType) : WavHdrType :=
  if hdr.subchunk2Size = 0x10 then
    { hdr with
      subchunk2Size :=
        ((hdr.subchunk2Size &&& 0xffff0000) >>> 16) + ((hdr.subchunk2ID &&& 0xffff) <<< 16)
      subchunk2ID :=
        ((hdr.subchunk2ID &&& 0xffff0000) >>> 16) +
          ((hdr.extra.setWidth 32 &&& 0xffff) <<< 16) }
  else hdr

def chkWavHdr (hdr : WavHdrType) : BitVec 32 :=
  if hdr.chunkID ≠ 0x52494646 ∨ hdr.format ≠ 0x57415645 ∨ hdr.subchunk1ID ≠ 0x666d7420 ∨
      (hdr.subchunk1Size ≠ 16 ∧ hdr.subchunk1Size ≠ 18) ∨ hdr.audioFormat ≠ 1 ∨
      (hdr.numChannels ≠ 1 ∧ hdr.numChannels ≠ 2) ∨
      (hdr.bitsPerSample ≠ 16 ∧ hdr.bitsPerSample ≠ 32) ∨
      hdr.subchunk2ID ≠ 0x64617461 then 1
  else 0

/-- Result and header left by `wave_parse` when the header RAM reads `bffr`. -/
def waveParse (hdr : WavHdrType) (bffr : Nat → BitVec 16) : BitVec 32 × WavHdrType :=
  let aligned := reAlign (correctEndianess (getWavHdrFrmPrsr hdr bffr))
  let parsed := { aligned with subchunk2Size := byteSwap32 aligned.subchunk2Size }
  (chkWavHdr parsed, parsed)

/-! ### Bytes of a word -/

theorem byteSwap16_eq (data : BitVec 16) : byteSwap16 data = swapBytes data := by
  have upper : ∀ j < 16, (0xff00 : BitVec 16).getLsbD j = decide (8 ≤ j) := by decide
  have lower : ∀ j < 16, (0xff : BitVec 16).getLsbD j = decide (j < 8) := by decide
  have apart : ((data &&& 0xff00) >>> 8) &&& ((data &&& 0xff) <<< 8) = 0 := by
    apply BitVec.eq_of_getLsbD_eq
    intro i inside
    grind
  unfold byteSwap16
  rw [BitVec.add_eq_or_of_and_eq_zero _ _ apart]
  apply BitVec.eq_of_getLsbD_eq
  intro i inside
  simp only [swapBytes, BitVec.getLsbD_append, BitVec.getLsbD_extractLsb',
    BitVec.getLsbD_or, BitVec.getLsbD_shiftLeft, BitVec.getLsbD_ushiftRight,
    BitVec.getLsbD_and]
  grind

theorem swapBytes_swapBytes (data : BitVec 16) : swapBytes (swapBytes data) = data := by
  apply BitVec.eq_of_getLsbD_eq
  intro i inside
  simp only [swapBytes, BitVec.getLsbD_append, BitVec.getLsbD_extractLsb']
  grind

theorem byteSwap32_eq (data : BitVec 32) :
    byteSwap32 data =
      swapBytes (data.extractLsb' 0 16) ++ swapBytes (data.extractLsb' 16 16) := by
  have first : ∀ j < 32, (0xff : BitVec 32).getLsbD j = decide (j < 8) := by decide
  have second : ∀ j < 32, (0xff00 : BitVec 32).getLsbD j =
      (decide (8 ≤ j) && decide (j < 16)) := by decide
  have third : ∀ j < 32, (0xff0000 : BitVec 32).getLsbD j =
      (decide (16 ≤ j) && decide (j < 24)) := by decide
  have fourth : ∀ j < 32, (0xff000000 : BitVec 32).getLsbD j = decide (24 ≤ j) := by decide
  have low : ((data &&& 0xff000000) >>> 24) &&& ((data &&& 0xff0000) >>> 8) = 0 := by
    apply BitVec.eq_of_getLsbD_eq
    intro i inside
    grind
  have middle : (((data &&& 0xff000000) >>> 24) ||| ((data &&& 0xff0000) >>> 8)) &&&
      ((data &&& 0xff00) <<< 8) = 0 := by
    apply BitVec.eq_of_getLsbD_eq
    intro i inside
    grind
  have high : (((data &&& 0xff000000) >>> 24) ||| ((data &&& 0xff0000) >>> 8) |||
      ((data &&& 0xff00) <<< 8)) &&& ((data &&& 0xff) <<< 24) = 0 := by
    apply BitVec.eq_of_getLsbD_eq
    intro i inside
    grind
  unfold byteSwap32
  rw [BitVec.add_eq_or_of_and_eq_zero _ _ low, BitVec.add_eq_or_of_and_eq_zero _ _ middle,
    BitVec.add_eq_or_of_and_eq_zero _ _ high]
  apply BitVec.eq_of_getLsbD_eq
  intro i inside
  simp only [swapBytes, BitVec.getLsbD_append, BitVec.getLsbD_extractLsb',
    BitVec.getLsbD_or, BitVec.getLsbD_shiftLeft, BitVec.getLsbD_ushiftRight,
    BitVec.getLsbD_and]
  grind

theorem append_eq_iff (high low : BitVec 16) (value : BitVec 32) :
    high ++ low = value ↔
      high = value.extractLsb' 16 16 ∧ low = value.extractLsb' 0 16 := by
  constructor
  · rintro rfl
    refine ⟨(extract_high high low).symm, ?_⟩
    apply BitVec.eq_of_getLsbD_eq
    intro i inside
    simp only [BitVec.getLsbD_append, BitVec.getLsbD_extractLsb']
    grind
  · rintro ⟨rfl, rfl⟩
    exact halves value

theorem swapBytes_eq_iff (data value : BitVec 16) :
    swapBytes data = value ↔ data = swapBytes value := by
  constructor
  · rintro rfl
    exact (swapBytes_swapBytes data).symm
  · rintro rfl
    exact swapBytes_swapBytes value

theorem joined_eq (upper lower : BitVec 32) :
    ((upper &&& 0xffff0000) >>> 16) + ((lower &&& 0xffff) <<< 16) =
      lower.extractLsb' 0 16 ++ upper.extractLsb' 16 16 := by
  have highMask : ∀ j < 32, (0xffff0000 : BitVec 32).getLsbD j = decide (16 ≤ j) := by decide
  have lowMask : ∀ j < 32, (0xffff : BitVec 32).getLsbD j = decide (j < 16) := by decide
  have apart : ((upper &&& 0xffff0000) >>> 16) &&& ((lower &&& 0xffff) <<< 16) = 0 := by
    apply BitVec.eq_of_getLsbD_eq
    intro i inside
    grind
  rw [BitVec.add_eq_or_of_and_eq_zero _ _ apart]
  apply BitVec.eq_of_getLsbD_eq
  intro i inside
  simp only [BitVec.getLsbD_append, BitVec.getLsbD_extractLsb', BitVec.getLsbD_or,
    BitVec.getLsbD_shiftLeft, BitVec.getLsbD_ushiftRight, BitVec.getLsbD_and]
  grind

/-! ### Words that are accepted -/

variable {hdr : WavHdrType} {bffr : Nat → BitVec 16}

/-- Upper half of `Subchunk2Size` before the call. -/
def upperHalf (hdr : WavHdrType) : BitVec 16 := hdr.subchunk2Size.extractLsb' 16 16

/-- The header is taken for one with an extra field. -/
def ReAligned (hdr : WavHdrType) (bffr : Nat → BitVec 16) : Prop :=
  upperHalf hdr = 0 ∧ bffr 22 = 0x10

instance : Decidable (ReAligned hdr bffr) := inferInstanceAs (Decidable (_ ∧ _))

/-- The words `wave_parse` accepts. -/
structure Spells (hdr : WavHdrType) (bffr : Nat → BitVec 16) : Prop where
  chunkID : bffr 1 = 0x5249 ∧ bffr 0 = 0x4646
  format : bffr 5 = 0x5741 ∧ bffr 4 = 0x5645
  subchunk1ID : bffr 7 = 0x666d ∧ bffr 6 = 0x7420
  subchunk1Size : bffr 8 = 0 ∧ (bffr 9 = 0x1000 ∨ bffr 9 = 0x1200)
  audioFormat : bffr 10 = 0x0100
  numChannels : bffr 11 = 0x0100 ∨ bffr 11 = 0x0200
  bitsPerSample : bffr 17 = 0x1000 ∨ bffr 17 = 0x2000
  subchunk2ID :
    if ReAligned hdr bffr then bffr 18 = 0x6461 ∧ bffr 21 = 0x7461
    else bffr 21 = 0x6461 ∧ bffr 20 = 0x7461

theorem reAligned_iff :
    (correctEndianess (getWavHdrFrmPrsr hdr bffr)).subchunk2Size = 0x10 ↔
      ReAligned hdr bffr := by
  unfold ReAligned upperHalf
  exact append_eq_iff _ _ _

theorem waveParse_fields (hdr : WavHdrType) (bffr : Nat → BitVec 16) :
    (waveParse hdr bffr).2 =
      { chunkID := bffr 1 ++ bffr 0
        chunkSize := swapBytes (bffr 2) ++ swapBytes (bffr 3)
        format := bffr 5 ++ bffr 4
        subchunk1ID := bffr 7 ++ bffr 6
        subchunk1Size := swapBytes (bffr 8) ++ swapBytes (bffr 9)
        audioFormat := swapBytes (bffr 10)
        numChannels := swapBytes (bffr 11)
        sampleRate := swapBytes (bffr 12) ++ swapBytes (bffr 13)
        byteRate := swapBytes (bffr 14) ++ swapBytes (bffr 15)
        blockAlign := swapBytes (bffr 16)
        bitsPerSample := swapBytes (bffr 17)
        extra := bffr 18
        subchunk2ID :=
          if ReAligned hdr bffr then bffr 18 ++ bffr 21 else bffr 21 ++ bffr 20
        subchunk2Size :=
          if ReAligned hdr bffr then swapBytes 0 ++ swapBytes (bffr 20)
          else swapBytes (bffr 22) ++ swapBytes (upperHalf hdr) } := by
  have swap : ∀ high low : BitVec 16,
      byteSwap32 (high ++ low) = swapBytes low ++ swapBytes high := by
    intro high low
    obtain ⟨upper, lower⟩ := (append_eq_iff high low (high ++ low)).mp rfl
    rw [byteSwap32_eq, ← upper, ← lower]
  have wide : ∀ word : BitVec 16, (word.setWidth 32).extractLsb' 0 16 = word := by
    intro word
    rw [← BitVec.setWidth_eq_extractLsb' (by decide), BitVec.setWidth_setWidth_of_le _ (by decide),
      BitVec.setWidth_eq]
  have lower : ∀ high low : BitVec 16, (high ++ low).extractLsb' 0 16 = low := fun high low =>
    ((append_eq_iff high low _).mp rfl).2.symm
  by_cases again : ReAligned hdr bffr
  · have size := reAligned_iff.mpr again
    simp only [waveParse, reAlign, if_pos size, if_pos again]
    simp only [correctEndianess, getWavHdrFrmPrsr, joined_eq, byteSwap16_eq, swap, wide, lower,
      extract_high, extract_high] at size ⊢
    have zero : hdr.subchunk2Size.extractLsb' 16 16 = 0 := again.1
    rw [zero]
  · have size := mt reAligned_iff.mp again
    simp only [waveParse, reAlign, if_neg size, if_neg again]
    simp only [correctEndianess, getWavHdrFrmPrsr, byteSwap16_eq, swap]
    rfl

theorem chkWavHdr_eq_zero (hdr : WavHdrType) :
    chkWavHdr hdr = 0 ↔
      hdr.chunkID = 0x52494646 ∧ hdr.format = 0x57415645 ∧ hdr.subchunk1ID = 0x666d7420 ∧
        (hdr.subchunk1Size = 16 ∨ hdr.subchunk1Size = 18) ∧ hdr.audioFormat = 1 ∧
        (hdr.numChannels = 1 ∨ hdr.numChannels = 2) ∧
        (hdr.bitsPerSample = 16 ∨ hdr.bitsPerSample = 32) ∧
        hdr.subchunk2ID = 0x64617461 := by
  have result : ∀ (wrong : Prop) [Decidable wrong],
      (if wrong then (1 : BitVec 32) else 0) = 0 ↔ ¬ wrong := by
    intro wrong _
    by_cases found : wrong
    · simp [found]
    · simp [found]
  unfold chkWavHdr
  rw [result]
  grind

theorem waveParse_accepts_iff (hdr : WavHdrType) (bffr : Nat → BitVec 16) :
    (waveParse hdr bffr).1 = 0 ↔ Spells hdr bffr := by
  have result : (waveParse hdr bffr).1 = chkWavHdr (waveParse hdr bffr).2 := rfl
  have data : ∀ high low : BitVec 16,
      high ++ low = (0x64617461 : BitVec 32) ↔ high = 0x6461 ∧ low = 0x7461 :=
    fun high low => append_eq_iff high low _
  have fmtSize : ∀ high low : BitVec 16,
      swapBytes low ++ swapBytes high = (16 : BitVec 32) ∨
          swapBytes low ++ swapBytes high = (18 : BitVec 32) ↔
        low = 0 ∧ (high = 0x1000 ∨ high = 0x1200) := by
    intro high low
    rw [append_eq_iff, append_eq_iff, swapBytes_eq_iff, swapBytes_eq_iff, swapBytes_eq_iff,
      swapBytes_eq_iff, and_or_left]
    rfl
  have either : ∀ data first second : BitVec 16,
      swapBytes data = first ∨ swapBytes data = second ↔
        data = swapBytes first ∨ data = swapBytes second := by
    intro data first second
    rw [swapBytes_eq_iff, swapBytes_eq_iff]
  rw [result, waveParse_fields, chkWavHdr_eq_zero]
  simp only [append_eq_iff _ _ 0x52494646, append_eq_iff _ _ 0x57415645,
    append_eq_iff _ _ 0x666d7420, fmtSize, either, swapBytes_eq_iff (bffr 10) 1]
  constructor
  · rintro ⟨chunkID, format, subchunk1ID, subchunk1Size, audioFormat, numChannels,
      bitsPerSample, subchunk2ID⟩
    exact
      { chunkID := chunkID
        format := format
        subchunk1ID := subchunk1ID
        subchunk1Size := subchunk1Size
        audioFormat := audioFormat
        numChannels := numChannels
        bitsPerSample := bitsPerSample
        subchunk2ID := by
          by_cases again : ReAligned hdr bffr
          · rw [if_pos again] at subchunk2ID ⊢
            exact (data _ _).mp subchunk2ID
          · rw [if_neg again] at subchunk2ID ⊢
            exact (data _ _).mp subchunk2ID }
  · intro spells
    refine ⟨spells.chunkID, spells.format, spells.subchunk1ID, spells.subchunk1Size,
      spells.audioFormat, spells.numChannels, spells.bitsPerSample, ?_⟩
    have subchunk2ID := spells.subchunk2ID
    by_cases again : ReAligned hdr bffr
    · rw [if_pos again] at subchunk2ID ⊢
      exact (data _ _).mpr subchunk2ID
    · rw [if_neg again] at subchunk2ID ⊢
      exact (data _ _).mpr subchunk2ID

/-! ### Agreement with the parser -/

/-- The header fields that configure the codec and what the parser plays. -/
structure Agrees (hdr : WavHdrType) (regs : Regs) : Prop where
  numChannels : hdr.numChannels = 2 ↔ regs.numChnnlsF = true
  bitsPerSample : hdr.bitsPerSample = 32 ↔ regs.bpsF = true
  subchunk2Size : hdr.subchunk2Size = regs.pcmDataSizeF

/-- Accepted words that mean the same to `wave_parse` and to the parser: a mono
header of 16 bits, and a stale size in front of and behind word 22. -/
structure Matching (hdr : WavHdrType) (bffr : Nat → BitVec 16) : Prop where
  mono : bffr 11 = 0x0100
  narrow : bffr 17 = 0x1000
  size : bffr 22 = 0x6461 ∧ upperHalf hdr = 0x7461

theorem agrees_iff (spells : Spells hdr bffr) {regs : Regs}
    (channels : regs.numChnnlsF = (bffr 11).getLsbD 1) (bits : regs.bpsF = (bffr 17).getLsbD 5)
    (size : regs.pcmDataSizeF = swapBytes (bffr 21) ++ swapBytes (bffr 20)) :
    Agrees (waveParse hdr bffr).2 regs ↔ Matching hdr bffr := by
  have numChannels : (swapBytes (bffr 11) = 2 ↔ regs.numChnnlsF = true) ↔ bffr 11 = 0x0100 := by
    rw [channels]
    rcases spells.numChannels with mono | stereo
    · rw [mono]
      decide
    · rw [stereo]
      decide
  have bitsPerSample : (swapBytes (bffr 17) = 32 ↔ regs.bpsF = true) ↔ bffr 17 = 0x1000 := by
    rw [bits]
    rcases spells.bitsPerSample with narrow | wide
    · rw [narrow]
      decide
    · rw [wide]
      decide
  have subchunk2Size :
      (waveParse hdr bffr).2.subchunk2Size = regs.pcmDataSizeF ↔
        bffr 22 = 0x6461 ∧ upperHalf hdr = 0x7461 := by
    have subchunk2ID := spells.subchunk2ID
    rw [size, waveParse_fields]
    by_cases again : ReAligned hdr bffr
    · rw [if_pos again] at subchunk2ID
      simp only [if_pos again, subchunk2ID.2]
      constructor
      · intro same
        have upper := ((append_eq_iff _ _ _).mp same).1
        rw [← ((append_eq_iff _ _ _).mp rfl).1] at upper
        exact absurd upper (by decide)
      · rintro ⟨word, -⟩
        rw [again.2] at word
        exact absurd word (by decide)
    · rw [if_neg again] at subchunk2ID
      simp only [if_neg again, subchunk2ID.1, subchunk2ID.2]
      rw [append_eq_iff, swapBytes_eq_iff, swapBytes_eq_iff]
      rfl
  constructor
  · intro agrees
    have fields := waveParse_fields hdr bffr
    have first := agrees.numChannels
    have second := agrees.bitsPerSample
    rw [fields] at first second
    exact
      { mono := numChannels.mp first
        narrow := bitsPerSample.mp second
        size := subchunk2Size.mp agrees.subchunk2Size }
  · intro matching
    have first := numChannels.mpr matching.mono
    have second := bitsPerSample.mpr matching.narrow
    have fields := waveParse_fields hdr bffr
    exact
      { numChannels := by
          rw [fields]
          exact first
        bitsPerSample := by
          rw [fields]
          exact second
        subchunk2Size := subchunk2Size.mpr matching.size }

/-! ### Canonical headers -/

/-- A PCM file in one of the formats the parser plays. -/
structure PcmFile where
  long : Bool
  stereo : Bool
  wide : Bool
  sampleRate : BitVec 32
  dataSize : BitVec 32

namespace PcmFile

def fmtSize (file : PcmFile) : BitVec 32 := if file.long then 18 else 16

def channels (file : PcmFile) : BitVec 16 := if file.stereo then 2 else 1

def bits (file : PcmFile) : BitVec 16 := if file.wide then 32 else 16

def blockAlign (file : PcmFile) : BitVec 16 := file.channels * file.bits / 8

def byteRate (file : PcmFile) : BitVec 32 :=
  file.sampleRate * file.blockAlign.setWidth 32

def item (file : PcmFile) : WavItem :=
  { noSamples := file.dataSize / file.blockAlign.setWidth 32
    chunkSize := 20 + file.fmtSize + file.dataSize
    subchunk1Size := file.fmtSize
    subchunk1NoChnls := file.channels
    subchunk1SampleRate := file.sampleRate
    subchunk1ByteRate := file.byteRate
    subchunk1BlockAlign := file.blockAlign
    subchunk1BitsPerSample := file.bits
    subchunk2Size := file.dataSize
    data := [] }

def bigEndian (value : BitVec 32) : List (BitVec 8) :=
  [value.extractLsb' 24 8, value.extractLsb' 16 8, value.extractLsb' 8 8,
    value.extractLsb' 0 8]

def littleEndian (value : BitVec 32) : List (BitVec 8) := (bigEndian value).reverse

def littleEndian16 (value : BitVec 16) : List (BitVec 8) :=
  [value.extractLsb' 0 8, value.extractLsb' 8 8]

def bytes (file : PcmFile) : List (BitVec 8) :=
  bigEndian 0x52494646 ++ littleEndian (20 + file.fmtSize + file.dataSize) ++
    bigEndian 0x57415645 ++ bigEndian 0x666d7420 ++ littleEndian file.fmtSize ++
    littleEndian16 1 ++ littleEndian16 file.channels ++ littleEndian file.sampleRate ++
    littleEndian file.byteRate ++ littleEndian16 file.blockAlign ++
    littleEndian16 file.bits ++ (if file.long then littleEndian16 0 else []) ++
    bigEndian 0x64617461 ++ littleEndian file.dataSize

end PcmFile

/-- How a file becomes 16-bit words: as `get_raw` streams it, or two bytes a word. -/
inductive Packing where
  | raw
  | lowFirst
  | highFirst
  deriving DecidableEq, Repr

def PcmFile.word (file : PcmFile) (packing : Packing) (i : Nat) : BitVec 16 :=
  match packing with
  | .raw => file.item.rawWord i
  | .lowFirst => file.bytes.getD (2 * i + 1) 0 ++ file.bytes.getD (2 * i) 0
  | .highFirst => file.bytes.getD (2 * i) 0 ++ file.bytes.getD (2 * i + 1) 0

/-- The streamed words begin with the header of a file. -/
def Canonical (words : Nat → BitVec 16) : Prop :=
  ∃ (file : PcmFile) (packing : Packing),
    ∀ i < 22 + file.long.toNat, words i = file.word packing i

/-- The first word of a file is not the one that `ChunkID`, whose bytes are not
exchanged, is compared with. -/
theorem canonical_first {words : Nat → BitVec 16} (canonical : Canonical words) :
    words 0 ≠ 0x4646 := by
  obtain ⟨file, packing, streamed⟩ := canonical
  rw [streamed 0 (by omega)]
  cases packing with
  | raw =>
      have word : file.word .raw 0 =
          (((0x52494646 : BitVec 32) &&& 0xffff0000) >>> 16).setWidth 16 := by
        unfold PcmFile.word WavItem.rawWord
        rw [if_pos rfl]
        rfl
      rw [word]
      decide
  | lowFirst =>
      have word : file.word .lowFirst 0 = (0x49 : BitVec 8) ++ (0x52 : BitVec 8) := by
        unfold PcmFile.word PcmFile.bytes
        rfl
      rw [word]
      decide
  | highFirst =>
      have word : file.word .highFirst 0 = (0x52 : BitVec 8) ++ (0x49 : BitVec 8) := by
        unfold PcmFile.word PcmFile.bytes
        rfl
      rw [word]
      decide

end Synesthesia.WavHdr
