/-
`syn_wav_seq_item`: a WAV file as an object, its constraints, and the 16-bit
words `get_raw` streams for it.

The right-hand sides of the constraints are evaluated in 32 bits, as the
constraint solver evaluates them.  A file with an item's header announces
`subchunk2Size` bytes, which is also what `get_raw` allocates.
-/

import Mathlib.Algebra.Group.Nat.Defs
import Mathlib.Data.List.GetD

namespace Synesthesia

structure WavItem where
  noSamples : BitVec 32
  chunkID : BitVec 32 := 0x52494646
  chunkSize : BitVec 32
  chunkFmt : BitVec 32 := 0x57415645
  subchunk1ID : BitVec 32 := 0x666d7420
  subchunk1Size : BitVec 32 := 16
  subchunk1AudFmt : BitVec 16 := 1
  subchunk1NoChnls : BitVec 16
  subchunk1SampleRate : BitVec 32
  subchunk1ByteRate : BitVec 32
  subchunk1BlockAlign : BitVec 16
  subchunk1BitsPerSample : BitVec 16
  subchunk2ID : BitVec 32 := 0x64617461
  subchunk2Size : BitVec 32
  /-- Even locations are the left channel, odd ones the right channel. -/
  data : List (BitVec 32)

namespace WavItem

structure Constraints (item : WavItem) : Prop where
  chunkSize : item.chunkSize = 36 + item.subchunk2Size
  numChnnlsLim : item.subchunk1NoChnls = 1 ∨ item.subchunk1NoChnls = 2
  sampleRateLim :
    item.subchunk1SampleRate = 48000 ∨ item.subchunk1SampleRate = 32000 ∨
      item.subchunk1SampleRate = 96000 ∨ item.subchunk1SampleRate = 44100
  byteRate :
    item.subchunk1ByteRate =
      (item.subchunk1SampleRate * item.subchunk1NoChnls.setWidth 32 *
        item.subchunk1BitsPerSample.setWidth 32) / 8
  blockAlign :
    item.subchunk1BlockAlign.setWidth 32 =
      (item.subchunk1NoChnls.setWidth 32 *
        item.subchunk1BitsPerSample.setWidth 32) / 8
  bpsLim : item.subchunk1BitsPerSample = 16 ∨ item.subchunk1BitsPerSample = 32
  subchunk2Size :
    item.subchunk2Size =
      (item.noSamples * item.subchunk1NoChnls.setWidth 32 *
        item.subchunk1BitsPerSample.setWidth 32) / 8
  noSamples :
    item.data.length =
      (item.noSamples * item.subchunk1NoChnls.setWidth 32).toNat
  dataLim16 : item.subchunk1BitsPerSample = 16 →
    ∀ sample ∈ item.data, -32767 ≤ sample.toInt ∧ sample.toInt ≤ 32767
  dataLim32 : item.subchunk1BitsPerSample = 32 →
    ∀ sample ∈ item.data, -2147483647 ≤ sample.toInt ∧ sample.toInt ≤ 2147483647

def pcmWords (item : WavItem) : Nat := item.subchunk2Size.toNat / 2

/-- The files played here: the constraints hold, the format chunk has one of
the two sizes in use, and there are at least two words of PCM data. -/
structure WellFormed (item : WavItem) : Prop extends Constraints item where
  fmtSize : item.subchunk1Size = 16 ∨ item.subchunk1Size = 18
  pcm : 2 ≤ item.pcmWords

/-! ### Raw words -/

def offst (item : WavItem) : Nat := if item.subchunk1Size = 18 then 1 else 0

/-- The pad word of an 18-byte format chunk keeps its default value. -/
def rawWord (item : WavItem) (i : Nat) : BitVec 16 :=
  if i = 0 then ((item.chunkID &&& 0xffff0000) >>> 16).setWidth 16
  else if i = 1 then (item.chunkID &&& 0xffff).setWidth 16
  else if i = 2 then
    (((item.chunkSize &&& 0xff) <<< 8) + ((item.chunkSize &&& 0xff00) >>> 8)).setWidth 16
  else if i = 3 then
    (((item.chunkSize &&& 0xff0000) >>> 8) +
      ((item.chunkSize &&& 0xff000000) >>> 24)).setWidth 16
  else if i = 4 then ((item.chunkFmt &&& 0xffff0000) >>> 16).setWidth 16
  else if i = 5 then (item.chunkFmt &&& 0xffff).setWidth 16
  else if i = 6 then ((item.subchunk1ID &&& 0xffff0000) >>> 16).setWidth 16
  else if i = 7 then (item.subchunk1ID &&& 0xffff).setWidth 16
  else if i = 8 then
    (((item.subchunk1Size &&& 0xff) <<< 8) +
      ((item.subchunk1Size &&& 0xff00) >>> 8)).setWidth 16
  else if i = 9 then
    (((item.subchunk1Size &&& 0xff0000) >>> 8) +
      ((item.subchunk1Size &&& 0xff000000) >>> 24)).setWidth 16
  else if i = 10 then item.subchunk1AudFmt
  else if i = 11 then item.subchunk1NoChnls
  else if i = 12 then ((item.subchunk1SampleRate &&& 0xffff0000) >>> 16).setWidth 16
  else if i = 13 then (item.subchunk1SampleRate &&& 0xffff).setWidth 16
  else if i = 14 then ((item.subchunk1ByteRate &&& 0xffff0000) >>> 16).setWidth 16
  else if i = 15 then (item.subchunk1ByteRate &&& 0xffff).setWidth 16
  else if i = 16 then item.subchunk1BlockAlign
  else if i = 17 then item.subchunk1BitsPerSample
  else if i = 18 + item.offst then
    ((item.subchunk2ID &&& 0xffff0000) >>> 16).setWidth 16
  else if i = 19 + item.offst then (item.subchunk2ID &&& 0xffff).setWidth 16
  else if i = 20 + item.offst then
    (((item.subchunk2Size &&& 0xff00) >>> 8) +
      ((item.subchunk2Size &&& 0xff) <<< 8)).setWidth 16
  else if i = 21 + item.offst then
    (((item.subchunk2Size &&& 0xff0000) >>> 8) +
      ((item.subchunk2Size &&& 0xff000000) >>> 24)).setWidth 16
  else if 21 + item.offst < i then
    if item.subchunk1BitsPerSample = 16 then
      (item.data.getD (i - (22 + item.offst)) 0 &&& 0xffff).setWidth 16
    else if (i - item.offst) % 2 = 0 then
      ((item.data.getD ((i - 22 - item.offst) / 2) 0 &&& 0xffff0000) >>> 16).setWidth 16
    else (item.data.getD ((i - 23 - item.offst) / 2) 0 &&& 0xffff).setWidth 16
  else 0

def rawLength (item : WavItem) : Nat :=
  ((4 + (8 + item.subchunk1Size) + (8 + item.subchunk2Size)) / 2 + 4).toNat

def getRaw (item : WavItem) : List (BitVec 16) :=
  (List.range item.rawLength).map item.rawWord

def headerWords (item : WavItem) : Nat := 22 + item.offst

def pcmWord (item : WavItem) (j : Nat) : BitVec 16 :=
  if item.subchunk1BitsPerSample = 16 then (item.data.getD j 0).extractLsb' 0 16
  else if j % 2 = 0 then (item.data.getD (j / 2) 0).extractLsb' 16 16
  else (item.data.getD (j / 2) 0).extractLsb' 0 16

/-! ### Frames -/

/-- What the scoreboard expects of sample number `i`: left and right channel,
the right one silent in a mono file. -/
def frameAt (item : WavItem) (i : Nat) : BitVec 32 × BitVec 32 :=
  if item.subchunk1NoChnls = 1 then (item.data.getD i 0, 0)
  else (item.data.getD (2 * i) 0, item.data.getD (2 * i + 1) 0)

def frameCount (item : WavItem) : Nat :=
  item.subchunk2Size.toNat / item.subchunk1BlockAlign.toNat

def frames (item : WavItem) : List (BitVec 32 × BitVec 32) :=
  (List.range item.frameCount).map item.frameAt

def wordsPerFrame (item : WavItem) : Nat := item.subchunk1BlockAlign.toNat / 2

/-! ### Sizes of a well-formed item -/

theorem offst_cases (item : WavItem) : item.offst = 0 ∨ item.offst = 1 := by
  unfold offst
  split <;> simp

theorem offst_le (item : WavItem) : item.offst ≤ 1 := by
  rcases item.offst_cases with short | long <;> omega

theorem subchunk2Size_lt {item : WavItem} (wellFormed : item.WellFormed) :
    item.subchunk2Size.toNat < 2 ^ 29 := by
  rw [wellFormed.subchunk2Size, BitVec.toNat_udiv]
  have bound := (item.noSamples * item.subchunk1NoChnls.setWidth 32 *
    item.subchunk1BitsPerSample.setWidth 32).isLt
  simp only [BitVec.reduceToNat]
  omega

theorem rawLength_eq {item : WavItem} (wellFormed : item.WellFormed) :
    item.rawLength = item.headerWords + item.pcmWords := by
  have announced := subchunk2Size_lt wellFormed
  unfold rawLength headerWords offst pcmWords
  rcases wellFormed.fmtSize with size | size <;>
    simp only [size, BitVec.toNat_add, BitVec.toNat_udiv, BitVec.reduceToNat,
      reduceIte, BitVec.reduceEq] <;>
    omega

theorem getRaw_length (item : WavItem) : item.getRaw.length = item.rawLength := by
  simp [getRaw]

theorem getRaw_getElem? {item : WavItem} {i : Nat} (inside : i < item.rawLength) :
    item.getRaw[i]? = some (item.rawWord i) := by
  simp [getRaw, inside]

theorem format_cases {item : WavItem} (wellFormed : item.WellFormed) :
    (item.subchunk1NoChnls = 1 ∧ item.subchunk1BitsPerSample = 16 ∧
      item.subchunk1BlockAlign = 2 ∧ item.wordsPerFrame = 1) ∨
    (item.subchunk1NoChnls = 1 ∧ item.subchunk1BitsPerSample = 32 ∧
      item.subchunk1BlockAlign = 4 ∧ item.wordsPerFrame = 2) ∨
    (item.subchunk1NoChnls = 2 ∧ item.subchunk1BitsPerSample = 16 ∧
      item.subchunk1BlockAlign = 4 ∧ item.wordsPerFrame = 2) ∨
    (item.subchunk1NoChnls = 2 ∧ item.subchunk1BitsPerSample = 32 ∧
      item.subchunk1BlockAlign = 8 ∧ item.wordsPerFrame = 4) := by
  have align := congrArg BitVec.toNat wellFormed.blockAlign
  have block : ∀ bytes : Nat, bytes < 2 ^ 16 →
      item.subchunk1BlockAlign.toNat = bytes →
      item.subchunk1BlockAlign = BitVec.ofNat 16 bytes := by
    intro bytes small same
    apply BitVec.eq_of_toNat_eq
    rw [same, BitVec.toNat_ofNat, Nat.mod_eq_of_lt small]
  have wide : item.subchunk1BlockAlign.toNat % 4294967296 =
      item.subchunk1BlockAlign.toNat :=
    Nat.mod_eq_of_lt (by omega)
  unfold wordsPerFrame
  rcases wellFormed.numChnnlsLim with channels | channels <;>
    rcases wellFormed.bpsLim with bits | bits <;>
    simp only [channels, bits, BitVec.toNat_setWidth, wide] at align <;>
    simp only [channels, bits, block _ (by decide) align] <;>
    decide

/-- The two header bits that select the sample format. -/
def stereo (item : WavItem) : Bool := item.subchunk1NoChnls.getLsbD 1

def wide (item : WavItem) : Bool := item.subchunk1BitsPerSample.getLsbD 5

theorem format_of_bits {item : WavItem} (wellFormed : item.WellFormed) :
    item.subchunk1NoChnls = (if item.stereo then 2 else 1) ∧
      item.subchunk1BitsPerSample = (if item.wide then 32 else 16) ∧
      item.wordsPerFrame =
        (if item.stereo then 2 else 1) * (if item.wide then 2 else 1) := by
  unfold stereo wide
  rcases format_cases wellFormed with ⟨channels, bits, -, words⟩ |
      ⟨channels, bits, -, words⟩ | ⟨channels, bits, -, words⟩ |
      ⟨channels, bits, -, words⟩ <;>
    rw [channels, bits, words] <;> decide

theorem wordsPerFrame_pos {item : WavItem} (wellFormed : item.WellFormed) :
    0 < item.wordsPerFrame := by
  rcases format_cases wellFormed with h | h | h | h <;> omega

theorem subchunk2Size_even (item : WavItem) (wellFormed : item.WellFormed) :
    item.subchunk2Size.toNat % 2 = 0 := by
  have announced := congrArg BitVec.toNat wellFormed.subchunk2Size
  rcases wellFormed.bpsLim with bits | bits <;>
    simp only [bits, BitVec.toNat_udiv, BitVec.toNat_mul, BitVec.toNat_setWidth,
      BitVec.reduceToNat] at announced <;>
    omega

theorem pcmWords_eq {item : WavItem} (wellFormed : item.WellFormed) :
    item.pcmWords = item.frameCount * item.wordsPerFrame := by
  have announced := congrArg BitVec.toNat wellFormed.subchunk2Size
  unfold pcmWords frameCount
  rcases format_cases wellFormed with ⟨channels, bits, block, words⟩ |
      ⟨channels, bits, block, words⟩ | ⟨channels, bits, block, words⟩ |
      ⟨channels, bits, block, words⟩ <;>
    simp only [channels, bits, BitVec.toNat_udiv, BitVec.toNat_mul,
      BitVec.toNat_setWidth, BitVec.reduceToNat] at announced <;>
    simp only [words, block, BitVec.reduceToNat] <;>
    omega

end WavItem

end Synesthesia
