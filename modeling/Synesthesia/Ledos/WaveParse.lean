/-
`wave_parse` against a running `wav_prsr`.

The software polls the byte counter and then reads 23 words of the header RAM over
the local bus, one address write and one data read for each, while the parser goes
on with the file.
-/

import Synesthesia.AudioCortex.WavWords
import Synesthesia.AudioCortex.WavDecode
import Synesthesia.Ledos.WavHdr

namespace Synesthesia.WaveParse

open Synesthesia.Rtl
open Synesthesia.AcortexRegMap
open Synesthesia.WavPrsr
open Synesthesia.WavHdr

def Reads (inputs : Inputs) (address : BitVec 8) : Prop :=
  inputs.lbRdEnIh = true ∧ inputs.lbAddrId = address

def Addresses (inputs : Inputs) : Prop :=
  inputs.lbWrEnIh = true ∧ inputs.lbAddrId = prsrHdrRamRdAddrRegAddr

instance (inputs : Inputs) (address : BitVec 8) : Decidable (Reads inputs address) :=
  inferInstanceAs (Decidable (_ ∧ _))

instance (inputs : Inputs) : Decidable (Addresses inputs) :=
  inferInstanceAs (Decidable (_ ∧ _))

def prsrGetBytesRead (high low : BitVec 16) : BitVec 32 :=
  (high.setWidth 32 <<< 16) + low.setWidth 32

/-- One call of `wave_parse`: the clocks of its local-bus accesses.  A read reaches
the parser at least three clocks after the address write in front of it, which has
been answered by then. -/
structure Call (start : Regs) (inputs : Nat → Inputs) where
  countH : Nat
  countL : Nat
  addressed : Nat → Nat
  sampled : Nat → Nat
  returned : Nat
  fed : ∀ t < returned, (inputs t).sramRdDataValidIh = true →
    (run step start inputs t).status = .activ
  playing : ∀ t < returned,
    endOfFileC (run step start inputs t) (inputs t).sramRdDataValidIh = false
  readH : Reads (inputs countH) prsrBytesReadHRegAddr
  readL : Reads (inputs countL) prsrBytesReadLRegAddr
  enough : 48 ≤ prsrGetBytesRead (run step start inputs (countH + 1)).lbRdDataOd
    (run step start inputs (countL + 1)).lbRdDataOd
  after : ∀ i < 23, countH < addressed i ∧ countL < addressed i
  written : ∀ i < 23, Addresses (inputs (addressed i)) ∧
    (inputs (addressed i)).lbWrDataId = BitVec.ofNat 16 i
  answered : ∀ i < 23, addressed i + 3 ≤ sampled i
  held : ∀ i < 23, ∀ t, addressed i < t → t < sampled i → ¬ Addresses (inputs t)
  read : ∀ i < 23, Reads (inputs (sampled i)) prsrHdrRamRdDataRegAddr
  done : ∀ i < 23, sampled i < returned

variable {start : Regs} {inputs : Nat → Inputs}

namespace Call

/-- Words the parser got before the call returned. -/
def word (call : Call start inputs) (k : Nat) : BitVec 16 :=
  (received inputs call.returned).getD k 0

/-- What the reads of the header RAM return. -/
def bffr (call : Call start inputs) (i : Nat) : BitVec 16 :=
  (run step start inputs (call.sampled i + 1)).lbRdDataOd

def final (call : Call start inputs) : Regs := run step start inputs call.returned

/-- The header RAM behind the last header word keeps its old contents. -/
def stored (call : Call start inputs) (i : Nat) : BitVec 16 :=
  if i < 22 + offstOf call.word then call.word i
  else start.wavHdrRam.memory (BitVec.ofNat 8 i)

/-! ### The parser during the call -/

theorem word_received (call : Call start inputs) {t : Nat} (before : t < call.returned)
    (valid : (inputs t).sramRdDataValidIh = true) :
    (inputs t).sramRdDataId = call.word (received inputs t).length := by
  obtain ⟨gap, later⟩ := Nat.exists_eq_add_of_lt before
  obtain ⟨rest, whole⟩ := collect_isPrefix
    (fun t => strobed (inputs t).sramRdDataValidIh (inputs t).sramRdDataId) (t + 1) gap
  have next : received inputs (t + 1) = received inputs t ++ [(inputs t).sramRdDataId] := by
    rw [received, collect_succ, valid, strobed_true]
  have all : received inputs call.returned =
      received inputs t ++ ((inputs t).sramRdDataId :: rest) := by
    rw [later, show t + gap + 1 = t + 1 + gap by omega, received, ← whole, ← received, next,
      List.append_assoc]
    rfl
  rw [word, all, List.getD_append_right _ _ _ _ (Nat.le_refl _), Nat.sub_self]
  rfl

theorem follows (call : Call start inputs) (ready : FileStart start) :
    ∀ t ≤ call.returned, Follows call.word start.wavHdrRam.memory (received inputs t).length
      (run step start inputs t) := by
  intro t
  induction t with
  | zero => exact fun _ => follows_zero _ ready
  | succ t ih =>
      intro inside
      have before := ih (by omega)
      rw [run_succ]
      cases valid : (inputs t).sramRdDataValidIh with
      | false =>
          rw [received_gap valid]
          exact follows_gap before valid
      | true =>
          rw [received_length_word valid]
          have more := call.playing t (by omega)
          rw [endOfFileC, valid, Bool.and_true] at more
          exact follows_word before (call.fed t (by omega) valid) more valid
            (call.word_received (by omega) valid)

theorem received_mono {early late : Nat} (order : early ≤ late) :
    (received inputs early).length ≤ (received inputs late).length := by
  obtain ⟨gap, rfl⟩ := Nat.exists_eq_add_of_le order
  exact (collect_isPrefix _ early gap).length_le

theorem sampled_le (call : Call start inputs) :
    call.countH ≤ call.returned ∧ call.countL ≤ call.returned := by
  have after := call.after 0 (by omega)
  have answered := call.answered 0 (by omega)
  have done := call.done 0 (by omega)
  omega

theorem lbRdDataOd_succ (t : Nat) :
    (run step start inputs (t + 1)).lbRdDataOd =
      nextLbRdData (run step start inputs t) (inputs t).lbAddrId := rfl

theorem counted (call : Call start inputs) (ready : FileStart start) {t : Nat}
    (high : call.countH ≤ t) (low : call.countL ≤ t) :
    24 ≤ (received inputs t).length := by
  have inside := call.sampled_le
  have countH := (call.follows ready call.countH inside.1).count
  have countL := (call.follows ready call.countL inside.2).count
  have enough := call.enough
  have highWord : (run step start inputs (call.countH + 1)).lbRdDataOd =
      (run step start inputs call.countH).wordCntrF.extractLsb' 15 16 := by
    rw [lbRdDataOd_succ, call.readH.2]
    rfl
  have lowWord : (run step start inputs (call.countL + 1)).lbRdDataOd =
      (run step start inputs call.countL).wordCntrF.extractLsb' 0 15 ++ (0 : BitVec 1) := by
    rw [lbRdDataOd_succ, call.readL.2]
    rfl
  rw [highWord, lowWord, countH, countL, prsrGetBytesRead, BitVec.le_def, BitVec.toNat_add,
    BitVec.toNat_shiftLeft, BitVec.toNat_setWidth, BitVec.toNat_setWidth, BitVec.toNat_append,
    BitVec.extractLsb'_toNat, BitVec.extractLsb'_toNat] at enough
  simp only [BitVec.toNat_ofNat, BitVec.reduceToNat, Nat.shiftLeft_eq,
    Nat.shiftRight_eq_div_pow, Nat.or_zero] at enough
  have earlyH : (received inputs call.countH).length ≤ _ := received_mono high
  have earlyL : (received inputs call.countL).length ≤ _ := received_mono low
  omega

theorem memory_eq (call : Call start inputs) (ready : FileStart start) {t : Nat}
    (high : call.countH ≤ t) (low : call.countL ≤ t) (inside : t ≤ call.returned) {i : Nat}
    (small : i < 23) :
    (run step start inputs t).wavHdrRam.memory (BitVec.ofNat 8 i) = call.stored i := by
  have follows := call.follows ready t inside
  have counted := call.counted ready high low
  unfold stored
  by_cases header : i < 22 + offstOf call.word
  · rw [if_pos header]
    exact follows.stored i (by omega) header
  · rw [if_neg header]
    exact follows.kept i (by omega) (.inr (by omega))

theorem latch_succ (call : Call start inputs) (ready : FileStart start) {t : Nat}
    (high : call.countH ≤ t) (low : call.countL ≤ t) (inside : t ≤ call.returned) {i : Nat}
    (small : i < 23) (address : (run step start inputs t).hdrRamRdAddrF = BitVec.ofNat 8 i) :
    (run step start inputs (t + 1)).wavHdrRam.latch = call.stored i := by
  have follows := call.follows ready t inside
  have counted := call.counted ready high low
  have sized := offstOf_le call.word
  have data := follows.chunk.mpr (by omega)
  have off : hdrRamWrEnC (run step start inputs t) (inputs t).sramRdDataValidIh = false := by
    simp [hdrRamWrEnC, data]
  rw [run_succ]
  simp only [step, DualPortRam.step, hdrRamPorts, off, Bool.false_eq_true, false_and, reduceIte]
  rw [address]
  exact call.memory_eq ready high low inside small

theorem address_held (call : Call start inputs) {i : Nat} (small : i < 23) :
    ∀ t, call.addressed i + 1 + t ≤ call.sampled i →
      (run step start inputs (call.addressed i + 1 + t)).hdrRamRdAddrF = BitVec.ofNat 8 i := by
  intro t
  induction t with
  | zero =>
      intro _
      obtain ⟨addresses, data⟩ := call.written i small
      unfold Addresses at addresses
      rw [Nat.add_zero, run_succ]
      simp only [step]
      rw [if_pos addresses, data, ← BitVec.setWidth_eq_extractLsb' (by decide),
        BitVec.setWidth_ofNat_of_le (by decide)]
  | succ t ih =>
      intro inside
      have quiet := call.held i small (call.addressed i + 1 + t) (by omega) (by omega)
      unfold Addresses at quiet
      rw [← Nat.add_assoc, run_succ]
      simp only [step]
      rw [if_neg quiet]
      exact ih (by omega)

theorem bffr_eq (call : Call start inputs) (ready : FileStart start) {i : Nat} (small : i < 23) :
    call.bffr i = call.stored i := by
  have after := call.after i small
  have answered := call.answered i small
  have done := call.done i small
  obtain ⟨wait, later⟩ := Nat.exists_eq_add_of_le answered
  have address := call.address_held small wait (by omega)
  have latched := call.latch_succ ready (by omega : call.countH ≤ call.addressed i + 1 + wait)
    (by omega) (by omega) small address
  have output : ∀ t, (run step start inputs (t + 1)).wavHdrRam.q =
      (run step start inputs t).wavHdrRam.latch := fun _ => rfl
  have data : ∀ regs : Regs,
      nextLbRdData regs prsrHdrRamRdDataRegAddr = regs.wavHdrRam.q := fun _ => rfl
  have clock : call.sampled i = call.addressed i + 1 + wait + 1 + 1 := by omega
  unfold bffr
  rw [lbRdDataOd_succ, (call.read i small).2, data, clock, output]
  exact latched

end Call

/-! ### One header, two readers -/

/-- Only the 23 words that are read matter. -/
theorem waveParse_congr (hdr : WavHdrType) {left right : Nat → BitVec 16}
    (same : ∀ i < 23, left i = right i) : waveParse hdr left = waveParse hdr right := by
  have overlay : getWavHdrFrmPrsr hdr left = getWavHdrFrmPrsr hdr right := by
    unfold getWavHdrFrmPrsr
    simp (disch := decide) only [same]
  unfold waveParse
  rw [overlay]

/-- A canonical header is accepted, and whatever is accepted is what the parser
plays. -/
def SameHeader (call : Call start inputs) (hdr : WavHdrType) : Prop :=
  (Canonical call.word →
    (waveParse hdr call.bffr).1 = 0 ∧ Agrees (waveParse hdr call.bffr).2 call.final) ∧
  ((waveParse hdr call.bffr).1 = 0 → Agrees (waveParse hdr call.bffr).2 call.final)

theorem accepted_agrees_iff (call : Call start inputs) (ready : FileStart start)
    (hdr : WavHdrType) (spells : Spells hdr call.stored) :
    Agrees (waveParse hdr call.stored).2 call.final ↔ Matching hdr call.stored := by
  have follows := call.follows ready call.returned (Nat.le_refl _)
  have inside := call.sampled_le
  have counted := call.counted ready inside.1 inside.2
  have sized := offstOf_le call.word
  have eight : call.word 8 = 0 := by
    have word := spells.subchunk1Size.1
    rwa [Call.stored, if_pos (by omega)] at word
  have short : offstOf call.word = 0 := by
    unfold offstOf
    rw [eight]
    rfl
  have stored : ∀ i < 22, call.stored i = call.word i := by
    intro i small
    rw [Call.stored, if_pos (by omega)]
  apply agrees_iff spells
  · rw [stored 11 (by omega)]
    exact follows.channels (by omega)
  · rw [stored 17 (by omega)]
    exact follows.bits (by omega)
  · have size := follows.size (by omega)
    rw [short] at size
    rw [stored 21 (by omega), stored 20 (by omega)]
    exact size

theorem canonical_error (call : Call start inputs) (ready : FileStart start)
    (hdr : WavHdrType) (canonical : Canonical call.word) :
    (waveParse hdr call.bffr).1 ≠ 0 := by
  rw [waveParse_congr hdr fun i small => call.bffr_eq ready (i := i) small, ne_eq,
    waveParse_accepts_iff]
  intro spells
  have first := spells.chunkID.2
  rw [Call.stored, if_pos (by omega)] at first
  exact canonical_first canonical first

/-- The two readers of a header are at one exactly if it is not canonical and, should
`wave_parse` accept it, mono, 16 bits wide and of a size that was there before. -/
theorem sameHeader_iff (ready : FileStart start) (call : Call start inputs)
    (hdr : WavHdrType) :
    SameHeader call hdr ↔
      ¬ Canonical call.word ∧ (Spells hdr call.stored → Matching hdr call.stored) := by
  have parsed := waveParse_congr hdr fun i small => call.bffr_eq ready (i := i) small
  have accepts := waveParse_accepts_iff hdr call.stored
  have agrees := accepted_agrees_iff call ready hdr
  have refused := canonical_error call ready hdr
  rw [parsed, ne_eq, accepts] at refused
  unfold SameHeader
  rw [parsed, accepts]
  constructor
  · rintro ⟨canonical, accepted⟩
    refine ⟨?_, fun spells => (agrees spells).mp (accepted spells)⟩
    intro header
    exact refused header (canonical header).1
  · rintro ⟨other, matching⟩
    refine ⟨fun canonical => absurd canonical other, ?_⟩
    intro spells
    exact (agrees spells).mpr (matching spells)

/-! ### A stereo file of 16 bits and 48 kHz

The parser starts in clock 0, gets 24 words without a gap, and is then read. -/

def stereoFile : PcmFile :=
  { long := false
    stereo := true
    wide := false
    sampleRate := 48000
    dataSize := 0x100000 }

def clearHdr : WavHdrType :=
  { chunkID := 0
    chunkSize := 0
    format := 0
    subchunk1ID := 0
    subchunk1Size := 0
    audioFormat := 0
    numChannels := 0
    sampleRate := 0
    byteRate := 0
    blockAlign := 0
    bitsPerSample := 0
    extra := 0
    subchunk2ID := 0
    subchunk2Size := 0 }

def stereoInputs (t : Nat) : Inputs :=
  { sramEmptyIh := false
    sramRdDataValidIh := decide (1 ≤ t ∧ t ≤ 24)
    sramRdDataId := stereoFile.word .raw (t - 1)
    lbRdEnIh := decide (t = 25 ∨ t = 26 ∨ (27 ≤ t ∧ (t - 27) % 4 = 3))
    lbWrEnIh := decide (27 ≤ t ∧ (t - 27) % 4 = 0)
    lbAddrId :=
      if t = 25 then prsrBytesReadHRegAddr
      else if t = 26 then prsrBytesReadLRegAddr
      else if (t - 27) % 4 = 0 then prsrHdrRamRdAddrRegAddr
      else prsrHdrRamRdDataRegAddr
    lbWrDataId := BitVec.ofNat 16 ((t - 27) / 4)
    pcmFfAfullIh := false
    hdrRamMixed := 0 }

theorem stereo_streamed :
    ∀ t < 25, ((stereoInputs t).sramRdDataValidIh = true →
        (run step (enabled fun _ => 0) stereoInputs t).status = .activ) ∧
      endOfFileC (run step (enabled fun _ => 0) stereoInputs t)
        (stereoInputs t).sramRdDataValidIh = false := by
  decide +kernel

def stereoCall : Call (enabled fun _ => 0) stereoInputs where
  countH := 25
  countL := 26
  addressed := fun i => 27 + 4 * i
  sampled := fun i => 30 + 4 * i
  returned := 119
  fed := by
    intro t _ valid
    rcases Nat.lt_or_ge t 25 with early | late
    · exact (stereo_streamed t early).1 valid
    · exact absurd (of_decide_eq_true valid) (by omega)
  playing := by
    intro t _
    rcases Nat.lt_or_ge t 25 with early | late
    · exact (stereo_streamed t early).2
    · have gap : (stereoInputs t).sramRdDataValidIh = false := decide_eq_false (by omega)
      rw [gap, endOfFileC_gap]
  readH := ⟨rfl, rfl⟩
  readL := ⟨rfl, rfl⟩
  enough := by decide +kernel
  after := by omega
  written := by decide +kernel
  answered := by omega
  held := by
    intro i small t after before addresses
    have write := of_decide_eq_true addresses.1
    omega
  read := by decide +kernel
  done := by omega

theorem stereo_canonical : Canonical stereoCall.word := by
  have counted : ∀ i < 22, (received stereoInputs (i + 1)).length = i := by decide +kernel
  refine ⟨stereoFile, .raw, ?_⟩
  intro i header
  have small : i < 22 := header
  have valid : (stereoInputs (i + 1)).sramRdDataValidIh = true := decide_eq_true (by omega)
  have streamed := stereoCall.word_received (by omega : i + 1 < 119) valid
  rw [counted i small] at streamed
  exact streamed.symm

/-- A stereo header is refused. -/
theorem stereo_refused : ¬ SameHeader stereoCall clearHdr := by
  intro same
  exact canonical_error stereoCall (fileStart_reset _ true) clearHdr stereo_canonical
    (same.1 stereo_canonical).1

theorem sameHeader_stereo :
    SameHeader stereoCall clearHdr ↔
      ¬ Canonical stereoCall.word ∧
        (Spells clearHdr stereoCall.stored → Matching clearHdr stereoCall.stored) :=
  sameHeader_iff (fileStart_reset _ true) stereoCall clearHdr

end Synesthesia.WaveParse
