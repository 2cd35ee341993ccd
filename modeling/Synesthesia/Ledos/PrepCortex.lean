/-
`ledos.c`, `acortex.c`: the two ways of configuring the audio path.

At power up `acortex_init` and `codec_init` set everything for a sampling rate and
a width; when a file is played `prep_cortex` follows its header.
-/

import Synesthesia.Ledos.DacDrvr
import Synesthesia.Ledos.CodecMirror
import Synesthesia.Ledos.WavHdr

namespace Synesthesia.PrepCortex

open Synesthesia.Codec
open Synesthesia.DacDrvr
open Synesthesia.WavHdr

structure State where
  codec : Codec.State
  dac : DacRegs
  i2cClkDiv : BitVec 8
  lchnlEn : Bool
  rchnlEn : Bool

/-! ### At power up -/

def acortexI2cClkDivVal : BitVec 8 := 100

/-- The write to `ACORTEX_RESET_ADDR` resets the registers of the block. -/
def resetAcortex (state : State) : State :=
  { state with
    dac := resetDacRegs
    i2cClkDiv := 0 }

def configureI2cClk (clkVal : BitVec 8) (state : State) : State :=
  { state with i2cClkDiv := clkVal }

def acortexInit (fs : Fs) (bps : Bps) (state : State) : State :=
  let configured := configureI2cClk acortexI2cClkDivVal (resetAcortex state)
  { configured with
    dac :=
      updateMclk (fsVal fs) (updateFsDiv (fsVal fs) (configureDacDrvrBps bps configured.dac)) }

/-- `acortex_init` and `codec_init`, every transaction being acknowledged. -/
def initialised (fs : Fs) (bps : Bps) (state : State) : State :=
  let cortex := acortexInit fs bps state
  { cortex with codec := (codecInit (fun _ => true) bps fs cortex.codec).2 }

/-! ### For a file -/

/-- The value stored in `sr_val`; the last branch is the default. -/
def srVal (hdr : WavHdrType) : Fs :=
  if hdr.sampleRate = 8000 then .fs8khz
  else if hdr.sampleRate = 32000 then .fs32khz
  else if hdr.sampleRate = 44100 then .fs44khz
  else if hdr.sampleRate = 48000 then .fs48khz
  else if hdr.sampleRate = 88200 then .fs88khz
  else .fs96khz

def clkVal (hdr : WavHdrType) : MclkSelVal :=
  if hdr.sampleRate = 44100 ∨ hdr.sampleRate = 88200 then .clk11mhz else .clk12mhz

section Acks

variable (acks : Nat → Bool)

/-- The calls of `prep_cortex` before the sampling rate. -/
def prepWidth (hdr : WavHdrType) : List (Codec.State → I2cRes × Codec.State) :=
  [codecDspIfInactivate acks,
    codecDacInactivate acks,
    codecIwlUpdate acks (if hdr.bitsPerSample = 16 then .iwl16 else .iwl32)]

def prepCodec (hdr : WavHdrType) : Codec.State → I2cRes × Codec.State :=
  checked
    (prepWidth acks hdr ++
      [configField acks codecSr (BitVec.ofNat 8 (fsVal (srVal hdr)).val)])

/-- `update_mclk` is given an enumerator of `MCLK_SEL_VAL` for its parameter of type `FS_T`. -/
def prepCortex (hdr : WavHdrType) (state : State) : I2cRes × State :=
  let result := prepCodec acks hdr state.codec
  if result.1 = .i2cOk then
    (.i2cOk,
      { state with
        codec := result.2
        dac := enableDacDrvr (updateMclk (clkVal hdr).val state.dac)
        lchnlEn := true
        rchnlEn := if 1 < hdr.numChannels then true else state.rchnlEn })
  else (.i2cNackDetected, { state with codec := result.2 })

end Acks

/-! ### Audio format -/

/-- The fields that make the format: of the codec, then of the serialiser. -/
structure Format where
  sr : BitVec 4
  iwl : BitVec 2
  mclkSel : BitVec 2
  fsDivVal : BitVec 11
  bps : Bool

def format (state : State) : Format :=
  { sr := (state.codec.codec 8).extractLsb' 2 4
    iwl := (state.codec.codec 7).extractLsb' 2 2
    mclkSel := state.dac.mclkSel
    fsDivVal := state.dac.fsDivVal
    bps := state.dac.bps }

def rate : Fs → BitVec 32
  | .fs8khz => 8000
  | .fs32khz => 32000
  | .fs44khz => 44100
  | .fs48khz => 48000
  | .fs88khz => 88200
  | .fs96khz => 96000

/-- The width a header denotes. -/
def width (hdr : WavHdrType) : Bps :=
  if hdr.bitsPerSample = 16 then .bps16 else .bps32

/-- If `prep_cortex` succeeds, the format is that of an initialisation for the file. -/
def SetsFormat (acks : Nat → Bool) (hdr : WavHdrType) (fs : Fs) (state : State) : Prop :=
  (prepCortex acks hdr state).1 = .i2cOk →
    format (prepCortex acks hdr state).2 = format (initialised fs (width hdr) state)

/-! ### Acknowledged transactions -/

variable {acks : Nat → Bool}

/-- The call makes so many transactions, and succeeds when all are acknowledged. -/
def Takes (acks : Nat → Bool) (count : Nat) (call : Codec.State → I2cRes × Codec.State) : Prop :=
  ∀ state, ((call state).1 = .i2cOk ↔ ∀ i < count, acks (state.sent.length + i) = true) ∧
    ((call state).1 = .i2cOk → (call state).2.sent.length = state.sent.length + count)

theorem takes_configField (field : Field) (val : BitVec 8) :
    Takes acks 1 (configField acks field val) := by
  intro state
  have one : (∀ i < 1, acks (state.sent.length + i) = true) ↔
      acks state.sent.length = true := by
    constructor
    · exact fun all => all 0 Nat.one_pos
    · intro ack i first
      rwa [show i = 0 by omega]
  rw [one]
  unfold configField codecConfigReg setShadow sendShadow i2cXtnWrite16
  cases ack : acks state.sent.length with
  | true => simp
  | false => simp

theorem takes_nil : Takes acks 0 (checked []) := by
  intro state
  simp [checked]

theorem Takes.cons {first : Codec.State → I2cRes × Codec.State}
    {rest : List (Codec.State → I2cRes × Codec.State)} {count more : Nat}
    (one : Takes acks count first) (others : Takes acks more (checked rest)) :
    Takes acks (count + more) (checked (first :: rest)) := by
  intro state
  have here := one state
  have there := others (first state).2
  unfold checked
  by_cases ok : (first state).1 = .i2cOk
  · have sent := here.2 ok
    rw [if_pos ok, there.1, sent]
    constructor
    · constructor
      · intro later i inside
        by_cases early : i < count
        · exact here.1.mp ok i early
        · have shifted := later (i - count) (by omega)
          rwa [show state.sent.length + count + (i - count) = state.sent.length + i by
            omega] at shifted
      · intro all i inside
        have shifted := all (count + i) (by omega)
        rwa [← Nat.add_assoc] at shifted
    · intro done
      rw [there.2 (there.1.mpr (by rwa [sent])), sent, Nat.add_assoc]
  · rw [if_neg ok]
    constructor
    · constructor
      · intro impossible
        cases impossible
      · intro all
        exact absurd (here.1.mpr fun i inside => all i (by omega)) ok
    · intro impossible
      cases impossible

theorem takes_prepCodec (hdr : WavHdrType) : Takes acks 6 (prepCodec acks hdr) :=
  have inactivate : Takes acks 3 (codecDacInactivate acks) :=
    (takes_configField _ _).cons ((takes_configField _ _).cons ((takes_configField _ _).cons
      takes_nil))
  (takes_configField _ _).cons (inactivate.cons ((takes_configField _ _).cons
    ((takes_configField _ _).cons takes_nil)))

theorem prepCortex_ok (hdr : WavHdrType) (state : State) :
    (prepCortex acks hdr state).1 = .i2cOk ↔
      ∀ i < 6, acks (state.codec.sent.length + i) = true := by
  rw [← ((takes_prepCodec hdr) state.codec).1]
  unfold prepCortex
  by_cases ok : (prepCodec acks hdr state.codec).1 = .i2cOk
  · simp [ok]
  · simp [ok]

/-! ### The format that is left -/

variable {hdr : WavHdrType} {fs : Fs} {state : State}

theorem initialised_mclkSel (bps : Bps) :
    (initialised fs bps state).dac.mclkSel =
      BitVec.ofNat 2 (fs2mclkLookup (fsVal fs)).val.val := by
  have set : (initialised fs bps state).dac =
      updateMclk (fsVal fs) (updateFsDiv (fsVal fs) (configureDacDrvrBps bps resetDacRegs)) := rfl
  rw [set, updateMclk_eq]

theorem prepCortex_dac (ok : (prepCortex acks hdr state).1 = .i2cOk) :
    (prepCortex acks hdr state).2.dac = enableDacDrvr (updateMclk (clkVal hdr).val state.dac) := by
  unfold prepCortex at ok ⊢
  by_cases done : (prepCodec acks hdr state.codec).1 = .i2cOk
  · simp only [done, reduceIte]
  · simp [done] at ok

theorem clkVal_other (denotes : hdr.sampleRate = rate fs) :
    BitVec.ofNat 2 (fs2mclkLookup (clkVal hdr).val).val.val ≠
      BitVec.ofNat 2 (fs2mclkLookup (fsVal fs)).val.val := by
  unfold clkVal
  rw [denotes]
  cases fs <;> decide

theorem prepCortex_mclkSel (denotes : hdr.sampleRate = rate fs)
    (ok : (prepCortex acks hdr state).1 = .i2cOk) :
    (prepCortex acks hdr state).2.dac.mclkSel ≠
      BitVec.ofNat 2 (fs2mclkLookup (fsVal fs)).val.val := by
  rw [prepCortex_dac ok, enableDacDrvr_eq, updateMclk_eq]
  exact clkVal_other denotes

/-! ### Both paths -/

theorem format_ne (denotes : hdr.sampleRate = rate fs)
    (ok : (prepCortex acks hdr state).1 = .i2cOk) (bps : Bps) :
    format (prepCortex acks hdr state).2 ≠ format (initialised fs bps state) := by
  intro same
  exact prepCortex_mclkSel denotes ok
    ((congrArg Format.mclkSel same).trans (initialised_mclkSel bps))

/--
Whatever header denotes a rate, `prep_cortex` never leaves the format of an
initialisation: the only runs without a difference are those in which one of its six
transactions is not acknowledged, so that it does not succeed.
-/
theorem setsFormat_iff (acks : Nat → Bool) (hdr : WavHdrType) (fs : Fs) (state : State)
    (denotes : hdr.sampleRate = rate fs) :
    SetsFormat acks hdr fs state ↔
      ¬ ∀ i < 6, acks (state.codec.sent.length + i) = true := by
  rw [← prepCortex_ok hdr state]
  constructor
  · intro sets ok
    exact format_ne denotes ok _ (sets ok)
  · intro failed ok
    exact absurd ok failed

def cdHeader : WavHdrType :=
  { chunkID := 0x52494646
    chunkSize := 36
    format := 0x57415645
    subchunk1ID := 0x666d7420
    subchunk1Size := 16
    audioFormat := 1
    numChannels := 2
    sampleRate := 44100
    byteRate := 176400
    blockAlign := 4
    bitsPerSample := 16
    extra := 0
    subchunk2ID := 0x64617461
    subchunk2Size := 0 }

/-- The system after power up, configured for such a track. -/
def powered : State :=
  initialised .fs44khz .bps16
    { codec := powerUp
      dac := resetDacRegs
      i2cClkDiv := 0
      lchnlEn := false
      rchnlEn := false }

theorem setsFormat_cd :
    chkWavHdr cdHeader = 0 ∧
      (SetsFormat (fun _ => true) cdHeader .fs44khz powered ↔ ¬ ∀ i < 6, true = true) :=
  ⟨by decide, setsFormat_iff (fun _ => true) cdHeader .fs44khz powered rfl⟩

/-- The format was right before the call, and is not any more. -/
theorem prepCortex_spoils_cd :
    chkWavHdr cdHeader = 0 ∧ cdHeader.sampleRate = rate .fs44khz ∧
      ¬ SetsFormat (fun _ => true) cdHeader .fs44khz powered := by
  refine ⟨by decide, rfl, ?_⟩
  intro sets
  have ok : (prepCortex (fun _ => true) cdHeader powered).1 = .i2cOk :=
    (prepCortex_ok cdHeader powered).mpr fun _ _ => rfl
  exact format_ne rfl ok _ (sets ok)

/-! ### What a successful call leaves -/

theorem checked_last {calls : List (Codec.State → I2cRes × Codec.State)}
    {last : Codec.State → I2cRes × Codec.State} {before : Codec.State}
    (ok : (checked (calls ++ [last]) before).1 = .i2cOk) :
    (checked calls before).1 = .i2cOk ∧ (last (checked calls before).2).1 = .i2cOk ∧
      (checked (calls ++ [last]) before).2 = (last (checked calls before).2).2 := by
  induction calls generalizing before with
  | nil =>
      rw [List.nil_append, checked] at ok ⊢
      by_cases first : (last before).1 = .i2cOk
      · rw [if_pos first]
        exact ⟨rfl, first, rfl⟩
      · rw [if_neg first] at ok
        cases ok
  | cons call rest ih =>
      rw [List.cons_append, checked] at ok ⊢
      rw [checked]
      by_cases first : (call before).1 = .i2cOk
      · rw [if_pos first] at ok ⊢
        rw [if_pos first]
        exact ih ok
      · rw [if_neg first] at ok
        cases ok

theorem checked_addressed {calls : List (Codec.State → I2cRes × Codec.State)}
    (each : ∀ call ∈ calls, ∀ before : Codec.State, Addressed before.codecShadowReg →
      Addressed (call before).2.codecShadowReg) {before : Codec.State}
    (addressed : Addressed before.codecShadowReg) :
    Addressed (checked calls before).2.codecShadowReg := by
  induction calls generalizing before with
  | nil => exact addressed
  | cons call rest ih =>
      have first := each call List.mem_cons_self before addressed
      rw [checked]
      split
      · exact ih (fun other member => each other (List.mem_cons_of_mem _ member)) first
      · exact first

theorem prepWidth_addressed (hdr : WavHdrType) :
    ∀ call ∈ prepWidth acks hdr, ∀ before : Codec.State, Addressed before.codecShadowReg →
      Addressed (call before).2.codecShadowReg := by
  intro call member before addressed
  simp only [prepWidth, List.mem_cons, List.not_mem_nil, or_false] at member
  rcases member with rfl | rfl | rfl
  · exact @exec_addressed acks before .codecDspIfInactivate trivial addressed
  · exact @exec_addressed acks before .codecDacInactivate trivial addressed
  · exact @exec_addressed acks before (.codecIwlUpdate _) trivial addressed

theorem withField_extract (word : BitVec 16) {offst msk : BitVec 8} {len : Nat}
    (covers : ∀ i < len, msk.getLsbD i = true) (low : offst.toNat + len ≤ 9) (val : BitVec 8) :
    ((withField word offst msk val).extractLsb' 0 9).extractLsb' offst.toNat len =
      val.extractLsb' 0 len := by
  apply BitVec.eq_of_getLsbD_eq
  intro i inside
  have masked := covers i inside
  have short : i < 8 := BitVec.lt_of_getLsbD masked
  have bits : ∀ field : BitVec 8,
      (fieldBits field offst).getLsbD (offst.toNat + i) = field.getLsbD i := by
    intro field
    rw [fieldBits, BitVec.getLsbD_shiftLeft, Nat.add_sub_cancel_left, BitVec.getLsbD_setWidth,
      decide_eq_true (by omega : offst.toNat + i < 16), decide_eq_true (by omega : i < 16),
      decide_eq_false (by omega : ¬ offst.toNat + i < offst.toNat)]
    simp
  rw [BitVec.getLsbD_extractLsb', BitVec.getLsbD_extractLsb', BitVec.getLsbD_extractLsb',
    decide_eq_true inside, decide_eq_true (by omega : offst.toNat + i < 9), Nat.zero_add,
    withField, BitVec.getLsbD_or, BitVec.getLsbD_and, BitVec.getLsbD_not, bits, bits,
    BitVec.getLsbD_and, masked]
  simp

theorem configField_codec {field : Field} {place : Fin 10} (there : field.idx = place.castSucc)
    {val : BitVec 8} (inRange : (Transfer.config field val).InRange) {before : Codec.State}
    (addressed : Addressed before.codecShadowReg)
    (ok : (configField acks field val before).1 = .i2cOk) :
    (configField acks field val before).2.codec =
      Function.update before.codec place
        ((withField (before.codecShadowReg field.idx) field.offst field.msk val).extractLsb'
          0 9) := by
  have ack : acks before.sent.length = true := by
    by_contra nack
    rw [configField, codecConfigReg, setShadow, sendShadow, i2cXtnWrite16, if_neg nack] at ok
    cases ok
  have sent : (Transfer.config field val).idx = place.castSucc := there
  have data : (Transfer.config field val).idx ≠ codecResetIdx := by
    rw [sent]
    exact (Fin.castSucc_lt_last place).ne
  have exec : configField acks field val before =
      (Transfer.config field val).exec acks before := rfl
  rw [exec, Transfer.exec_ack _ ack]
  refine (inRange.codecWrite_eq addressed).trans ?_
  rw [if_neg data]
  have word : (Transfer.config field val).update before.codecShadowReg field.idx =
      withField (before.codecShadowReg field.idx) field.offst field.msk val :=
    Function.update_self _ _ _
  funext i
  by_cases here : i = place
  · rw [here, if_pos sent, Function.update_self]
    exact congrArg (BitVec.extractLsb' 0 9) word
  · rw [Function.update_of_ne here, if_neg]
    exact fun same => here (Fin.castSucc_injective _ (sent.symm.trans same)).symm

/-- The width goes to the codec as the header has it, the rate as the enumerator of
`FS_T` where `SR_SEL` is meant, and the serialiser keeps its divider and its width. -/
theorem prepCortex_format (denotes : hdr.sampleRate = rate fs)
    (addressed : Addressed state.codec.codecShadowReg)
    (ok : (prepCortex acks hdr state).1 = .i2cOk) :
    format (prepCortex acks hdr state).2 =
        { sr := (BitVec.ofNat 8 (fsVal fs).val).extractLsb' 0 4
          iwl := (bps2iwlLookup (width hdr)).val.extractLsb' 0 2
          mclkSel := BitVec.ofNat 2 (fs2mclkLookup (clkVal hdr).val).val.val
          fsDivVal := state.dac.fsDivVal
          bps := state.dac.bps } ∧
      (BitVec.ofNat 8 (fsVal fs).val).extractLsb' 0 4 ≠ (fs2srLookup fs).val.extractLsb' 0 4 ∧
      BitVec.ofNat 2 (fs2mclkLookup (clkVal hdr).val).val.val ≠
        BitVec.ofNat 2 (fs2mclkLookup (fsVal fs)).val.val := by
  have value : srVal hdr = fs := by
    unfold srVal
    rw [denotes]
    cases fs <;> rfl
  refine ⟨?_, ?_, clkVal_other denotes⟩
  · have done : (prepCodec acks hdr state.codec).1 = .i2cOk := by
      rw [((takes_prepCodec hdr) state.codec).1]
      exact (prepCortex_ok hdr state).mp ok
    have left : (prepCortex acks hdr state).2.codec = (prepCodec acks hdr state.codec).2 := by
      unfold prepCortex
      simp only [done, reduceIte]
    obtain ⟨widthOk, srOk, srLast⟩ := checked_last done
    have srAddressed : Addressed (checked (prepWidth acks hdr) state.codec).2.codecShadowReg :=
      checked_addressed (prepWidth_addressed hdr) addressed
    have srWord := configField_codec (show codecSr.idx = (8 : Fin 10).castSucc from rfl)
      ⟨by decide, by decide⟩ srAddressed srOk
    obtain ⟨-, iwlOk, iwlLast⟩ := @checked_last
      [codecDspIfInactivate acks, codecDacInactivate acks] _ state.codec widthOk
    have iwlAddressed : Addressed (checked [codecDspIfInactivate acks, codecDacInactivate acks]
        state.codec).2.codecShadowReg :=
      checked_addressed (fun call member => prepWidth_addressed hdr call
        (List.mem_append_left [_] member)) addressed
    have iwlWord := configField_codec (show codecIwl.idx = (7 : Fin 10).castSucc from rfl)
      ⟨by decide, by decide⟩ iwlAddressed iwlOk
    have sr : ((prepCortex acks hdr state).2.codec.codec 8).extractLsb' 2 4 =
        (BitVec.ofNat 8 (fsVal fs).val).extractLsb' 0 4 := by
      have last := congrArg Codec.State.codec (left.trans srLast)
      rw [last, srWord, Function.update_self, value]
      exact withField_extract _ (by decide) (by decide) _
    have iwl : ((prepCortex acks hdr state).2.codec.codec 7).extractLsb' 2 2 =
        (bps2iwlLookup (width hdr)).val.extractLsb' 0 2 := by
      have last := congrArg Codec.State.codec (left.trans srLast)
      have before := congrArg Codec.State.codec iwlLast
      have denoted : (if hdr.bitsPerSample = 16 then CodecIwl.iwl16 else CodecIwl.iwl32) =
          bps2iwlLookup (width hdr) := by
        unfold width
        split
        · rfl
        · rfl
      rw [last, srWord, Function.update_of_ne (by decide)]
      refine (congrArg (fun codec : Regs => (codec 7).extractLsb' 2 2)
        (before.trans iwlWord)).trans ?_
      rw [Function.update_self, denoted]
      exact withField_extract _ (by decide) (by decide) _
    rw [format, sr, iwl, prepCortex_dac ok, enableDacDrvr_eq, updateMclk_eq]
  · cases fs <;> decide

theorem powered_addressed : Addressed powered.codec.codecShadowReg := by
  unfold Addressed
  decide

/-- Rate 2 for 8 in the codec, and the clock of 12 MHz for that of 11 MHz. -/
theorem prepCortex_format_cd :
    format (prepCortex (fun _ => true) cdHeader powered).2 =
        { sr := 2
          iwl := 0
          mclkSel := 2
          fsDivVal := 142
          bps := false } ∧
      (2 : BitVec 4) ≠ 8 ∧ (2 : BitVec 2) ≠ 3 :=
  @prepCortex_format (fun _ => true) cdHeader .fs44khz powered rfl powered_addressed
    ((prepCortex_ok cdHeader powered).mpr fun _ _ => rfl)

end Synesthesia.PrepCortex
