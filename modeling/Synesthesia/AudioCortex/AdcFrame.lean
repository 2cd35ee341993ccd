/-
The samples recorded by the audio codec.

In every bit period of a channel one bit is taken from the data pin, in the
clock after the rising edge of the bit clock.  The strobe for the pair comes
three clocks after the last bit period, if the sequencer is still waiting two
clocks after it.
-/

import Synesthesia.AudioCortex.FramePeriod

namespace Synesthesia.Wm8731DrvrDac

open Synesthesia.Rtl

section Run

variable (inputs : Nat → Inputs)

/-- A pair carries the bits sampled at the rising edges of the frame that begins
at `s`, the left word first and the highest bit first; short words are extended
by their sign. -/
structure Samples (wide : Bool) (s : Nat) (pair : BitVec 32 × BitVec 32) : Prop where
  edge : ∀ t, s + 9 ≤ t → t < s + 9 + 16 * width wide →
    (BclkRises inputs t ↔ ∃ j < 2 * width wide, t = s + 12 + 8 * j)
  bit : ∀ j < 2 * width wide,
    frameBit wide pair j = (inputs (s + 12 + 8 * j + 1)).audAdcDatId
  sign : wide = false → extendLower pair.1 = pair.1 ∧ extendLower pair.2 = pair.2

def adcPair (t : Nat) : BitVec 32 × BitVec 32 :=
  ((stateAt inputs t).adc2fgyrusLpcmOd, (stateAt inputs t).adc2fgyrusRpcmOd)

/-- The frame that begins at `s` hands out its samples once until `last`. -/
def SampledOnce (wide : Bool) (s last : Nat) : Prop :=
  ∃ t, (s < t ∧ t ≤ last ∧ (stateAt inputs t).adc2fgyrusPcmValidOh = true) ∧
    Samples inputs wide s (adcPair inputs t) ∧
    ∀ t', s < t' → t' ≤ last → (stateAt inputs t').adc2fgyrusPcmValidOh = true → t' = t

/-- Recording with one width and one divider in the cycles `first .. last`. -/
def Records (wide : Bool) (fsDiv : BitVec 11) (first last : Nat) : Prop :=
  ∀ t, first ≤ t → t ≤ last →
    (stateAt inputs t).adcDrvrEnF = true ∧ (stateAt inputs t).bpsF = wide ∧
      (stateAt inputs t).fsDivValF = fsDiv

variable {inputs}

/-! ### Words shifted in -/

theorem shifted_in {word : Nat → BitVec 32} {bit : Nat → Bool} {first periods : Nat}
    (small : periods ≤ 32)
    (moves : ∀ i < 8 * periods, word (first + i + 1) =
      if i % 8 = 4 then (word (first + i)).extractLsb' 0 31 ++ BitVec.ofBool (bit (first + i))
      else word (first + i)) :
    ∀ n ≤ periods, ∀ k < n,
      (word (first + 8 * n)).getLsbD k = bit (first + 8 * (n - 1 - k) + 4) := by
  intro n
  induction n with
  | zero =>
      intro _ k inside
      omega
  | succ n ih =>
      intro inside k within
      have before : ∀ i < 4, word (first + 8 * n + i + 1) = word (first + 8 * n + i) := by
        intro i early
        rw [Nat.add_assoc first, moves _ (by omega), if_neg (by omega)]
      have after : ∀ i < 3, word (first + 8 * n + 5 + i + 1) = word (first + 8 * n + 5 + i) := by
        intro i late
        rw [Nat.add_assoc first, Nat.add_assoc first, moves _ (by omega), if_neg (by omega)]
      have taken := moves (8 * n + 4) (by omega)
      rw [if_pos (by omega), ← Nat.add_assoc, holds_over word before 4 (Nat.le_refl 4)] at taken
      rw [show first + 8 * (n + 1) = first + 8 * n + 5 + 3 by omega,
        holds_over word after 3 (Nat.le_refl 3), taken, shift_getLsbD _ _ (by omega)]
      by_cases lowest : k = 0
      · rw [if_pos lowest, lowest, Nat.add_sub_cancel, Nat.sub_zero]
      · rw [if_neg lowest, ih (by omega) (k - 1) (by omega),
          show n - 1 - (k - 1) = n + 1 - 1 - k by omega]

/-! ### The words of a frame -/

theorem Begins.done {wide : Bool} {s : Nat} (begins : Begins inputs s)
    (bps : ∀ t, s ≤ t → t ≤ s + 8 + 16 * width wide → (stateAt inputs t).bpsF = wide) {i : Nat}
    (inside : i < 16 * width wide) :
    chnnlDoneC (stateAt inputs (s + 9 + i)) =
      decide (i + 1 = 8 * width wide ∨ i + 1 = 16 * width wide) := by
  have widths := width_cases wide
  have phase := begins.phase
  rw [(begins.sends bps i inside).done (by omega) (bps _ (by omega) (by omega)),
    ring_eq inputs (s + 9 + i) 7 (by decide), ← Bool.decide_and, decide_eq_decide]
  split <;> omega

theorem Begins.not_update {wide : Bool} {s : Nat} (begins : Begins inputs s)
    (bps : ∀ t, s ≤ t → t ≤ s + 8 + 16 * width wide → (stateAt inputs t).bpsF = wide) {i : Nat}
    (inside : i < 16 * width wide) :
    (stateAt inputs (s + 9 + i)).updateAdcDataF = false := by
  have widths := width_cases wide
  rw [← Bool.not_eq_true]
  intro update
  rw [show s + 9 + i = s + 8 + i + 1 by omega, stateAt_succ] at update
  simp only [step, Bool.and_eq_true, decide_eq_true_eq] at update
  obtain ⟨_, ⟨pstate, done⟩, _⟩ := update
  cases i with
  | zero =>
      have started := begins.started (i := 7) (by decide)
      rw [show s + 8 + 0 = s + 1 + 7 from rfl, started] at pstate
      cases pstate
  | succ i =>
      rw [show s + 8 + (i + 1) = s + 9 + i by omega] at pstate done
      rw [begins.done bps (by omega), decide_eq_true_eq] at done
      rw [(begins.sends bps i (by omega)).pstate, if_pos (by omega)] at pstate
      cases pstate

theorem adcPcm_eq {t : Nat} {channel : Pstate} {turn : Prop} [Decidable turn]
    (enabled : (stateAt inputs t).adcDrvrEnF = true)
    (kept : (stateAt inputs t).updateAdcDataF = false)
    (active : (stateAt inputs t).fsmPstate = channel ∧ t % 8 = 4 ↔ turn) (pcm : BitVec 32) :
    nextAdcPcm (stateAt inputs t) channel pcm (inputs t).audAdcDatId =
      if turn then pcm.extractLsb' 0 31 ++ BitVec.ofBool (inputs t).audAdcDatId else pcm := by
  rw [nextAdcPcm, if_pos enabled, kept, if_neg Bool.false_ne_true]
  simp only [ring_eq inputs t 4 (by decide), decide_eq_true_eq, active]

theorem adcPair_kept {t : Nat} (enabled : (stateAt inputs t).adcDrvrEnF = true)
    (kept : (stateAt inputs t).updateAdcDataF = false) (apart : ¬ t % 8 = 4) :
    adcPair inputs (t + 1) = adcPair inputs t := by
  have word : ∀ channel pcm,
      nextAdcPcm (stateAt inputs t) channel pcm (inputs t).audAdcDatId = pcm := by
    intro channel pcm
    have off : (stateAt inputs t).fsmPstate = channel ∧ t % 8 = 4 ↔ False :=
      ⟨fun both => apart both.2, False.elim⟩
    rw [adcPcm_eq enabled kept off, if_neg not_false]
  exact Prod.ext (word _ _) (word _ _)

theorem adcPair_extended {t : Nat} (enabled : (stateAt inputs t).adcDrvrEnF = true)
    (update : (stateAt inputs t).updateAdcDataF = true) :
    adcPair inputs (t + 1) =
      (extendLower (adcPair inputs t).1, extendLower (adcPair inputs t).2) := by
  have word : ∀ channel pcm,
      nextAdcPcm (stateAt inputs t) channel pcm (inputs t).audAdcDatId = extendLower pcm := by
    intro channel pcm
    rw [nextAdcPcm, if_pos enabled, if_pos update]
  exact Prod.ext (word _ _) (word _ _)

theorem Begins.adc_moves {wide : Bool} {fsDiv : BitVec 11} {s last : Nat}
    (begins : Begins inputs s) (records : Records inputs wide fsDiv s last)
    (upto : s + 8 + 16 * width wide ≤ last) {i : Nat} (inside : i < 16 * width wide) :
    ((adcPair inputs (s + 9 + i + 1)).1 =
      if i < 8 * width wide ∧ i % 8 = 4 then
        (adcPair inputs (s + 9 + i)).1.extractLsb' 0 31 ++
          BitVec.ofBool (inputs (s + 9 + i)).audAdcDatId
      else (adcPair inputs (s + 9 + i)).1) ∧
    (adcPair inputs (s + 9 + i + 1)).2 =
      if ¬ i < 8 * width wide ∧ i % 8 = 4 then
        (adcPair inputs (s + 9 + i)).2.extractLsb' 0 31 ++
          BitVec.ofBool (inputs (s + 9 + i)).audAdcDatId
      else (adcPair inputs (s + 9 + i)).2 := by
  have phase := begins.phase
  have bps : ∀ t, s ≤ t → t ≤ s + 8 + 16 * width wide → (stateAt inputs t).bpsF = wide :=
    fun t after before => (records t after (by omega)).2.1
  have enabled := (records (s + 9 + i) (by omega) (by omega)).1
  have kept := begins.not_update bps inside
  have pstate := (begins.sends bps i inside).pstate
  have place : (s + 9 + i) % 8 = 4 ↔ i % 8 = 4 := by
    omega
  have left : (stateAt inputs (s + 9 + i)).fsmPstate = .lchannel ↔ i < 8 * width wide := by
    rw [pstate]
    by_cases first : 1 + i / 8 ≤ width wide
    · rw [if_pos first]
      exact ⟨fun _ => by omega, fun _ => rfl⟩
    · rw [if_neg first]
      exact ⟨fun other => Pstate.noConfusion other, fun inside => by omega⟩
  have right : (stateAt inputs (s + 9 + i)).fsmPstate = .rchannel ↔ ¬ i < 8 * width wide := by
    rw [← left, pstate]
    split <;> decide
  constructor
  · exact adcPcm_eq enabled kept (and_congr left place) _
  · exact adcPcm_eq enabled kept (and_congr right place) _

theorem Begins.collected {wide : Bool} {fsDiv : BitVec 11} {s last : Nat}
    (begins : Begins inputs s) (records : Records inputs wide fsDiv s last)
    (upto : s + 8 + 16 * width wide ≤ last) :
    (∀ k < width wide, (adcPair inputs (s + 9 + 16 * width wide)).1.getLsbD k =
      (inputs (s + 9 + 8 * (width wide - 1 - k) + 4)).audAdcDatId) ∧
    ∀ k < width wide, (adcPair inputs (s + 9 + 16 * width wide)).2.getLsbD k =
      (inputs (s + 9 + 8 * width wide + 8 * (width wide - 1 - k) + 4)).audAdcDatId := by
  have small : width wide ≤ 32 := by
    rcases width_cases wide with long | short <;> omega
  have half : s + 9 + 16 * width wide = s + 9 + 8 * width wide + 8 * width wide := by
    omega
  constructor
  · have kept : ∀ i < 8 * width wide, (adcPair inputs (s + 9 + 8 * width wide + i + 1)).1 =
        (adcPair inputs (s + 9 + 8 * width wide + i)).1 := by
      intro i inside
      rw [Nat.add_assoc (s + 9), (begins.adc_moves records upto (by omega)).1, if_neg (by omega)]
    have stays := holds_over (fun t => (adcPair inputs t).1) kept _ (Nat.le_refl _)
    rw [half]
    intro k inside
    refine (congrArg (fun word => BitVec.getLsbD word k) stays).trans ?_
    refine @shifted_in (fun t => (adcPair inputs t).1) (fun t => (inputs t).audAdcDatId) (s + 9) _
      small ?_ _ (Nat.le_refl _) k inside
    intro i within
    rw [(begins.adc_moves records upto (by omega)).1]
    simp only [within, true_and]
  · rw [half]
    refine @shifted_in (fun t => (adcPair inputs t).2) (fun t => (inputs t).audAdcDatId)
      (s + 9 + 8 * width wide) _ small ?_ _ (Nat.le_refl _)
    intro i within
    have second : ¬ 8 * width wide + i < 8 * width wide := by
      omega
    rw [Nat.add_assoc (s + 9), (begins.adc_moves records upto (by omega)).2,
      Nat.mul_add_mod]
    simp only [second, not_false_eq_true, true_and]

/-! ### The strobe -/

theorem rests_between {first i : Nat}
    (ended : (stateAt inputs first).fsmPstate = .waitForFs)
    (none : ∀ j < i, ¬ Begins inputs (first + j)) :
    (stateAt inputs (first + i)).fsmPstate = .idle ∨
      (stateAt inputs (first + i)).fsmPstate = .waitForFs := by
  induction i with
  | zero => exact .inr ended
  | succ i ih =>
      exact rest_step (ih fun j before => none j (by omega)) (none i (Nat.lt_succ_self i))

/-- The strobe follows the end of a channel after three clocks, unless the sequencer
has gone on by then. -/
theorem valid_eq (t : Nat) :
    (stateAt inputs (t + 3)).adc2fgyrusPcmValidOh =
      ((stateAt inputs (t + 2)).adcDrvrEnF &&
        (decide ((stateAt inputs (t + 2)).fsmPstate = .waitForFs) &&
          chnnlDoneC (stateAt inputs t))) := rfl

theorem rest_not_done {state : State}
    (rest : state.fsmPstate = .idle ∨ state.fsmPstate = .waitForFs) :
    chnnlDoneC state = false := by
  rcases rest with idle | wait
  · rw [chnnlDoneC, idle]
  · rw [chnnlDoneC, wait]

theorem Begins.valid_at {wide : Bool} {s e t : Nat} (begins : Begins inputs s)
    (bps : ∀ t, s ≤ t → t ≤ s + 8 + 16 * width wide → (stateAt inputs t).bpsF = wide)
    (next : NextBegins inputs s e) (after : s < t) (upto : t ≤ e)
    (valid : (stateAt inputs t).adc2fgyrusPcmValidOh = true) :
    t = s + 11 + 16 * width wide ∧
      (stateAt inputs (s + 10 + 16 * width wide)).fsmPstate = .waitForFs := by
  have widths := width_cases wide
  have phase := begins.phase
  obtain ⟨past, rfl⟩ := Nat.exists_eq_add_of_le' (show 3 ≤ t by omega)
  rw [valid_eq, Bool.and_eq_true, Bool.and_eq_true, decide_eq_true_eq] at valid
  obtain ⟨_, waiting, done⟩ := valid
  have late : s + 7 + 16 * width wide ≤ past := by
    by_contra early
    rcases Nat.lt_or_ge s (past + 2) with channels | first
    · refine (begins.runs bps (i := past + 2 - s) (by omega) (by omega)).2 ?_
      rw [show s + (past + 2 - s) = past + 2 by omega]
      exact waiting
    · rw [show past + 2 = s by omega, begins.1] at waiting
      cases waiting
  have ended := (begins.ends bps).1
  have place : past = s + 8 + 16 * width wide := by
    by_contra other
    rcases Nat.lt_or_ge past (s + 9 + 16 * width wide) with channels | rest
    · have early := begins.done bps (i := 16 * width wide - 2) (by omega)
      rw [show s + 9 + (16 * width wide - 2) = past by omega, done, decide_eq_false (by omega)]
        at early
      cases early
    · obtain ⟨i, rfl⟩ := Nat.exists_eq_add_of_le rest
      have resting := rests_between (i := i) ended fun j before => next.2.2 _ (by omega) (by omega)
      rw [rest_not_done resting] at done
      cases done
  subst place
  refine ⟨by omega, ?_⟩
  rw [← waiting, show s + 8 + 16 * width wide + 2 = s + 10 + 16 * width wide by omega]

theorem Begins.waits_on {wide : Bool} {fsDiv : BitVec 11} {s last : Nat}
    (begins : Begins inputs s) (records : Records inputs wide fsDiv s last)
    (upto : s + 9 + 16 * width wide ≤ last) :
    (stateAt inputs (s + 10 + 16 * width wide)).fsmPstate = .waitForFs ↔
      fsDiv.toNat ≠ 2 * width wide + 1 := by
  have widths := width_cases wide
  obtain ⟨ended, cntr⟩ := begins.ends fun t after before => (records t after (by omega)).2.1
  have met : fsCntrRstC (stateAt inputs (s + 9 + 16 * width wide)) =
      decide (fsDiv.toNat = 2 * width wide + 1) := by
    rw [fsCntrRstC, cntr, (records _ (by omega) upto).2.2, Bool.eq_iff_iff, beq_iff_eq,
      decide_eq_true_eq, ← BitVec.toNat_inj, BitVec.toNat_setWidth_of_le (by decide),
      BitVec.toNat_ofNat, Nat.mod_eq_of_lt (by omega), eq_comm]
  rw [show s + 10 + 16 * width wide = s + 9 + 16 * width wide + 1 by omega, stateAt_succ]
  simp only [step, nextPstate, ended, met, decide_eq_true_eq]
  by_cases boundary : fsDiv.toNat = 2 * width wide + 1
  · rw [if_pos boundary]
    exact ⟨fun other => Pstate.noConfusion other, fun other => absurd boundary other⟩
  · rw [if_neg boundary]
    exact ⟨fun _ => boundary, fun _ => rfl⟩

/-- Short words are extended in the clock after the last bit period. -/
theorem Begins.extended {wide : Bool} {fsDiv : BitVec 11} {s last : Nat}
    (begins : Begins inputs s) (records : Records inputs wide fsDiv s last)
    (upto : s + 10 + 16 * width wide ≤ last) :
    adcPair inputs (s + 11 + 16 * width wide) =
      if wide then adcPair inputs (s + 9 + 16 * width wide)
      else (extendLower (adcPair inputs (s + 9 + 16 * width wide)).1,
        extendLower (adcPair inputs (s + 9 + 16 * width wide)).2) := by
  have widths := width_cases wide
  have phase := begins.phase
  have bps : ∀ t, s ≤ t → t ≤ s + 8 + 16 * width wide → (stateAt inputs t).bpsF = wide :=
    fun t after before => (records t after (by omega)).2.1
  have ended := (begins.ends bps).1
  have enabled := (records (s + 9 + 16 * width wide) (by omega) (by omega)).1
  have enabled' := (records (s + 10 + 16 * width wide) (by omega) (by omega)).1
  have apart : ¬ (s + 9 + 16 * width wide) % 8 = 4 := by
    omega
  have apart' : ¬ (s + 10 + 16 * width wide) % 8 = 4 := by
    omega
  have update : (stateAt inputs (s + 9 + 16 * width wide)).updateAdcDataF = !wide := by
    have sending := begins.sends bps (16 * width wide - 1) (by omega)
    have done := begins.done bps (i := 16 * width wide - 1) (by omega)
    have place : s + 9 + (16 * width wide - 1) = s + 8 + 16 * width wide := by
      omega
    rw [place] at sending done
    have pstate := sending.pstate
    rw [if_neg (by omega)] at pstate
    rw [decide_eq_true (by omega)] at done
    rw [show s + 9 + 16 * width wide = s + 8 + 16 * width wide + 1 by omega, stateAt_succ]
    simp only [step, (records (s + 8 + 16 * width wide) (by omega) (by omega)).1, pstate, done,
      bps _ (by omega) (Nat.le_refl _), decide_true, Bool.true_and]
  have update' : (stateAt inputs (s + 10 + 16 * width wide)).updateAdcDataF = false := by
    rw [show s + 10 + 16 * width wide = s + 9 + 16 * width wide + 1 by omega, stateAt_succ]
    simp only [step, ended, reduceCtorEq, decide_false, Bool.false_and, Bool.and_false]
  have second : adcPair inputs (s + 11 + 16 * width wide) =
      adcPair inputs (s + 10 + 16 * width wide) := by
    rw [show s + 11 + 16 * width wide = s + 10 + 16 * width wide + 1 by omega]
    exact adcPair_kept enabled' update' apart'
  have first : adcPair inputs (s + 10 + 16 * width wide) =
      if wide then adcPair inputs (s + 9 + 16 * width wide)
      else (extendLower (adcPair inputs (s + 9 + 16 * width wide)).1,
        extendLower (adcPair inputs (s + 9 + 16 * width wide)).2) := by
    rw [show s + 10 + 16 * width wide = s + 9 + 16 * width wide + 1 by omega]
    cases wide with
    | true => exact adcPair_kept enabled update apart
    | false => exact adcPair_extended enabled update
  rw [second, first]

theorem extendLower_getLsbD (word : BitVec 32) {k : Nat} (inside : k < 16) :
    (extendLower word).getLsbD k = word.getLsbD k := by
  rw [extendLower, BitVec.getLsbD_signExtend, decide_eq_true (by omega), Bool.true_and,
    if_pos inside, BitVec.getLsbD_extractLsb', decide_eq_true inside, Bool.true_and, Nat.zero_add]

theorem extendLower_idem (word : BitVec 32) :
    extendLower (extendLower word) = extendLower word := by
  have low : (extendLower word).extractLsb' 0 16 = word.extractLsb' 0 16 := by
    apply BitVec.eq_of_getLsbD_eq
    intro k inside
    rw [BitVec.getLsbD_extractLsb', BitVec.getLsbD_extractLsb', Nat.zero_add,
      extendLower_getLsbD word inside]
  rw [extendLower, low]
  rfl

theorem Begins.samples {wide : Bool} {fsDiv : BitVec 11} {s last : Nat}
    (begins : Begins inputs s) (records : Records inputs wide fsDiv s last)
    (upto : s + 10 + 16 * width wide ≤ last) :
    Samples inputs wide s (adcPair inputs (s + 11 + 16 * width wide)) := by
  have phase := begins.phase
  obtain ⟨left, right⟩ := begins.collected records (by omega)
  have extended := begins.extended records upto
  constructor
  case edge =>
    intro t after before
    rw [blck_rises phase (fun t after upto => .inr (records t after upto).1) after (by omega)]
    constructor
    · intro edge
      exact ⟨(t - s - 12) / 8, by omega, by omega⟩
    · rintro ⟨j, inside, same⟩
      omega
  case bit =>
    have low : ∀ k < width wide,
        (adcPair inputs (s + 11 + 16 * width wide)).1.getLsbD k =
          (adcPair inputs (s + 9 + 16 * width wide)).1.getLsbD k ∧
        (adcPair inputs (s + 11 + 16 * width wide)).2.getLsbD k =
          (adcPair inputs (s + 9 + 16 * width wide)).2.getLsbD k := by
      intro k inside
      rw [extended]
      cases wide with
      | true => exact ⟨rfl, rfl⟩
      | false => exact ⟨extendLower_getLsbD _ inside, extendLower_getLsbD _ inside⟩
    intro j inside
    rw [frameBit]
    by_cases first : j < width wide
    · rw [if_pos first, (low _ (by omega)).1, left _ (by omega)]
      congr 2
      omega
    · rw [if_neg first, (low _ (by omega)).2, right _ (by omega)]
      congr 2
      omega
  case sign =>
    intro short
    subst short
    rw [extended]
    exact ⟨extendLower_idem _, extendLower_idem _⟩

end Run

/-- Every frame hands out its samples exactly once, unless the divider is met with
the first clock after the frame: then it hands out nothing. -/
theorem adc_samples_iff (inputs : Nat → Inputs) (wide : Bool) (fsDiv : BitVec 11) (s : Nat)
    (begins : Begins inputs s) (fits : 2 * width wide + 1 ≤ fsDiv.toNat)
    (reached : fsDiv.toNat ≤ 1023)
    (records : Records inputs wide fsDiv s (s + 8 * (fsDiv.toNat + 1))) :
    NextBegins inputs s (s + 8 * (fsDiv.toNat + 1)) ∧
      (SampledOnce inputs wide s (s + 8 * (fsDiv.toNat + 1)) ↔
        fsDiv.toNat ≠ 2 * width wide + 1) := by
  have phase := begins.phase
  have bps : ∀ t, s ≤ t → t ≤ s + 8 + 16 * width wide → (stateAt inputs t).bpsF = wide :=
    fun t after before => (records t after (by omega)).2.1
  have next : NextBegins inputs s (s + 8 * (fsDiv.toNat + 1)) := by
    refine begins.next fits (by omega) (fun t after before => (records t after (by omega)).2) ?_
    rw [Available, (records _ (by omega) (Nat.le_refl _)).1, Bool.or_true]
  refine ⟨next, ?_⟩
  rw [← begins.waits_on records (by omega)]
  constructor
  · rintro ⟨t, ⟨after, upto, valid⟩, _⟩
    exact (begins.valid_at bps next after upto valid).2
  · intro waiting
    refine ⟨s + 11 + 16 * width wide, ⟨by omega, ?_, ?_⟩, begins.samples records (by omega), ?_⟩
    · have met := (begins.waits_on records (by omega)).mp waiting
      omega
    · have widths := width_cases wide
      have done := begins.done bps (i := 16 * width wide - 1) (by omega)
      rw [show s + 9 + (16 * width wide - 1) = s + 8 + 16 * width wide by omega,
        decide_eq_true (by omega)] at done
      rw [show s + 11 + 16 * width wide = s + 8 + 16 * width wide + 3 by omega, valid_eq,
        show s + 8 + 16 * width wide + 2 = s + 10 + 16 * width wide by omega,
        (records _ (by omega) (by omega)).1, waiting, done]
      rfl
    · intro t after upto valid
      exact (begins.valid_at bps next after upto valid).1

theorem recording_records (fsDiv : BitVec 16) (last : Nat) :
    Records (recording fsDiv) true (fsDiv.extractLsb' 0 11) 7 last := by
  intro t after _
  obtain ⟨bps, div, adc⟩ := recording_settings fsDiv t (by omega)
  exact ⟨adc, bps, div⟩

theorem adc_samples_48khz :
    NextBegins (recording 130) 7 (7 + 8 * 131) ∧
      (SampledOnce (recording 130) true 7 (7 + 8 * 131) ↔ 130 ≠ 2 * width true + 1) :=
  adc_samples_iff (recording 130) true 130 7 (recording_begins 130) (by decide) (by decide)
    (recording_records 130 _)

/-- The divider of the software for 96 kHz fits a frame of wide samples, and no
sample is handed out. -/
theorem no_samples_96khz :
    ¬ ∀ (inputs : Nat → Inputs) (wide : Bool) (fsDiv : BitVec 11) (s : Nat),
      Begins inputs s → 2 * width wide + 1 ≤ fsDiv.toNat → fsDiv.toNat ≤ 1023 →
        Records inputs wide fsDiv s (s + 8 * (fsDiv.toNat + 1)) →
          SampledOnce inputs wide s (s + 8 * (fsDiv.toNat + 1)) := by
  intro sampled
  have begins := recording_begins 65
  have records := recording_records 65 (7 + 8 * 66)
  have bps : ∀ t, 7 ≤ t → t ≤ 7 + 8 + 16 * width true → (stateAt (recording 65) t).bpsF = true :=
    fun t after before => (recording_settings 65 t (by omega)).1
  have next : NextBegins (recording 65) 7 (7 + 8 * 66) := by
    have held : Held (recording 65) true 65 7 (7 + 1 + 8 * 65) :=
      fun t after before => (records t after (by omega)).2
    refine begins.next (by decide) (by decide) held ?_
    rw [Available, (records _ (by decide) (by decide)).1, Bool.or_true]
  obtain ⟨t, ⟨after, upto, valid⟩, _⟩ := sampled (recording 65) true 65 7 begins (by decide)
    (by decide) records
  have waiting := (begins.valid_at bps next after upto valid).2
  exact (begins.waits_on records (by decide)).mp waiting rfl

end Synesthesia.Wm8731DrvrDac
