/-
The sample period of the audio codec.

After the last bit of a frame the sequencer waits until its counter of bit
periods meets the divider.  The counter starts with the frame and has one bit
less than the divider, so a frame takes one bit period more than the divider
says, or does not end at all.
-/

import Synesthesia.AudioCortex.DacFrame

namespace Synesthesia.Wm8731DrvrDac

open Synesthesia.Rtl
open Synesthesia.AcortexRegMap

section Run

variable (inputs : Nat → Inputs)

/-- Sample width and divider stay the same in the cycles `first .. last`. -/
def Held (wide : Bool) (fsDiv : BitVec 11) (first last : Nat) : Prop :=
  ∀ t, first ≤ t → t ≤ last →
    (stateAt inputs t).bpsF = wide ∧ (stateAt inputs t).fsDivValF = fsDiv

/-- The codec is on and there is a sample to play or to record. -/
def Available (t : Nat) : Prop :=
  (((stateAt inputs t).dacDrvrEnF && (inputs t).pcmFfDataValidIh) ||
    (stateAt inputs t).adcDrvrEnF) = true

def NextBegins (s e : Nat) : Prop :=
  s < e ∧ Begins inputs e ∧ ∀ t, s < t → t < e → ¬ Begins inputs t

variable {inputs}

/-! ### Waiting -/

theorem Begins.counts {wide : Bool} {fsDiv : BitVec 11} {s : Nat} (begins : Begins inputs s)
    (bps : ∀ t, s ≤ t → t ≤ s + 8 + 16 * width wide → (stateAt inputs t).bpsF = wide)
    {i : Nat} (div : ∀ t, s + 9 + 16 * width wide ≤ t → t < s + 9 + 16 * width wide + i →
      (stateAt inputs t).fsDivValF = fsDiv)
    (unmet : ∀ j < i, (2 * width wide + 1 + j / 8) % 1024 ≠ fsDiv.toNat) :
    (stateAt inputs (s + 9 + 16 * width wide + i)).fsmPstate = .waitForFs ∧
      (stateAt inputs (s + 9 + 16 * width wide + i)).fsCntr =
        BitVec.ofNat 10 (2 * width wide + 1 + i / 8) := by
  have phase := begins.phase
  induction i with
  | zero => exact begins.ends bps
  | succ i ih =>
      obtain ⟨pstate, cntr⟩ := ih (fun t after before => div t after (by omega))
        fun j before => unmet j (by omega)
      have ring := ring_eq inputs (s + 9 + 16 * width wide + i) 7 (by decide)
      have apart : fsCntrRstC (stateAt inputs (s + 9 + 16 * width wide + i)) = false := by
        rw [fsCntrRstC, cntr, div _ (by omega) (by omega), beq_eq_false_iff_ne]
        intro met
        refine unmet i (Nat.lt_succ_self i) ?_
        rw [← met, BitVec.toNat_setWidth_of_le (by decide), BitVec.toNat_ofNat]
      rw [← Nat.add_assoc, stateAt_succ]
      constructor
      · simp only [step, nextPstate, pstate, apart, Bool.false_eq_true, reduceIte]
      · simp only [step, nextFsCntr, pstate, cntr, ring, reduceCtorEq, reduceIte]
        by_cases last : (s + 9 + 16 * width wide + i) % 8 = 7
        · rw [decide_eq_true last,
            show 2 * width wide + 1 + (i + 1) / 8 = 2 * width wide + 1 + i / 8 + 1 by omega]
          exact (BitVec.ofNat_add _ 1).symm
        · rw [decide_eq_false last,
            show 2 * width wide + 1 + (i + 1) / 8 = 2 * width wide + 1 + i / 8 by omega]
          exact BitVec.add_zero _

theorem Begins.idles {wide : Bool} {fsDiv : BitVec 11} {s : Nat} (begins : Begins inputs s)
    (fits : 2 * width wide + 1 ≤ fsDiv.toNat) (reached : fsDiv.toNat < 1024)
    (held : Held inputs wide fsDiv s (s + 1 + 8 * fsDiv.toNat)) :
    (∀ t, s < t → t ≤ s + 1 + 8 * fsDiv.toNat → (stateAt inputs t).fsmPstate ≠ .idle) ∧
      (stateAt inputs (s + 2 + 8 * fsDiv.toNat)).fsmPstate = .idle := by
  have bps : ∀ t, s ≤ t → t ≤ s + 8 + 16 * width wide → (stateAt inputs t).bpsF = wide :=
    fun t after upto => (held t after (by omega)).1
  have waits : ∀ i, i ≤ 8 * (fsDiv.toNat - 2 * width wide - 1) →
      (stateAt inputs (s + 9 + 16 * width wide + i)).fsmPstate = .waitForFs ∧
        (stateAt inputs (s + 9 + 16 * width wide + i)).fsCntr =
          BitVec.ofNat 10 (2 * width wide + 1 + i / 8) := by
    intro i inside
    exact begins.counts bps (fun t after before => (held t (by omega) (by omega)).2)
      fun j before => by omega
  constructor
  · intro t after upto
    obtain ⟨i, rfl⟩ := Nat.exists_eq_add_of_lt after
    by_cases channels : i + 1 ≤ 8 + 16 * width wide
    · exact (begins.runs bps (Nat.succ_pos i) channels).1
    · have waiting := (waits (i - (8 + 16 * width wide)) (by omega)).1
      rw [show s + 9 + 16 * width wide + (i - (8 + 16 * width wide)) = s + i + 1 by omega]
        at waiting
      rw [waiting]
      decide
  · obtain ⟨pstate, cntr⟩ := waits _ (Nat.le_refl _)
    have place : s + 9 + 16 * width wide + 8 * (fsDiv.toNat - 2 * width wide - 1) =
        s + 1 + 8 * fsDiv.toNat := by
      omega
    have count : 2 * width wide + 1 + 8 * (fsDiv.toNat - 2 * width wide - 1) / 8 =
        fsDiv.toNat := by
      omega
    rw [place] at pstate cntr
    rw [count] at cntr
    have met : fsCntrRstC (stateAt inputs (s + 1 + 8 * fsDiv.toNat)) = true := by
      rw [fsCntrRstC, cntr, (held _ (by omega) (Nat.le_refl _)).2, beq_iff_eq, ← BitVec.toNat_inj,
        BitVec.toNat_setWidth_of_le (by decide), BitVec.toNat_ofNat, Nat.mod_eq_of_lt (by omega)]
    rw [show s + 2 + 8 * fsDiv.toNat = s + 1 + 8 * fsDiv.toNat + 1 by omega, stateAt_succ]
    simp only [step, nextPstate, pstate, met, reduceIte]

theorem Begins.hangs {wide : Bool} {fsDiv : BitVec 11} {s last : Nat} (begins : Begins inputs s)
    (beyond : 1024 ≤ fsDiv.toNat) (held : Held inputs wide fsDiv s last)
    (upto : s + 9 + 16 * width wide ≤ last) :
    (stateAt inputs last).fsmPstate = .waitForFs := by
  obtain ⟨i, rfl⟩ := Nat.exists_eq_add_of_le upto
  exact (begins.counts (fun t after before => (held t after (by omega)).1)
    (fun t after before => (held t (by omega) (by omega)).2) fun j _ => by omega).1

/-! ### The next frame -/

theorem idle_rests {t i : Nat} (idle : (stateAt inputs t).fsmPstate = .idle)
    (early : ∀ j < i, (t + j) % 8 ≠ 7) : (stateAt inputs (t + i)).fsmPstate = .idle := by
  induction i with
  | zero => exact idle
  | succ i ih =>
      have resting := ih fun j before => early j (by omega)
      rw [← Nat.add_assoc, stateAt_succ]
      simp only [step, nextPstate, resting, ring_eq inputs (t + i) 7 (by decide)]
      rw [decide_eq_false (early i (Nat.lt_succ_self i))]
      rfl

theorem idle_begins {t : Nat} (idle : (stateAt inputs t).fsmPstate = .idle) (phase : t % 8 = 7)
    (available : Available inputs t) : Begins inputs t := by
  refine ⟨idle, ?_⟩
  rw [stateAt_succ]
  simp only [step, nextPstate, idle, ring_eq inputs t 7 (by decide)]
  rw [Available] at available
  rw [decide_eq_true phase, if_pos rfl, if_pos available]

theorem NextBegins.unique {s e e' : Nat} (next : NextBegins inputs s e)
    (next' : NextBegins inputs s e') : e = e' := by
  obtain ⟨after, begins, first⟩ := next
  obtain ⟨after', begins', first'⟩ := next'
  rcases Nat.lt_trichotomy e e' with sooner | same | later
  · exact absurd begins (first' e after sooner)
  · exact same
  · exact absurd begins' (first e' after' later)

theorem Begins.rests {wide : Bool} {fsDiv : BitVec 11} {s : Nat} (begins : Begins inputs s)
    (fits : 2 * width wide + 1 ≤ fsDiv.toNat) (reached : fsDiv.toNat < 1024)
    (held : Held inputs wide fsDiv s (s + 1 + 8 * fsDiv.toNat)) :
    (stateAt inputs (s + 8 * (fsDiv.toNat + 1))).fsmPstate = .idle := by
  have phase := begins.phase
  have resting := idle_rests (i := 6) (begins.idles fits reached held).2 fun j before => by omega
  rw [show s + 2 + 8 * fsDiv.toNat + 6 = s + 8 * (fsDiv.toNat + 1) by omega] at resting
  exact resting

theorem Begins.next {wide : Bool} {fsDiv : BitVec 11} {s : Nat} (begins : Begins inputs s)
    (fits : 2 * width wide + 1 ≤ fsDiv.toNat) (reached : fsDiv.toNat < 1024)
    (held : Held inputs wide fsDiv s (s + 1 + 8 * fsDiv.toNat))
    (available : Available inputs (s + 8 * (fsDiv.toNat + 1))) :
    NextBegins inputs s (s + 8 * (fsDiv.toNat + 1)) := by
  have phase := begins.phase
  refine ⟨by omega, idle_begins (begins.rests fits reached held) (by omega) available, ?_⟩
  intro t after before again
  have phase' := again.phase
  exact (begins.idles fits reached held).1 t after (by omega) again.1

/-- A frame with a divider out of reach has no next one. -/
theorem Begins.last {wide : Bool} {fsDiv : BitVec 11} {s : Nat} (begins : Begins inputs s)
    (beyond : 1024 ≤ fsDiv.toNat) (held : ∀ last, Held inputs wide fsDiv s last) (e : Nat) :
    ¬ NextBegins inputs s e := by
  rintro ⟨after, again, _⟩
  rcases Nat.lt_or_ge e (s + 9 + 16 * width wide) with channels | later
  · obtain ⟨i, rfl⟩ := Nat.exists_eq_add_of_lt after
    exact (begins.runs (fun t after' upto => (held t t after' (Nat.le_refl t)).1) (Nat.succ_pos i)
      (by omega)).1 again.1
  · have waiting := begins.hangs beyond (held e) later
    rw [again.1] at waiting
    cases waiting

theorem settings_rest {first : Nat} (quiet : ∀ t, first ≤ t → (inputs t).lbWrEnIh = false) :
    ∀ t, first ≤ t →
      (stateAt inputs t).bpsF = (stateAt inputs first).bpsF ∧
        (stateAt inputs t).fsDivValF = (stateAt inputs first).fsDivValF ∧
        (stateAt inputs t).adcDrvrEnF = (stateAt inputs first).adcDrvrEnF := by
  intro t after
  obtain ⟨i, rfl⟩ := Nat.exists_eq_add_of_le after
  induction i with
  | zero => exact ⟨rfl, rfl, rfl⟩
  | succ i ih =>
      obtain ⟨bps, div, adc⟩ := ih (by omega)
      rw [← Nat.add_assoc, stateAt_succ]
      simp only [step, lbWrites, quiet (first + i) (by omega), Bool.false_and, Bool.false_eq_true,
        reduceIte]
      exact ⟨bps, div, adc⟩

end Run

/-- The host writes the divider, then turns on recording with wide samples. -/
def recording (fsDiv : BitVec 16) (t : Nat) : Inputs :=
  { lbRdEnIh := false
    lbWrEnIh := decide (t < 2)
    lbAddrId := if t = 0 then dacDrvrFsDivRegAddr else dacDrvrCtrlRegAddr
    lbWrDataId := if t = 0 then fsDiv else 0b110
    pcmFfDataValidIh := false
    pcmFfLdataId := 0
    pcmFfRdataId := 0
    audAdcDatId := false }

theorem recording_settings (fsDiv : BitVec 16) :
    ∀ t, 2 ≤ t →
      (stateAt (recording fsDiv) t).bpsF = true ∧
        (stateAt (recording fsDiv) t).fsDivValF = fsDiv.extractLsb' 0 11 ∧
        (stateAt (recording fsDiv) t).adcDrvrEnF = true := by
  have quiet : ∀ t, 2 ≤ t → (recording fsDiv t).lbWrEnIh = false :=
    fun t after => decide_eq_false (by omega)
  have set : (stateAt (recording fsDiv) 2).bpsF = true ∧
      (stateAt (recording fsDiv) 2).fsDivValF = fsDiv.extractLsb' 0 11 ∧
      (stateAt (recording fsDiv) 2).adcDrvrEnF = true := by
    simp [stateAt, run_succ, step, reset, lbWrites, recording, dacDrvrCtrlRegAddr,
      dacDrvrFsDivRegAddr]
  intro t after
  obtain ⟨bps, div, adc⟩ := settings_rest quiet t after
  exact ⟨bps.trans set.1, div.trans set.2.1, adc.trans set.2.2⟩

theorem recording_begins (fsDiv : BitVec 16) : Begins (recording fsDiv) 7 := by
  have reset' : (stateAt (recording fsDiv) 0).fsmPstate = .idle := rfl
  refine idle_begins (idle_rests (i := 7) reset' fun j before => by omega) rfl ?_
  rw [Available, (recording_settings fsDiv 7 (by decide)).2.2, Bool.or_true]

/-- With the settings unchanged and a sample available whenever the sequencer is
idle, the next frame begins one bit period later than the divider says; with a
divider of 1024 or more there is no next frame and the sequencer waits for ever. -/
theorem period_is_off (inputs : Nat → Inputs) (wide : Bool) (fsDiv : BitVec 11) (s : Nat)
    (begins : Begins inputs s) (fits : 2 * width wide + 1 ≤ fsDiv.toNat)
    (held : ∀ t, s ≤ t → (stateAt inputs t).bpsF = wide ∧ (stateAt inputs t).fsDivValF = fsDiv)
    (available : ∀ t, s < t → (stateAt inputs t).fsmPstate = .idle → Available inputs t) :
    ¬ NextBegins inputs s (s + 8 * fsDiv.toNat) ∧
      (∀ e, NextBegins inputs s e ↔ fsDiv.toNat < 1024 ∧ e = s + 8 * (fsDiv.toNat + 1)) ∧
      (1024 ≤ fsDiv.toNat → ∀ t, s + 9 + 16 * width wide ≤ t →
        (stateAt inputs t).fsmPstate = .waitForFs) := by
  have always : ∀ e, Held inputs wide fsDiv s e := fun e t after _ => held t after
  have period : ∀ e, NextBegins inputs s e ↔
      fsDiv.toNat < 1024 ∧ e = s + 8 * (fsDiv.toNat + 1) := by
    intro e
    by_cases reached : fsDiv.toNat < 1024
    · have resting := begins.rests fits reached (always _)
      have next := begins.next fits reached (always _) (available _ (by omega) resting)
      constructor
      · intro next'
        exact ⟨reached, next'.unique next⟩
      · rintro ⟨_, rfl⟩
        exact next
    · constructor
      · intro next
        exact absurd next (begins.last (by omega) always e)
      · rintro ⟨within, _⟩
        exact absurd within reached
  refine ⟨?_, period, ?_⟩
  · intro next
    have late := ((period _).mp next).2
    omega
  · intro beyond t later
    exact begins.hangs beyond (always t) later

theorem period_is_off_48khz :
    ¬ NextBegins (recording 130) 7 (7 + 8 * 130) ∧ NextBegins (recording 130) 7 (7 + 8 * 131) := by
  have settings := recording_settings 130
  have off := period_is_off (recording 130) true 130 7 (recording_begins 130) (by decide)
    (fun t after => ⟨(settings t (by omega)).1, (settings t (by omega)).2.1⟩)
    (fun t after _ => by rw [Available, (settings t (by omega)).2.2, Bool.or_true])
  exact ⟨off.1, (off.2.1 _).mpr ⟨by decide, rfl⟩⟩

/-- The divider of the software for 48 kHz makes the sequencer begin a frame in
every 131st bit period. -/
theorem sample_rate_48khz :
    ¬ ∀ (inputs : Nat → Inputs) (wide : Bool) (fsDiv : BitVec 11) (s e : Nat),
      Begins inputs s → 2 * width wide + 1 ≤ fsDiv.toNat →
        (∀ t, s ≤ t →
          (stateAt inputs t).bpsF = wide ∧ (stateAt inputs t).fsDivValF = fsDiv) →
          (∀ t, s < t → Available inputs t) → NextBegins inputs s e →
            e = s + 8 * fsDiv.toNat := by
  intro law
  have settings := recording_settings 130
  have held : ∀ t, 7 ≤ t → (stateAt (recording 130) t).bpsF = true ∧
      (stateAt (recording 130) t).fsDivValF = 130 :=
    fun t after => ⟨(settings t (by omega)).1, (settings t (by omega)).2.1⟩
  have available : ∀ t, 7 < t → Available (recording 130) t := by
    intro t after
    rw [Available, (settings t (by omega)).2.2, Bool.or_true]
  have begins := recording_begins 130
  have always : Held (recording 130) true 130 7 (7 + 1 + 8 * 130) := fun t after _ => held t after
  have next := begins.next (by decide) (by decide) always (available _ (by decide))
  have late := law (recording 130) true 130 7 _ begins (by decide) held available next
  exact absurd late (by decide)

end Synesthesia.Wm8731DrvrDac
