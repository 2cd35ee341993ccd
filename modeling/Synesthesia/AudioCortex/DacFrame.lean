/-
One frame on the pins of the audio codec.

The bit periods of a frame are counted from its start: period 0 is `START_S`,
then come the bits of the left and of the right channel.  In every period the
data pin holds one bit from two clocks before the rising edge of the bit clock
until five clocks after it.
-/

import Synesthesia.AudioCortex.Wm8731DrvrDac

namespace Synesthesia.Wm8731DrvrDac

open Synesthesia.Rtl

def width (wide : Bool) : Nat := if wide then 32 else 16

/-- Bit `j` of a frame, the left word first and the highest bit first. -/
def frameBit (wide : Bool) (pair : BitVec 32 × BitVec 32) (j : Nat) : Bool :=
  if j < width wide then pair.1.getLsbD (width wide - 1 - j)
  else pair.2.getLsbD (2 * width wide - 1 - j)

section Run

variable (inputs : Nat → Inputs)

/-- A frame begins at the end of cycle `s`. -/
def Begins (s : Nat) : Prop :=
  (stateAt inputs s).fsmPstate = .idle ∧ (stateAt inputs (s + 1)).fsmPstate = .start

/-- The driver is on with one sample width in the cycles `first .. last`. -/
def Configured (wide : Bool) (first last : Nat) : Prop :=
  ∀ t, first ≤ t → t ≤ last →
    (stateAt inputs t).dacDrvrEnF = true ∧ (stateAt inputs t).bpsF = wide

/-- The pair taken by the frame that begins at `s`, or zeros. -/
def pairOf (s : Nat) : BitVec 32 × BitVec 32 :=
  if (stateAt inputs (s + 8)).pcmFfRdAckOh then
    ((inputs (s + 8)).pcmFfLdataId, (inputs (s + 8)).pcmFfRdataId)
  else (0, 0)

/-- The bit clock rises at the end of cycle `t`. -/
def BclkRises (t : Nat) : Prop :=
  (stateAt inputs t).audBlckOd = false ∧ (stateAt inputs (t + 1)).audBlckOd = true

/-- What the pins show of the frame that begins at `s`: one pulse, one rising
edge for each bit after it, and around each edge the bit. -/
structure Shows (wide : Bool) (s : Nat) (pair : BitVec 32 × BitVec 32) : Prop where
  lrc : ∀ t, s < t → t ≤ s + 9 + 16 * width wide →
    ((stateAt inputs t).audDacLrcOd = true ↔ s + 2 ≤ t ∧ t ≤ s + 9)
  edge : ∀ t, s + 9 ≤ t → t < s + 9 + 16 * width wide →
    (BclkRises inputs t ↔ ∃ j < 2 * width wide, t = s + 12 + 8 * j)
  bit : ∀ j < 2 * width wide, ∀ k < 8,
    (stateAt inputs (s + 10 + 8 * j + k)).audDacDatOd = frameBit wide pair j

/-! ### The first bit period -/

variable {inputs}

theorem Begins.phase {s : Nat} (begins : Begins inputs s) : s % 8 = 7 := by
  obtain ⟨idle, started⟩ := begins
  rw [stateAt_succ] at started
  simp only [step, nextPstate, idle, ring_eq inputs s 7 (by decide)] at started
  by_contra other
  rw [decide_eq_false other] at started
  cases started

theorem Begins.started {s : Nat} (begins : Begins inputs s) {i : Nat} (inside : i < 8) :
    (stateAt inputs (s + 1 + i)).fsmPstate = .start := by
  induction i with
  | zero => exact begins.2
  | succ i ih =>
      have phase := begins.phase
      rw [← Nat.add_assoc, stateAt_succ]
      simp only [step, nextPstate, ih (by omega), ring_eq inputs (s + 1 + i) 7 (by decide)]
      rw [decide_eq_false (by omega)]
      rfl

theorem start_since {t : Nat} (started : (stateAt inputs t).fsmPstate = .start) :
    ∃ s, Begins inputs s ∧ s < t ∧ t ≤ s + 8 := by
  induction t with
  | zero => cases started
  | succ t ih =>
      cases pstate : (stateAt inputs t).fsmPstate with
      | idle => exact ⟨t, ⟨pstate, started⟩, by omega, by omega⟩
      | start =>
          obtain ⟨s, begins, after, before⟩ := ih pstate
          have phase := begins.phase
          rw [stateAt_succ] at started
          simp only [step, nextPstate, pstate, ring_eq inputs t 7 (by decide)] at started
          have early : ¬ t % 8 = 7 := by
            intro last
            rw [decide_eq_true last] at started
            cases started
          exact ⟨s, begins, by omega, by omega⟩
      | lchannel | rchannel | waitForFs =>
          rw [stateAt_succ] at started
          simp only [step, nextPstate, pstate] at started
          split at started <;> cases started

theorem ack_at {t : Nat} (ack : (stateAt inputs t).pcmFfRdAckOh = true) :
    ∃ s, Begins inputs s ∧ t = s + 8 := by
  cases t with
  | zero => cases ack
  | succ t =>
      rw [stateAt_succ] at ack
      simp only [step, nextPcmFfRdAck, ring_eq inputs t 6 (by decide)] at ack
      split at ack
      case isFalse => cases ack
      case isTrue started =>
          rw [Bool.and_eq_true, Bool.and_eq_true, decide_eq_true_eq] at ack
          obtain ⟨s, begins, after, before⟩ := start_since started
          have phase := begins.phase
          exact ⟨s, begins, by omega⟩

theorem lrc_at {t : Nat} (lrc : (stateAt inputs t).audDacLrcOd = true) :
    ∃ s, Begins inputs s ∧ s + 2 ≤ t ∧ t ≤ s + 9 := by
  cases t with
  | zero => cases lrc
  | succ t =>
      rw [stateAt_succ] at lrc
      simp only [step, Bool.and_eq_true, decide_eq_true_eq] at lrc
      obtain ⟨s, begins, after, before⟩ := start_since lrc.2
      exact ⟨s, begins, by omega, by omega⟩

/-- A frame takes no pair but the one acknowledged in its last starting clock. -/
theorem Begins.shift_reg {s : Nat} (begins : Begins inputs s) {i : Nat} (inside : i < 8) :
    (stateAt inputs (s + 1 + i)).ldataShiftReg = 0 ∧
      (stateAt inputs (s + 1 + i)).rdataShiftReg = 0 := by
  induction i with
  | zero =>
      rw [Nat.add_zero, stateAt_succ]
      simp only [step, nextLdataShiftReg, nextRdataShiftReg, begins.1, and_self]
  | succ i ih =>
      have noAck : (stateAt inputs (s + 1 + i)).pcmFfRdAckOh = false := by
        rw [← Bool.not_eq_true]
        intro ack
        obtain ⟨s', begins', same⟩ := ack_at ack
        have phase := begins.phase
        have phase' := begins'.phase
        omega
      rw [← Nat.add_assoc, stateAt_succ]
      simp only [step, nextLdataShiftReg, nextRdataShiftReg, begins.started (i := i) (by omega),
        noAck, Bool.false_eq_true, reduceIte]
      exact ih (by omega)

theorem Begins.cntr {s : Nat} (begins : Begins inputs s) {i : Nat} (inside : i < 8) :
    (stateAt inputs (s + 1 + i)).fsCntr = 0 := by
  induction i with
  | zero =>
      rw [Nat.add_zero, stateAt_succ]
      simp only [step, nextFsCntr, begins.1, reduceIte]
  | succ i ih =>
      have phase := begins.phase
      rw [← Nat.add_assoc, stateAt_succ]
      simp only [step, nextFsCntr, begins.started (i := i) (by omega), reduceCtorEq, reduceIte,
        ring_eq inputs (s + 1 + i) 7 (by decide), ih (by omega)]
      rw [decide_eq_false (by omega)]
      rfl

theorem rest_step {t : Nat}
    (rest : (stateAt inputs t).fsmPstate = .idle ∨ (stateAt inputs t).fsmPstate = .waitForFs)
    (none : ¬ Begins inputs t) :
    (stateAt inputs (t + 1)).fsmPstate = .idle ∨
      (stateAt inputs (t + 1)).fsmPstate = .waitForFs := by
  rw [Begins] at none
  rw [stateAt_succ] at none ⊢
  rcases rest with idle | wait
  · refine .inl ?_
    simp only [step, nextPstate, idle, true_and] at none ⊢
    split at none
    · split at none
      · exact absurd rfl none
      · rename_i ring off
        rw [if_pos ring, if_neg off]
    · rename_i ring
      rw [if_neg ring]
  · simp only [step, nextPstate, wait]
    split
    · exact .inl rfl
    · exact .inr rfl

/-! ### The bit periods of the channels -/

theorem shiftOut_eq (word : BitVec 32) : shiftOut word = word <<< 1 := by
  apply BitVec.eq_of_getLsbD_eq
  intro i inside
  rw [shiftOut, BitVec.getLsbD_append, BitVec.getLsbD_shiftLeft, BitVec.getLsbD_extractLsb',
    BitVec.getLsbD_ofBool, Nat.zero_add, decide_eq_true inside, Bool.true_and]
  by_cases first : i < 1
  · rw [if_pos first, decide_eq_true first]
    simp
  · rw [if_neg first, decide_eq_false first, decide_eq_true (by omega)]
    rfl

/-- Bit period `n` of a frame. -/
structure Sending (wide : Bool) (pair : BitVec 32 × BitVec 32) (n : Nat) (state : State) :
    Prop where
  pstate : state.fsmPstate = if n ≤ width wide then .lchannel else .rchannel
  cntr : state.fsCntr = BitVec.ofNat 10 n
  left : n ≤ width wide → state.ldataShiftReg = pair.1 <<< (n - 1) ∧ state.rdataShiftReg = pair.2
  right : width wide < n → state.rdataShiftReg = pair.2 <<< (n - width wide - 1)

theorem width_cases (wide : Bool) : width wide = 32 ∨ width wide = 16 := by
  cases wide with
  | true => exact .inl rfl
  | false => exact .inr rfl

theorem gated_count {condition : Prop} [Decidable condition] {n m : Nat} (level : Bool)
    (same : condition ↔ n = m) :
    (if condition then level else false) = (decide (n = m) && level) := by
  by_cases holds : condition
  · rw [if_pos holds, decide_eq_true (same.mp holds), Bool.true_and]
  · rw [if_neg holds, decide_eq_false (fun equal => holds (same.mpr equal)), Bool.false_and]

theorem Sending.done {wide : Bool} {pair : BitVec 32 × BitVec 32} {n : Nat} {state : State}
    (sending : Sending wide pair n state) (small : n ≤ 64) (bps : state.bpsF = wide) :
    chnnlDoneC state =
      (decide (n = if n ≤ width wide then width wide else 2 * width wide) &&
        state.bclkGenVec.getLsbD 7) := by
  have count : ∀ m < 1024, (state.fsCntr = BitVec.ofNat 10 m ↔ n = m) := by
    intro m inside
    rw [sending.cntr, ← BitVec.toNat_inj, BitVec.toNat_ofNat, BitVec.toNat_ofNat]
    omega
  rw [chnnlDoneC, sending.pstate, bps]
  by_cases left : n ≤ width wide
  · rw [if_pos left, if_pos left]
    cases wide with
    | true => exact gated_count _ (count 32 (by decide))
    | false => exact gated_count _ (count 16 (by decide))
  · rw [if_neg left, if_neg left]
    cases wide with
    | true => exact gated_count _ (count 64 (by decide))
    | false => exact gated_count _ (count 32 (by decide))

theorem Sending.counts {wide : Bool} {pair : BitVec 32 × BitVec 32} {n : Nat} {state : State}
    (sending : Sending wide pair n state) (inputs : Inputs) :
    (Wm8731DrvrDac.step state inputs).fsCntr =
      state.fsCntr + BitVec.ofNat 10 (state.bclkGenVec.getLsbD 7).toNat := by
  by_cases left : n ≤ width wide <;>
    simp only [Wm8731DrvrDac.step, nextFsCntr, sending.pstate, left, reduceCtorEq, reduceIte]

theorem Sending.step {wide : Bool} {pair : BitVec 32 × BitVec 32} {n : Nat} {state : State}
    (sending : Sending wide pair n state) (bps : state.bpsF = wide) (some' : 1 ≤ n)
    (more : n < 2 * width wide ∨ state.bclkGenVec.getLsbD 7 = false) (inside : n ≤ 2 * width wide)
    (inputs : Inputs) :
    Sending wide pair (if state.bclkGenVec.getLsbD 7 then n + 1 else n)
      (Wm8731DrvrDac.step state inputs) := by
  have widths := width_cases wide
  have done := sending.done (by omega) bps
  cases last : state.bclkGenVec.getLsbD 7 with
  | false =>
      rw [last, Bool.and_false] at done
      rw [if_neg Bool.false_ne_true]
      have kept : (Wm8731DrvrDac.step state inputs).ldataShiftReg = state.ldataShiftReg ∧
          (Wm8731DrvrDac.step state inputs).rdataShiftReg = state.rdataShiftReg := by
        by_cases left : n ≤ width wide <;>
          simp only [Wm8731DrvrDac.step, nextLdataShiftReg, nextRdataShiftReg, sending.pstate,
            left, last, Bool.false_eq_true, reduceIte, and_self]
      constructor
      case pstate =>
        by_cases left : n ≤ width wide <;>
          simp only [Wm8731DrvrDac.step, nextPstate, sending.pstate, left, done,
            Bool.false_eq_true, reduceIte]
      case cntr =>
        rw [sending.counts, last, sending.cntr]
        exact BitVec.add_zero _
      case left =>
        intro left
        rw [kept.1, kept.2]
        exact sending.left left
      case right =>
        intro right
        rw [kept.2]
        exact sending.right right
  | true =>
      have fewer : n < 2 * width wide := by
        rcases more with fewer | early
        · exact fewer
        · rw [last] at early
          cases early
      rw [last, Bool.and_true] at done
      rw [if_pos rfl]
      constructor
      case pstate =>
        simp only [Wm8731DrvrDac.step, nextPstate, sending.pstate, done]
        by_cases left : n ≤ width wide
        · simp only [left, reduceIte, decide_eq_true_eq]
          by_cases final : n = width wide
          · rw [if_pos final, if_neg (by omega)]
          · rw [if_neg final, if_pos (by omega)]
        · simp only [left, reduceIte, decide_eq_true_eq]
          rw [if_neg (by omega), if_neg (by omega)]
      case cntr =>
        rw [sending.counts, last, sending.cntr]
        exact (BitVec.ofNat_add n 1).symm
      case left =>
        intro left
        obtain ⟨ldata, rdata⟩ := sending.left (by omega)
        simp only [Wm8731DrvrDac.step, nextLdataShiftReg, nextRdataShiftReg, sending.pstate,
          show n ≤ width wide by omega, last, reduceIte, ldata, rdata, shiftOut_eq, and_true]
        rw [← BitVec.shiftLeft_add, show n - 1 + 1 = n + 1 - 1 by omega]
      case right =>
        intro right
        by_cases left : n ≤ width wide
        · obtain ⟨ldata, rdata⟩ := sending.left left
          simp only [Wm8731DrvrDac.step, nextRdataShiftReg, sending.pstate, left, reduceIte, rdata]
          rw [show n + 1 - width wide - 1 = 0 by omega, BitVec.shiftLeft_zero]
        · simp only [Wm8731DrvrDac.step, nextRdataShiftReg, sending.pstate, left, last, reduceIte,
            sending.right (by omega), shiftOut_eq]
          rw [← BitVec.shiftLeft_add, show n - width wide - 1 + 1 = n + 1 - width wide - 1 by omega]

theorem Sending.bit {wide : Bool} {pair : BitVec 32 × BitVec 32} {n : Nat} {state : State}
    (sending : Sending wide pair n state) (bps : state.bpsF = wide)
    (enabled : state.dacDrvrEnF = true) (some' : 1 ≤ n) (inside : n ≤ 2 * width wide) :
    nextAudDacDat state = frameBit wide pair (n - 1) := by
  have top : ∀ (word : BitVec 32) (shift : Nat), shift < width wide →
      (word <<< shift).getLsbD (width wide - 1) = word.getLsbD (width wide - 1 - shift) := by
    intro word shift small
    have widths := width_cases wide
    rw [BitVec.getLsbD_shiftLeft, decide_eq_true (by omega), decide_eq_false (by omega)]
    rfl
  have pin : nextAudDacDat state =
      if state.fsmPstate = .lchannel then state.ldataShiftReg.getLsbD (width wide - 1)
      else state.rdataShiftReg.getLsbD (width wide - 1) := by
    rw [nextAudDacDat, if_pos enabled, bps]
    cases wide <;> rfl
  rw [pin, sending.pstate, frameBit]
  by_cases left : n ≤ width wide
  · rw [if_pos left, if_pos rfl, if_pos (by omega), (sending.left left).1, top _ _ (by omega)]
  · rw [if_neg left, if_neg (by decide), if_neg (by omega), sending.right (by omega),
      top _ _ (by omega)]
    congr 1
    omega

/-! ### The whole frame -/

theorem Begins.first {s : Nat} (begins : Begins inputs s) (wide : Bool) :
    Sending wide (pairOf inputs s) 1 (stateAt inputs (s + 9)) := by
  have phase := begins.phase
  have widths := width_cases wide
  have started := begins.started (i := 7) (by decide)
  have cntr := begins.cntr (i := 7) (by decide)
  have empty := begins.shift_reg (i := 7) (by decide)
  have last := ring_eq inputs (s + 8) 7 (by decide)
  rw [decide_eq_true (by omega)] at last
  rw [stateAt_succ]
  constructor
  case pstate =>
    rw [if_pos (by omega)]
    simp only [Wm8731DrvrDac.step, nextPstate, started, last, reduceIte]
  case cntr =>
    simp only [Wm8731DrvrDac.step, nextFsCntr, started, cntr, last, reduceCtorEq, reduceIte]
    rfl
  case left =>
    intro _
    simp only [Wm8731DrvrDac.step, nextLdataShiftReg, nextRdataShiftReg, started, pairOf,
      BitVec.shiftLeft_zero, Nat.sub_self]
    cases (stateAt inputs (s + 8)).pcmFfRdAckOh with
    | true => exact ⟨rfl, rfl⟩
    | false => exact empty
  case right =>
    intro right
    omega

theorem Begins.sends {wide : Bool} {s : Nat} (begins : Begins inputs s)
    (bps : ∀ t, s ≤ t → t ≤ s + 8 + 16 * width wide → (stateAt inputs t).bpsF = wide) :
    ∀ i < 16 * width wide,
      Sending wide (pairOf inputs s) (1 + i / 8) (stateAt inputs (s + 9 + i)) := by
  have phase := begins.phase
  intro i
  induction i with
  | zero => exact fun _ => begins.first wide
  | succ i ih =>
      intro inside
      have sending := ih (by omega)
      have ring := ring_eq inputs (s + 9 + i) 7 (by decide)
      have moved := sending.step (bps (s + 9 + i) (by omega) (by omega)) (by omega)
        (by
          by_cases last : i % 8 = 7
          · exact .inl (by omega)
          · rw [ring, decide_eq_false (by omega)]
            exact .inr rfl)
        (by omega) (inputs (s + 9 + i))
      rw [ring] at moved
      rw [← Nat.add_assoc, stateAt_succ]
      by_cases last : i % 8 = 7
      · rw [decide_eq_true (by omega), if_pos rfl] at moved
        rw [show 1 + (i + 1) / 8 = 1 + i / 8 + 1 by omega]
        exact moved
      · rw [decide_eq_false (by omega), if_neg Bool.false_ne_true] at moved
        rw [show 1 + (i + 1) / 8 = 1 + i / 8 by omega]
        exact moved

theorem Begins.sending {wide : Bool} {s : Nat} (begins : Begins inputs s)
    (configured : Configured inputs wide s (s + 8 + 16 * width wide)) :
    ∀ i < 16 * width wide,
      Sending wide (pairOf inputs s) (1 + i / 8) (stateAt inputs (s + 9 + i)) :=
  begins.sends fun t after upto => (configured t after upto).2

theorem Begins.runs {wide : Bool} {s : Nat} (begins : Begins inputs s)
    (bps : ∀ t, s ≤ t → t ≤ s + 8 + 16 * width wide → (stateAt inputs t).bpsF = wide) {i : Nat}
    (some' : 1 ≤ i) (inside : i ≤ 8 + 16 * width wide) :
    (stateAt inputs (s + i)).fsmPstate ≠ .idle ∧
      (stateAt inputs (s + i)).fsmPstate ≠ .waitForFs := by
  by_cases first : i ≤ 8
  · have started := begins.started (i := i - 1) (by omega)
    rw [show s + 1 + (i - 1) = s + i by omega] at started
    rw [started]
    decide
  · have pstate := (begins.sends bps (i - 9) (by omega)).pstate
    rw [show s + 9 + (i - 9) = s + i by omega] at pstate
    rw [pstate]
    split <;> decide

theorem Begins.ends {wide : Bool} {s : Nat} (begins : Begins inputs s)
    (bps : ∀ t, s ≤ t → t ≤ s + 8 + 16 * width wide → (stateAt inputs t).bpsF = wide) :
    (stateAt inputs (s + 9 + 16 * width wide)).fsmPstate = .waitForFs ∧
      (stateAt inputs (s + 9 + 16 * width wide)).fsCntr =
        BitVec.ofNat 10 (2 * width wide + 1) := by
  have widths := width_cases wide
  have phase := begins.phase
  have sending := begins.sends bps (16 * width wide - 1) (by omega)
  have last := bps (s + 8 + 16 * width wide) (by omega) (Nat.le_refl _)
  have ring := ring_eq inputs (s + 8 + 16 * width wide) 7 (by decide)
  rw [decide_eq_true (by omega)] at ring
  rw [show s + 9 + (16 * width wide - 1) = s + 8 + 16 * width wide by omega,
    show 1 + (16 * width wide - 1) / 8 = 2 * width wide by omega] at sending
  have done := sending.done (by omega) last
  rw [if_neg (by omega), ring, decide_eq_true rfl, Bool.true_and] at done
  have pstate := sending.pstate
  rw [if_neg (by omega)] at pstate
  rw [show s + 9 + 16 * width wide = s + 8 + 16 * width wide + 1 by omega, stateAt_succ]
  constructor
  · simp only [step, nextPstate, pstate, done, reduceIte]
  · rw [sending.counts, ring, sending.cntr]
    exact (BitVec.ofNat_add (2 * width wide) 1).symm

/-- While the driver is on, the bit clock follows the ring. -/
theorem blck_eq {s last : Nat} (phase : s % 8 = 7)
    (on : ∀ t, s ≤ t → t ≤ last →
      (stateAt inputs t).dacDrvrEnF = true ∨ (stateAt inputs t).adcDrvrEnF = true) :
    ∀ i, s + i ≤ last →
      (stateAt inputs (s + 1 + i)).audBlckOd = decide (4 ≤ (s + 1 + i) % 8) := by
  have off : ∀ t, s ≤ t → t ≤ last →
      ¬ (!(stateAt inputs t).dacDrvrEnF && !(stateAt inputs t).adcDrvrEnF) = true := by
    intro t after upto
    rcases on t after upto with dac | adc
    · simp [dac]
    · simp [adc]
  intro i
  induction i with
  | zero =>
      intro upto
      rw [Nat.add_zero, stateAt_succ]
      simp only [step, nextAudBlck, off s (by omega) (by omega), ring_eq inputs s 3 (by decide),
        ring_eq inputs s 7 (by decide)]
      rw [decide_eq_false (by omega), decide_eq_true phase, decide_eq_false (by omega)]
      rfl
  | succ i ih =>
      intro upto
      have now := ih (by omega)
      rw [← Nat.add_assoc, stateAt_succ]
      simp only [step, nextAudBlck, off (s + 1 + i) (by omega) (by omega),
        ring_eq inputs (s + 1 + i) 3 (by decide), ring_eq inputs (s + 1 + i) 7 (by decide), now,
        Bool.false_eq_true, reduceIte, decide_eq_true_eq]
      by_cases rise : (s + 1 + i) % 8 = 3
      · rw [if_pos rise, eq_comm, decide_eq_true_eq]
        omega
      · rw [if_neg rise]
        by_cases fall : (s + 1 + i) % 8 = 7
        · rw [if_pos fall, eq_comm, decide_eq_false_iff_not]
          omega
        · rw [if_neg fall, decide_eq_decide]
          omega

theorem blck_rises {s last : Nat} (phase : s % 8 = 7)
    (on : ∀ t, s ≤ t → t ≤ last →
      (stateAt inputs t).dacDrvrEnF = true ∨ (stateAt inputs t).adcDrvrEnF = true)
    {t : Nat} (after : s + 9 ≤ t) (upto : t ≤ last) :
    BclkRises inputs t ↔ t % 8 = 3 := by
  obtain ⟨i, rfl⟩ := Nat.exists_eq_add_of_le after
  have now := blck_eq phase on (8 + i) (by omega)
  have next := blck_eq phase on (9 + i) (by omega)
  rw [show s + 1 + (8 + i) = s + 9 + i by omega] at now
  rw [show s + 1 + (9 + i) = s + 9 + i + 1 by omega] at next
  rw [BclkRises, now, next, decide_eq_false_iff_not, decide_eq_true_eq]
  omega

theorem Begins.shows {wide : Bool} {s : Nat} (begins : Begins inputs s)
    (configured : Configured inputs wide s (s + 8 + 16 * width wide)) :
    Shows inputs wide s (pairOf inputs s) := by
  have phase := begins.phase
  have sending := begins.sending configured
  constructor
  case lrc =>
    intro t after before
    obtain ⟨i, rfl⟩ := Nat.exists_eq_add_of_le' (Nat.succ_le_of_lt after)
    have enabled := (configured (i + s) (by omega) (by omega)).1
    have pulse : (stateAt inputs (i + (s + 1))).audDacLrcOd =
        decide ((stateAt inputs (i + s)).fsmPstate = .start) := by
      rw [← Nat.add_assoc, stateAt_succ]
      simp only [step, enabled, Bool.true_and]
    rw [Nat.succ_eq_add_one, pulse, decide_eq_true_eq]
    constructor
    · intro started
      obtain ⟨s', begins', after', before'⟩ := start_since started
      have phase' := begins'.phase
      have busy : i ≠ 0 := by
        rintro rfl
        rw [Nat.zero_add, begins.1] at started
        cases started
      have same : s' = s := by
        rcases Nat.lt_or_ge i 9 with first | later
        · omega
        · have pstate := (sending (i - 9) (by omega)).pstate
          rw [show s + 9 + (i - 9) = i + s by omega, started] at pstate
          split at pstate <;> cases pstate
      omega
    · rintro ⟨first, last⟩
      have started := begins.started (i := i - 1) (by omega)
      rw [show s + 1 + (i - 1) = i + s by omega] at started
      exact started
  case edge =>
    intro t after before
    have on : ∀ t, s ≤ t → t ≤ s + 8 + 16 * width wide →
        (stateAt inputs t).dacDrvrEnF = true ∨ (stateAt inputs t).adcDrvrEnF = true :=
      fun t after upto => .inl (configured t after upto).1
    rw [blck_rises phase on after (by omega)]
    constructor
    · intro edge
      exact ⟨(t - s - 12) / 8, by omega, by omega⟩
    · rintro ⟨j, inside, same⟩
      omega
  case bit =>
    intro j inside k small
    obtain ⟨enabled, bps⟩ := configured (s + 9 + (8 * j + k)) (by omega) (by omega)
    have pin := (sending (8 * j + k) (by omega)).bit bps enabled (by omega) (by omega)
    rw [show 1 + (8 * j + k) / 8 - 1 = j by omega] at pin
    rw [← pin, show s + 10 + 8 * j + k = s + 9 + (8 * j + k) + 1 by omega, stateAt_succ]
    rfl

end Run

/-- In every run, with any FIFO contents and any writes to the registers: an
acknowledge or a synchronisation pulse belongs to the start of one frame, at most
one acknowledge to each, and a frame over which the driver stays on with one width
shows the acknowledged pair, or zeros, bit by bit at the rising edges after its
pulse. -/
theorem dac_serialises (inputs : Nat → Inputs) :
    (∀ t, (stateAt inputs t).pcmFfRdAckOh = true → ∃ s, Begins inputs s ∧ t = s + 8) ∧
      (∀ t, (stateAt inputs t).audDacLrcOd = true →
        ∃ s, Begins inputs s ∧ s + 2 ≤ t ∧ t ≤ s + 9) ∧
      ∀ wide s, Begins inputs s → Configured inputs wide s (s + 8 + 16 * width wide) →
        Shows inputs wide s (pairOf inputs s) :=
  ⟨fun _ => ack_at, fun _ => lrc_at, fun _ _ begins configured => begins.shows configured⟩

/-- The host turns on playback with wide samples, and the FIFO offers one pair for ever. -/
def playing (pair : BitVec 32 × BitVec 32) (t : Nat) : Inputs :=
  { lbRdEnIh := false
    lbWrEnIh := decide (t = 0)
    lbAddrId := AcortexRegMap.dacDrvrCtrlRegAddr
    lbWrDataId := 0b101
    pcmFfDataValidIh := true
    pcmFfLdataId := pair.1
    pcmFfRdataId := pair.2
    audAdcDatId := false }

theorem playing_settings (pair : BitVec 32 × BitVec 32) (t : Nat) :
    (stateAt (playing pair) (t + 1)).dacDrvrEnF = true ∧
      (stateAt (playing pair) (t + 1)).bpsF = true := by
  induction t with
  | zero =>
      simp [stateAt, run_succ, step, reset, lbWrites, playing, AcortexRegMap.dacDrvrCtrlRegAddr]
  | succ t ih =>
      rw [stateAt_succ]
      have quiet : (playing pair (t + 1)).lbWrEnIh = false := rfl
      simp only [step, lbWrites, quiet, Bool.false_and, Bool.false_eq_true, reduceIte]
      exact ih

theorem dac_serialises_pair :
    (stateAt (playing (0x89ABCDEF, 0x01234567)) 15).pcmFfRdAckOh = true ∧
      Shows (playing (0x89ABCDEF, 0x01234567)) true 7 (0x89ABCDEF, 0x01234567) := by
  have ack : (stateAt (playing (0x89ABCDEF, 0x01234567)) 15).pcmFfRdAckOh = true := by
    decide +kernel
  have begins : Begins (playing (0x89ABCDEF, 0x01234567)) 7 :=
    ⟨by decide +kernel, by decide +kernel⟩
  have shows := (dac_serialises (playing (0x89ABCDEF, 0x01234567))).2.2 true 7 begins
    fun t after _ => by
      obtain ⟨t, rfl⟩ := Nat.exists_eq_add_of_le' (show 1 ≤ t by omega)
      exact playing_settings _ t
  rw [pairOf, ack, if_pos rfl] at shows
  exact ⟨ack, shows⟩

end Synesthesia.Wm8731DrvrDac
