/-
Write transactions of `i2c_master` on the two lines.

While no register is written and the slave keeps to its slots, the waveform is that of
one transaction: start, the bytes up to the first one that is not acknowledged, stop.
-/

import Synesthesia.AudioCortex.I2cWaveform

namespace Synesthesia.I2cMaster

open Synesthesia.Rtl
open Synesthesia.TwoWire
open Synesthesia.AcortexRegMap

/-! ### Runs -/

section Runs

variable (inputs : Nat → Inputs)

def regsAt (t : Nat) : Regs := run step reset inputs t

theorem regsAt_succ (t : Nat) : regsAt inputs (t + 1) = step (regsAt inputs t) (inputs t) := rfl

def linesAt (t : Nat) : Lines :=
  { scl := (regsAt inputs t).i2cSclOd
    sda := i2cSdaIo (regsAt inputs t) (inputs t).sdaReleased }

def busyAt (t : Nat) : Bool := !fsmIdleC (regsAt inputs t)

/-- The master is busy in every clock after `since` and before `t`. -/
def BusyBetween (since t : Nat) : Prop :=
  since < t ∧ ∀ u, since < u → u < t → busyAt inputs u = true

def BusyUntil (since t : Nat) : Prop :=
  since < t ∧ ∀ u, since < u → u ≤ t → busyAt inputs u = true

/-- Nothing disturbs the transaction started in clock `since` while it lasts. -/
def Undisturbed (ack : Byte → Bool) (since : Nat) : Prop :=
  ∀ t, BusyUntil inputs since t → Quiet ack (regsAt inputs t) (inputs t)

end Runs

/-! ### A period -/

section Period

variable {inputs : Nat → Inputs} {xtn : Xtn} {ack : Byte → Bool} {since : Nat}
  (legal : xtn.Legal) (undisturbed : Undisturbed inputs ack since)

theorem busy_of_pstate {t : Nat} (busy : (regsAt inputs t).fsmPstate ≠ .idle) :
    busyAt inputs t = true := by
  unfold busyAt fsmIdleC
  rw [decide_eq_false busy]
  rfl

theorem BusyUntil.next {t : Nat} (busy : BusyUntil inputs since t) :
    BusyBetween inputs since (t + 1) :=
  ⟨Nat.lt_succ_of_lt busy.1, fun u after before => busy.2 u after (Nat.le_of_lt_succ before)⟩

theorem BusyBetween.until {t : Nat} (busy : BusyBetween inputs since t)
    (now : (regsAt inputs t).fsmPstate ≠ .idle) : BusyUntil inputs since t := by
  refine ⟨busy.1, ?_⟩
  intro u after before
  by_cases last : u = t
  · rw [last]
    exact busy_of_pstate now
  · exact busy.2 u after (by omega)

include undisturbed in
theorem period_run {during : Nat → Regs → Prop}
    (busy : ∀ clock regs, during clock regs → regs.fsmPstate ≠ .idle)
    (steps : ∀ clock regs now, clock < xtn.div.toNat → during clock regs → Quiet ack regs now →
      during (clock + 1) (step regs now))
    {t : Nat} (before : BusyBetween inputs since t) (first : during 0 (regsAt inputs t)) :
    ∀ clock ≤ xtn.div.toNat, during clock (regsAt inputs (t + clock)) ∧
      BusyUntil inputs since (t + clock) := by
  intro clock inside
  induction clock with
  | zero => exact ⟨first, before.until (busy 0 _ first)⟩
  | succ clock ih =>
      obtain ⟨now, busyNow⟩ := ih (by omega)
      have later : during (clock + 1) (regsAt inputs (t + (clock + 1))) :=
        steps clock _ _ (by omega) now (undisturbed _ busyNow)
      exact ⟨later, busyNow.next.until (busy _ _ later)⟩

/-! ### The start -/

theorem Starting.busy {clock : Nat} {regs : Regs} (starting : Starting xtn clock regs) :
    regs.fsmPstate ≠ .idle := by
  rw [starting.pstate]
  decide

theorem Starting.lines {clock t : Nat} (starting : Starting xtn clock (regsAt inputs t)) :
    linesAt inputs t =
      { scl := decide (clock ≤ xtn.div.toNat / 2)
        sda := decide (clock = 0) } := by
  unfold linesAt i2cSdaIo
  rw [starting.scl, starting.bitIdx, starting.sdo]
  rfl

include legal undisturbed in
theorem start_run {t : Nat} (before : BusyBetween inputs since t)
    (first : Starting xtn 0 (regsAt inputs t)) :
    Sending xtn ack .addr 0 0 (regsAt inputs (t + (xtn.div.toNat + 1))) ∧
      BusyBetween inputs since (t + (xtn.div.toNat + 1)) ∧
      events (linesAt inputs) t (xtn.div.toNat + 1) = [.start, .fall] := by
  have slow := legal.slow
  have fast := legal.fast
  have period := period_run undisturbed (fun _ _ starting => Starting.busy starting)
    (fun _ _ _ inside starting quiet => starting.step legal quiet inside) before first
  obtain ⟨last, busy⟩ := period xtn.div.toNat (Nat.le_refl _)
  have next : Sending xtn ack .addr 0 0 (regsAt inputs (t + (xtn.div.toNat + 1))) :=
    last.next legal (undisturbed _ busy)
  refine ⟨next, busy.next, ?_⟩
  have lines : ∀ clock ≤ xtn.div.toNat, linesAt inputs (t + clock) =
      { scl := decide (clock ≤ xtn.div.toNat / 2)
        sda := decide (clock = 0) } :=
    fun clock inside => (period clock inside).1.lines
  have scl : ∀ clock ≤ xtn.div.toNat + 1,
      (linesAt inputs (t + clock)).scl = decide (clock ≤ xtn.div.toNat / 2) := by
    intro clock inside
    by_cases closing : clock = xtn.div.toNat + 1
    · rw [closing]
      exact next.scl.trans (decide_eq_decide.mpr (by omega))
    · rw [lines clock (by omega)]
  have silent : ∀ i < xtn.div.toNat + 1, i ≠ 0 → i ≠ xtn.div.toNat / 2 →
      observe (linesAt inputs (t + i)) (linesAt inputs (t + i + 1)) = [] := by
    intro i inside notFirst notHalf
    by_cases high : i < xtn.div.toNat / 2
    · apply observe_still
      rw [lines i (by omega), Nat.add_assoc, lines (i + 1) (by omega)]
      congr 1
      · exact decide_eq_decide.mpr (by omega)
      · exact decide_eq_decide.mpr (by omega)
    · apply observe_low
      · rw [scl i (by omega)]
        exact decide_eq_false (by omega)
      · rw [Nat.add_assoc, scl (i + 1) (by omega)]
        exact decide_eq_false (by omega)
  rw [events_two (show 0 < xtn.div.toNat / 2 by omega)
    (show xtn.div.toNat / 2 < xtn.div.toNat + 1 by omega) silent, lines 0 (by omega),
    Nat.add_assoc, Nat.zero_add, lines 1 (by omega), lines (xtn.div.toNat / 2) (by omega),
    Nat.add_assoc, lines (xtn.div.toNat / 2 + 1) (by omega)]
  rw [decide_eq_true (show 0 ≤ xtn.div.toNat / 2 by omega),
    decide_eq_true (show 1 ≤ xtn.div.toNat / 2 by omega),
    decide_eq_true (show xtn.div.toNat / 2 ≤ xtn.div.toNat / 2 by omega),
    decide_eq_false (show ¬ xtn.div.toNat / 2 + 1 ≤ xtn.div.toNat / 2 by omega)]
  rfl

/-! ### Bits -/

theorem Sending.busy {byte : Byte} {slot clock : Nat} {regs : Regs}
    (sending : Sending xtn ack byte slot clock regs) : regs.fsmPstate ≠ .idle := by
  rw [sending.pstate]
  exact byte.ne_idle

theorem Sending.lines {byte : Byte} {slot clock t : Nat} (index : slot ≤ 8)
    (sending : Sending xtn ack byte slot clock (regsAt inputs t))
    (quiet : Quiet ack (regsAt inputs t) (inputs t))
    (high : xtn.div.toNat / 4 < clock ∧ clock ≤ xtn.div.toNat / 4 + 64) :
    linesAt inputs t =
      { scl := true
        sda := levels (byte.word xtn) (ack byte) slot } := by
  have released := released_eq sending index
  have scl : (regsAt inputs t).i2cSclOd = true := by
    rw [sending.scl]
    exact decide_eq_true high
  unfold linesAt i2cSdaIo
  rw [scl]
  congr 1
  by_cases last : slot = 8
  · rw [decide_eq_true last] at released
    rw [released, if_pos rfl, quiet.slave byte sending.pstate released scl, last]
    rfl
  · have inside : slot < 8 := by omega
    rw [decide_eq_false last] at released
    rw [released, if_neg Bool.false_ne_true, sending.sdo (by omega)]
    unfold levels
    rw [if_pos inside, if_pos inside]

include legal undisturbed in
theorem bit_run {byte : Byte} {slot t : Nat} (index : slot ≤ 8)
    (before : BusyBetween inputs since t)
    (first : Sending xtn ack byte slot 0 (regsAt inputs t))
    (low : Sending xtn ack byte slot xtn.div.toNat (regsAt inputs (t + xtn.div.toNat)) →
      (regsAt inputs (t + (xtn.div.toNat + 1))).i2cSclOd = false) :
    Sending xtn ack byte slot xtn.div.toNat (regsAt inputs (t + xtn.div.toNat)) ∧
      BusyBetween inputs since (t + (xtn.div.toNat + 1)) ∧
      events (linesAt inputs) t (xtn.div.toNat + 1) =
        pulse (levels (byte.word xtn) (ack byte) slot) := by
  have slow := legal.slow
  have fast := legal.fast
  have period := period_run undisturbed (fun _ _ sending => Sending.busy sending)
    (fun _ _ _ inside sending quiet => sending.step legal index quiet inside) before first
  obtain ⟨last, busy⟩ := period xtn.div.toNat (Nat.le_refl _)
  refine ⟨last, busy.next, ?_⟩
  have lines : ∀ clock, xtn.div.toNat / 4 < clock → clock ≤ xtn.div.toNat / 4 + 64 →
      linesAt inputs (t + clock) =
        { scl := true
          sda := levels (byte.word xtn) (ack byte) slot } := by
    intro clock lower upper
    obtain ⟨now, busyNow⟩ := period clock (by omega)
    exact now.lines index (undisturbed _ busyNow) ⟨lower, upper⟩
  have scl : ∀ clock ≤ xtn.div.toNat + 1, (linesAt inputs (t + clock)).scl =
      decide (xtn.div.toNat / 4 < clock ∧ clock ≤ xtn.div.toNat / 4 + 64) := by
    intro clock inside
    by_cases closing : clock = xtn.div.toNat + 1
    · rw [closing]
      exact (low last).trans (decide_eq_false (by omega)).symm
    · exact (period clock (by omega)).1.scl
  have silent : ∀ i < xtn.div.toNat + 1, i ≠ xtn.div.toNat / 4 → i ≠ xtn.div.toNat / 4 + 64 →
      observe (linesAt inputs (t + i)) (linesAt inputs (t + i + 1)) = [] := by
    intro i inside notRise notFall
    by_cases high : xtn.div.toNat / 4 < i ∧ i < xtn.div.toNat / 4 + 64
    · apply observe_still
      rw [lines i (by omega) (by omega), Nat.add_assoc, lines (i + 1) (by omega) (by omega)]
    · apply observe_low
      · rw [scl i (by omega)]
        exact decide_eq_false (by omega)
      · rw [Nat.add_assoc, scl (i + 1) (by omega)]
        exact decide_eq_false (by omega)
  have quarter := scl (xtn.div.toNat / 4) (by omega)
  have after := scl (xtn.div.toNat / 4 + 64 + 1) (by omega)
  rw [decide_eq_false (by omega)] at quarter after
  rw [events_two (show xtn.div.toNat / 4 < xtn.div.toNat / 4 + 64 by omega)
    (show xtn.div.toNat / 4 + 64 < xtn.div.toNat + 1 by omega) silent, Nat.add_assoc,
    lines (xtn.div.toNat / 4 + 1) (by omega) (by omega),
    lines (xtn.div.toNat / 4 + 64) (by omega) (by omega), Nat.add_assoc]
  unfold observe
  rw [quarter, after]
  rfl

include legal undisturbed in
theorem slot_run {byte : Byte} {slot t : Nat} (inside : slot < 8)
    (before : BusyBetween inputs since t)
    (first : Sending xtn ack byte slot 0 (regsAt inputs t)) :
    Sending xtn ack byte (slot + 1) 0 (regsAt inputs (t + (xtn.div.toNat + 1))) ∧
      BusyBetween inputs since (t + (xtn.div.toNat + 1)) ∧
      events (linesAt inputs) t (xtn.div.toNat + 1) =
        pulse (levels (byte.word xtn) (ack byte) slot) := by
  have period := period_run undisturbed (fun _ _ sending => Sending.busy sending)
    (fun _ _ _ early sending quiet => sending.step legal (by omega : slot ≤ 8) quiet early) before
    first
  obtain ⟨last, busy⟩ := period xtn.div.toNat (Nat.le_refl _)
  have next : Sending xtn ack byte (slot + 1) 0 (regsAt inputs (t + (xtn.div.toNat + 1))) :=
    last.next_slot legal (undisturbed _ busy) inside rfl
  have low : (regsAt inputs (t + (xtn.div.toNat + 1))).i2cSclOd = false :=
    next.scl.trans (decide_eq_false (by omega))
  obtain ⟨-, -, shown⟩ := bit_run legal undisturbed (by omega) before first fun _ => low
  exact ⟨next, busy.next, shown⟩

include legal undisturbed in
theorem bits_run {byte : Byte} {t : Nat} (before : BusyBetween inputs since t)
    (first : Sending xtn ack byte 0 0 (regsAt inputs t)) :
    ∀ slot ≤ 8, Sending xtn ack byte slot 0 (regsAt inputs (t + slot * (xtn.div.toNat + 1))) ∧
      BusyBetween inputs since (t + slot * (xtn.div.toNat + 1)) ∧
      events (linesAt inputs) t (slot * (xtn.div.toNat + 1)) =
        collect (fun place => pulse (levels (byte.word xtn) (ack byte) place)) slot := by
  intro slot inside
  induction slot with
  | zero =>
      rw [Nat.zero_mul]
      exact ⟨first, before, rfl⟩
  | succ slot ih =>
      obtain ⟨now, busy, shown⟩ := ih (by omega)
      obtain ⟨next, busyNext, more⟩ := slot_run legal undisturbed (by omega) busy now
      rw [Nat.succ_mul, ← Nat.add_assoc]
      refine ⟨?_, ?_, ?_⟩
      · rw [Nat.add_assoc] at next ⊢
        exact next
      · exact busyNext
      · rw [events_add, shown, more, collect_succ]

/-! ### Bytes -/

include legal undisturbed in
theorem byte_run {byte : Byte} {t : Nat} (before : BusyBetween inputs since t)
    (first : Sending xtn ack byte 0 0 (regsAt inputs t)) :
    Follows xtn ack byte (regsAt inputs (t + 9 * (xtn.div.toNat + 1))) ∧
      BusyBetween inputs since (t + 9 * (xtn.div.toNat + 1)) ∧
      events (linesAt inputs) t (9 * (xtn.div.toNat + 1)) =
        frame (byte.word xtn) (ack byte) := by
  obtain ⟨slot, busy, shown⟩ := bits_run legal undisturbed before first 8 (Nat.le_refl 8)
  have period := period_run undisturbed (fun _ _ sending => Sending.busy sending)
    (fun _ _ _ early sending quiet => sending.step legal (Nat.le_refl 8) quiet early) busy slot
  obtain ⟨last, busyLast⟩ := period xtn.div.toNat (Nat.le_refl _)
  have next : Follows xtn ack byte
      (regsAt inputs (t + 8 * (xtn.div.toNat + 1) + (xtn.div.toNat + 1))) :=
    last.next_byte legal (undisturbed _ busyLast)
  have low : (regsAt inputs (t + 8 * (xtn.div.toNat + 1) + (xtn.div.toNat + 1))).i2cSclOd =
      false := by
    cases next with
    | byte other _ _ sending => exact sending.scl.trans (decide_eq_false (by omega))
    | stop _ stopping => exact stopping.scl.trans (decide_eq_false (by omega))
  obtain ⟨-, busyNext, more⟩ := bit_run legal undisturbed (Nat.le_refl 8) busy slot fun _ => low
  have whole : 9 * (xtn.div.toNat + 1) = 8 * (xtn.div.toNat + 1) + (xtn.div.toNat + 1) := by
    omega
  rw [whole, ← Nat.add_assoc]
  refine ⟨next, busyNext, ?_⟩
  rw [events_add, shown, more]
  rfl

/-! ### The stop -/

theorem Stopping.busy {nack : Bool} {clock : Nat} {regs : Regs}
    (stopping : Stopping xtn nack clock regs) : regs.fsmPstate ≠ .idle := by
  rw [stopping.pstate]
  decide

theorem Stopping.lines {nack : Bool} {clock t : Nat}
    (stopping : Stopping xtn nack clock (regsAt inputs t)) :
    linesAt inputs t =
      { scl := decide (0 < clock)
        sda := decide (xtn.div.toNat / 2 < clock) } := by
  unfold linesAt i2cSdaIo
  rw [stopping.scl, stopping.bitIdx, stopping.sdo]
  rfl

include legal undisturbed in
theorem stop_run {nack : Bool} {t : Nat} (before : BusyBetween inputs since t)
    (first : Stopping xtn nack 0 (regsAt inputs t)) :
    BusyBetween inputs since (t + (xtn.div.toNat + 1)) ∧
      busyAt inputs (t + (xtn.div.toNat + 1)) = false ∧
      events (linesAt inputs) t (xtn.div.toNat + 1) = [.rise false, .stop] ∧
      (regsAt inputs (t + (xtn.div.toNat + 1))).nackDetectedF = nack := by
  have slow := legal.slow
  have fast := legal.fast
  have period := period_run undisturbed (fun _ _ stopping => Stopping.busy stopping)
    (fun _ _ _ inside stopping quiet => stopping.step legal quiet inside) before first
  obtain ⟨last, busy⟩ := period xtn.div.toNat (Nat.le_refl _)
  obtain ⟨pstate, bitIdx, sdo, scl, flag⟩ := last.next legal (undisturbed _ busy)
  have idle : busyAt inputs (t + (xtn.div.toNat + 1)) = false := by
    unfold busyAt fsmIdleC
    rw [show (regsAt inputs (t + (xtn.div.toNat + 1))).fsmPstate = .idle from pstate]
    rfl
  refine ⟨busy.next, idle, ?_, flag⟩
  have lines : ∀ clock ≤ xtn.div.toNat + 1, linesAt inputs (t + clock) =
      { scl := decide (0 < clock)
        sda := decide (xtn.div.toNat / 2 < clock) } := by
    intro clock inside
    by_cases closing : clock = xtn.div.toNat + 1
    · rw [closing, decide_eq_true (by omega), decide_eq_true (by omega)]
      unfold linesAt i2cSdaIo
      rw [show (regsAt inputs (t + (xtn.div.toNat + 1))).bitIdxF = 0 from bitIdx,
        show (regsAt inputs (t + (xtn.div.toNat + 1))).sdoF = true from sdo,
        show (regsAt inputs (t + (xtn.div.toNat + 1))).i2cSclOd = true from scl]
      rfl
    · exact (period clock (by omega)).1.lines
  have silent : ∀ i < xtn.div.toNat + 1, i ≠ 0 → i ≠ xtn.div.toNat / 2 →
      observe (linesAt inputs (t + i)) (linesAt inputs (t + i + 1)) = [] := by
    intro i inside notFirst notHalf
    apply observe_still
    rw [lines i (by omega), Nat.add_assoc, lines (i + 1) (by omega)]
    congr 1
    · exact decide_eq_decide.mpr (by omega)
    · exact decide_eq_decide.mpr (by omega)
  rw [events_two (show 0 < xtn.div.toNat / 2 by omega)
    (show xtn.div.toNat / 2 < xtn.div.toNat + 1 by omega) silent, lines 0 (by omega),
    Nat.add_assoc, Nat.zero_add, lines 1 (by omega), lines (xtn.div.toNat / 2) (by omega),
    Nat.add_assoc, lines (xtn.div.toNat / 2 + 1) (by omega)]
  rw [decide_eq_false (show ¬ xtn.div.toNat / 2 < 1 by omega),
    decide_eq_true (show 0 < xtn.div.toNat / 2 by omega),
    decide_eq_false (show ¬ xtn.div.toNat / 2 < xtn.div.toNat / 2 by omega),
    decide_eq_true (show xtn.div.toNat / 2 < xtn.div.toNat / 2 + 1 by omega)]
  rfl

/-! ### The rest of a transaction -/

/-- From clock `t` on the bytes are sent, then the master stops and is idle again. -/
structure Ends (inputs : Nat → Inputs) (xtn : Xtn) (since t : Nat)
    (bytes : List (BitVec 8 × Bool)) (nack : Bool) (length : Nat) : Prop where
  busy : BusyBetween inputs since (t + length * (xtn.div.toNat + 1))
  idle : busyAt inputs (t + length * (xtn.div.toNat + 1)) = false
  shown : events (linesAt inputs) t (length * (xtn.div.toNat + 1)) =
    transfer bytes ++ [.rise false, .stop]
  flag : (regsAt inputs (t + length * (xtn.div.toNat + 1))).nackDetectedF = nack

include legal undisturbed in
theorem stop_ends {nack : Bool} {t : Nat} (before : BusyBetween inputs since t)
    (first : Stopping xtn nack 0 (regsAt inputs t)) : Ends inputs xtn since t [] nack 1 := by
  obtain ⟨busy, idle, shown, flag⟩ := stop_run legal undisturbed before first
  refine ⟨?_, ?_, ?_, ?_⟩
  · rw [Nat.one_mul]
    exact busy
  · rw [Nat.one_mul]
    exact idle
  · rw [Nat.one_mul]
    exact shown
  · rw [Nat.one_mul]
    exact flag

theorem Ends.after {t : Nat} {word : BitVec 8} {slot nack : Bool} {length : Nat}
    {tail : List (BitVec 8 × Bool)}
    (shown : events (linesAt inputs) t (9 * (xtn.div.toNat + 1)) = frame word slot)
    (ends : Ends inputs xtn since (t + 9 * (xtn.div.toNat + 1))
      (if slot then [] else tail) nack length) :
    Ends inputs xtn since t ((word, slot) :: tail) nack (9 + length) := by
  obtain ⟨busy, idle, rest, flag⟩ := ends
  refine ⟨?_, ?_, ?_, ?_⟩
  · rw [Nat.add_mul, ← Nat.add_assoc]
    exact busy
  · rw [Nat.add_mul, ← Nat.add_assoc]
    exact idle
  · rw [Nat.add_mul, events_add, shown, rest, ← List.append_assoc, transfer_cons]
  · rw [Nat.add_mul, ← Nat.add_assoc]
    exact flag

include legal undisturbed in
/-- One byte, and then the rest if it is acknowledged. -/
theorem byte_ends {byte : Byte} {t : Nat} {tail : List (BitVec 8 × Bool)}
    (before : BusyBetween inputs since t) (first : Sending xtn ack byte 0 0 (regsAt inputs t))
    (last : byte.next = none → tail = [])
    (later : ∀ next, byte.next = some next → ∀ u, BusyBetween inputs since u →
      Sending xtn ack next 0 0 (regsAt inputs u) →
      Ends inputs xtn since u tail (refused tail) (sent tail * 9 + 1)) :
    Ends inputs xtn since t ((byte.word xtn, ack byte) :: tail)
      (refused ((byte.word xtn, ack byte) :: tail))
      (sent ((byte.word xtn, ack byte) :: tail) * 9 + 1) := by
  obtain ⟨follows, busy, shown⟩ := byte_run legal undisturbed before first
  rw [refused_cons, sent_cons]
  rw [show (1 + sent (if ack byte then [] else tail)) * 9 + 1 =
    9 + (sent (if ack byte then [] else tail) * 9 + 1) by omega]
  refine Ends.after shown ?_
  cases follows with
  | byte next acknowledged order sending =>
      rw [acknowledged]
      exact later next order _ busy sending
  | stop closing stopping =>
      have nothing : (if ack byte then [] else tail) = [] := by
        rcases closing with nacked | final
        · rw [nacked]
          rfl
        · rw [last final, ite_self]
      have flag : (ack byte || refused tail) = ack byte := by
        rcases closing with nacked | final
        · rw [nacked]
          rfl
        · rw [last final]
          exact Bool.or_false _
      rw [nothing, flag]
      exact stop_ends legal undisturbed busy stopping

/-- The bytes from one on, each with the level of its acknowledge slot. -/
def bytesFrom (xtn : Xtn) (ack : Byte → Bool) : Byte → List (BitVec 8 × Bool)
  | .addr =>
      [(xtn.addr, ack .addr), (xtn.data.extractLsb' 8 8, ack .data0),
        (xtn.data.extractLsb' 0 8, ack .data1)]
  | .data0 => [(xtn.data.extractLsb' 8 8, ack .data0), (xtn.data.extractLsb' 0 8, ack .data1)]
  | .data1 => [(xtn.data.extractLsb' 0 8, ack .data1)]

include legal undisturbed in
theorem bytes_end (byte : Byte) : ∀ t, BusyBetween inputs since t →
    Sending xtn ack byte 0 0 (regsAt inputs t) →
    Ends inputs xtn since t (bytesFrom xtn ack byte) (refused (bytesFrom xtn ack byte))
      (sent (bytesFrom xtn ack byte) * 9 + 1) := by
  have data1 : ∀ t, BusyBetween inputs since t → Sending xtn ack .data1 0 0 (regsAt inputs t) →
      Ends inputs xtn since t (bytesFrom xtn ack .data1) (refused (bytesFrom xtn ack .data1))
        (sent (bytesFrom xtn ack .data1) * 9 + 1) := by
    intro t before first
    refine byte_ends legal undisturbed before first (fun _ => rfl) ?_
    intro next order
    cases order
  have data0 : ∀ t, BusyBetween inputs since t → Sending xtn ack .data0 0 0 (regsAt inputs t) →
      Ends inputs xtn since t (bytesFrom xtn ack .data0) (refused (bytesFrom xtn ack .data0))
        (sent (bytesFrom xtn ack .data0) * 9 + 1) := by
    intro t before first
    refine byte_ends legal undisturbed before first (fun order => by cases order) ?_
    intro next order
    cases order
    exact data1
  intro t before first
  cases byte with
  | data1 => exact data1 t before first
  | data0 => exact data0 t before first
  | addr =>
      refine byte_ends legal undisturbed before first (fun order => by cases order) ?_
      intro next order
      cases order
      exact data0

end Period

/-! ### From the write to the end -/

section Write

variable {inputs : Nat → Inputs} {ack : Byte → Bool} {since : Nat}

theorem byte_not_idle {regs : Regs} {now : Inputs} (byte : Byte)
    (pstate : regs.fsmPstate = byte.pstate) : nextPstate regs now ≠ .idle := by
  unfold nextPstate
  rw [pstate]
  cases byte <;> cases regs.bitIdxF.getLsbD 3 && wrapPrdCntrC regs <;>
    cases regs.nackDetectedF <;> simp [Byte.pstate]

theorem idle_bitIdx (t : Nat) :
    busyAt inputs t = false → (regsAt inputs t).bitIdxF = 0 := by
  cases t with
  | zero => exact fun _ => rfl
  | succ t =>
      intro idle
      have unmoved : nextPstate (regsAt inputs t) (inputs t) = .idle := by
        unfold busyAt fsmIdleC at idle
        rw [Bool.not_eq_false', decide_eq_true_eq] at idle
        exact idle
      change nextBitIdx (regsAt inputs t) = 0
      unfold nextBitIdx
      cases pstate : (regsAt inputs t).fsmPstate with
      | idle => rfl
      | start => rfl
      | stop => rfl
      | addr => exact absurd unmoved (byte_not_idle .addr pstate)
      | data0 => exact absurd unmoved (byte_not_idle .data0 pstate)
      | data1 => exact absurd unmoved (byte_not_idle .data1 pstate)

theorem start_write {now : Inputs} (writes : startI2cXtnC now = true) :
    now.lbWrEnIh = true ∧ now.lbAddrId = i2cDriverStatusRegAddr := by
  unfold startI2cXtnC at writes
  by_cases status : now.lbAddrId = i2cDriverStatusRegAddr
  · rw [if_pos status] at writes
    exact ⟨writes, status⟩
  · rw [if_neg status] at writes
    cases writes

theorem starting_first (idle : busyAt inputs since = false)
    (writes : startI2cXtnC (inputs since) = true) :
    Starting (xtnOf (regsAt inputs since)) 0 (regsAt inputs (since + 1)) := by
  obtain ⟨wrEn, status⟩ := start_write writes
  have bitIdx := idle_bitIdx since idle
  have pstate : (regsAt inputs since).fsmPstate = .idle := by
    unfold busyAt fsmIdleC at idle
    rw [Bool.not_eq_false', decide_eq_true_eq] at idle
    exact idle
  have data : nextData (regsAt inputs since) (inputs since) = (regsAt inputs since).dataF := by
    unfold nextData
    rw [wrEn, status]
    rfl
  have other : ∀ {Word : Type} (place : BitVec 8) (new old : Word),
      i2cDriverStatusRegAddr ≠ place →
      (if (inputs since).lbWrEnIh = true ∧ (inputs since).lbAddrId = place then new else old) =
        old := by
    intro Word place new old apart
    refine if_neg fun both => apart ?_
    rw [← status]
    exact both.2
  refine
    { same := ?_
      pstate := ?_
      cntr := ?_
      bitIdx := ?_
      sdo := ?_
      scl := ?_
      nack := ?_ }
  · rw [regsAt_succ]
    unfold xtnOf
    rw [← data]
    exact congrArg₂
      (fun addr div => Xtn.mk addr (nextData (regsAt inputs since) (inputs since)) div)
      (other _ _ _ (by decide)) (other _ _ _ (by decide))
  · change nextPstate (regsAt inputs since) (inputs since) = _
    unfold nextPstate
    rw [pstate, writes]
    rfl
  · change (nextPrdCntr (regsAt inputs since)).toNat = _
    unfold nextPrdCntr fsmIdleC
    rw [pstate]
    rfl
  · change nextBitIdx (regsAt inputs since) = _
    unfold nextBitIdx
    rw [pstate]
  · change nextSdo (regsAt inputs since) = _
    unfold nextSdo
    rw [pstate]
    rfl
  · change nextScl (regsAt inputs since) = _
    unfold nextScl
    rw [pstate]
    exact (decide_eq_true (Nat.zero_le _)).symm
  · change nextNackDetected (regsAt inputs since) (inputs since) = _
    unfold nextNackDetected
    rw [writes, bitIdx]
    cases (regsAt inputs since).nackDetectedF <;> rfl

/-- A write to the status register makes the waveform of one write transaction: the
address byte, the upper and the lower data byte, cut short after the first one that is
not acknowledged.  The master is busy exactly as long, and the flag tells whether an
acknowledge slot was sampled high. -/
theorem write_transaction (idle : busyAt inputs since = false)
    (writes : startI2cXtnC (inputs since) = true)
    (legal : (xtnOf (regsAt inputs since)).Legal) (undisturbed : Undisturbed inputs ack since) :
    ∃ bytes length,
      bytes = bytesFrom (xtnOf (regsAt inputs since)) ack .addr ∧
        length = (sent bytes * 9 + 2) * ((xtnOf (regsAt inputs since)).div.toNat + 1) ∧
        events (linesAt inputs) (since + 1) length = transaction bytes ∧
        (∀ u, since < u → u < since + 1 + length → busyAt inputs u = true) ∧
        busyAt inputs (since + 1 + length) = false ∧
        (regsAt inputs (since + 1 + length)).nackDetectedF = refused bytes := by
  have before : BusyBetween inputs since (since + 1) :=
    ⟨Nat.lt_succ_self since, fun u after inside => by omega⟩
  obtain ⟨sending, busy, started⟩ :=
    start_run legal undisturbed before (starting_first idle writes)
  have ends := bytes_end legal undisturbed .addr _ busy sending
  have length : (sent (bytesFrom (xtnOf (regsAt inputs since)) ack .addr) * 9 + 2) *
      ((xtnOf (regsAt inputs since)).div.toNat + 1) =
        ((xtnOf (regsAt inputs since)).div.toNat + 1) +
          (sent (bytesFrom (xtnOf (regsAt inputs since)) ack .addr) * 9 + 1) *
            ((xtnOf (regsAt inputs since)).div.toNat + 1) := by
    rw [show sent (bytesFrom (xtnOf (regsAt inputs since)) ack .addr) * 9 + 2 =
      1 + (sent (bytesFrom (xtnOf (regsAt inputs since)) ack .addr) * 9 + 1) by omega,
      Nat.add_mul, Nat.one_mul]
  refine ⟨bytesFrom (xtnOf (regsAt inputs since)) ack .addr, _, rfl, length.symm, ?_, ?_, ?_, ?_⟩
  · rw [events_add, started, ends.shown, ← List.append_assoc]
    rfl
  · intro u after inside
    rw [← Nat.add_assoc] at inside
    exact ends.busy.2 u after inside
  · rw [← Nat.add_assoc]
    exact ends.idle
  · rw [← Nat.add_assoc]
    exact ends.flag

/-- The host programs divider, address and data, then writes the status register; the
slave acknowledges everything. -/
def codecWrite (t : Nat) : Inputs :=
  { lbRdEnIh := false
    lbWrEnIh := decide (t < 4)
    lbAddrId :=
      if t = 0 then i2cDriverClkDivRegAddr
      else if t = 1 then i2cDriverAddrRegAddr
      else if t = 2 then i2cDriverDataRegAddr
      else i2cDriverStatusRegAddr
    lbWrDataId := if t = 0 then 100 else if t = 1 then 0x34 else 0x1234
    sdaReleased := false }

theorem write_transaction_codec :
    ∃ length, length = 29 * 101 ∧
      events (linesAt codecWrite) 4 length =
        transaction [(0x34, false), (0x12, false), (0x34, false)] ∧
      (∀ u, 3 < u → u < 4 + length → busyAt codecWrite u = true) ∧
      busyAt codecWrite (4 + length) = false ∧
      (regsAt codecWrite (4 + length)).nackDetectedF = false := by
  have xtn : xtnOf (regsAt codecWrite 3) = { addr := 0x34, data := 0x1234, div := 100 } := rfl
  have undisturbed : Undisturbed codecWrite (fun _ => false) 3 := by
    intro t busy
    exact
      { noWrite := decide_eq_false (by have := busy.1; omega)
        slave := fun _ _ _ _ => rfl }
  have legal : (xtnOf (regsAt codecWrite 3)).Legal := by
    rw [xtn]
    exact ⟨by decide, by decide, by decide⟩
  obtain ⟨bytes, length, rfl, size, shown, busy, idle, flag⟩ :=
    write_transaction rfl rfl legal undisturbed
  rw [xtn] at size shown flag
  exact ⟨length, size, shown, busy, idle, flag⟩

end Write

end Synesthesia.I2cMaster
