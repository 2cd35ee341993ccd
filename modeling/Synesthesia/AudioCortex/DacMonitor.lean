/-
`syn_acortex_codec_dac_mon`: the codec's view of the serialiser.

The monitor waits for a pulse of the sample clock, shifts in one bit at each
rising edge of the bit clock after it, and hands out a frame when both channels
are complete.
-/

import Synesthesia.AudioCortex.DacFrame

namespace Synesthesia.DacMonitor

open Synesthesia.Rtl
open Synesthesia.Wm8731DrvrDac

structure Pins where
  dacLrc : Bool
  dacBclk : Bool
  dacDat : Bool

def pins (state : Wm8731DrvrDac.State) : Pins :=
  { dacLrc := state.audDacLrcOd
    dacBclk := state.audBlckOd
    dacDat := state.audDacDatOd }

inductive Phase where
  | waitRise
  | waitFall
  | collect (bits : List Bool)
  deriving DecidableEq, Repr

structure Monitor where
  phase : Phase
  frames : List (BitVec 32 × BitVec 32)

def init : Monitor :=
  { phase := .waitRise
    frames := [] }

/-- `(ldata << 1) + dac_dat` for one bit after the other. -/
def shiftedIn (bits : List Bool) : BitVec 32 :=
  bits.foldl (fun word bit => (word <<< 1) + (BitVec.ofBool bit).setWidth 32) 0

/-- One clock, seen from the levels before and after its edge. -/
def observe (bps : Nat) (monitor : Monitor) (before now : Pins) : Monitor :=
  match monitor.phase with
  | .waitRise =>
      { monitor with phase := if !before.dacLrc && now.dacLrc then .waitFall else .waitRise }
  | .waitFall =>
      { monitor with phase := if before.dacLrc && !now.dacLrc then .collect [] else .waitFall }
  | .collect bits =>
      if !before.dacBclk && now.dacBclk then
        if bits.length + 1 = 2 * bps then
          { phase := .waitRise
            frames :=
              monitor.frames ++
                [(shiftedIn ((bits ++ [now.dacDat]).take bps),
                  shiftedIn ((bits ++ [now.dacDat]).drop bps))] }
        else { monitor with phase := .collect (bits ++ [now.dacDat]) }
      else monitor

def watch (bps : Nat) (levels : Nat → Pins) : Nat → Monitor
  | 0 => init
  | t + 1 => observe bps (watch bps levels t) (levels t) (levels (t + 1))

/-- What the monitor hands out for a pair: the bits of the sample width. -/
def onWire (wide : Bool) (pair : BitVec 32 × BitVec 32) : BitVec 32 × BitVec 32 :=
  ((pair.1.setWidth (width wide)).setWidth 32, (pair.2.setWidth (width wide)).setWidth 32)

/-! ### Words from bits -/

theorem shiftedIn_concat (bits : List Bool) (bit : Bool) :
    shiftedIn (bits ++ [bit]) = (shiftedIn bits <<< 1) + (BitVec.ofBool bit).setWidth 32 := by
  rw [shiftedIn, List.foldl_append, ← shiftedIn]
  rfl

theorem shiftedIn_toNat (word : BitVec 32) {bps : Nat} (small : bps ≤ 32) :
    ∀ count ≤ bps,
      (shiftedIn ((List.range count).map fun j => word.getLsbD (bps - 1 - j))).toNat =
        word.toNat % 2 ^ bps / 2 ^ (bps - count) := by
  intro count
  induction count with
  | zero =>
      intro _
      rw [Nat.sub_zero, Nat.div_eq_of_lt (Nat.mod_lt _ (Nat.two_pow_pos _))]
      rfl
  | succ count ih =>
      intro inside
      have before := ih (by omega)
      have place : bps - count = bps - 1 - count + 1 := by
        omega
      have next : bps - (count + 1) = bps - 1 - count := by
        omega
      have bit : (word.getLsbD (bps - 1 - count)).toNat =
          word.toNat % 2 ^ bps / 2 ^ (bps - 1 - count) % 2 := by
        rw [← BitVec.testBit_toNat, Nat.toNat_testBit]
        have shift : 2 ^ bps = 2 ^ (bps - 1 - count) * 2 ^ (count + 1) := by
          rw [← Nat.pow_add]
          congr 1
          omega
        rw [shift, Nat.mod_mul_right_div_self, Nat.pow_succ, Nat.mod_mul_left_mod]
      have halved : word.toNat % 2 ^ bps / 2 ^ (bps - count) =
          word.toNat % 2 ^ bps / 2 ^ (bps - 1 - count) / 2 := by
        rw [place, Nat.pow_succ, Nat.div_div_eq_div_mul]
      have upper : word.toNat % 2 ^ bps / 2 ^ (bps - 1 - count) < 2 ^ 32 :=
        Nat.lt_of_le_of_lt (Nat.div_le_self _ _)
          (Nat.lt_of_lt_of_le (Nat.mod_lt _ (Nat.two_pow_pos _))
            (Nat.pow_le_pow_right (by decide) small))
      have low : ((BitVec.ofBool (word.getLsbD (bps - 1 - count))).setWidth 32).toNat =
          (word.getLsbD (bps - 1 - count)).toNat := by
        cases word.getLsbD (bps - 1 - count) <;> rfl
      rw [List.range_succ, List.map_append, List.map_singleton, shiftedIn_concat,
        BitVec.toNat_add, BitVec.toNat_shiftLeft, before, low, bit, halved, next,
        Nat.shiftLeft_eq, Nat.pow_one]
      omega

theorem shiftedIn_word (word : BitVec 32) {bps : Nat} (small : bps ≤ 32) :
    shiftedIn ((List.range bps).map fun j => word.getLsbD (bps - 1 - j)) =
      (word.setWidth bps).setWidth 32 := by
  have inside : word.toNat % 2 ^ bps < 2 ^ 32 :=
    Nat.lt_of_le_of_lt (Nat.mod_le _ _) word.isLt
  rw [← BitVec.toNat_inj, shiftedIn_toNat word small bps (Nat.le_refl _), Nat.sub_self,
    Nat.pow_zero, Nat.div_one, BitVec.toNat_setWidth, BitVec.toNat_setWidth,
    Nat.mod_eq_of_lt inside]

def frameBits (wide : Bool) (pair : BitVec 32 × BitVec 32) (count : Nat) : List Bool :=
  (List.range count).map (frameBit wide pair)

theorem frameBits_succ (wide : Bool) (pair : BitVec 32 × BitVec 32) (count : Nat) :
    frameBits wide pair (count + 1) =
      frameBits wide pair count ++ [frameBit wide pair count] := by
  rw [frameBits, List.range_succ, List.map_append]
  rfl

theorem frameBits_decode (wide : Bool) (pair : BitVec 32 × BitVec 32) :
    (shiftedIn ((frameBits wide pair (2 * width wide)).take (width wide)),
      shiftedIn ((frameBits wide pair (2 * width wide)).drop (width wide))) =
      onWire wide pair := by
  have small : width wide ≤ 32 := by
    rcases width_cases wide with long | short <;> omega
  have first : (frameBits wide pair (2 * width wide)).take (width wide) =
      (List.range (width wide)).map fun j => pair.1.getLsbD (width wide - 1 - j) := by
    rw [frameBits, ← List.map_take, List.take_range, Nat.min_eq_left (by omega)]
    apply List.map_congr_left
    intro j inside
    rw [frameBit, if_pos (List.mem_range.mp inside)]
  have second : (frameBits wide pair (2 * width wide)).drop (width wide) =
      (List.range (width wide)).map fun j => pair.2.getLsbD (width wide - 1 - j) := by
    rw [frameBits, ← List.map_drop, Nat.two_mul, List.range_add, List.drop_left' (by simp),
      List.map_map]
    apply List.map_congr_left
    intro j inside
    rw [Function.comp_apply, frameBit, if_neg (by omega)]
    congr 1
    omega
  rw [first, second, shiftedIn_word _ small, shiftedIn_word _ small]
  rfl

/-! ### A run of the monitor -/

section Run

variable (wide : Bool) (inputs : Nat → Inputs)

def monitorAt : Nat → Monitor := watch (width wide) fun t => pins (stateAt inputs t)

theorem monitorAt_succ (t : Nat) :
    monitorAt wide inputs (t + 1) =
      observe (width wide) (monitorAt wide inputs t) (pins (stateAt inputs t))
        (pins (stateAt inputs (t + 1))) := rfl

instance (s : Nat) : Decidable (Begins inputs s) := inferInstanceAs (Decidable (_ ∧ _))

def begun : Nat → List (BitVec 32 × BitVec 32) :=
  collect fun s => strobed (decide (Begins inputs s)) (pairOf inputs s)

/-- Where the monitor stands `i` clocks after the start of a frame. -/
def during (pair : BitVec 32 × BitVec 32) (frames : List (BitVec 32 × BitVec 32)) (i : Nat) :
    Monitor :=
  if i < 2 then ⟨.waitRise, frames⟩
  else if i < 10 then ⟨.waitFall, frames⟩
  else if i < 5 + 16 * width wide then ⟨.collect (frameBits wide pair ((i - 5) / 8)), frames⟩
  else ⟨.waitRise, frames ++ [onWire wide pair]⟩

variable {wide inputs}

theorem observe_wait {monitor : Monitor} {before now : Pins}
    (waiting : monitor.phase = .waitRise) (low : now.dacLrc = false) (bps : Nat) :
    observe bps monitor before now = monitor := by
  obtain ⟨phase, frames⟩ := monitor
  cases waiting
  simp only [observe, low, Bool.and_false, Bool.false_eq_true, reduceIte]

theorem during_step {s : Nat} {pair : BitVec 32 × BitVec 32}
    {frames : List (BitVec 32 × BitVec 32)} (shows : Shows inputs wide s pair) {i : Nat}
    (inside : i < 9 + 16 * width wide) :
    observe (width wide) (during wide pair frames i) (pins (stateAt inputs (s + i)))
        (pins (stateAt inputs (s + i + 1))) =
      during wide pair frames (i + 1) := by
  have widths := width_cases wide
  have lrcNext : (pins (stateAt inputs (s + i + 1))).dacLrc = decide (1 ≤ i ∧ i ≤ 8) := by
    rw [Bool.eq_iff_iff, decide_eq_true_eq]
    exact (shows.lrc (s + i + 1) (by omega) (by omega)).trans (by omega)
  by_cases pulse : i < 2
  · rw [during, if_pos pulse]
    by_cases first : i = 0
    · rw [observe_wait rfl (by rw [lrcNext, decide_eq_false_iff_not]; omega), during,
        if_pos (by omega)]
    · have lrcNow : (pins (stateAt inputs (s + i))).dacLrc = false := by
        rw [← Bool.not_eq_true]
        intro high
        have place := (shows.lrc (s + i) (by omega) (by omega)).mp high
        omega
      rw [during, if_neg (by omega), if_pos (by omega), observe, lrcNow, lrcNext,
        decide_eq_true (by omega)]
      rfl
  · have lrcNow : (pins (stateAt inputs (s + i))).dacLrc = decide (i ≤ 9) := by
      rw [Bool.eq_iff_iff, decide_eq_true_eq]
      exact (shows.lrc (s + i) (by omega) (by omega)).trans (by omega)
    rw [during, if_neg pulse]
    by_cases fall : i < 10
    · rw [if_pos fall, during, if_neg (by omega)]
      by_cases last : i = 9
      · rw [if_neg (by omega), if_pos (by omega), observe, lrcNow, lrcNext,
          decide_eq_true (by omega), decide_eq_false (by omega)]
        simp only [Bool.not_false, Bool.and_self, reduceIte]
        rw [show (i + 1 - 5) / 8 = 0 by omega]
        rfl
      · rw [if_pos (by omega), observe, lrcNext, decide_eq_true (by omega)]
        simp only [Bool.not_true, Bool.and_false, Bool.false_eq_true, reduceIte]
    · rw [if_neg fall]
      by_cases collecting : i < 5 + 16 * width wide
      · rw [if_pos collecting, during, if_neg (by omega), if_neg (by omega)]
        have rises := shows.edge (s + i) (by omega) (by omega)
        by_cases edge : i % 8 = 4
        · obtain ⟨before, now⟩ := rises.mpr ⟨(i - 12) / 8, by omega, by omega⟩
          have dat : (pins (stateAt inputs (s + i + 1))).dacDat =
              frameBit wide pair ((i - 5) / 8) := by
            have held := shows.bit ((i - 5) / 8) (by omega) 3 (by decide)
            rw [show s + 10 + 8 * ((i - 5) / 8) + 3 = s + i + 1 by omega] at held
            exact held
          have length : (frameBits wide pair ((i - 5) / 8)).length = (i - 5) / 8 := by
            rw [frameBits, List.length_map, List.length_range]
          have more : (i + 1 - 5) / 8 = (i - 5) / 8 + 1 := by
            omega
          have rise : (!(pins (stateAt inputs (s + i))).dacBclk &&
              (pins (stateAt inputs (s + i + 1))).dacBclk) = true := by
            rw [Bool.and_eq_true, Bool.not_eq_true']
            exact ⟨before, now⟩
          simp only [observe, rise, reduceIte, dat, length, ← frameBits_succ]
          by_cases complete : (i - 5) / 8 + 1 = 2 * width wide
          · rw [if_pos complete, if_neg (by omega), complete, frameBits_decode]
          · rw [if_neg complete, if_pos (by omega), more]
        · have level : ¬ (!(pins (stateAt inputs (s + i))).dacBclk &&
              (pins (stateAt inputs (s + i + 1))).dacBclk) = true := by
            rw [Bool.and_eq_true, Bool.not_eq_true']
            intro both
            obtain ⟨j, _, same⟩ := rises.mp both
            omega
          simp only [observe, if_neg level]
          rw [if_pos (by omega), show (i + 1 - 5) / 8 = (i - 5) / 8 by omega]
      · rw [if_neg collecting, observe_wait rfl (by rw [lrcNext, decide_eq_false_iff_not]; omega),
          during, if_neg (by omega), if_neg (by omega), if_neg (by omega)]

theorem monitorAt_during {s : Nat} {pair : BitVec 32 × BitVec 32}
    {frames : List (BitVec 32 × BitVec 32)} (shows : Shows inputs wide s pair)
    (waiting : monitorAt wide inputs s = ⟨.waitRise, frames⟩) :
    ∀ i ≤ 9 + 16 * width wide, monitorAt wide inputs (s + i) = during wide pair frames i := by
  intro i
  induction i with
  | zero =>
      intro _
      rw [Nat.add_zero, waiting]
      rfl
  | succ i ih =>
      intro inside
      rw [← Nat.add_assoc, monitorAt_succ, ih (by omega)]
      exact during_step shows (by omega)

/-! ### Frame after frame -/

theorem Begins.busy {s : Nat} (begins : Begins inputs s)
    (configured : Configured inputs wide s (s + 8 + 16 * width wide)) {i : Nat} (some' : 1 ≤ i)
    (inside : i ≤ 8 + 16 * width wide) :
    (stateAt inputs (s + i)).fsmPstate ≠ .idle ∧
      (stateAt inputs (s + i)).fsmPstate ≠ .waitForFs :=
  begins.runs (fun t after upto => (configured t after upto).2) some' inside

theorem Begins.over {s : Nat} (begins : Begins inputs s)
    (configured : Configured inputs wide s (s + 8 + 16 * width wide)) :
    (stateAt inputs (s + 9 + 16 * width wide)).fsmPstate = .waitForFs :=
  (begins.ends fun t after upto => (configured t after upto).2).1

/-- Between frames the monitor waits with all frames begun so far; during a frame
it started from there. -/
inductive Watching (wide : Bool) (inputs : Nat → Inputs) (t : Nat) : Prop where
  | between
      (rest : (stateAt inputs t).fsmPstate = .idle ∨ (stateAt inputs t).fsmPstate = .waitForFs)
      (waiting : monitorAt wide inputs t =
        ⟨.waitRise, (begun inputs t).map (onWire wide)⟩)
  | inside (s : Nat) (begins : Begins inputs s) (after : s < t)
      (before : t ≤ s + 8 + 16 * width wide)
      (waiting : monitorAt wide inputs s =
        ⟨.waitRise, (begun inputs s).map (onWire wide)⟩)

theorem begun_busy {s : Nat} (begins : Begins inputs s)
    (configured : Configured inputs wide s (s + 8 + 16 * width wide)) :
    ∀ i ≤ 8 + 16 * width wide, begun inputs (s + 1 + i) = begun inputs s ++ [pairOf inputs s] := by
  intro i
  induction i with
  | zero =>
      intro _
      rw [Nat.add_zero, begun, collect_succ, decide_eq_true begins]
      rfl
  | succ i ih =>
      intro inside
      have none : ¬ Begins inputs (s + 1 + i) := by
        intro again
        have busy := Begins.busy begins configured (i := 1 + i) (by omega) (by omega)
        rw [← Nat.add_assoc] at busy
        exact busy.1 again.1
      rw [← ih (by omega), ← Nat.add_assoc, begun, collect_succ, decide_eq_false none,
        strobed_false, List.append_nil]

theorem watching (configured : ∀ s, Begins inputs s →
    Configured inputs wide s (s + 8 + 16 * width wide)) (t : Nat) : Watching wide inputs t := by
  induction t with
  | zero => exact .between (.inl rfl) rfl
  | succ t ih =>
      cases ih with
      | between rest waiting =>
          have low : (pins (stateAt inputs (t + 1))).dacLrc = false := by
            change ((stateAt inputs t).dacDrvrEnF &&
              decide ((stateAt inputs t).fsmPstate = .start)) = false
            rw [Bool.and_eq_false_iff, decide_eq_false_iff_not]
            rcases rest with idle | wait
            · rw [idle]
              exact .inr (by decide)
            · rw [wait]
              exact .inr (by decide)
          by_cases begins : Begins inputs t
          · exact .inside t begins (Nat.lt_succ_self t) (by omega) waiting
          · refine .between (rest_step rest begins) ?_
            rw [monitorAt_succ, observe_wait (by rw [waiting]) low, waiting, begun, collect_succ,
              decide_eq_false begins, strobed_false, List.append_nil]
      | inside s begins after before waiting =>
          by_cases last : t = s + 8 + 16 * width wide
          · subst last
            have widths := width_cases wide
            have shows := begins.shows (configured s begins)
            refine .between (.inr ?_) ?_
            · rw [show s + 8 + 16 * width wide + 1 = s + 9 + 16 * width wide by omega]
              exact Begins.over begins (configured s begins)
            · have ended := monitorAt_during shows waiting (9 + 16 * width wide) (Nat.le_refl _)
              have all := begun_busy begins (configured s begins) (8 + 16 * width wide)
                (Nat.le_refl _)
              rw [show s + 8 + 16 * width wide + 1 = s + (9 + 16 * width wide) by omega, ended,
                show s + (9 + 16 * width wide) = s + 1 + (8 + 16 * width wide) by omega, all,
                during, if_neg (by omega), if_neg (by omega), if_neg (by omega),
                List.map_append, List.map_singleton]
          · exact .inside s begins (by omega) (by omega) waiting

/-- The monitor hands out the frames begun, in order, and never anything else. -/
theorem frames_isPrefix (configured : ∀ s, Begins inputs s →
    Configured inputs wide s (s + 8 + 16 * width wide)) (t : Nat) :
    (monitorAt wide inputs t).frames <+: (begun inputs t).map (onWire wide) := by
  cases watching configured t with
  | between rest waiting =>
      have shown : (monitorAt wide inputs t).frames = (begun inputs t).map (onWire wide) :=
        congrArg Monitor.frames waiting
      exact shown ▸ List.prefix_refl _
  | inside s begins after before waiting =>
      obtain ⟨i, rfl⟩ := Nat.exists_eq_add_of_le (Nat.succ_le_of_lt after)
      rw [Nat.succ_eq_add_one] at before ⊢
      have shows := begins.shows (configured s begins)
      have place := monitorAt_during shows waiting (1 + i) (by omega)
      rw [← Nat.add_assoc] at place
      rw [place, begun_busy begins (configured s begins) i (by omega), List.map_append, during]
      split
      · exact List.prefix_append _ _
      · split
        · exact List.prefix_append _ _
        · split
          · exact List.prefix_append _ _
          · exact List.prefix_refl _

theorem frames_idle (configured : ∀ s, Begins inputs s →
    Configured inputs wide s (s + 8 + 16 * width wide)) {t : Nat}
    (idle : (stateAt inputs t).fsmPstate = .idle) :
    (monitorAt wide inputs t).frames = (begun inputs t).map (onWire wide) := by
  cases watching configured t with
  | between rest waiting => rw [waiting]
  | inside s begins after before waiting =>
      have busy := Begins.busy begins (configured s begins) (i := t - s) (by omega) (by omega)
      rw [show s + (t - s) = t by omega] at busy
      exact absurd idle busy.1

end Run

end Synesthesia.DacMonitor
