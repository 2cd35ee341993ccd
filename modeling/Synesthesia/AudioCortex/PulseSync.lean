/-
`pulse_sync_tggl` with any number of channels and delays and two free clocks.

The registers are packed as in the source.  Each channel is then followed by itself:
what it has on the way is the number of changes along its flops, and every edge keeps
the sum of pulses put out and pulses on the way equal to the pulses taken in.
-/

import Synesthesia.Rtl.Clocked
import Synesthesia.AudioCortex.PulseSyncTggl

namespace Synesthesia.PulseSync

open Synesthesia.Rtl

def pack (bits : Nat → Bool) : (width : Nat) → BitVec width
  | 0 => 0
  | width + 1 => BitVec.cons (bits width) (pack bits width)

theorem getLsbD_pack (bits : Nat → Bool) (width i : Nat) :
    (pack bits width).getLsbD i = (decide (i < width) && bits i) := by
  induction width with
  | zero => simp [pack]
  | succ width ih =>
      rw [pack, BitVec.getLsbD_cons, ih]
      by_cases top : i = width
      · subst top
        simp
      · rw [if_neg top]
        congr 1
        rw [decide_eq_decide]
        omega

structure Regs (lanes delays : Nat) where
  tflopF : BitVec lanes
  ddSyncA2bF : BitVec (lanes * 2)
  pulseFilterF : BitVec (lanes * delays)

variable {lanes delays : Nat}

def reset : Regs lanes delays :=
  { tflopF := 0
    ddSyncA2bF := 0
    pulseFilterF := 0 }

/-- The clock edges of one instant; an edge of clock A comes with the pulse inputs. -/
structure Edges (lanes : Nat) where
  clkA : Option (BitVec lanes)
  clkB : Bool

def nextTflop (regs : Regs lanes delays) (pulseAIh : BitVec lanes) : BitVec lanes :=
  pack (fun i => if pulseAIh.getLsbD i then !regs.tflopF.getLsbD i else regs.tflopF.getLsbD i)
    lanes

def nextDdSync (regs : Regs lanes delays) : BitVec (lanes * 2) :=
  pack (fun k =>
    let i := k / 2
    if k % 2 = 0 then regs.tflopF.getLsbD i else regs.ddSyncA2bF.getLsbD (i * 2)) (lanes * 2)

def nextPulseFilter (regs : Regs lanes delays) : BitVec (lanes * delays) :=
  pack (fun k =>
    let i := k / delays
    if k % delays = 0 then regs.ddSyncA2bF.getLsbD (i * 2 + 1)
    else if k % delays = 1 then
      regs.pulseFilterF.getLsbD (i * delays) ^^ regs.ddSyncA2bF.getLsbD (i * 2 + 1)
    else regs.pulseFilterF.getLsbD (k - 1)) (lanes * delays)

/-- Both domains read what the other held before the instant. -/
def step (regs : Regs lanes delays) (edges : Edges lanes) : Regs lanes delays :=
  { tflopF :=
      match edges.clkA with
      | some pulseAIh => nextTflop regs pulseAIh
      | none => regs.tflopF
    ddSyncA2bF := if edges.clkB then nextDdSync regs else regs.ddSyncA2bF
    pulseFilterF := if edges.clkB then nextPulseFilter regs else regs.pulseFilterF }

def pulseBOh (regs : Regs lanes delays) (i : Nat) : Bool :=
  regs.pulseFilterF.getLsbD ((i + 1) * delays - 1)

def pulseAIh (edges : Edges lanes) (i : Nat) : Bool :=
  match edges.clkA with
  | some pulses => pulses.getLsbD i
  | none => false

/-! ### One channel -/

structure Lane where
  tflop : Bool
  sync0 : Bool
  sync1 : Bool
  filter : Nat → Bool

def lane (regs : Regs lanes delays) (i : Nat) : Lane :=
  { tflop := regs.tflopF.getLsbD i
    sync0 := regs.ddSyncA2bF.getLsbD (i * 2)
    sync1 := regs.ddSyncA2bF.getLsbD (i * 2 + 1)
    filter := fun p => decide (p < delays) && regs.pulseFilterF.getLsbD (i * delays + p) }

def Lane.edgeB (lane : Lane) (delays : Nat) : Lane :=
  { tflop := lane.tflop
    sync0 := lane.tflop
    sync1 := lane.sync0
    filter := fun p =>
      decide (p < delays) &&
        (match p with
        | 0 => lane.sync1
        | 1 => lane.filter 0 ^^ lane.sync1
        | p + 2 => lane.filter (p + 1)) }

def Lane.toggle (lane : Lane) (before : Bool) (pulse : Bool) : Lane :=
  { lane with tflop := if pulse then !before else before }

def Lane.step (lane : Lane) (delays : Nat) (pulse clkB : Bool) : Lane :=
  (if clkB then lane.edgeB delays else lane).toggle lane.tflop pulse

theorem getLsbD_nextDdSync (regs : Regs lanes delays) {i : Nat} (inside : i < lanes) :
    (nextDdSync regs).getLsbD (i * 2) = regs.tflopF.getLsbD i ∧
      (nextDdSync regs).getLsbD (i * 2 + 1) = regs.ddSyncA2bF.getLsbD (i * 2) := by
  have even : i * 2 / 2 = i ∧ i * 2 % 2 = 0 := by omega
  have odd : (i * 2 + 1) / 2 = i ∧ (i * 2 + 1) % 2 ≠ 0 := by omega
  unfold nextDdSync
  rw [getLsbD_pack, getLsbD_pack, decide_eq_true (by omega), decide_eq_true (by omega)]
  simp only [even.1, even.2, odd.1, odd.2, Bool.true_and, reduceIte]
  exact ⟨trivial, trivial⟩

theorem place_lt {i p : Nat} (inside : i < lanes) (within : p < delays) :
    i * delays + p < lanes * delays := by
  have next : (i + 1) * delays ≤ lanes * delays := Nat.mul_le_mul_right delays inside
  rw [Nat.succ_mul] at next
  omega

theorem getLsbD_nextPulseFilter (regs : Regs lanes delays) {i p : Nat} (inside : i < lanes)
    (within : p < delays) :
    (nextPulseFilter regs).getLsbD (i * delays + p) =
      if p = 0 then regs.ddSyncA2bF.getLsbD (i * 2 + 1)
      else if p = 1 then
        regs.pulseFilterF.getLsbD (i * delays) ^^ regs.ddSyncA2bF.getLsbD (i * 2 + 1)
      else regs.pulseFilterF.getLsbD (i * delays + p - 1) := by
  have place : (i * delays + p) / delays = i ∧ (i * delays + p) % delays = p := by
    constructor
    · rw [Nat.mul_comm, Nat.mul_add_div (by omega), Nat.div_eq_of_lt within, Nat.add_zero]
    · rw [Nat.mul_comm, Nat.mul_add_mod, Nat.mod_eq_of_lt within]
  unfold nextPulseFilter
  rw [getLsbD_pack, decide_eq_true (place_lt inside within)]
  simp only [place.1, place.2, Bool.true_and]

theorem Lane.ext {left right : Lane} (tflop : left.tflop = right.tflop)
    (sync0 : left.sync0 = right.sync0) (sync1 : left.sync1 = right.sync1)
    (filter : ∀ p, left.filter p = right.filter p) : left = right := by
  cases left with
  | mk leftTflop leftSync0 leftSync1 leftFilter =>
      cases right with
      | mk rightTflop rightSync0 rightSync1 rightFilter =>
          have bits : leftFilter = rightFilter := funext filter
          simp only at tflop sync0 sync1
          rw [tflop, sync0, sync1, bits]

theorem lane_step (regs : Regs lanes delays) (edges : Edges lanes) {i : Nat}
    (inside : i < lanes) :
    lane (step regs edges) i =
      (lane regs i).step delays (pulseAIh edges i) edges.clkB := by
  have tflop : (step regs edges).tflopF.getLsbD i =
      if pulseAIh edges i then !regs.tflopF.getLsbD i else regs.tflopF.getLsbD i := by
    unfold step pulseAIh
    cases edges.clkA with
    | none => rfl
    | some pulses =>
        simp only [nextTflop, getLsbD_pack, decide_eq_true inside, Bool.true_and]
  have sync := getLsbD_nextDdSync regs inside
  cases clkB : edges.clkB with
  | false =>
      have held : (step regs edges).ddSyncA2bF = regs.ddSyncA2bF ∧
          (step regs edges).pulseFilterF = regs.pulseFilterF := by
        simp only [step, clkB, Bool.false_eq_true, reduceIte]
        exact ⟨trivial, trivial⟩
      apply Lane.ext
      · exact tflop
      · exact congrArg (fun word => word.getLsbD (i * 2)) held.1
      · exact congrArg (fun word => word.getLsbD (i * 2 + 1)) held.1
      · intro p
        simp only [lane, Lane.step, Lane.toggle, held.2, Bool.false_eq_true, reduceIte]
  | true =>
      have moved : (step regs edges).ddSyncA2bF = nextDdSync regs ∧
          (step regs edges).pulseFilterF = nextPulseFilter regs := by
        simp only [step, clkB, reduceIte]
        exact ⟨trivial, trivial⟩
      apply Lane.ext
      · exact tflop
      · simp only [lane, moved.1, sync.1]
        rfl
      · simp only [lane, moved.1, sync.2]
        rfl
      · intro p
        simp only [lane, Lane.step, Lane.toggle, Lane.edgeB, moved.2, reduceIte]
        by_cases within : p < delays
        · rw [getLsbD_nextPulseFilter regs inside within]
          cases p with
          | zero => simp
          | succ p =>
              cases p with
              | zero =>
                  have first : 0 < delays := by omega
                  simp [first]
              | succ p =>
                  have before : p + 1 < delays := by omega
                  simp [before, Nat.add_assoc]
        · simp [within]

/-! ### The instance of `acortex2fgyrus_bffr`

Three delays, and the same clock on both sides. -/

def toTggl (regs : Regs lanes 3) (i : Nat) : PulseSyncTggl.State :=
  { tflopF := regs.tflopF.getLsbD i
    ddSyncA2bF := regs.ddSyncA2bF.extractLsb' (i * 2) 2
    pulseFilterF := regs.pulseFilterF.extractLsb' (i * 3) 3 }

theorem toTggl_step (regs : Regs lanes 3) (pulses : BitVec lanes) {i : Nat}
    (inside : i < lanes) :
    toTggl (step regs { clkA := some pulses, clkB := true }) i =
      PulseSyncTggl.step (toTggl regs i) (pulses.getLsbD i) := by
  have sync := getLsbD_nextDdSync regs inside
  have flop : (nextTflop regs pulses).getLsbD i =
      if pulses.getLsbD i then !regs.tflopF.getLsbD i else regs.tflopF.getLsbD i := by
    rw [nextTflop, getLsbD_pack, decide_eq_true inside, Bool.true_and]
  have syncBits : (nextDdSync regs).extractLsb' (i * 2) 2 =
      (PulseSyncTggl.step (toTggl regs i) (pulses.getLsbD i)).ddSyncA2bF := by
    apply BitVec.eq_of_getLsbD_eq
    intro bit small
    have places : bit = 0 ∨ bit = 1 := by omega
    rcases places with rfl | rfl
    · rw [PulseSyncTggl.step_sync_zero, BitVec.getLsbD_extractLsb', Nat.add_zero, sync.1]
      rfl
    · rw [PulseSyncTggl.step_sync_one, BitVec.getLsbD_extractLsb', sync.2]
      simp [toTggl]
  have filterBits : (nextPulseFilter regs).extractLsb' (i * 3) 3 =
      (PulseSyncTggl.step (toTggl regs i) (pulses.getLsbD i)).pulseFilterF := by
    apply BitVec.eq_of_getLsbD_eq
    intro bit small
    rw [BitVec.getLsbD_extractLsb', getLsbD_nextPulseFilter regs inside small]
    have places : bit = 0 ∨ bit = 1 ∨ bit = 2 := by omega
    rcases places with rfl | rfl | rfl
    · rw [PulseSyncTggl.step_filter_zero]
      simp [toTggl]
    · rw [PulseSyncTggl.step_filter_one]
      simp [toTggl]
    · have last := PulseSyncTggl.step_pulse (toTggl regs i) (pulses.getLsbD i)
      unfold PulseSyncTggl.pulseBOh at last
      rw [last]
      simp [toTggl]
  simp only [toTggl, step, reduceIte, flop, syncBits, filterBits]
  rfl

/-! ### Pulses on the way -/

/-- High bits of the filter from place 1 to place `count`. -/
def waiting (filter : Nat → Bool) : Nat → Nat
  | 0 => 0
  | count + 1 => waiting filter count + (filter (count + 1)).toNat

/-- Pulses taken in and not put out yet: changes along the flops, and delayed pulses
in front of the last place. -/
def Lane.pending (lane : Lane) (delays : Nat) : Nat :=
  (lane.tflop ^^ lane.sync0).toNat + (lane.sync0 ^^ lane.sync1).toNat +
    (lane.sync1 ^^ lane.filter 0).toNat + waiting lane.filter (delays - 2)

theorem waiting_shift {before after : Nat → Bool} {count : Nat}
    (moves : ∀ p, 1 ≤ p → p ≤ count → after (p + 1) = before p) :
    waiting after count + (after (count + 1)).toNat =
      (after 1).toNat + waiting before count := by
  induction count with
  | zero =>
      rw [waiting, waiting, Nat.zero_add]
      rfl
  | succ count ih =>
      have shorter := ih fun p first inside => moves p first (by omega)
      have last := moves (count + 1) (by omega) (Nat.le_refl _)
      simp only [waiting, last]
      omega

theorem pending_edgeB (lane : Lane) (deep : 3 ≤ delays) :
    (lane.edgeB delays).pending delays + ((lane.edgeB delays).filter (delays - 1)).toNat =
      lane.pending delays := by
  have top : delays - 2 + 1 = delays - 1 := by omega
  have moved := @waiting_shift lane.filter (lane.edgeB delays).filter (delays - 2) (by
      intro p first inside
      obtain ⟨q, rfl⟩ := Nat.exists_eq_add_of_le' first
      simp only [Lane.edgeB, decide_eq_true (by omega : q + 2 < delays), Bool.true_and])
  have entered : (lane.edgeB delays).filter 1 = (lane.filter 0 ^^ lane.sync1) := by
    simp only [Lane.edgeB, decide_eq_true (by omega : 1 < delays), Bool.true_and]
  have bottom : (lane.edgeB delays).filter 0 = lane.sync1 := by
    simp only [Lane.edgeB, decide_eq_true (by omega : 0 < delays), Bool.true_and]
  have flops : (lane.edgeB delays).tflop = lane.tflop ∧
      (lane.edgeB delays).sync0 = lane.tflop ∧
      (lane.edgeB delays).sync1 = lane.sync0 := ⟨rfl, rfl, rfl⟩
  rw [top, entered] at moved
  unfold Lane.pending
  rw [bottom, flops.1, flops.2.1, flops.2.2, Bool.xor_self, Bool.xor_comm lane.sync1]
  simp only [Bool.toNat_false, Nat.zero_add]
  omega

theorem pending_toggle (lane : Lane) (sampled : lane.sync0 = lane.tflop) (pulse : Bool) :
    (lane.toggle lane.tflop pulse).pending delays = lane.pending delays + pulse.toNat := by
  unfold Lane.pending Lane.toggle
  rw [sampled]
  cases pulse with
  | false => simp
  | true =>
      cases lane.tflop with
      | false => simp only [Bool.xor_self, Bool.not_false, reduceIte, Bool.xor_false,
          Bool.toNat_true, Bool.toNat_false]; omega
      | true => simp only [Bool.xor_self, Bool.not_true, reduceIte, Bool.false_xor,
          Bool.toNat_true, Bool.toNat_false]; omega

/-! ### Runs -/

section Run

variable (lanes delays) (edges : Nat → Edges lanes) (i : Nat)

def stateAt : Nat → Regs lanes delays := run PulseSync.step reset edges

def pulsesIn : Nat → Nat
  | 0 => 0
  | t + 1 => pulsesIn t + (pulseAIh (edges t) i).toNat

/-- Cycles of clock B with the output of channel `i` high, each counted at the edge
that begins it. -/
def pulsesOut : Nat → Nat
  | 0 => 0
  | t + 1 => pulsesOut t +
      ((edges t).clkB && pulseBOh (stateAt lanes delays edges (t + 1)) i).toNat

def edgesB (s : Nat) : Nat → Nat
  | 0 => 0
  | n + 1 => edgesB s n + (edges (s + n)).clkB.toNat

/-- Between two pulses of channel `i` clock B samples the channel. -/
def Spaced : Prop :=
  ∀ first second, first < second → pulseAIh (edges first) i = true →
    pulseAIh (edges second) i = true →
    ∃ between, first < between ∧ between ≤ second ∧ (edges between).clkB = true

variable {lanes delays edges i}

theorem pulseBOh_eq (regs : Regs lanes delays) (deep : 3 ≤ delays) :
    pulseBOh regs i = (lane regs i).filter (delays - 1) := by
  have place : (i + 1) * delays - 1 = i * delays + (delays - 1) := by
    rw [Nat.succ_mul]
    omega
  rw [pulseBOh, place]
  simp only [lane, decide_eq_true (by omega : delays - 1 < delays), Bool.true_and]

theorem unsampled (inside : i < lanes) :
    ∀ t, (lane (stateAt lanes delays edges t) i).sync0 ≠
        (lane (stateAt lanes delays edges t) i).tflop →
      ∃ first < t, pulseAIh (edges first) i = true ∧
        ∀ between, first < between → between < t → (edges between).clkB = false := by
  intro t
  induction t with
  | zero =>
      intro apart
      simp [stateAt, reset, lane] at apart
  | succ t ih =>
      have next := lane_step (stateAt lanes delays edges t) (edges t) inside
      intro apart
      have state : stateAt lanes delays edges (t + 1) =
          PulseSync.step (stateAt lanes delays edges t) (edges t) := rfl
      rw [state, next] at apart
      cases pulse : pulseAIh (edges t) i with
      | true => exact ⟨t, Nat.lt_succ_self t, pulse, fun between after before => by omega⟩
      | false =>
          rw [pulse] at apart
          cases clkB : (edges t).clkB with
          | true =>
              rw [clkB] at apart
              exact absurd rfl apart
          | false =>
              rw [clkB] at apart
              obtain ⟨first, before, came, quiet⟩ := ih apart
              refine ⟨first, by omega, came, ?_⟩
              intro between after inside
              rcases Nat.lt_succ_iff_lt_or_eq.mp inside with earlier | rfl
              · exact quiet between after earlier
              · exact clkB

theorem lane_reset (i : Nat) :
    lane (reset : Regs lanes delays) i =
      { tflop := false
        sync0 := false
        sync1 := false
        filter := fun _ => false } := by
  apply Lane.ext
  · simp [lane, reset]
  · simp [lane, reset]
  · simp [lane, reset]
  · simp [lane, reset]

theorem waiting_eq_zero {filter : Nat → Bool} {count : Nat}
    (low : ∀ p, 1 ≤ p → p ≤ count → filter p = false) : waiting filter count = 0 := by
  induction count with
  | zero => rfl
  | succ count ih =>
      rw [waiting, ih fun p first inside => low p first (by omega),
        low (count + 1) (by omega) (Nat.le_refl _)]
      rfl

/-- Pulses taken in are put out or on the way. -/
theorem conserved (deep : 3 ≤ delays) (inside : i < lanes) (spaced : Spaced lanes edges i) :
    ∀ t, pulsesIn lanes edges i t = pulsesOut lanes delays edges i t +
      (lane (stateAt lanes delays edges t) i).pending delays := by
  intro t
  induction t with
  | zero =>
      have start : stateAt lanes delays edges 0 = reset := rfl
      rw [start, lane_reset, Lane.pending, waiting_eq_zero fun _ _ _ => rfl]
      rfl
  | succ t ih =>
      have state : stateAt lanes delays edges (t + 1) =
          PulseSync.step (stateAt lanes delays edges t) (edges t) := rfl
      have next := lane_step (stateAt lanes delays edges t) (edges t) inside
      rw [pulsesIn, pulsesOut, pulseBOh_eq _ deep, state, next, ih]
      cases clkB : (edges t).clkB with
      | true =>
          have shifted := pending_edgeB (lane (stateAt lanes delays edges t) i) deep
          have toggled := @pending_toggle delays
            ((lane (stateAt lanes delays edges t) i).edgeB delays) rfl (pulseAIh (edges t) i)
          have same : ((lane (stateAt lanes delays edges t) i).step delays
              (pulseAIh (edges t) i) true) =
            ((lane (stateAt lanes delays edges t) i).edgeB delays).toggle
              ((lane (stateAt lanes delays edges t) i).edgeB delays).tflop
              (pulseAIh (edges t) i) := rfl
          have output : (((lane (stateAt lanes delays edges t) i).edgeB delays).toggle
              ((lane (stateAt lanes delays edges t) i).edgeB delays).tflop
              (pulseAIh (edges t) i)).filter (delays - 1) =
            ((lane (stateAt lanes delays edges t) i).edgeB delays).filter (delays - 1) := rfl
          rw [same, toggled, output, Bool.true_and]
          omega
      | false =>
          have same : ((lane (stateAt lanes delays edges t) i).step delays
              (pulseAIh (edges t) i) false) =
            (lane (stateAt lanes delays edges t) i).toggle
              (lane (stateAt lanes delays edges t) i).tflop (pulseAIh (edges t) i) := rfl
          rw [same, Bool.false_and, Bool.toNat_false, Nat.add_zero]
          cases pulse : pulseAIh (edges t) i with
          | false => rfl
          | true =>
              have sampled : (lane (stateAt lanes delays edges t) i).sync0 =
                  (lane (stateAt lanes delays edges t) i).tflop := by
                by_contra apart
                obtain ⟨first, before, came, quiet⟩ := unsampled inside t apart
                obtain ⟨between, after, upTo, edge⟩ := spaced first t before came pulse
                rcases Nat.lt_or_eq_of_le upTo with earlier | rfl
                · rw [quiet between after earlier] at edge
                  cases edge
                · rw [clkB] at edge
                  cases edge
              rw [pending_toggle _ sampled true]
              omega

/-! ### Quiet channels -/

/-- What `n` edges of clock B without a pulse leave. -/
structure Calm (delays n : Nat) (lane : Lane) : Prop where
  sync0 : 1 ≤ n → lane.sync0 = lane.tflop
  sync1 : 2 ≤ n → lane.sync1 = lane.sync0
  filter0 : 3 ≤ n → lane.filter 0 = lane.sync1
  filter : ∀ p, 1 ≤ p → p + 3 ≤ n → lane.filter p = false

theorem calm_edgeB {n : Nat} {lane : Lane} (deep : 3 ≤ delays) (calm : Calm delays n lane) :
    Calm delays (n + 1) (lane.edgeB delays) where
  sync0 := fun _ => rfl
  sync1 := fun late => calm.sync0 (by omega)
  filter0 := by
    intro late
    have bottom : (lane.edgeB delays).filter 0 = lane.sync1 := by
      simp only [Lane.edgeB, decide_eq_true (by omega : 0 < delays), Bool.true_and]
    rw [bottom]
    exact calm.sync1 (by omega)
  filter := by
    intro p first late
    cases p with
    | zero => omega
    | succ p =>
        cases p with
        | zero =>
            simp only [Lane.edgeB, calm.filter0 (by omega), Bool.xor_self, Bool.and_false]
        | succ p =>
            simp only [Lane.edgeB, calm.filter (p + 1) (by omega) (by omega), Bool.and_false]

theorem calm_on (deep : 3 ≤ delays) (inside : i < lanes) {s : Nat} :
    ∀ n, (∀ k < n, pulseAIh (edges (s + k)) i = false) →
      Calm delays (edgesB lanes edges s n) (lane (stateAt lanes delays edges (s + n)) i) := by
  intro n
  induction n with
  | zero =>
      intro _
      exact
        { sync0 := fun late => by cases late
          sync1 := fun late => by cases late
          filter0 := fun late => by cases late
          filter := by
            intro p _ late
            cases late }
  | succ n ih =>
      intro quiet
      have before := ih fun k earlier => quiet k (by omega)
      have none := quiet n (Nat.lt_succ_self n)
      have next := lane_step (stateAt lanes delays edges (s + n)) (edges (s + n)) inside
      have state : stateAt lanes delays edges (s + (n + 1)) =
          PulseSync.step (stateAt lanes delays edges (s + n)) (edges (s + n)) := rfl
      rw [state, next, none, edgesB]
      cases clkB : (edges (s + n)).clkB with
      | true => exact calm_edgeB deep before
      | false => exact before

theorem Calm.pending {n : Nat} {lane : Lane} (calm : Calm delays n lane) (deep : 3 ≤ delays)
    (long : delays + 1 ≤ n) : lane.pending delays = 0 := by
  unfold Lane.pending
  rw [calm.sync0 (by omega), calm.sync1 (by omega), calm.filter0 (by omega),
    calm.sync1 (by omega), calm.sync0 (by omega), Bool.xor_self,
    waiting_eq_zero fun p first inside => calm.filter p first (by omega)]
  rfl

/-! ### The synchroniser -/

/-- For every channel, its pulses are never multiplied and none is lost; and what a
channel puts out depends on the pulses of that channel alone. -/
theorem pulses_conserved (lanes delays : Nat) (deep : 3 ≤ delays) (edges : Nat → Edges lanes)
    (i : Nat) (inside : i < lanes) :
    (Spaced lanes edges i →
      (∀ t, pulsesOut lanes delays edges i t ≤ pulsesIn lanes edges i t) ∧
      ∀ s n, (∀ k < n, pulseAIh (edges (s + k)) i = false) →
        delays + 1 ≤ edgesB lanes edges s n →
        pulsesOut lanes delays edges i (s + n) = pulsesIn lanes edges i (s + n)) ∧
    ∀ others : Nat → Edges lanes,
      (∀ t, (others t).clkB = (edges t).clkB ∧
        pulseAIh (others t) i = pulseAIh (edges t) i) →
      ∀ t, pulseBOh (stateAt lanes delays others t) i =
        pulseBOh (stateAt lanes delays edges t) i := by
  refine ⟨fun spaced => ⟨?_, ?_⟩, ?_⟩
  · intro t
    have sum := conserved deep inside spaced t
    omega
  · intro s n quiet long
    have sum := conserved deep inside spaced (s + n)
    rw [(calm_on deep inside n quiet).pending deep long] at sum
    omega
  · intro others same t
    have lanesAgree : ∀ t, lane (stateAt lanes delays others t) i =
        lane (stateAt lanes delays edges t) i := by
      intro t
      induction t with
      | zero => rfl
      | succ t ih =>
          have left := lane_step (stateAt lanes delays others t) (others t) inside
          have right := lane_step (stateAt lanes delays edges t) (edges t) inside
          rw [ih, (same t).1, (same t).2, ← right] at left
          exact left
    rw [pulseBOh_eq _ deep, pulseBOh_eq _ deep, lanesAgree]

/-- Two pulses of the first of two channels, and clock B at half the rate. -/
def twoPulses (t : Nat) : Edges 2 :=
  { clkA := if t = 0 ∨ t = 2 then some 1 else none
    clkB := decide (t % 2 = 1) }

theorem twoPulses_spaced : Spaced 2 twoPulses 0 := by
  intro first second order came came'
  have only {t : Nat} (pulse : pulseAIh (twoPulses t) 0 = true) : t = 0 ∨ t = 2 := by
    by_contra other
    have none : (twoPulses t).clkA = none := if_neg other
    rw [pulseAIh, none] at pulse
    cases pulse
  rcases only came with rfl | rfl
  · exact ⟨1, by decide, order, rfl⟩
  · exact absurd (only came') (by omega)

theorem twoPulses_arrive : pulsesOut 2 3 twoPulses 0 (3 + 8) = 2 :=
  (((pulses_conserved 2 3 (by decide) twoPulses 0 (by decide)).1 twoPulses_spaced).2 3 8
    (by decide) (by decide)).trans (by decide)

end Run

end Synesthesia.PulseSync
