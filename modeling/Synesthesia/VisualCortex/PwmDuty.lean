/-
The duty of the pulse-width modulation.

While the counter runs over unchanged RAM contents, everything in the refresh
engine is a function of the counter: in the first clocks of a period the words
of the RAM pass through its read port and reach the slot of their channel.  A
channel is on as long as the counter does not exceed its word, which is one
clock more than the word says.
-/

import Mathlib.Data.Nat.Count
import Synesthesia.VisualCortex.VcortexTop

namespace Synesthesia.VcortexTop

open Synesthesia.Rtl

/-! ### Counting over a period -/

theorem count_first {period bound : Nat} :
    ∀ n ≤ period, Nat.count (fun k => k % period ≤ bound) n = min (bound + 1) n := by
  intro n
  induction n with
  | zero => exact fun _ => rfl
  | succ n ih =>
      intro inside
      rw [Nat.count_succ, ih (by omega), Nat.mod_eq_of_lt inside]
      split <;> omega

theorem count_phase {period bound : Nat} (inside : bound < period) (offset : Nat) :
    Nat.count (fun k => (offset + k) % period ≤ bound) period = bound + 1 := by
  have first := @count_first period bound period (Nat.le_refl period)
  have split' := Nat.count_add (fun k => k % period ≤ bound) offset period
  have turned := Nat.count_add (fun k => k % period ≤ bound) period offset
  simp only [Nat.add_mod_left] at turned
  rw [Nat.add_comm period offset] at turned
  omega

/-! ### A reset state and every state after it -/

/-- A refresh belongs to the first clocks after the counter was zero. -/
structure Early (state : State) : Prop where
  refresh : state.gen.pwmRefreshOh = true → state.gen.pwmCntrF = 0
  en : state.refresh.addrCntrEnF = true →
    state.gen.pwmCntrF.toNat ≤ state.refresh.pwmRamRdAddrOd.toNat + 1
  first : state.refresh.ramRdDelayF.getLsbD 0 = true → state.gen.pwmCntrF.toNat ≤ 17
  second : state.refresh.ramRdDelayF.getLsbD 1 = true → state.gen.pwmCntrF.toNat ≤ 18

theorem cntr_step_le (state : State) (inputs : Inputs) :
    (step state inputs).gen.pwmCntrF.toNat ≤ state.gen.pwmCntrF.toNat + 1 := by
  unfold step PwmGen.step
  by_cases enabled : state.lb.pwmGenEnOh = true
  · simp only [enabled, reduceIte]
    rw [BitVec.toNat_add]
    exact Nat.mod_le _ _
  · simp only [enabled]
    exact Nat.zero_le _

theorem Early.step {state : State} (early : Early state) (inputs : Inputs) :
    Early (VcortexTop.step state inputs) := by
  have grows := cntr_step_le state inputs
  constructor
  case refresh =>
    unfold VcortexTop.step PwmGen.step
    simp only [decide_eq_true_eq]
    intro last
    rw [last]
    split
    · rfl
    · rfl
  case en =>
    intro next
    have enabled : (VcortexTop.step state inputs).refresh.addrCntrEnF =
        if state.refresh.addrCntrEnF then decide (state.refresh.pwmRamRdAddrOd ≠ 15)
        else state.gen.pwmRefreshOh := rfl
    have addr : (VcortexTop.step state inputs).refresh.pwmRamRdAddrOd =
        if state.refresh.addrCntrEnF then state.refresh.pwmRamRdAddrOd + 1 else 0 := rfl
    rw [enabled] at next
    rw [addr]
    cases en : state.refresh.addrCntrEnF with
    | true =>
        rw [en, if_pos rfl, decide_eq_true_eq] at next
        have bound := early.en en
        have below := state.refresh.pwmRamRdAddrOd.isLt
        have other : state.refresh.pwmRamRdAddrOd.toNat ≠ 15 :=
          fun same => next (BitVec.eq_of_toNat_eq same)
        rw [if_pos rfl, BitVec.toNat_add]
        have one : (1 : BitVec 4).toNat = 1 := rfl
        omega
    | false =>
        rw [en, if_neg Bool.false_ne_true] at next
        have zero := early.refresh next
        have none : (0 : BitVec 16).toNat = 0 := rfl
        rw [zero, none] at grows
        exact Nat.le_trans grows (by omega)
  case first =>
    intro delayed
    have delay : (VcortexTop.step state inputs).refresh.ramRdDelayF =
        state.refresh.ramRdDelayF.extractLsb' 0 1 ++ BitVec.ofBool state.refresh.addrCntrEnF := rfl
    rw [delay, shift_getLsbD _ _ (by omega), if_pos rfl] at delayed
    have bound := early.en delayed
    have below := state.refresh.pwmRamRdAddrOd.isLt
    omega
  case second =>
    intro delayed
    have delay : (VcortexTop.step state inputs).refresh.ramRdDelayF =
        state.refresh.ramRdDelayF.extractLsb' 0 1 ++ BitVec.ofBool state.refresh.addrCntrEnF := rfl
    rw [delay, shift_getLsbD _ _ (by omega), if_neg (by omega)] at delayed
    have bound := early.first delayed
    omega

theorem early (inputs : Nat → Inputs) (t : Nat) : Early (stateAt inputs t) := by
  induction t with
  | zero =>
      constructor
      case refresh => exact fun _ => rfl
      case en => exact fun _ => Nat.zero_le _
      case first => exact fun _ => Nat.zero_le _
      case second => exact fun _ => Nat.zero_le _
  | succ t ih => exact ih.step (inputs t)

/-! ### Following the counter -/

/-- The modulation is on, the RAM holds `v`, and no write meets the refresh. -/
structure Steady (v : BitVec 4 → BitVec 16) (state : State) (inputs : Inputs) : Prop where
  enabled : state.lb.pwmGenEnOh = true
  contents : state.ram.memory = v
  apart : ¬ (ramPorts state inputs).meet

structure Tracking (v : BitVec 4 → BitVec 16) (c : Nat) (state : State) : Prop where
  cntr : state.gen.pwmCntrF = BitVec.ofNat 16 c
  refresh : state.gen.pwmRefreshOh = decide (c = 0)
  en : state.refresh.addrCntrEnF = decide (1 ≤ c ∧ c ≤ 16)
  addr : 1 ≤ c → c ≤ 16 → state.refresh.pwmRamRdAddrOd = BitVec.ofNat 4 (c - 1)
  first : state.refresh.ramRdDelayF.getLsbD 0 = decide (2 ≤ c ∧ c ≤ 17)
  second : state.refresh.ramRdDelayF.getLsbD 1 = decide (3 ≤ c ∧ c ≤ 18)
  latch : 2 ≤ c → c ≤ 17 → state.ram.latchB = v (BitVec.ofNat 4 (c - 2))
  q : 3 ≤ c → c ≤ 18 → state.ram.qB = v (BitVec.ofNat 4 (c - 3))
  line : 1 ≤ c → c ≤ 18 → state.refresh.pwmLineNoF = BitVec.ofNat 4 (c - 3)

theorem ofNat_pred_add_one {n : Nat} (positive : 1 ≤ n) :
    BitVec.ofNat 4 (n - 1) + 1 = BitVec.ofNat 4 n := by
  have sum : BitVec.ofNat 4 (n - 1 + 1) = BitVec.ofNat 4 (n - 1) + BitVec.ofNat 4 1 :=
    BitVec.ofNat_add _ _
  rw [Nat.sub_add_cancel positive] at sum
  exact sum.symm

theorem cntr_last {state : State} {c : Nat} (small : c < 65536)
    (cntr : state.gen.pwmCntrF = BitVec.ofNat 16 c) :
    state.gen.pwmCntrF = 0xffff ↔ c = 65535 := by
  rw [cntr, ← BitVec.toNat_inj, BitVec.toNat_ofNat, Nat.mod_eq_of_lt small]
  rfl

theorem Tracking.step {v : BitVec 4 → BitVec 16} {c : Nat} {state : State} {inputs : Inputs}
    (tracking : Tracking v c state) (steady : Steady v state inputs) (small : c < 65536) :
    Tracking v ((c + 1) % 65536) (VcortexTop.step state inputs) := by
  have shifted : (VcortexTop.step state inputs).refresh.ramRdDelayF =
      state.refresh.ramRdDelayF.extractLsb' 0 1 ++ BitVec.ofBool state.refresh.addrCntrEnF := rfl
  have enNext : (VcortexTop.step state inputs).refresh.addrCntrEnF =
      if state.refresh.addrCntrEnF then decide (state.refresh.pwmRamRdAddrOd ≠ 15)
      else state.gen.pwmRefreshOh := rfl
  have addrNext : (VcortexTop.step state inputs).refresh.pwmRamRdAddrOd =
      if state.refresh.addrCntrEnF then state.refresh.pwmRamRdAddrOd + 1 else 0 := rfl
  have lineNext : (VcortexTop.step state inputs).refresh.pwmLineNoF =
      if state.gen.pwmRefreshOh then 0
      else state.refresh.pwmLineNoF +
        BitVec.ofNat 4 (state.refresh.ramRdDelayF.getLsbD 1).toNat := rfl
  have latchNext : (VcortexTop.step state inputs).ram.latchB =
      v state.refresh.pwmRamRdAddrOd := by
    rw [← steady.contents]
    exact if_neg steady.apart
  constructor
  case cntr =>
    unfold VcortexTop.step PwmGen.step
    simp only [steady.enabled, reduceIte, tracking.cntr]
    have wrapped : BitVec.ofNat 16 ((c + 1) % 65536) = BitVec.ofNat 16 (c + 1) := by
      rw [← BitVec.toNat_inj, BitVec.toNat_ofNat, BitVec.toNat_ofNat]
      exact Nat.mod_mod _ _
    rw [wrapped]
    exact (BitVec.ofNat_add c 1).symm
  case refresh =>
    unfold VcortexTop.step PwmGen.step
    simp only [cntr_last small tracking.cntr, decide_eq_decide]
    omega
  case en =>
    rw [enNext, tracking.en, tracking.refresh]
    by_cases running : 1 ≤ c ∧ c ≤ 16
    · have last : state.refresh.pwmRamRdAddrOd ≠ 15 ↔ c ≠ 16 := by
        rw [tracking.addr running.1 running.2, ne_eq, ← BitVec.toNat_inj, BitVec.toNat_ofNat]
        have fifteen : (15 : BitVec 4).toNat = 15 := rfl
        omega
      rw [decide_eq_true running, if_pos rfl, decide_eq_decide, last]
      omega
    · rw [decide_eq_false running, if_neg Bool.false_ne_true, decide_eq_decide]
      omega
  case addr =>
    intro low high
    rw [addrNext, tracking.en]
    by_cases running : 1 ≤ c ∧ c ≤ 16
    · rw [decide_eq_true running, if_pos rfl, tracking.addr running.1 running.2,
        ofNat_pred_add_one running.1]
      congr 1
      omega
    · rw [decide_eq_false running, if_neg Bool.false_ne_true]
      have zero : (c + 1) % 65536 - 1 = 0 := by
        omega
      rw [zero]
      rfl
  case first =>
    rw [shifted, shift_getLsbD _ _ (by omega), if_pos rfl, tracking.en, decide_eq_decide]
    omega
  case second =>
    rw [shifted, shift_getLsbD _ _ (by omega), if_neg (by omega), tracking.first,
      decide_eq_decide]
    omega
  case latch =>
    intro low high
    rw [latchNext, tracking.addr (by omega) (by omega)]
    congr 2
    omega
  case q =>
    intro low high
    have moved : (VcortexTop.step state inputs).ram.qB = state.ram.latchB := rfl
    rw [moved, tracking.latch (by omega) (by omega)]
    congr 2
    omega
  case line =>
    intro low high
    rw [lineNext, tracking.refresh, tracking.second]
    by_cases start : c = 0
    · subst start
      rfl
    · rw [decide_eq_false start, if_neg Bool.false_ne_true, tracking.line (by omega) (by omega)]
      by_cases counting : 3 ≤ c ∧ c ≤ 18
      · have next : (c + 1) % 65536 - 3 = c - 2 := by
          omega
        have before : c - 3 = c - 2 - 1 := by
          omega
        rw [decide_eq_true counting, next, before]
        exact ofNat_pred_add_one (by omega)
      · have next : (c + 1) % 65536 - 3 = c - 3 := by
          omega
        rw [decide_eq_false counting, next]
        exact BitVec.add_zero _

theorem Early.tracking {state : State} (early : Early state) (v : BitVec 4 → BitVec 16)
    (last : state.gen.pwmCntrF = 0xffff) : Tracking v 65535 state := by
  have value : state.gen.pwmCntrF.toNat = 65535 := by
    rw [last]
    rfl
  have below := state.refresh.pwmRamRdAddrOd.isLt
  constructor
  case cntr => exact last
  case refresh =>
    rw [decide_eq_false (by omega), ← Bool.not_eq_true]
    intro refresh
    rw [early.refresh refresh] at value
    cases value
  case en =>
    rw [decide_eq_false (by omega), ← Bool.not_eq_true]
    intro en
    have bound := early.en en
    omega
  case first =>
    rw [decide_eq_false (by omega), ← Bool.not_eq_true]
    intro first
    have bound := early.first first
    omega
  case second =>
    rw [decide_eq_false (by omega), ← Bool.not_eq_true]
    intro second
    have bound := early.second second
    omega
  all_goals
    intro _ high
    omega

section Run

variable (inputs : Nat → Inputs)

/-- Nothing changes in the cycles from `first` up to `last`. -/
def SteadyOver (v : BitVec 4 → BitVec 16) (first last : Nat) : Prop :=
  ∀ t, first ≤ t → t < last → Steady v (stateAt inputs t) (inputs t)

/-- Number of clocks among `65536` from `first` on in which a channel is on. -/
def onClocks (channel : BitVec 4) (first : Nat) : Nat :=
  Nat.count (fun k => (stateAt inputs (first + k)).gen.pwmDataOd channel = true) 65536

variable {inputs} {v : BitVec 4 → BitVec 16} {first last : Nat}

theorem SteadyOver.counts (steady : SteadyOver inputs v first last) :
    ∀ k, first + k ≤ last → (stateAt inputs (first + k)).gen.pwmCntrF =
      (stateAt inputs first).gen.pwmCntrF + BitVec.ofNat 16 k := by
  intro k
  induction k with
  | zero => exact fun _ => (BitVec.add_zero _).symm
  | succ k ih =>
      intro inside
      have enabled := (steady (first + k) (by omega) (by omega)).enabled
      rw [← Nat.add_assoc, stateAt_succ]
      unfold VcortexTop.step PwmGen.step
      simp only [enabled, reduceIte, ih (by omega)]
      rw [BitVec.ofNat_add, ← BitVec.add_assoc]
      rfl

theorem SteadyOver.wraps (steady : SteadyOver inputs v first last) (long : first + 65535 ≤ last) :
    ∃ wrap, first ≤ wrap ∧ wrap ≤ first + 65535 ∧
      (stateAt inputs wrap).gen.pwmCntrF = 0xffff := by
  have below := (stateAt inputs first).gen.pwmCntrF.isLt
  refine ⟨first + (65535 - (stateAt inputs first).gen.pwmCntrF.toNat), by omega, by omega, ?_⟩
  rw [steady.counts _ (by omega), ← BitVec.toNat_inj, BitVec.toNat_add, BitVec.toNat_ofNat]
  have top : (0xffff : BitVec 16).toNat = 65535 := rfl
  omega

theorem SteadyOver.tracking {wrap : Nat} (steady : SteadyOver inputs v wrap last)
    (wraps : (stateAt inputs wrap).gen.pwmCntrF = 0xffff) :
    ∀ j, wrap + 1 + j ≤ last → Tracking v (j % 65536) (stateAt inputs (wrap + 1 + j)) := by
  intro j
  induction j with
  | zero =>
      intro inside
      exact ((early inputs wrap).tracking v wraps).step (steady wrap (Nat.le_refl _) (by omega))
        (by decide)
  | succ j ih =>
      intro inside
      have next := (ih (by omega)).step (steady (wrap + 1 + j) (by omega) (by omega))
        (Nat.mod_lt _ (by decide))
      rw [Nat.mod_add_mod] at next
      exact next

/-- The words go to their slots one by one, and no other word goes there. -/
theorem SteadyOver.copied {wrap : Nat} (steady : SteadyOver inputs v wrap last)
    (wraps : (stateAt inputs wrap).gen.pwmCntrF = 0xffff) :
    ∀ j, wrap + 1 + j ≤ last → ∀ channel : BitVec 4, channel.toNat + 3 < j →
      (stateAt inputs (wrap + 1 + j)).refresh.pwmOnVecOd channel = v channel := by
  intro j
  induction j with
  | zero =>
      intro _ channel before
      omega
  | succ j ih =>
      intro inside channel before
      have tracking := steady.tracking wraps j (by omega)
      have stored : (stateAt inputs (wrap + 1 + (j + 1))).refresh.pwmOnVecOd =
          store (stateAt inputs (wrap + 1 + j)).refresh.pwmOnVecOd
            ((stateAt inputs (wrap + 1 + j)).refresh.ramRdDelayF.getLsbD 1)
            (stateAt inputs (wrap + 1 + j)).refresh.pwmLineNoF
            (stateAt inputs (wrap + 1 + j)).ram.qB := rfl
      have below := channel.isLt
      rw [stored, tracking.second]
      by_cases copying : 3 ≤ j % 65536 ∧ j % 65536 ≤ 18
      · rw [decide_eq_true copying, tracking.line (by omega) copying.2,
          tracking.q copying.1 copying.2]
        by_cases same : channel = BitVec.ofNat 4 (j % 65536 - 3)
        · rw [← same, store_same]
        · rw [store_other _ _ _ same]
          refine ih (by omega) channel ?_
          by_contra late
          refine same (BitVec.eq_of_toNat_eq ?_)
          rw [BitVec.toNat_ofNat]
          omega
      · rw [decide_eq_false copying, store_false]
        exact ih (by omega) channel (by omega)

theorem SteadyOver.onVec (steady : SteadyOver inputs v first last) {t : Nat}
    (later : first + 65555 ≤ t) (upto : t ≤ last) :
    (stateAt inputs t).refresh.pwmOnVecOd = v := by
  obtain ⟨wrap, after, before, wraps⟩ := steady.wraps (by omega)
  obtain ⟨j, rfl⟩ := Nat.exists_eq_add_of_le (show wrap + 1 ≤ t by omega)
  have rest : SteadyOver inputs v wrap last := fun t later => steady t (by omega)
  funext channel
  have below := channel.isLt
  exact rest.copied wraps j upto channel (by omega)

/-- A channel is on for one clock more than its word. -/
theorem SteadyOver.onClocks_eq (steady : SteadyOver inputs v first last) {start : Nat}
    (later : first + 65555 < start) (upto : start + 65535 ≤ last) (channel : BitVec 4) :
    onClocks inputs channel start = (v channel).toNat + 1 := by
  obtain ⟨wrap, after, before, wraps⟩ := steady.wraps (by omega)
  have rest : SteadyOver inputs v wrap last := fun t later => steady t (by omega)
  have level : ∀ k < 65536, ((stateAt inputs (start + k)).gen.pwmDataOd channel = true ↔
      (start - wrap - 2 + k) % 65536 ≤ (v channel).toNat) := by
    intro k inside
    obtain ⟨j, same⟩ := Nat.exists_eq_add_of_le (show wrap + 2 ≤ start + k by omega)
    have place : start - wrap - 2 + k = j := by
      omega
    have tracking := rest.tracking wraps j (by omega)
    have vec := steady.onVec (t := wrap + 1 + j) (by omega) (by omega)
    rw [same, place, show wrap + 2 + j = wrap + 1 + j + 1 by omega, stateAt_succ]
    unfold VcortexTop.step PwmGen.step
    simp only [tracking.cntr, vec, decide_eq_true_eq, BitVec.le_def, BitVec.toNat_ofNat]
    rw [Nat.mod_eq_of_lt (show j % 65536 < 2 ^ 16 from Nat.mod_lt _ (by decide))]
  rw [onClocks, ← count_phase (v channel).isLt (start - wrap - 2)]
  apply Nat.le_antisymm
  · exact Nat.count_mono_left fun k inside => (level k inside).mp
  · exact Nat.count_mono_left fun k inside => (level k inside).mpr

end Run

/-- After two periods over unchanged contents every refresh leaves each word in the
slot of its channel, and in every period each channel is on for one clock more
than its word, hence never for the programmed time. -/
theorem onClocks_ne (inputs : Nat → Inputs) (v : BitVec 4 → BitVec 16) (first last : Nat)
    (steady : SteadyOver inputs v first last) :
    (∀ t, first + 131072 ≤ t → t ≤ last → (stateAt inputs t).refresh.pwmOnVecOd = v) ∧
      ∀ start, first + 131072 ≤ start → start + 65535 ≤ last → ∀ channel,
        onClocks inputs channel start = (v channel).toNat + 1 ∧
          onClocks inputs channel start ≠ (v channel).toNat := by
  refine ⟨fun t later upto => steady.onVec (by omega) upto, ?_⟩
  intro start later upto channel
  have clocks := steady.onClocks_eq (by omega) upto channel
  refine ⟨clocks, ?_⟩
  rw [clocks]
  exact Nat.succ_ne_self _

/-- The host writes an on-time for channel 3 and turns the modulation on. -/
def enabling (t : Nat) : Inputs :=
  { lbRdEnIh := false
    lbWrEnIh := decide (t < 2)
    lbAddrId := if t = 0 then 0x103 else 0
    lbWrDataId := if t = 0 then 7 else 1
    mixed := 0 }

def onTimes : BitVec 4 → BitVec 16 := store (fun _ => 0) true 3 7

theorem enabling_steady (last : Nat) : SteadyOver enabling onTimes 2 last := by
  have unwritten : ∀ t, pwmRamWrEn (enabling (t + 1)) = false := by
    intro t
    have other : pwmRamSelC (enabling (t + 1)) = false :=
      decide_eq_false (show ¬ (0 : BitVec 12).extractLsb' 8 4 = vcortexPwmRamCode by decide)
    rw [pwmRamWrEn, other, Bool.false_and]
  have kept : ∀ t, (stateAt enabling (t + 2)).lb.pwmGenEnOh = true ∧
      (stateAt enabling (t + 2)).ram.memory = onTimes := by
    intro t
    induction t with
    | zero => exact ⟨rfl, rfl⟩
    | succ t ih =>
        obtain ⟨enabled, contents⟩ := ih
        have quiet : (enabling (t + 2)).lbWrEnIh = false :=
          decide_eq_false (show ¬ t + 2 < 2 by omega)
        rw [stateAt_succ]
        constructor
        · unfold step VcortexLb.step
          simp only [quiet, Bool.and_false, Bool.false_eq_true, reduceIte]
          exact enabled
        · unfold step TrueDualPortRam.step ramPorts
          simp only [unwritten, store_false]
          exact contents
  intro t after _
  obtain ⟨k, rfl⟩ := Nat.exists_eq_add_of_le' after
  constructor
  case enabled => exact (kept k).1
  case contents => exact (kept k).2
  case apart =>
    rintro ⟨wren, _⟩
    cases (unwritten (k + 1)).symm.trans wren

theorem onClocks_ne_enabling :
    onTimes 3 = 7 ∧ onClocks enabling 3 200000 = 8 ∧ onClocks enabling 3 200000 ≠ 7 :=
  ⟨rfl, (onClocks_ne enabling onTimes 2 300000 (enabling_steady 300000)).2 200000 (by decide)
    (by decide) 3⟩

/-- A channel with on-time zero is not off. -/
theorem zero_not_off :
    ¬ ∀ (inputs : Nat → Inputs) (v : BitVec 4 → BitVec 16) (first last : Nat),
      SteadyOver inputs v first last → ∀ start, first + 131072 ≤ start → start + 65535 ≤ last →
        ∀ channel, onClocks inputs channel start = (v channel).toNat := by
  intro duty
  have steady := enabling_steady 300000
  have on : onClocks enabling 0 200000 = 1 := steady.onClocks_eq (by decide) (by decide) 0
  rw [duty enabling _ 2 300000 steady 200000 (by decide) (by decide) 0] at on
  cases on

end Synesthesia.VcortexTop
