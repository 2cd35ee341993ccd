/-
`clk_mux` and `dd_sync`: the master clock of the codec.

Each clock samples its own enable twice, so the enables never change for all clocks at
once.  While more than one clock is enabled, none is passed on.  The clocks are levels
that change in any order, and an edge is a change of a level.
-/

import Synesthesia.AudioCortex.Wm8731DrvrDac

namespace Synesthesia.ClkMux

open Synesthesia.Rtl

variable {clocks : Nat}

structure State (clocks : Nat) where
  clkVecIr : Fin clocks → Bool
  syncF : Fin clocks → BitVec 2

/-- The levels the clocks take, and the enables just before that. -/
structure Inputs (clocks : Nat) where
  clkVecIr : Fin clocks → Bool
  rstIl : Bool
  clkEnVecId : Fin clocks → Bool

def reset (clkVecIr : Fin clocks → Bool) : State clocks :=
  { clkVecIr := clkVecIr
    syncF := fun _ => 0 }

def rises (state : State clocks) (inputs : Inputs clocks) (i : Fin clocks) : Bool :=
  !state.clkVecIr i && inputs.clkVecIr i

def ddSync (syncF : BitVec 2) (signalId : Bool) : BitVec 2 :=
  syncF.extractLsb' 0 1 ++ BitVec.ofBool signalId

def step (state : State clocks) (inputs : Inputs clocks) : State clocks :=
  { clkVecIr := inputs.clkVecIr
    syncF := fun i =>
      if !inputs.rstIl then 0
      else if rises state inputs i then ddSync (state.syncF i) (inputs.clkEnVecId i)
      else state.syncF i }

def clkEnVecSyncW (state : State clocks) (i : Fin clocks) : Bool := (state.syncF i).getLsbD 1

def xenoHotChkVecC (state : State clocks) (i : Fin clocks) : Bool :=
  decide (∃ j, j ≠ i ∧ clkEnVecSyncW state j = true)

def clkGateVecC (state : State clocks) (i : Fin clocks) : Bool :=
  state.clkVecIr i && clkEnVecSyncW state i && !xenoHotChkVecC state i

def clkOr (state : State clocks) : Bool := decide (∃ i, clkGateVecC state i = true)

/-- The one-hot encoder of `wm8731_drvr_dac`. -/
def mclkEnVecC (driver : Wm8731DrvrDac.State) : Fin 4 → Bool :=
  Function.update (fun _ => false) driver.mclkSelF.toFin driver.mclkEnF

/-! ### The gates -/

theorem clkGateVecC_iff (state : State clocks) (i : Fin clocks) :
    clkGateVecC state i = true ↔
      state.clkVecIr i = true ∧ ∀ j, clkEnVecSyncW state j = true ↔ j = i := by
  simp only [clkGateVecC, xenoHotChkVecC, Bool.and_eq_true, Bool.not_eq_true',
    decide_eq_false_iff_not]
  constructor
  · rintro ⟨⟨level, own⟩, others⟩
    refine ⟨level, fun j => ⟨fun enabled => ?_, fun same => same ▸ own⟩⟩
    by_contra other
    exact others ⟨j, other, enabled⟩
  · rintro ⟨level, only⟩
    refine ⟨⟨level, (only i).mpr rfl⟩, ?_⟩
    rintro ⟨j, other, enabled⟩
    exact other ((only j).mp enabled)

theorem clkOr_disabled {state : State clocks} (none : ∀ i, clkEnVecSyncW state i = false) :
    clkOr state = false := by
  rw [clkOr, decide_eq_false_iff_not]
  rintro ⟨i, gate⟩
  have own := (((clkGateVecC_iff state i).mp gate).2 i).mpr rfl
  rw [none i] at own
  exact Bool.false_ne_true own

theorem clkOr_selected {state : State clocks} {i : Fin clocks}
    (only : ∀ j, clkEnVecSyncW state j = true ↔ j = i) : clkOr state = state.clkVecIr i := by
  rw [clkOr, Bool.eq_iff_iff, decide_eq_true_iff]
  constructor
  · rintro ⟨j, gate⟩
    obtain ⟨level, alone⟩ := (clkGateVecC_iff state j).mp gate
    have same : i = j := (alone i).mp ((only i).mpr rfl)
    rw [same]
    exact level
  · intro level
    exact ⟨i, (clkGateVecC_iff state i).mpr ⟨level, only⟩⟩

theorem mclkEnVecC_iff (driver : Wm8731DrvrDac.State) (i : Fin 4) :
    mclkEnVecC driver i = true ↔ driver.mclkEnF = true ∧ i = driver.mclkSelF.toFin := by
  rw [mclkEnVecC, Function.update_apply]
  split
  case isTrue same => exact ⟨fun enabled => ⟨enabled, same⟩, And.left⟩
  case isFalse other => exact ⟨nofun, fun selected => absurd selected.2 other⟩

/-! ### What the synchronisers hold -/

theorem ddSync_low (syncF : BitVec 2) (signalId : Bool) :
    (ddSync syncF signalId).getLsbD 0 = signalId := by
  simp only [ddSync, BitVec.getLsbD_append, BitVec.getLsbD_ofBool]
  simp

theorem ddSync_high (syncF : BitVec 2) (signalId : Bool) :
    (ddSync syncF signalId).getLsbD 1 = syncF.getLsbD 0 := by
  simp only [ddSync, BitVec.getLsbD_append, BitVec.getLsbD_extractLsb', BitVec.getLsbD_ofBool]
  simp

section Run

variable (clkVecIr : Fin clocks → Bool) (inputs : Nat → Inputs clocks)

def stateAt (t : Nat) : State clocks := run step (reset clkVecIr) inputs t

def risesAt (i : Fin clocks) (t : Nat) : Bool := rises (stateAt clkVecIr inputs t) (inputs t) i

/-- Edges of a clock in the `length` instants from `start` on. -/
def edges (i : Fin clocks) (start : Nat) : Nat → Nat
  | 0 => 0
  | length + 1 => edges i start length + (risesAt clkVecIr inputs i (start + length)).toNat

variable {clkVecIr inputs} {i : Fin clocks}

theorem syncF_reset {t : Nat} (resetting : (inputs t).rstIl = false) :
    (stateAt clkVecIr inputs (t + 1)).syncF i = 0 := by
  rw [stateAt, run_succ, step]
  dsimp only
  rw [resetting, Bool.not_false, if_pos rfl]

theorem syncF_step {t : Nat} (running : (inputs t).rstIl = true) :
    (stateAt clkVecIr inputs (t + 1)).syncF i =
      if risesAt clkVecIr inputs i t then
        ddSync ((stateAt clkVecIr inputs t).syncF i) ((inputs t).clkEnVecId i)
      else (stateAt clkVecIr inputs t).syncF i := by
  rw [stateAt, run_succ, step]
  dsimp only
  rw [running, Bool.not_true, if_neg Bool.false_ne_true]
  rfl

theorem synced {level : Bool} {start length : Nat}
    (steady : ∀ k < length, (inputs (start + k)).rstIl = true ∧
      (inputs (start + k)).clkEnVecId i = level) :
    (1 ≤ edges clkVecIr inputs i start length →
        ((stateAt clkVecIr inputs (start + length)).syncF i).getLsbD 0 = level) ∧
      (2 ≤ edges clkVecIr inputs i start length →
        ((stateAt clkVecIr inputs (start + length)).syncF i).getLsbD 1 = level) := by
  induction length with
  | zero => exact ⟨nofun, nofun⟩
  | succ length ih =>
      obtain ⟨low, high⟩ := ih fun k before => steady k (Nat.lt_succ_of_lt before)
      obtain ⟨running, enable⟩ := steady length (Nat.lt_succ_self length)
      rw [edges, ← Nat.add_assoc, syncF_step running]
      cases risesAt clkVecIr inputs i (start + length) with
      | false =>
          rw [if_neg Bool.false_ne_true, Bool.toNat_false, Nat.add_zero]
          exact ⟨low, high⟩
      | true =>
          rw [if_pos rfl, Bool.toNat_true, ddSync_low, ddSync_high]
          exact ⟨fun _ => enable, fun two => low (by omega)⟩

variable (clkVecIr inputs i) in
/-- The enable was sampled with `count` edges of the clock still to come before `t`. -/
def Sampled (count t : Nat) : Prop :=
  ∃ s < t, risesAt clkVecIr inputs i s = true ∧ (inputs s).clkEnVecId i = true ∧
    edges clkVecIr inputs i (s + 1) (t - (s + 1)) = count

theorem Sampled.next {count t : Nat} (sampled : Sampled clkVecIr inputs i count t) :
    Sampled clkVecIr inputs i (count + (risesAt clkVecIr inputs i t).toNat) (t + 1) := by
  obtain ⟨s, before, edge, enable, counted⟩ := sampled
  refine ⟨s, Nat.lt_succ_of_lt before, edge, enable, ?_⟩
  have length : t + 1 - (s + 1) = t - (s + 1) + 1 := by omega
  have last : s + 1 + (t - (s + 1)) = t := by omega
  rw [length, edges, counted, last]

theorem flops_sampled (t : Nat) :
    (((stateAt clkVecIr inputs t).syncF i).getLsbD 0 = true → Sampled clkVecIr inputs i 0 t) ∧
      (((stateAt clkVecIr inputs t).syncF i).getLsbD 1 = true →
        Sampled clkVecIr inputs i 1 t) := by
  induction t with
  | zero =>
      have cleared : (stateAt clkVecIr inputs 0).syncF i = 0 := rfl
      rw [cleared]
      exact ⟨nofun, nofun⟩
  | succ t ih =>
      obtain ⟨low, high⟩ := ih
      cases running : (inputs t).rstIl with
      | false =>
          rw [syncF_reset running]
          exact ⟨nofun, nofun⟩
      | true =>
          rw [syncF_step running]
          have next {count : Nat} (sampled : Sampled clkVecIr inputs i count t) := sampled.next
          cases rising : risesAt clkVecIr inputs i t with
          | false =>
              rw [rising] at next
              rw [if_neg Bool.false_ne_true]
              exact ⟨fun set => next (low set), fun set => next (high set)⟩
          | true =>
              rw [rising] at next
              rw [if_pos rfl, ddSync_low, ddSync_high]
              refine ⟨fun set => ⟨t, Nat.lt_succ_self t, rising, set, ?_⟩,
                fun set => next (low set)⟩
              rw [Nat.sub_self, edges]

end Run

/-! ### The master clock -/

section Mclk

variable (mclkPllIr : Nat → Fin 4 → Bool) (rstIl : Nat → Bool)
  (driver : Nat → Wm8731DrvrDac.State)

def mclkInputs (t : Nat) : Inputs 4 :=
  { clkVecIr := mclkPllIr (t + 1)
    rstIl := rstIl t
    clkEnVecId := mclkEnVecC (driver t) }

def mclkAt (t : Nat) : State 4 := stateAt (mclkPllIr 0) (mclkInputs mclkPllIr rstIl driver) t

def audMclkOd (t : Nat) : Bool := clkOr (mclkAt mclkPllIr rstIl driver t)

def pllEdges (i : Fin 4) (start length : Nat) : Nat :=
  edges (mclkPllIr 0) (mclkInputs mclkPllIr rstIl driver) i start length

/-- The registers keep their selection and are not reset. -/
structure Selecting (mclkEnF : Bool) (mclkSelF : BitVec 2) (start length : Nat) : Prop where
  running : ∀ k < length, rstIl (start + k) = true
  enable : ∀ k < length, (driver (start + k)).mclkEnF = mclkEnF
  select : ∀ k < length, (driver (start + k)).mclkSelF = mclkSelF

variable {mclkPllIr rstIl driver}

theorem mclkAt_levels (t : Nat) : (mclkAt mclkPllIr rstIl driver t).clkVecIr = mclkPllIr t := by
  cases t with
  | zero => rfl
  | succ t => rfl

/-- The master clock is never two clocks at once: while it is high, the only clock enabled is
high, and the registers selected it at its last edge but one. -/
theorem mclk_high {t : Nat} (high : audMclkOd mclkPllIr rstIl driver t = true) :
    ∃ i, mclkPllIr t i = true ∧
      (∀ j, clkEnVecSyncW (mclkAt mclkPllIr rstIl driver t) j = true ↔ j = i) ∧
      ∃ s < t, (driver s).mclkEnF = true ∧ (driver s).mclkSelF.toFin = i ∧
        risesAt (mclkPllIr 0) (mclkInputs mclkPllIr rstIl driver) i s = true ∧
        pllEdges mclkPllIr rstIl driver i (s + 1) (t - (s + 1)) = 1 := by
  obtain ⟨i, gate⟩ := of_decide_eq_true high
  obtain ⟨level, only⟩ := (clkGateVecC_iff _ i).mp gate
  obtain ⟨s, before, edge, enable, counted⟩ := (flops_sampled t).2 ((only i).mpr rfl)
  obtain ⟨enabled, selected⟩ := (mclkEnVecC_iff (driver s) i).mp enable
  rw [mclkAt_levels] at level
  exact ⟨i, level, only, s, before, enabled, selected.symm, edge, counted⟩

/-- Four clocks, the slowest at a quarter of the fastest. -/
def divided (t : Nat) (i : Fin 4) : Bool := decide (t / (i.val + 1) % 2 = 1)

def third (_ : Nat) : Wm8731DrvrDac.State :=
  { Wm8731DrvrDac.reset with
    mclkSelF := 2
    mclkEnF := true }

theorem mclk_high_third :
    ∃ i, divided 15 i = true ∧
      (∀ j, clkEnVecSyncW (mclkAt divided (fun _ => true) third 15) j = true ↔ j = i) ∧
      ∃ s < 15, (third s).mclkEnF = true ∧ (third s).mclkSelF.toFin = i ∧
        risesAt (divided 0) (mclkInputs divided (fun _ => true) third) i s = true ∧
        pllEdges divided (fun _ => true) third i (s + 1) (15 - (s + 1)) = 1 :=
  mclk_high (by decide)

/-- Once the selection has stood for two edges of every clock, the master clock is the
selected clock. -/
theorem mclk_follows {mclkEnF : Bool} {mclkSelF : BitVec 2} {start length : Nat}
    (selecting : Selecting rstIl driver mclkEnF mclkSelF start length)
    (twice : ∀ i, 2 ≤ pllEdges mclkPllIr rstIl driver i start length) :
    audMclkOd mclkPllIr rstIl driver (start + length) =
      (mclkEnF && mclkPllIr (start + length) mclkSelF.toFin) := by
  have enabled (i : Fin 4) :
      clkEnVecSyncW (mclkAt mclkPllIr rstIl driver (start + length)) i = true ↔
        mclkEnF = true ∧ i = mclkSelF.toFin := by
    have steady (k : Nat) (before : k < length) :
        rstIl (start + k) = true ∧ mclkEnVecC (driver (start + k)) i =
          decide (mclkEnF = true ∧ i = mclkSelF.toFin) := by
      refine ⟨selecting.running k before, ?_⟩
      rw [Bool.eq_iff_iff, mclkEnVecC_iff, decide_eq_true_iff, selecting.enable k before,
        selecting.select k before]
    rw [clkEnVecSyncW, mclkAt, (synced steady).2 (twice i), decide_eq_true_iff]
  cases mclkEnF with
  | false =>
      rw [audMclkOd, Bool.false_and]
      refine clkOr_disabled fun i => ?_
      rw [Bool.eq_false_iff]
      exact fun set => Bool.false_ne_true ((enabled i).mp set).1
  | true =>
      rw [audMclkOd, Bool.true_and,
        ← @mclkAt_levels mclkPllIr rstIl driver (start + length)]
      exact clkOr_selected fun j => (enabled j).trans (and_iff_right rfl)

theorem mclk_follows_third :
    audMclkOd divided (fun _ => true) third (0 + 15) = (true && divided (0 + 15) 2) :=
  mclk_follows
    { running := fun _ _ => rfl
      enable := fun _ _ => rfl
      select := fun _ _ => rfl }
    (by decide)

end Mclk

end Synesthesia.ClkMux
