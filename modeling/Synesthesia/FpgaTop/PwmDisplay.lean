/-
The way of a picture from the host to the lines of the modulation.

Only writes to `vcortex_top` move the RAM of on-times and the enable of the modulation,
so accesses to other blocks may come at any time.  Once a picture is painted, every
channel shows its on-time and one clock more.
-/

import Synesthesia.FpgaTop.RegisterFile
import Synesthesia.Ledos.Sunshine
import Synesthesia.VisualCortex.PwmDuty

namespace Synesthesia.CortexTree

open Synesthesia.Rtl
open Synesthesia.Prog
open Synesthesia.Sunshine (acidSunshine pwmPaint)

/-! ### Writes to the block -/

/-- The local bus counts units of sixteen bytes: the interconnect passes the address of a
word, and the bridge discards two more bits. -/
def lbAddr (addr : BitVec 32) : BitVec 16 := addr.extractLsb' 4 16

def lbAccess : Access (BitVec 32) (BitVec 32) → BusAccess
  | .write addr data => .write (lbAddr addr) data
  | .read addr => .read (lbAddr addr)

def isVcortexWrite (access : BusAccess) : Bool :=
  access.isWrite && decide (block access.addr = .vcortex)

def paint (memory : BitVec 4 → BitVec 16) : BusAccess → BitVec 4 → BitVec 16
  | .write addr data => fun index =>
      if Selects addr (.pwmWord index) then data.setWidth 16 else memory index
  | .read _ => memory

theorem paint_selects : ∀ i < 16, ∀ index : BitVec 4,
    Selects (lbAddr (Sunshine.vcortexPwmRamBase + (BitVec.ofNat 32 i <<< 4))) (.pwmWord index) ↔
      index = BitVec.ofNat 4 i := by
  decide +kernel

theorem paint_all (memory : BitVec 4 → BitVec 16) (bffr : BitVec 4 → BitVec 16) :
    ((pwmPaint bffr).map lbAccess).foldl paint memory = bffr := by
  have some_painted : ∀ n ≤ 16, ∀ index : BitVec 4, index.toNat < n →
      (((List.range n).map fun i => lbAccess (.write
        (Sunshine.vcortexPwmRamBase + (BitVec.ofNat 32 i <<< 4))
        ((bffr (BitVec.ofNat 4 i)).setWidth 32))).foldl paint memory) index = bffr index := by
    intro n
    induction n with
    | zero => exact fun _ _ before => absurd before (Nat.not_lt_zero _)
    | succ n ih =>
        intro inside index before
        rw [List.range_succ, List.map_append, List.foldl_append]
        change (if Selects _ (.pwmWord index) then _ else _) = _
        by_cases last : index = BitVec.ofNat 4 n
        · rw [if_pos ((paint_selects n inside index).mpr last), last,
            BitVec.setWidth_setWidth_of_le _ (by decide), BitVec.setWidth_eq]
        · rw [if_neg fun selects => last ((paint_selects n inside index).mp selects)]
          refine ih (Nat.le_of_succ_le inside) index ?_
          have other : index.toNat ≠ n := by
            rintro rfl
            exact last (BitVec.eq_of_toNat_eq (by rw [BitVec.toNat_ofNat]; omega))
          omega
  funext index
  rw [pwmPaint, List.map_map]
  exact some_painted 16 (Nat.le_refl _) index index.isLt

theorem pwmWord_truncated (data : BitVec 32) :
    (data &&& writeMask (.pwmWord 0)).setWidth 16 = data.setWidth 16 := by
  apply BitVec.eq_of_getLsbD_eq
  intro i inside
  rw [BitVec.getLsbD_setWidth, BitVec.getLsbD_setWidth, BitVec.getLsbD_and, writeMask,
    (low_masks ⟨i, by omega⟩).2.2.2.2.2.2, decide_eq_true inside, Bool.and_true]

theorem memory_edge (state : State) (inputs : Inputs) (index : BitVec 4) :
    (step state inputs).vcortex.ram.memory index =
      if inputs.request.lbWrEnIh = true ∧ Selects inputs.request.lbAddrId (.pwmWord index) then
        inputs.request.lbWrDataId.setWidth 16
      else state.vcortex.ram.memory index := by
  have narrow (word : BitVec 16) : (word.setWidth 32).setWidth 16 = word := by
    rw [BitVec.setWidth_setWidth_of_le _ (by decide), BitVec.setWidth_eq]
  have edge : (value (step state inputs) (.pwmWord index)).setWidth 16 =
      (written state inputs.request (.pwmWord index)).setWidth 16 :=
    congrArg (BitVec.setWidth 16) (pwmWord_step index)
  rw [value, narrow, written] at edge
  rw [edge]
  split
  · exact pwmWord_truncated _
  · exact narrow _

theorem enable_edge {state : State} {inputs : Inputs}
    (other : ¬ (inputs.request.lbWrEnIh = true ∧ block inputs.request.lbAddrId = .vcortex)) :
    (step state inputs).vcortex.lb.pwmGenEnOh = state.vcortex.lb.pwmGenEnOh := by
  change (if (decide (codeOf inputs.request.lbAddrId = VcortexTop.vcortexRegCode) &&
      SynCortexLb.blkWrEnOh SynCortexLb.vcortexSelC inputs.request) = true then _ else _) = _
  rw [if_neg]
  rw [vcortex_wrEn, Bool.and_eq_true, Bool.and_eq_true, decide_eq_true_eq, decide_eq_true_eq]
  exact fun all => other ⟨all.2.2, all.2.1⟩

section Runs

variable (contents : Contents) (first : Activity) (env : Nat → Clock)

/-- The writes to `vcortex_top` that are issued in the `n` clocks from `t` on. -/
def vcortexWrites (t n : Nat) : List BusAccess :=
  collect (fun k => (issuedAt contents first env (t + k)).toList.filter isVcortexWrite) n

/-- The number of clocks among `65536` from `start` on in which a line is high. -/
def litClocks (channel : BitVec 4) (start : Nat) : Nat :=
  Nat.count
    (fun k => (stateAt contents first env (start + k)).tree.vcortex.gen.pwmDataOd channel = true)
    65536

variable {contents first env}

theorem unwritten {t : Nat}
    (quiet : (issuedAt contents first env t).toList.filter isVcortexWrite = []) :
    let request := ((stateAt contents first env t).treeInputs (env t)).request
    ¬ (request.lbWrEnIh = true ∧ block request.lbAddrId = .vcortex) := by
  rintro request ⟨write, selected⟩
  cases issued : issuedAt contents first env t with
  | none =>
      have silent : Silent request := BusMaster.quiet_of_no_issue issued
      cases silent.1.symm.trans write
  | some access =>
      have pulses := pulses_of_issue issued
      rw [issued, Option.toList_some, List.filter_eq_nil_iff] at quiet
      refine quiet access (List.mem_singleton_self _) ?_
      rw [isVcortexWrite, ← pulses.write, ← pulses.addr, write, selected]
      rfl

theorem memory_step (t : Nat) :
    (stateAt contents first env (t + 1)).tree.vcortex.ram.memory =
      ((issuedAt contents first env t).toList.filter isVcortexWrite).foldl paint
        (stateAt contents first env t).tree.vcortex.ram.memory := by
  have edge : ∀ index, (stateAt contents first env (t + 1)).tree.vcortex.ram.memory index = _ :=
    memory_edge (stateAt contents first env t).tree
      ((stateAt contents first env t).treeInputs (env t))
  funext index
  rw [edge index]
  cases writes : (issuedAt contents first env t).toList.filter isVcortexWrite with
  | nil =>
      rw [if_neg fun hit => unwritten writes ⟨hit.1, hit.2.1⟩]
      rfl
  | cons access rest =>
      have member : access ∈ (issuedAt contents first env t).toList.filter isVcortexWrite := by
        rw [writes]
        exact List.mem_cons_self
      obtain ⟨issued, write⟩ := List.mem_filter.mp member
      rw [Option.mem_toList] at issued
      have alone : rest = [] := by
        rw [issued, Option.toList_some, List.filter_singleton, write] at writes
        exact (List.cons.inj writes).2.symm
      have pulses := pulses_of_issue issued
      rw [pulses.addr, pulses.write, alone]
      cases access with
      | write addr data =>
          rw [pulses.data addr data rfl]
          exact if_congr (and_iff_right rfl) rfl rfl
      | read addr => cases write

theorem memory_after (t n : Nat) :
    (stateAt contents first env (t + n)).tree.vcortex.ram.memory =
      (vcortexWrites contents first env t n).foldl paint
        (stateAt contents first env t).tree.vcortex.ram.memory := by
  induction n with
  | zero => rfl
  | succ n ih =>
      rw [← Nat.add_assoc, memory_step, ih, ← List.foldl_append]
      rfl

theorem filter_of_quiet {t n : Nat} (quiet : vcortexWrites contents first env t n = []) :
    ∀ k < n, (issuedAt contents first env (t + k)).toList.filter isVcortexWrite = [] := by
  induction n with
  | zero => exact fun _ before => absurd before (Nat.not_lt_zero _)
  | succ n ih =>
      rw [vcortexWrites, collect_succ, List.append_eq_nil_iff] at quiet
      intro k before
      rcases Nat.lt_succ_iff_lt_or_eq.mp before with earlier | rfl
      · exact ih quiet.1 k earlier
      · exact quiet.2

theorem quiet_keeps {t n : Nat} (quiet : vcortexWrites contents first env t n = []) :
    ∀ k ≤ n,
      (stateAt contents first env (t + k)).tree.vcortex.ram.memory =
          (stateAt contents first env t).tree.vcortex.ram.memory ∧
        (stateAt contents first env (t + k)).tree.vcortex.lb.pwmGenEnOh =
          (stateAt contents first env t).tree.vcortex.lb.pwmGenEnOh := by
  intro k
  induction k with
  | zero => exact fun _ => ⟨rfl, rfl⟩
  | succ k ih =>
      intro inside
      have silent := filter_of_quiet quiet k inside
      obtain ⟨memory, enable⟩ := ih (Nat.le_of_succ_le inside)
      constructor
      · rw [← Nat.add_assoc, memory_step, silent, memory]
        rfl
      · exact (enable_edge (unwritten silent)).trans enable

/-! ### The block in the tree -/

/-- What `vcortex_top` gets from the tree, from its reset on. -/
def vcortexInputsAt (contents : Contents) (first : Activity) (env : Nat → Clock) :
    Nat → VcortexTop.Inputs
  | 0 => vcortexInputs { request := quietRequest, activity := first }
  | t + 1 => vcortexInputs ((stateAt contents first env t).treeInputs (env t))

theorem vcortex_stateAt (cleared : contents.pwm = fun _ => 0) (t : Nat) :
    (stateAt contents first env t).tree.vcortex =
      VcortexTop.stateAt (vcortexInputsAt contents first env) (t + 1) := by
  induction t with
  | zero =>
      change VcortexTop.step { VcortexTop.reset with ram := TrueDualPortRam.init contents.pwm } _ =
          _
      rw [cleared]
      rfl
  | succ t ih =>
      rw [VcortexTop.stateAt_succ, ← ih]
      rfl

theorem steadyOver_of_quiet (cleared : contents.pwm = fun _ => 0) {t n : Nat}
    (enabled : (stateAt contents first env t).tree.vcortex.lb.pwmGenEnOh = true)
    (quiet : vcortexWrites contents first env t n = []) :
    VcortexTop.SteadyOver (vcortexInputsAt contents first env)
      (stateAt contents first env t).tree.vcortex.ram.memory (t + 1) (t + 1 + n) := by
  intro u after before
  obtain ⟨k, rfl⟩ := Nat.exists_eq_add_of_le after
  have inside : k < n := Nat.lt_of_add_lt_add_left before
  obtain ⟨memory, enable⟩ := quiet_keeps quiet k (Nat.le_of_lt inside)
  rw [Nat.add_right_comm, ← vcortex_stateAt cleared]
  refine
    { enabled := enable.trans enabled
      contents := memory
      apart := ?_ }
  rintro ⟨write, -⟩
  have write : (decide (codeOf _ = VcortexTop.vcortexPwmRamCode) &&
      SynCortexLb.blkWrEnOh SynCortexLb.vcortexSelC
        ((stateAt contents first env (t + k)).treeInputs (env (t + k))).request) = true := write
  rw [vcortex_wrEn, Bool.and_eq_true, Bool.and_eq_true, decide_eq_true_eq] at write
  exact unwritten (filter_of_quiet quiet k inside) ⟨write.2.2, of_decide_eq_true write.2.1⟩

/-- A picture that is painted is shown while nothing else is written to the block. -/
theorem shown_of_painted (cleared : contents.pwm = fun _ => 0) {t n rest : Nat}
    {bffr : BitVec 4 → BitVec 16}
    (paints : vcortexWrites contents first env t n = (pwmPaint bffr).map lbAccess)
    (enabled : (stateAt contents first env (t + n)).tree.vcortex.lb.pwmGenEnOh = true)
    (quiet : vcortexWrites contents first env (t + n) rest = []) {start : Nat}
    (later : t + n + 65555 < start) (upto : start + 65535 ≤ t + n + rest) (channel : BitVec 4) :
    litClocks contents first env channel start = (bffr channel).toNat + 1 := by
  have steady := steadyOver_of_quiet cleared enabled quiet
  rw [memory_after, paints, paint_all] at steady
  have clocks := steady.onClocks_eq (show t + n + 1 + 65555 < start + 1 by omega)
    (show start + 1 + 65535 ≤ t + n + 1 + rest by omega) channel
  have block (k : Nat) : (stateAt contents first env (start + k)).tree.vcortex =
      VcortexTop.stateAt (vcortexInputsAt contents first env) (start + 1 + k) := by
    rw [vcortex_stateAt cleared, Nat.add_right_comm]
  rw [← clocks]
  simp only [litClocks, VcortexTop.onClocks, block]

end Runs

/-- Whatever the host does with other blocks meanwhile: once it has painted what the plugin
makes of the left spectrum, and until it writes to the block again, each channel is on for
a quarter of the period for each unit of the two lowest bits of its word, and one clock. -/
theorem sunshine_shown (contents : Contents) (first : Activity) (env : Nat → Clock)
    (cleared : contents.pwm = fun _ => 0) (lfftBffr : BitVec 8 → BitVec 32) (t n rest : Nat)
    (paints : vcortexWrites contents first env t n =
      (pwmPaint (acidSunshine lfftBffr)).map lbAccess)
    (enabled : (stateAt contents first env (t + n)).tree.vcortex.lb.pwmGenEnOh = true)
    (quiet : vcortexWrites contents first env (t + n) rest = []) (start : Nat)
    (later : t + n + 65555 < start) (upto : start + 65535 ≤ t + n + rest) (channel : BitVec 4) :
    litClocks contents first env channel start =
      (lfftBffr (channel.setWidth 8)).toNat % 4 * 2 ^ 14 + 1 := by
  rw [shown_of_painted cleared paints enabled quiet later upto, Sunshine.acidSunshine_toNat]

/-! ### A picture of a ramp -/

/-- The host enables the modulation, paints a ramp and then reads the sampling divider. -/
def rampPicture (t : Nat) : Clock :=
  { offer :=
      { access := some (if t = 0 then .write 0x3000 1
          else ((pwmPaint (acidSunshine (BitVec.setWidth 32))).map lbAccess).getD ((t - 1) / 2)
            (.read 0x2302))
        idleAddr := 0
        idleData := 0 }
    activity := calm }

deriving instance DecidableEq for Access

theorem rampPicture_paints : vcortexWrites blank calm rampPicture 1 33 =
    (pwmPaint (acidSunshine (BitVec.setWidth 32))).map lbAccess := by
  decide +kernel

theorem rampPicture_enabled :
    (stateAt blank calm rampPicture (1 + 33)).tree.vcortex.lb.pwmGenEnOh = true := by
  decide +kernel

theorem rampPicture_quiet (rest : Nat) :
    vcortexWrites blank calm rampPicture (1 + 33) rest = [] := by
  refine collect_eq_nil fun k _ => ?_
  cases issued : issuedAt blank calm rampPicture (1 + 33 + k) with
  | none => rfl
  | some access =>
      have offered := offered_of_issue issued
      have late : ((pwmPaint (acidSunshine (BitVec.setWidth 32))).map lbAccess).length ≤
          (1 + 33 + k - 1) / 2 := by
        rw [List.length_map, pwmPaint, List.length_map, List.length_range,
          Sunshine.vcortexPwmChnnls]
        omega
      change some (if 1 + 33 + k = 0 then _ else _) = some access at offered
      rw [if_neg (by omega), List.getD_eq_default _ _ late] at offered
      cases offered
      rfl

theorem sunshine_shown_ramp :
    litClocks blank calm rampPicture 7 100000 = 3 * 2 ^ 14 + 1 :=
  sunshine_shown blank calm rampPicture rfl (BitVec.setWidth 32) 1 33 200000 rampPicture_paints
    rampPicture_enabled (rampPicture_quiet _) 100000 (by decide) (by decide) 7

end Synesthesia.CortexTree
