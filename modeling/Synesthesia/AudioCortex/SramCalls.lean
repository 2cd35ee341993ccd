/-
`sram_write16` and `sram_read16` under streaming: what a call does to the view of the
host, and the round trip of a word through the memory.
-/

import Synesthesia.AudioCortex.SramRoundTrip

namespace Synesthesia.SramHost

open Synesthesia.Rtl
open Synesthesia.Prog
open Synesthesia.AcortexRegMap

/-! ### Calls -/

inductive Call where
  | write16 (addr : BitVec 32) (data : BitVec 16)
  | read16 (addr : BitVec 32)

def Call.word : Call → BitVec 18
  | write16 addr _ => addr.setWidth 18
  | read16 addr => addr.setWidth 18

def Call.program : Call → Program Unit
  | write16 addr data => sramWrite16 addr data
  | read16 addr => sramRead16 addr >>= fun _ => pure ()

def perform : List Call → Program Unit
  | [] => pure ()
  | call :: calls => call.program >>= fun _ => perform calls

/-- A word is written, other calls follow, and the word is read. -/
def roundTrip (addr : BitVec 18) (data : BitVec 16) (others : List Call) :
    Program (BitVec 16) :=
  sramWrite16 (addr.setWidth 32) data >>= fun _ =>
    perform others >>= fun _ => sramRead16 (addr.setWidth 32)

section Specs

variable {probe : BitVec 18} {view : View}

theorem iowr_register {post : View → Unit → Prop} {addr : BitVec 8} {data : BitVec 32}
    (other : addr ≠ sramAccCtrlRegAddr)
    (reached : post (view.afterRegister addr (data.setWidth 16)) ()) :
    Expects probe post (iowr addr data) view := by
  refine ⟨fun ctrl => absurd ctrl other, fun _ _ => ?_⟩
  have effect : view.after probe (.write addr (data.setWidth 16)) =
      view.afterRegister addr (data.setWidth 16) := if_neg other
  rw [effect]
  exact reached

theorem iowr_ctrl {post : View → Unit → Prop} {data : BitVec 32}
    (one : (data.setWidth 16).getLsbD 0 = !(data.setWidth 16).getLsbD 1)
    (reached : post (view.afterCtrl probe (data.setWidth 16)) ()) :
    Expects probe post (iowr sramAccCtrlRegAddr data) view :=
  ⟨fun _ => one, fun _ _ => reached⟩

theorem iord_data {post : View → BitVec 16 → Prop}
    (reached : ∀ answer, (∀ data, view.data = some data → answer = data) → post view answer) :
    Expects probe post (iord sramAccDataRegAddr) view :=
  ⟨trivial, fun answer known => reached answer (known rfl)⟩

theorem addrLMsk_bits : ∀ i : Fin 16, sramAddrLMsk.getLsbD i = true := by
  decide

theorem addrHMsk_bits : ∀ i : Fin 2, sramAddrHMsk.getLsbD i = true := by
  decide

theorem addr_registers (addr : BitVec 32) :
    BitVec.extractLsb' 0 2 (((addr >>> 16) &&& sramAddrHMsk).setWidth 16) ++
        BitVec.setWidth 16 (addr &&& sramAddrLMsk) = addr.setWidth 18 := by
  apply BitVec.eq_of_getLsbD_eq
  intro i inside
  rw [BitVec.getLsbD_append, BitVec.getLsbD_setWidth]
  by_cases low : i < 16
  · have mask := addrLMsk_bits ⟨i, low⟩
    simp only [low, decide_true, if_true, inside, Bool.true_and, BitVec.getLsbD_setWidth,
      BitVec.getLsbD_and, mask, Bool.and_true]
  · have mask := addrHMsk_bits ⟨i - 16, by omega⟩
    have place : 16 + (i - 16) = i := by omega
    simp only [low, decide_false, if_false, inside, decide_true, Bool.true_and,
      BitVec.getLsbD_extractLsb', Nat.zero_add, BitVec.getLsbD_setWidth, BitVec.getLsbD_and,
      BitVec.getLsbD_ushiftRight, place, mask, Bool.and_true, show i - 16 < 2 by omega,
      show i - 16 < 16 by omega]

theorem after_addr (view : View) (addr : BitVec 32) :
    (view.afterRegister sramAccAddrHRegAddr
        (((addr >>> 16) &&& sramAddrHMsk).setWidth 16)).afterRegister sramAccAddrLRegAddr
      ((addr &&& sramAddrLMsk).setWidth 16) = { view with addr := addr.setWidth 18 } := by
  rw [← addr_registers addr]
  unfold View.afterRegister
  rw [if_pos rfl, if_neg (by decide), if_neg (by decide), if_pos rfl, if_neg (by decide),
    if_neg (by decide), BitVec.extractLsb'_append_eq_left]

theorem addr_expects {α : Type} {post : View → α → Prop} (addr : BitVec 32)
    (rest : Program α)
    (reached : Expects probe post rest { view with addr := addr.setWidth 18 }) :
    Expects probe post
      (iowr sramAccAddrHRegAddr ((addr >>> 16) &&& sramAddrHMsk) >>= fun _ =>
        iowr sramAccAddrLRegAddr (addr &&& sramAddrLMsk) >>= fun _ => rest) view := by
  refine (Requests.ensuresFrom_bind _ _ _ _).mpr (iowr_register (by decide) ?_)
  refine (Requests.ensuresFrom_bind _ _ _ _).mpr (iowr_register (by decide) ?_)
  rw [after_addr]
  exact reached

theorem sramWrite16_expects {post : View → Unit → Prop} (addr : BitVec 32) (data : BitVec 16)
    (reached : post
      { addr := addr.setWidth 18
        data := some data
        cell := if addr.setWidth 18 = probe then some data else view.cell } ()) :
    Expects probe post (sramWrite16 addr data) view := by
  refine addr_expects addr _ ?_
  refine (Requests.ensuresFrom_bind _ _ _ _).mpr (iowr_register (by decide) ?_)
  refine iowr_ctrl (by decide) ?_
  have effect : (View.afterRegister { view with addr := addr.setWidth 18 } sramAccDataRegAddr
      ((data.setWidth 32).setWidth 16)).afterCtrl probe (sramMmWrEnMsk.setWidth 16) =
        { addr := addr.setWidth 18
          data := some data
          cell := if addr.setWidth 18 = probe then some data else view.cell } := by
    have whole : (data.setWidth 32).setWidth 16 = data := by
      rw [BitVec.setWidth_setWidth_of_le _ (by decide), BitVec.setWidth_eq]
    rw [whole]
    unfold View.afterRegister View.afterCtrl
    rw [if_pos (by decide), if_neg (by decide), if_neg (by decide), if_pos rfl,
      SramLb.sramMmAddr_halves]
  rw [effect]
  exact reached

theorem sramRead16_expects {post : View → BitVec 16 → Prop} (addr : BitVec 32)
    (reached : ∀ answer,
      (∀ word, (if addr.setWidth 18 = probe then view.cell else none) = some word →
        answer = word) →
      post
        { addr := addr.setWidth 18
          data := if addr.setWidth 18 = probe then view.cell else none
          cell := view.cell } answer) :
    Expects probe post (sramRead16 addr) view := by
  refine addr_expects addr _ ?_
  refine (Requests.ensuresFrom_bind _ _ _ _).mpr (iowr_ctrl (by decide) ?_)
  exact iord_data reached

theorem perform_expects (calls : List Call) (elsewhere : ∀ call ∈ calls, call.word ≠ probe)
    {post : View → Unit → Prop}
    (reached : ∀ later : View, later.cell = view.cell → post later ()) :
    Expects probe post (perform calls) view := by
  induction calls generalizing view with
  | nil => exact reached view rfl
  | cons call calls ih =>
      have other := elsewhere call (List.mem_cons_self ..)
      have rest : ∀ later : View, later.cell = view.cell →
          Expects probe post (perform calls) later := by
        intro later same
        refine ih (fun call member => elsewhere call (List.mem_cons_of_mem _ member)) ?_
        exact fun last kept => reached last (kept.trans same)
      refine (Requests.ensuresFrom_bind _ _ _ _).mpr ?_
      cases call with
      | write16 addr data => exact sramWrite16_expects addr data (rest _ (if_neg other))
      | read16 addr =>
          refine (Requests.ensuresFrom_bind _ _ _ _).mpr ?_
          exact sramRead16_expects addr fun answer _ => rest _ rfl

theorem roundTrip_expects (data : BitVec 16) (others : List Call)
    (elsewhere : ∀ call ∈ others, call.word ≠ probe) :
    Expects probe (fun _ answer => answer = data) (roundTrip probe data others) view := by
  have same : (probe.setWidth 32).setWidth 18 = probe := by
    rw [BitVec.setWidth_setWidth_of_le _ (by decide), BitVec.setWidth_eq]
  refine (Requests.ensuresFrom_bind _ _ _ _).mpr ?_
  refine sramWrite16_expects _ data ?_
  refine (Requests.ensuresFrom_bind _ _ _ _).mpr ?_
  refine perform_expects others elsewhere ?_
  intro later kept
  refine sramRead16_expects _ ?_
  intro answer known
  refine known data ?_
  rw [if_pos same, kept]
  exact if_pos same

end Specs

/-! ### The round trip -/

section RoundTrip

variable (contents : BitVec 18 → BitVec 16) (before : Nat → SramPort.Inputs) (origin : Nat)

def reached : SramPort.State := run SramPort.step (SramPort.reset contents) before origin

theorem reached_sound : SramPort.Sound (reached contents before origin) origin := by
  induction origin with
  | zero => exact SramPort.reset_sound contents
  | succ t ih => exact SramPort.step_sound ih (before t)

/-- The host starts the program on a reachable port. -/
def begin {α : Type} (program : Program α) : State α :=
  { host :=
      { program := program
        waiting := false }
    port := reached contents before origin }

end RoundTrip

section Stream

variable {α : Type} (start : State α) (env : Nat → Clock)

def accepted : Nat → List (BitVec 16) :=
  collect fun t =>
    strobed (SramPath.stAccept (stateAt start env t).port.path (pathInputsAt start env t))
      (env t).lbStDataId

def presented : Nat → List (BitVec 16) :=
  collect fun t =>
    strobed (stateAt start env t).port.path.arb.imRdValidOh
      (SramPath.sramRdDataId (stateAt start env t).port.path)

def AlwaysClear : Prop :=
  ∀ t, SramPath.HostClear (stateAt start env t).port.path (pathInputsAt start env t)

variable {start env}

theorem stateAt_sound {clock : Nat} (sound : SramPort.Sound start.port clock)
    (env : Nat → Clock) (t : Nat) :
    SramPort.Sound (stateAt start env t).port (clock + t) := by
  induction t with
  | zero => exact sound
  | succ t ih => exact SramPort.step_sound ih _

theorem stream_conserved {clock : Nat} (sound : SramPort.Sound start.port clock)
    (clear : AlwaysClear start env) (t : Nat) :
    presented start env t ++ SramPath.held (stateAt start env t).port.path =
      SramPath.held start.port.path ++ accepted start env t := by
  induction t with
  | zero => exact (List.append_nil _).symm
  | succ t ih =>
      have now := stateAt_sound sound env t
      obtain ⟨writes, reads, counts⟩ := now.counts
      have edge := SramPath.held_step now.wired counts (pathInputsAt start env t) (clear t)
      unfold presented accepted at ih ⊢
      rw [collect_succ, collect_succ, List.append_assoc, ← List.append_assoc _ _ (strobed _ _),
        ← ih, List.append_assoc]
      exact congrArg _ edge

end Stream

/-- A word written by the host is read back, whatever is streamed, parsed and called
in between; every control write is acknowledged once, after its access; and the
stream keeps its words as long as the host writes outside the live window. -/
theorem hostAccess_roundTrip (contents : BitVec 18 → BitVec 16)
    (before : Nat → SramPort.Inputs) (origin : Nat)
    (noPending : SramPort.marks (reached contents before origin) = SramPort.Stage.free.marks)
    (addr : BitVec 18) (data : BitVec 16) (others : List Call)
    (elsewhere : ∀ call ∈ others, call.word ≠ addr) (env : Nat → Clock)
    (patient : ∀ t, ∃ later, t ≤ later ∧ (env later).host.go = true)
    (spares : AlwaysSpares (begin contents before origin (roundTrip addr data others)) env addr) :
    (∃ finish, ∀ t, finish ≤ t →
      (stateAt (begin contents before origin (roundTrip addr data others)) env t).host.program =
        .done data) ∧
    (∀ t ctrl,
      issuedAt (begin contents before origin (roundTrip addr data others)) env t =
        some (.write sramAccCtrlRegAddr ctrl) →
      ∃ r,
        AnsweredOnce (begin contents before origin (roundTrip addr data others)) env t r
          (.write sramAccCtrlRegAddr ctrl) ∧
        Accessed (begin contents before origin (roundTrip addr data others)) env t r ctrl) ∧
    (AlwaysClear (begin contents before origin (roundTrip addr data others)) env → ∀ t,
      presented (begin contents before origin (roundTrip addr data others)) env t ++
          SramPath.held
            (stateAt (begin contents before origin (roundTrip addr data others)) env t).port.path =
        SramPath.held (reached contents before origin).path ++
          accepted (begin contents before origin (roundTrip addr data others)) env t) := by
  have sound := reached_sound contents before origin
  have first : Idle addr (begin contents before origin (roundTrip addr data others)) origin
      (View.unknown (reached contents before origin).lb.sramMmAddrOd) :=
    { waiting := rfl
      at' :=
        { sound := sound
          marks := noPending
          timed := trivial }
      holds := holds_unknown addr _ }
  have expects : Expects addr (fun _ answer => answer = data) (roundTrip addr data others)
      (View.unknown (reached contents before origin).lb.sramMmAddrOd) :=
    roundTrip_expects data others elsewhere
  refine ⟨?_, ?_, ?_⟩
  · obtain ⟨finish, value, -, right, done⟩ :=
      program_finishes spares patient _ 0 _ (first.ready expects) rfl
    subst right
    refine ⟨finish, fun t late => ?_⟩
    rw [← Nat.add_sub_cancel' late]
    exact program_done_stays done _
  · intro t ctrl issued
    obtain ⟨view, ready⟩ := ready_of_issue spares first expects issued
    obtain ⟨r, served, accessed⟩ := ctrl_served spares ready issued
    exact ⟨r, served_once spares ready issued served, accessed⟩
  · intro clear t
    exact stream_conserved sound clear t

/-- A host that never pauses, while one word is streamed in clock 3. -/
def demoEnv : Nat → Clock := fun t =>
  { host :=
      { go := true
        idleAddr := sramAccCtrlRegAddr
        idleData := 0 }
    lbStDataId := 7
    lbStValidIh := t == 3
    imRdReqIh := true }

def demoCalls : List Call := [.write16 9 1, .read16 7]

def demoStart : State (BitVec 16) :=
  begin (fun _ => 0) (fun _ => ⟨false, false, 0, 0, 0, false, false⟩) 5
    (roundTrip 1000 0xbeef demoCalls)

theorem demo_spares : AlwaysSpares demoStart demoEnv 1000 := by
  intro t accept
  have offered : (demoEnv t).lbStValidIh = true := by
    unfold SramPath.stAccept at accept
    simp only [Bool.and_eq_true] at accept
    exact accept.1.1
  obtain rfl : t = 3 := beq_iff_eq.mp offered
  decide +kernel

theorem empty_step {port : SramPort.State} {clock : Nat} (sound : SramPort.Sound port clock)
    (inputs : SramPort.Inputs) (empty : SramPath.occupancy port.path = 0)
    (silent : SramPath.stAccept port.path (SramPort.pathInputs port inputs) = false) :
    SramPath.occupancy (SramPort.step port inputs).path = 0 := by
  obtain ⟨writes, reads, counts⟩ := sound.counts
  have next := SramFfCntrlr.step_counts (by decide : 0 < 18) counts
    (SramPath.ffInputs port.path (SramPort.pathInputs port inputs))
  rw [SramPath.incWrAddrC_eq_stAccept, silent] at next
  rw [SramPath.occupancy_eq counts] at empty
  refine (@SramPath.occupancy_eq (SramPort.step port inputs).path _ _ next).trans ?_
  rw [Bool.toNat_false]
  omega

theorem demo_sound (t : Nat) : SramPort.Sound (stateAt demoStart demoEnv t).port (5 + t) :=
  stateAt_sound (reached_sound _ _ 5) demoEnv t

theorem demo_empty (t : Nat) :
    SramPath.occupancy (stateAt demoStart demoEnv (13 + t)).port.path = 0 := by
  induction t with
  | zero => decide +kernel
  | succ t ih =>
      refine empty_step (demo_sound (13 + t)) _ ih ?_
      have quiet : (demoEnv (13 + t)).lbStValidIh = false := beq_false_of_ne (by omega)
      unfold SramPath.stAccept
      exact (congrArg (fun valid => valid && _ && _) quiet).trans rfl

theorem demo_clear : AlwaysClear demoStart demoEnv := by
  intro t writing
  rintro ⟨offset, inside, same⟩
  rcases Nat.lt_or_ge t 13 with early | late
  · have granted : ∀ t < 13,
        SramPath.mmWrite (stateAt demoStart demoEnv t).port.path
          (pathInputsAt demoStart demoEnv t) = true → t = 11 := by
      decide +kernel
    obtain rfl := granted t early writing
    revert offset
    decide +kernel
  · obtain ⟨past, rfl⟩ := Nat.exists_eq_add_of_le late
    rw [demo_empty] at inside
    exact absurd inside (Nat.not_lt_zero offset)

theorem hostAccess_roundTrip_demo :
    (∃ finish, ∀ t, finish ≤ t →
      (stateAt demoStart demoEnv t).host.program = .done 0xbeef) ∧
    (∃ r,
      AnsweredOnce demoStart demoEnv 3 r (.write sramAccCtrlRegAddr 2) ∧
      Accessed demoStart demoEnv 3 r 2) ∧
    ∀ t, presented demoStart demoEnv t ++ SramPath.held (stateAt demoStart demoEnv t).port.path =
      SramPath.held demoStart.port.path ++ accepted demoStart demoEnv t := by
  obtain ⟨returned, acknowledged, conserved⟩ :=
    hostAccess_roundTrip (fun _ => 0) (fun _ => ⟨false, false, 0, 0, 0, false, false⟩) 5
      (by decide +kernel) 1000 0xbeef demoCalls (by decide) demoEnv
      (fun t => ⟨t, Nat.le_refl t, rfl⟩) demo_spares
  exact ⟨returned, acknowledged 3 2 rfl, conserved demo_clear⟩

end Synesthesia.SramHost
