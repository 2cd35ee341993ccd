/-
A bus master in front of the tree of local buses.

The master is offered accesses in any clock and makes one after the other, while the
blocks do whatever they do.  A rank of the legs, lowered by every clock edge, brings
each answer to the top.
-/

import Synesthesia.FpgaTop.LbLegs
import Synesthesia.Rtl.Clocked

namespace Synesthesia.CortexTree

open Synesthesia.Rtl
open Synesthesia.Prog
open Synesthesia.SynCortexLb (Request)

structure System where
  tree : State
  master : BusMaster (BitVec 16) (BitVec 32)

structure Clock where
  offer : Offer (BitVec 16) (BitVec 32)
  activity : Activity

/-- The registers of the bridge after its reset. -/
def quietRequest : Request :=
  { lbRdEnIh := false
    lbWrEnIh := false
    lbAddrId := 0
    lbWrDataId := 0 }

namespace System

def reply (tree : State) : BusReply (BitVec 32) :=
  { rdValid := lbRdValidOd tree
    wrValid := lbWrValidOd tree
    rdData := lbRdDataOd tree }

def treeInputs (system : System) (now : Clock) : Inputs :=
  { request :=
      { lbRdEnIh := system.master.busRdEn (reply system.tree) now.offer
        lbWrEnIh := system.master.busWrEn (reply system.tree) now.offer
        lbAddrId := system.master.busAddr (reply system.tree) now.offer
        lbWrDataId := system.master.busWrData (reply system.tree) now.offer }
    activity := now.activity }

def step (system : System) (now : Clock) : System :=
  { tree := CortexTree.step system.tree (system.treeInputs now)
    master := system.master.step (reply system.tree) now.offer }

def issue (system : System) (now : Clock) : Option BusAccess :=
  system.master.issue (reply system.tree) now.offer

/-- After the reset: the registers of the bridge are zero for one clock, in which the
audio block releases the reset of its parts. -/
def powerUp (contents : Contents) (first : Activity) : System :=
  { tree :=
      CortexTree.step (reset contents)
        { request := quietRequest
          activity := first }
    master := { waiting := none } }

end System

/-! ### Ranks -/

def Place.isWrite : Place → Bool
  | .topWr | .fgyrusWr _ | .vcortexWr | .acortexWr | .sramWr => true
  | _ => false

theorem entry_isWrite {access : BusAccess} {place : Place} (enters : entry access = some place) :
    place.isWrite = access.isWrite := by
  unfold entry at enters
  generalize block access.addr = selected at enters
  generalize access.isWrite = write at enters ⊢
  by_cases ctrl : regOf access.addr = AcortexRegMap.sramAccCtrlRegAddr
  · cases selected <;> cases write <;> simp_all <;> subst place <;> rfl
  · cases selected <;> cases write <;> simp_all <;> subst place <;> rfl

/-- The number of clocks from a place to the top. -/
def Place.height : Place → Nat
  | .topRd => 0
  | .topWr => 0
  | .fgyrusWr _ => 1
  | .fgyrusRd _ stage => 4 - stage.val
  | .vcortexWr => 1
  | .vcortexRd stage => 3 - stage.val
  | .acortexRd => 1
  | .acortexWr => 1
  | .own stage => 4 - stage.val
  | .i2cRd => 2
  | .prsrRd => 2
  | .dacRd => 2
  | .sramRd => 2
  | .sramWr => 2

theorem advance_facts : ∀ place ∈ places, ∀ next ∈ places, advance place = some next →
    next.isWrite = place.isWrite ∧ next.height < place.height := by
  decide +kernel

theorem advance_step {place next : Place} (moves : advance place = some next) :
    next.isWrite = place.isWrite ∧ next.height < place.height :=
  advance_facts place (mem_places place) next (mem_places next) moves

/-- The clocks that are left to an answer; a request waits for its slot first. -/
def Leg.clocks (clock : Nat) : Leg → Nat
  | .rest => 0
  | .moving place => place.height
  | .held .latched => 3
  | .held .arrived => 4
  | .held .driven => 5
  | .held .issued => 6
  | .held .reading => 7 + (16 - clock % 17)
  | .held .writing => 3 + (16 - clock % 17)
  | .held .free => 0

/-- The leg of an access that waits for its answer. -/
def Leg.Fits (access : BusAccess) : Leg → Prop
  | .rest => False
  | .moving place => place.isWrite = access.isWrite
  | .held stage => stage ≠ .free ∧ isSramCtrl access = true

theorem start_fits {access : BusAccess} (answerable : Answerable access) :
    (start access).Fits access := by
  have entered := entry_isNone answerable
  unfold start
  cases first : entry access with
  | some place => exact entry_isWrite first
  | none =>
      rw [first] at entered
      cases access with
      | read addr => cases entered
      | write addr data =>
          refine ⟨?_, entered.symm⟩
          cases data.getLsbD 1 with
          | false => exact SramPort.Stage.noConfusion
          | true => exact SramPort.Stage.noConfusion

theorem isWrite_of_ctrl {access : BusAccess} (ctrl : isSramCtrl access = true) :
    access.isWrite = true := by
  unfold isSramCtrl at ctrl
  rw [Bool.and_eq_true, Bool.and_eq_true] at ctrl
  exact ctrl.1.1

theorem held_next {access : BusAccess} (ctrl : isSramCtrl access = true)
    {stage : SramPort.Stage} (busy : stage ≠ .free) (granted : Bool) :
    ((Leg.held stage).next granted).Fits access := by
  unfold Leg.next
  cases stage with
  | free => exact absurd rfl busy
  | writing =>
      cases granted with
      | true => exact (isWrite_of_ctrl ctrl).symm
      | false => exact ⟨SramPort.Stage.noConfusion, ctrl⟩
  | reading => cases granted <;> exact ⟨SramPort.Stage.noConfusion, ctrl⟩
  | issued => exact ⟨SramPort.Stage.noConfusion, ctrl⟩
  | driven => exact ⟨SramPort.Stage.noConfusion, ctrl⟩
  | arrived => exact ⟨SramPort.Stage.noConfusion, ctrl⟩
  | latched => exact (isWrite_of_ctrl ctrl).symm

theorem held_clocks {stage : SramPort.Stage} (busy : stage ≠ .free) (clock : Nat) :
    ((Leg.held stage).next (decide ((clock + 1) % 17 = 0))).clocks (clock + 1) <
      (Leg.held stage).clocks clock := by
  have slot : (clock + 1) % 17 = 0 ∨
      (clock + 1) % 17 ≠ 0 ∧ 16 - clock % 17 = 16 - (clock + 1) % 17 + 1 := by omega
  cases stage with
  | free => exact absurd rfl busy
  | writing =>
      rcases slot with slot | ⟨slot, count⟩
      · rw [decide_eq_true slot]
        exact Nat.lt_of_lt_of_le (by decide : 2 < 3) (Nat.le_add_right 3 _)
      · rw [decide_eq_false slot]
        change 3 + (16 - (clock + 1) % 17) < 3 + (16 - clock % 17)
        omega
  | reading =>
      rcases slot with slot | ⟨slot, count⟩
      · rw [decide_eq_true slot]
        exact Nat.lt_of_lt_of_le (by decide : 6 < 7) (Nat.le_add_right 7 _)
      · rw [decide_eq_false slot]
        change 7 + (16 - (clock + 1) % 17) < 7 + (16 - clock % 17)
        omega
  | issued => exact (by decide : 5 < 6)
  | driven => exact (by decide : 4 < 5)
  | arrived => exact (by decide : 3 < 4)
  | latched => exact (by decide : 2 < 3)

theorem Leg.Fits.next {access : BusAccess} {leg : Leg} (fits : leg.Fits access) (clock : Nat)
    (way : ¬ leg.done) :
    (leg.next (decide ((clock + 1) % 17 = 0))).Fits access ∧
      (leg.next (decide ((clock + 1) % 17 = 0))).clocks (clock + 1) < leg.clocks clock := by
  cases leg with
  | rest => exact fits.elim
  | moving place =>
      cases moves : advance place with
      | none => exact absurd moves way
      | some next =>
          have step := advance_step moves
          have leg : (Leg.moving place).next (decide ((clock + 1) % 17 = 0)) = .moving next := by
            simp only [Leg.next, moves]
          rw [leg]
          exact ⟨step.1.trans fits, step.2⟩
  | held stage => exact ⟨held_next fits.2 fits.1 _, held_clocks fits.1 clock⟩

/-! ### Situations -/

section Situations

variable {system : System} {clock : Nat} {now : Clock} {access : BusAccess} {leg : Leg}

structure Idle (system : System) (clock : Nat) : Prop where
  waiting : system.master.waiting = none
  steady : Steady system.tree clock .rest

/-- An access waits, with its answer on a leg. -/
structure Waiting (access : BusAccess) (system : System) (clock : Nat) (leg : Leg) : Prop where
  waiting : system.master.waiting = some access
  steady : Steady system.tree clock leg
  fits : leg.Fits access

inductive Situation (system : System) (clock : Nat) : Prop where
  | idle (idle : Idle system clock)
  | waiting (access : BusAccess) (leg : Leg) (waiting : Waiting access system clock leg)

theorem Steady.valid (steady : Steady system.tree clock leg) :
    lbWrValidOd system.tree = decide (leg.token = some .topWr) ∧
      lbRdValidOd system.tree = decide (leg.token = some .topRd) :=
  ⟨steady.single .topWr, steady.single .topRd⟩

theorem top_of_advance : ∀ place ∈ places, advance place = none →
    place = .topRd ∨ place = .topWr := by
  decide +kernel

theorem Waiting.answered (waiting : Waiting access system clock leg) (done : leg.done) :
    lbWrValidOd system.tree = access.isWrite ∧ lbRdValidOd system.tree = !access.isWrite := by
  have valid := waiting.steady.valid
  have fits := waiting.fits
  cases leg with
  | rest => exact fits.elim
  | moving place =>
      rw [valid.1, valid.2, ← show place.isWrite = access.isWrite from fits]
      rcases top_of_advance place (mem_places place) done with rfl | rfl
      · exact ⟨rfl, rfl⟩
      · exact ⟨rfl, rfl⟩
  | held stage => exact done.elim

theorem Waiting.unanswered (waiting : Waiting access system clock leg) (way : ¬ leg.done) :
    lbWrValidOd system.tree = false ∧ lbRdValidOd system.tree = false := by
  have valid := waiting.steady.valid
  have fits := waiting.fits
  rw [valid.1, valid.2]
  cases leg with
  | rest => exact fits.elim
  | moving place =>
      refine ⟨decide_eq_false fun top => ?_, decide_eq_false fun top => ?_⟩
      · cases Option.some.inj top
        exact way rfl
      · cases Option.some.inj top
        exact way rfl
  | held stage => exact ⟨rfl, rfl⟩

theorem Idle.unanswered (idle : Idle system clock) :
    lbWrValidOd system.tree = false ∧ lbRdValidOd system.tree = false :=
  idle.steady.valid

theorem reply_unanswered
    (unanswered : lbWrValidOd system.tree = false ∧ lbRdValidOd system.tree = false) :
    (System.reply system.tree).rdValid = false ∧ (System.reply system.tree).wrValid = false :=
  ⟨unanswered.2, unanswered.1⟩

structure Ready (system : System) (clock : Nat) (leg : Leg) : Prop where
  free : system.master.free (System.reply system.tree) = true
  steady : Steady system.tree clock leg
  done : leg.done

theorem Idle.ready (idle : Idle system clock) : Ready system clock .rest := by
  refine ⟨?_, idle.steady, trivial⟩
  unfold BusMaster.free
  rw [idle.waiting]
  rfl

theorem Waiting.ready (waiting : Waiting access system clock leg) (done : leg.done) :
    Ready system clock leg := by
  refine ⟨?_, waiting.steady, done⟩
  have answered := waiting.answered done
  unfold BusMaster.free System.reply
  rw [answered.1, answered.2]
  cases access.isWrite <;> simp

theorem pulses_of_issue (issued : system.issue now = some access) :
    Pulses (system.treeInputs now).request access :=
  { addr := BusMaster.busAddr_of_issue issued
    write := BusMaster.busWrEn_of_issue issued
    read := BusMaster.busRdEn_of_issue issued
    data := by
      rintro addr data rfl
      exact BusMaster.busWrData_of_issue issued }

theorem Ready.pulse (ready : Ready system clock leg) (issued : system.issue now = some access)
    (answerable : Answerable access) :
    Waiting access (system.step now) (clock + 1) (start access) :=
  { waiting := BusMaster.current_of_issue issued
    steady := steady_pulse ready.steady ready.done (pulses_of_issue issued) answerable
    fits := start_fits answerable }

theorem Ready.idle (ready : Ready system clock leg) (idle : system.issue now = none) :
    Idle (system.step now) (clock + 1) := by
  have silent : Silent (system.treeInputs now).request := BusMaster.quiet_of_no_issue idle
  refine
    { waiting := BusMaster.current_of_idle ready.free idle
      steady := ?_ }
  rw [← Leg.next_of_done ready.done (SramPort.grant system.tree.acortex.sram)]
  exact steady_silent ready.steady silent fun busy =>
    absurd (Leg.token_of_done ready.done).2 busy

theorem Waiting.kept (waiting : Waiting access system clock leg) (now : Clock)
    (way : ¬ leg.done) :
    system.issue now = none ∧ (system.treeInputs now).request.lbAddrId = access.addr := by
  have unanswered := reply_unanswered (waiting.unanswered way)
  exact ⟨BusMaster.issue_of_waiting waiting.waiting unanswered,
    BusMaster.busAddr_of_waiting waiting.waiting unanswered⟩

theorem Waiting.step (waiting : Waiting access system clock leg) (way : ¬ leg.done) :
    Waiting access (system.step now) (clock + 1)
      (leg.next (SramPort.grant system.tree.acortex.sram)) := by
  have unanswered := reply_unanswered (waiting.unanswered way)
  obtain ⟨idle, onBus⟩ := waiting.kept now way
  have silent : Silent (system.treeInputs now).request := BusMaster.quiet_of_no_issue idle
  refine
    { waiting := BusMaster.step_of_waiting waiting.waiting unanswered
      steady := steady_silent waiting.steady silent ?_
      fits := ?_ }
  · intro busy
    have fits := waiting.fits
    cases leg with
    | rest => exact fits.elim
    | moving place => exact absurd rfl busy
    | held stage =>
        have ctrl := fits.2
        unfold isSramCtrl at ctrl
        rw [Bool.and_eq_true] at ctrl
        rw [onBus]
        exact of_decide_eq_true ctrl.2
  · rw [SramPort.grant_eq waiting.steady.at'.sound]
    exact (waiting.fits.next _ way).1

theorem Situation.step (situation : Situation system clock)
    (answerable : ∀ access, system.issue now = some access → Answerable access) :
    Situation (system.step now) (clock + 1) := by
  have ready : ∀ {leg}, Ready system clock leg → Situation (system.step now) (clock + 1) := by
    intro leg ready
    cases issued : system.issue now with
    | none => exact .idle (ready.idle issued)
    | some access => exact .waiting access _ (ready.pulse issued (answerable access issued))
  cases situation with
  | idle idle => exact ready idle.ready
  | waiting access leg waiting =>
      by_cases done : leg.done
      · exact ready (waiting.ready done)
      · exact .waiting access _ (waiting.step done)

end Situations

/-! ### Power-up -/

theorem quiet_released : AcortexLb.acortexHostRstOl (acortexRequest quietRequest) = true := by
  decide

theorem acortexRst_step (tree : State) (inputs : Inputs) :
    (step tree inputs).acortex.acortexRstLF =
      AcortexLb.acortexHostRstOl (acortexRequest inputs.request) :=
  rfl

def released (tree : State) : State :=
  { tree with acortex := { tree.acortex with acortexRstLF := true } }

theorem flows_empty (place : Place) : flows (fun _ => false) place = false := by
  have none_flows := flows_token none place
  exact none_flows

theorem empty_step {tree : State} {inputs : Inputs} (down : tree.acortex.acortexRstLF = false)
    (empty : ∀ place, occupied tree place = false) (quiet : inputs.request = quietRequest)
    (ack : sramAck tree = false) (place : Place) :
    occupied (step tree inputs) place = false := by
  have up : running (released tree) inputs = true := by
    change (true && AcortexLb.acortexHostRstOl (acortexRequest inputs.request)) = true
    rw [quiet]
    exact quiet_released
  have stopped : AcortexBlocks.running tree.acortex (acortexInputs inputs) = false := by
    unfold AcortexBlocks.running
    rw [down]
    rfl
  have silent : Silent inputs.request := by
    rw [quiet]
    exact ⟨rfl, rfl⟩
  have shown : occupied (step (released tree) inputs) place = false := by
    have before : occupied (released tree) = fun _ => false := funext fun other =>
      (by cases other <;> rfl : occupied (released tree) other = occupied tree other).trans
        (empty other)
    have unasked : sramAck (released tree) = false := ack
    rw [occupied_step up, before, unasked, flows_empty, enters_silent silent]
    rfl
  have blocks : (step tree inputs).acortex.i2c = I2cMaster.reset ∧
      (step tree inputs).acortex.prsr = WavPrsr.reset tree.acortex.prsr.wavHdrRam.memory ∧
      (step tree inputs).acortex.dac = Wm8731DrvrDac.reset ∧
      (step tree inputs).acortex.sram.lb = SramLb.reset := by
    have held := ne_true_of_eq_false stopped
    exact ⟨if_neg held, if_neg held, if_neg held, congrArg SramPort.State.lb (if_neg held)⟩
  cases place with
  | i2cRd => exact congrArg I2cMaster.Regs.lbRdValidOd blocks.1
  | prsrRd => exact congrArg WavPrsr.Regs.lbRdValidOd blocks.2.1
  | dacRd => exact congrArg Wm8731DrvrDac.State.lbRdValidOd blocks.2.2.1
  | sramRd => exact congrArg SramLb.Regs.lbRdValidOd blocks.2.2.2
  | sramWr => exact congrArg SramLb.Regs.lbWrValidOd blocks.2.2.2
  | _ => exact shown

section PowerUp

variable (contents : Contents) (first : Activity)

theorem powerUp_blocks :
    (System.powerUp contents first).tree.acortex.i2c = I2cMaster.reset ∧
      (System.powerUp contents first).tree.acortex.sram = SramPort.reset contents.sram ∧
      (System.powerUp contents first).tree.acortex.prsr = WavPrsr.reset contents.header ∧
      (System.powerUp contents first).tree.acortex.dac = Wm8731DrvrDac.reset :=
  ⟨rfl, rfl, rfl, rfl⟩

theorem reset_empty (place : Place) : occupied (reset contents) place = false := by
  cases place with
  | fgyrusRd channel stage =>
      revert stage
      exact (by decide : ∀ stage : Fin 4, (0 : BitVec 4).getLsbD stage = false)
  | vcortexRd stage =>
      revert stage
      exact (by decide : ∀ stage : Fin 3, (0 : BitVec 3).getLsbD stage = false)
  | own stage =>
      revert stage
      exact (by decide : ∀ stage : Fin 3, (0 : BitVec 3).getLsbD stage = false)
  | _ => rfl

theorem powerUp_idle : Idle (System.powerUp contents first) 0 := by
  refine
    { waiting := rfl
      steady :=
        { up := (acortexRst_step _ _).trans quiet_released
          single := empty_step rfl (reset_empty contents) rfl rfl
          at' := ?_ } }
  rw [(powerUp_blocks contents first).2.1]
  exact
    { sound := SramPort.reset_sound contents.sram
      marks := rfl
      timed := trivial }

end PowerUp

/-! ### Runs -/

section Runs

variable (contents : Contents) (first : Activity) (env : Nat → Clock)

def stateAt (t : Nat) : System := run System.step (System.powerUp contents first) env t

def issuedAt (t : Nat) : Option BusAccess := (stateAt contents first env t).issue (env t)

def validAt (t : Nat) : Bool × Bool :=
  (lbRdValidOd (stateAt contents first env t).tree, lbWrValidOd (stateAt contents first env t).tree)

/-- The access issued in clock `t` is answered in clock `r` by its own kind, and by
nothing else up to the clock of the next access. -/
structure AnsweredOnce (t r : Nat) (access : BusAccess) : Prop where
  later : t < r
  valid : validAt contents first env r = (!access.isWrite, access.isWrite)
  once : ∀ u, t < u → u ≠ r → (∀ v, t < v → v < u → issuedAt contents first env v = none) →
    validAt contents first env u = (false, false)

variable {contents first env}

theorem validAt_of {t : Nat} {wr rd : Bool}
    (valid : lbWrValidOd (stateAt contents first env t).tree = wr ∧
      lbRdValidOd (stateAt contents first env t).tree = rd) :
    validAt contents first env t = (rd, wr) := by
  unfold validAt
  rw [valid.1, valid.2]

def AllAnswerable (contents : Contents) (first : Activity) (env : Nat → Clock) : Prop :=
  ∀ t access, issuedAt contents first env t = some access → Answerable access

theorem situationAt (answerable : AllAnswerable contents first env) (t : Nat) :
    Situation (stateAt contents first env t) t := by
  induction t with
  | zero => exact .idle (powerUp_idle contents first)
  | succ t ih => exact ih.step (answerable t)

theorem idle_from {t : Nat} {leg : Leg} (ready : Ready (stateAt contents first env t) t leg) :
    ∀ u, t < u → (∀ v, t ≤ v → v < u → issuedAt contents first env v = none) →
      Idle (stateAt contents first env u) u := by
  intro u later
  induction u, later using Nat.le_induction with
  | base => exact fun quiet => ready.idle (quiet t (Nat.le_refl t) (Nat.lt_succ_self t))
  | succ u later ih =>
      intro quiet
      have idle := ih fun v lower upper => quiet v lower (by omega)
      exact idle.ready.idle (quiet u (by omega) (Nat.lt_succ_self u))

/-- The answer of a waiting access gets to the top, along with whatever a clock edge
keeps on the way. -/
theorem waiting_run {access : BusAccess} (kept : System → Leg → Prop)
    (keeps : ∀ u leg, Waiting access (stateAt contents first env u) u leg → ¬ leg.done →
      kept (stateAt contents first env u) leg →
      kept (stateAt contents first env (u + 1))
        (leg.next (SramPort.grant (stateAt contents first env u).tree.acortex.sram))) :
    ∀ count u leg, leg.clocks u = count →
      Waiting access (stateAt contents first env u) u leg →
      kept (stateAt contents first env u) leg →
      ∃ r last, u ≤ r ∧ Waiting access (stateAt contents first env r) r last ∧ last.done ∧
        kept (stateAt contents first env r) last ∧
        ∀ v, u ≤ v → v < r → ∃ leg, Waiting access (stateAt contents first env v) v leg ∧
          ¬ leg.done := by
  intro count
  induction count using Nat.strong_induction_on with
  | _ count ih =>
      intro u leg clocks waiting holds
      by_cases done : leg.done
      · exact ⟨u, leg, Nat.le_refl u, waiting, done, holds, fun v lower upper => by omega⟩
      · have closer := (waiting.fits.next u done).2
        rw [← SramPort.grant_eq waiting.steady.at'.sound, clocks] at closer
        obtain ⟨r, last, later, arrived, top, holds', before⟩ :=
          ih _ closer (u + 1) _ rfl (waiting.step done) (keeps u leg waiting done holds)
        refine ⟨r, last, by omega, arrived, top, holds', ?_⟩
        intro v lower upper
        by_cases same : v = u
        · rw [same]
          exact ⟨leg, waiting, done⟩
        · exact before v (by omega) upper

/-- The access is answered where its answer arrives, and nothing else comes before the
next access. -/
theorem answeredOnce_of_arrival {t r : Nat} {access : BusAccess} {last : Leg} (later : t < r)
    (arrived : Waiting access (stateAt contents first env r) r last) (top : last.done)
    (before : ∀ v, t + 1 ≤ v → v < r → ∃ leg,
      Waiting access (stateAt contents first env v) v leg ∧ ¬ leg.done) :
    AnsweredOnce contents first env t r access := by
  refine
    { later := later
      valid := validAt_of (arrived.answered top)
      once := ?_ }
  intro u after other quiet
  by_cases early : u < r
  · obtain ⟨leg, waiting, way⟩ := before u after early
    exact validAt_of (waiting.unanswered way)
  · have idle := idle_from (arrived.ready top) u (by omega)
      fun v lower upper => quiet v (by omega) upper
    exact validAt_of idle.unanswered

theorem ready_of_issue {t : Nat} {access : BusAccess}
    (answerable : AllAnswerable contents first env)
    (issued : issuedAt contents first env t = some access) :
    ∃ leg, Ready (stateAt contents first env t) t leg := by
  cases situationAt answerable t with
  | idle idle => exact ⟨.rest, idle.ready⟩
  | waiting other leg waiting =>
      by_cases done : leg.done
      · exact ⟨leg, waiting.ready done⟩
      · have none_issued := (waiting.kept (env t) done).1
        unfold issuedAt at issued
        rw [none_issued] at issued
        cases issued

theorem waiting_of_issue {t : Nat} {access : BusAccess}
    (answerable : AllAnswerable contents first env)
    (issued : issuedAt contents first env t = some access) :
    Waiting access (stateAt contents first env (t + 1)) (t + 1) (start access) := by
  obtain ⟨leg, ready⟩ := ready_of_issue answerable issued
  exact ready.pulse issued (answerable t access issued)

end Runs

theorem offered_of_issue {contents : Contents} {first : Activity} {env : Nat → Clock} {t : Nat}
    {access : BusAccess} (issued : issuedAt contents first env t = some access) :
    (env t).offer.access = some access := by
  have free := BusMaster.free_of_issue issued
  unfold issuedAt System.issue BusMaster.issue at issued
  rw [free] at issued
  exact issued

/-! ### Idle surroundings -/

def calmEngine : CortexIrq.Engine :=
  { fgyrusBusyIh := false
    fgyrusFsmPstateId := .idle
    fgyrusFftDoneIh := false
    fftRamRdDataId := ⟨0, 0⟩
    twiddleRamRdDataId := 0
    cordicRamRdDataId := 0 }

def calm : Activity :=
  { engine := fun _ => calmEngine
    audio :=
      { adcLcapDataId := 0
        adcRcapDataId := 0
        adcCapBusyIh := false
        sdaReleased := true
        lbStDataId := 0
        lbStValidIh := false
        imRdReqIh := false
        sramEmptyIh := true
        sramRdDataValidIh := false
        sramRdDataId := 0
        pcmFfAfullIh := false
        hdrRamMixed := 0
        pcmFfDataValidIh := false
        pcmFfLdataId := 0
        pcmFfRdataId := 0
        audAdcDatId := false }
    pwmMixed := 0 }

def blank : Contents :=
  { sram := fun _ => 0
    header := fun _ => 0
    pwm := fun _ => 0 }

end Synesthesia.CortexTree
