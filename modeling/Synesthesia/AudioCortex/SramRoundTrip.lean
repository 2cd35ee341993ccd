/-
Round trip of a host access to the SRAM while words are streamed.

The host runs a program of `sram_write16` and `sram_read16` calls at its own pace.
In every clock it is idle, has the answer of its access on the bus, or has a control
write under way; one clock edge leads from each of the three to the next.
-/

import Synesthesia.AudioCortex.SramHost

namespace Synesthesia.SramHost

open Synesthesia.Rtl
open Synesthesia.Prog
open Synesthesia.AcortexRegMap

/-! ### Situations of the host -/

section Situations

variable {α : Type} {probe : BitVec 18} {state : State α} {clock : Nat} {view : View}
  {now : Clock}

structure Idle (probe : BitVec 18) (state : State α) (clock : Nat) (view : View) : Prop where
  waiting : state.host.waiting = false
  at' : SramPort.At state.port clock .free
  holds : Holds probe state.port view

structure Answered (probe : BitVec 18) (state : State α) (clock : Nat) (view : View)
    (access : SramAccess) : Prop where
  waiting : state.host.waiting = true
  head : state.host.program.head = some access
  at' : SramPort.At state.port clock .free
  wrValid : state.port.lb.lbWrValidOd = access.isWrite
  rdValid : state.port.lb.lbRdValidOd = !access.isWrite
  answer : view.answers access (access.answer state.port.lb.lbRdDataOd)
  holds : Holds probe state.port (view.after probe access)

structure Pending (probe : BitVec 18) (state : State α) (clock : Nat) (view : View)
    (data : BitVec 16) (stage : SramPort.Stage) : Prop where
  waiting : state.host.waiting = true
  head : state.host.program.head = some (.write sramAccCtrlRegAddr data)
  wrValid : state.port.lb.lbWrValidOd = false
  rdValid : state.port.lb.lbRdValidOd = false
  underWay : UnderWay probe state.port clock view data stage

inductive Situation (probe : BitVec 18) (state : State α) (clock : Nat) (view : View) : Prop where
  | idle (idle : Idle probe state clock view)
  | answered (access : SramAccess) (answered : Answered probe state clock view access)
  | pending (data : BitVec 16) (stage : SramPort.Stage)
      (pending : Pending probe state clock view data stage)

/-- The rest of the program does what it should in every view that fits. -/
def Expects (probe : BitVec 18) (after : View → α → Prop) (program : Program α) (view : View) :
    Prop :=
  program.EnsuresFrom (View.after probe) View.answers Allowed after view

/-- The host is free to go on, with the program that is left. -/
structure Ready (probe : BitVec 18) (after : View → α → Prop) (state : State α) (clock : Nat)
    (view : View) : Prop where
  free : state.host.free (reply state.port) = true
  at' : SramPort.At state.port clock .free
  holds : Holds probe state.port view
  expects : Expects probe after (state.host.resumed (reply state.port)) view

variable {after : View → α → Prop}

theorem Idle.resumed (idle : Idle probe state clock view) :
    state.host.resumed (reply state.port) = state.host.program := by
  have unserved : state.host.served (reply state.port) = false := by
    unfold Host.served
    rw [idle.waiting]
    rfl
  unfold Host.resumed
  rw [unserved]
  rfl

theorem Idle.ready (idle : Idle probe state clock view)
    (expects : Expects probe after state.host.program view) :
    Ready probe after state clock view := by
  refine
    { free := ?_
      at' := idle.at'
      holds := idle.holds
      expects := ?_ }
  · unfold Host.free
    rw [idle.waiting]
    rfl
  · rw [idle.resumed]
    exact expects

theorem Answered.served {access : SramAccess} (answered : Answered probe state clock view access) :
    state.host.served (reply state.port) = true := by
  unfold Host.served reply
  rw [answered.waiting, answered.wrValid, answered.rdValid]
  cases access.isWrite <;> rfl

theorem Answered.ready {access : SramAccess} (answered : Answered probe state clock view access)
    (expects : Expects probe after state.host.program view) :
    Ready probe after state clock (view.after probe access) := by
  have served := answered.served
  have head := answered.head
  have answer := answered.answer
  refine
    { free := ?_
      at' := answered.at'
      holds := answered.holds
      expects := ?_ }
  · unfold Host.free
    rw [served, Bool.or_true]
  · unfold Host.resumed
    rw [served, if_pos rfl]
    cases program : state.host.program with
    | done value =>
        rw [program] at head
        cases head
    | ask asked next =>
        rw [program] at head expects
        cases Option.some.inj head
        exact expects.2 _ answer

theorem Pending.not_free {data : BitVec 16} {stage : SramPort.Stage}
    (pending : Pending probe state clock view data stage) :
    state.host.free (reply state.port) = false := by
  unfold Host.free Host.served reply
  rw [pending.waiting, pending.wrValid, pending.rdValid]
  rfl

/-! ### One clock edge -/

theorem pulses_of_issue {access : SramAccess}
    (issued : state.host.issue (reply state.port) now.host = some access) :
    Pulses (portInputs state now) access :=
  { addr := (Host.bus_of_issue issued).1
    write := (Host.bus_of_issue issued).2.1
    read := (Host.bus_of_issue issued).2.2.1
    data := (Host.bus_of_issue issued).2.2.2 }

theorem Ready.idle_step (ready : Ready probe after state clock view)
    (idle : state.host.issue (reply state.port) now.host = none)
    (spares : Spares probe state.port (portInputs state now)) :
    Idle probe (step state now) (clock + 1) view ∧
      Expects probe after (step state now).host.program view ∧
      (step state now).port.lb.lbWrValidOd = false ∧
      (step state now).port.lb.lbRdValidOd = false := by
  have silent : Silent (portInputs state now) := Host.bus_of_no_issue idle
  refine ⟨?_, ready.expects, free_silent ready.at' silent⟩
  refine
    { waiting := ?_
      at' := free_step ready.at' (accCtrl_silent silent 0) (accCtrl_silent silent 1)
      holds := holds_quiet ready.at' ready.holds silent.1 spares }
  change ((state.host.issue (reply state.port) now.host).isSome ||
    !state.host.free (reply state.port)) = false
  rw [idle, ready.free]
  rfl

theorem Ready.issued (ready : Ready probe after state clock view) {access : SramAccess}
    (issued : state.host.issue (reply state.port) now.host = some access) :
    (step state now).host.waiting = true ∧
      (step state now).host.program.head = some access ∧
      Expects probe after (step state now).host.program view ∧ Allowed access := by
  have head := (Host.issue_some_iff.mp issued).2.2
  have expects := ready.expects
  refine ⟨?_, head, expects, ?_⟩
  · change ((state.host.issue (reply state.port) now.host).isSome || _) = true
    rw [issued]
    rfl
  · cases program : state.host.resumed (reply state.port) with
    | done value =>
        rw [program] at head
        cases head
    | ask asked next =>
        rw [program] at head expects
        cases Option.some.inj head
        exact expects.1

theorem Ready.register_step (ready : Ready probe after state clock view) {access : SramAccess}
    (issued : state.host.issue (reply state.port) now.host = some access)
    (register : ∀ data, access ≠ .write sramAccCtrlRegAddr data)
    (spares : Spares probe state.port (portInputs state now)) :
    Answered probe (step state now) (clock + 1) view access := by
  have pulses := pulses_of_issue issued
  obtain ⟨waiting, head, -, -⟩ := ready.issued issued
  have valid := SramPort.lbWrValid_step ready.at'.marks (portInputs state now)
  cases access with
  | read addr =>
      have onBus : (portInputs state now).lbAddrId = addr := pulses.addr
      have quiet : (portInputs state now).lbWrEnIh = false := pulses.write
      have noCtrl : ∀ bit, SramPort.accCtrl (portInputs state now) bit = false := by
        intro bit
        unfold SramPort.accCtrl
        rw [quiet, Bool.and_false, Bool.false_and]
      refine
        { waiting := waiting
          head := head
          at' := free_step ready.at' (noCtrl 0) (noCtrl 1)
          wrValid := ?_
          rdValid := pulses.read
          answer := ?_
          holds := holds_quiet ready.at' ready.holds quiet spares }
      · refine valid.trans ?_
        rw [quiet]
        exact ite_self false
      · rintro rfl data known
        have shown : (step state now).port.lb.lbRdDataOd = state.port.lb.sramDataF := by
          change SramLb.nextLbRdData state.port.lb
            (SramPort.lbInputs state.port (portInputs state now)) = _
          unfold SramLb.nextLbRdData
          rw [show (SramPort.lbInputs state.port (portInputs state now)).lbAddrId =
            sramAccDataRegAddr from onBus]
          rfl
        exact shown.trans (ready.holds.data data known)
  | write addr data =>
      have other : addr ≠ sramAccCtrlRegAddr := fun same => register data (by rw [same])
      have onBus : (portInputs state now).lbAddrId = addr := pulses.addr
      have noCtrl : ∀ bit, SramPort.accCtrl (portInputs state now) bit = false := by
        intro bit
        unfold SramPort.accCtrl
        rw [onBus, beq_eq_false_iff_ne.mpr other, Bool.false_and, Bool.false_and]
      have holds := holds_write ready.at' ready.holds pulses spares
      refine
        { waiting := waiting
          head := head
          at' := free_step ready.at' (noCtrl 0) (noCtrl 1)
          wrValid := ?_
          rdValid := pulses.read
          answer := trivial
          holds := ?_ }
      · refine valid.trans ?_
        rw [onBus, if_neg other]
        exact pulses.write
      · have effect : view.after probe (.write addr data) = view.afterRegister addr data :=
          if_neg other
        rw [effect]
        exact holds

theorem Ready.ctrl_step (ready : Ready probe after state clock view) {data : BitVec 16}
    (issued : state.host.issue (reply state.port) now.host =
      some (.write sramAccCtrlRegAddr data))
    (spares : Spares probe state.port (portInputs state now)) :
    Pending probe (step state now) (clock + 1) view data
      (if data.getLsbD 1 then .writing else .reading) := by
  have pulses := pulses_of_issue issued
  obtain ⟨waiting, head, -, allowed⟩ := ready.issued issued
  have onBus : (portInputs state now).lbAddrId = sramAccCtrlRegAddr := pulses.addr
  refine
    { waiting := waiting
      head := head
      wrValid := ?_
      rdValid := pulses.read
      underWay := underWay_start ready.at' ready.holds pulses (allowed rfl) spares }
  refine (SramPort.lbWrValid_step ready.at'.marks _).trans ?_
  rw [onBus, if_pos rfl]
  rfl

theorem Pending.step {data : BitVec 16} {stage : SramPort.Stage}
    (pending : Pending probe state clock view data stage)
    (spares : Spares probe state.port (portInputs state now)) :
    Pending probe (SramHost.step state now) (clock + 1) view data
        (stage.next (SramPort.grant state.port) false false) ∨
      Answered probe (SramHost.step state now) (clock + 1) view
        (.write sramAccCtrlRegAddr data) := by
  have busy := pending.not_free
  have kept : (SramHost.step state now).host = state.host := Host.step_of_not_free busy
  have silent : Silent (portInputs state now) :=
    Host.bus_of_no_issue (Host.issue_of_not_free busy)
  have onBus : (portInputs state now).lbAddrId = sramAccCtrlRegAddr :=
    Host.busAddr_of_not_free busy pending.head
  have waiting : (SramHost.step state now).host.waiting = true := by
    rw [kept]
    exact pending.waiting
  have head : (SramHost.step state now).host.program.head =
      some (.write sramAccCtrlRegAddr data) := by
    rw [kept]
    exact pending.head
  rcases underWay_step pending.underWay silent onBus spares with ⟨silentNext, next⟩ |
    ⟨valid, at', holds⟩
  · left
    exact
      { waiting := waiting
        head := head
        wrValid := silentNext
        rdValid := silent.2
        underWay := next }
  · right
    exact
      { waiting := waiting
        head := head
        at' := at'
        wrValid := valid
        rdValid := silent.2
        answer := trivial
        holds := holds }

theorem Pending.wrValid_step {data : BitVec 16} {stage : SramPort.Stage}
    (pending : Pending probe state clock view data stage) (now : Clock) :
    (SramHost.step state now).port.lb.lbWrValidOd =
      stage.acknowledges (SramPort.grant state.port) :=
  pending.underWay.lbWrValid_step
    (Host.busAddr_of_not_free pending.not_free pending.head)

theorem Pending.moves {data : BitVec 16} {stage : SramPort.Stage}
    (pending : Pending probe state clock view data stage)
    (spares : Spares probe state.port (portInputs state now))
    (early : stage.acknowledges (SramPort.grant state.port) = false) :
    Pending probe (SramHost.step state now) (clock + 1) view data
      (stage.next (SramPort.grant state.port) false false) := by
  rcases pending.step spares with next | answered
  · exact next
  · have valid := pending.wrValid_step now
    rw [early, answered.wrValid] at valid
    cases valid

theorem Pending.acknowledged {data : BitVec 16} {stage : SramPort.Stage}
    (pending : Pending probe state clock view data stage)
    (spares : Spares probe state.port (portInputs state now))
    (last : stage.acknowledges (SramPort.grant state.port) = true) :
    Answered probe (SramHost.step state now) (clock + 1) view
      (.write sramAccCtrlRegAddr data) := by
  rcases pending.step spares with next | answered
  · have valid := pending.wrValid_step now
    rw [last, next.wrValid] at valid
    cases valid
  · exact answered

end Situations

/-! ### Runs -/

section Runs

variable {α : Type} (start : State α) (env : Nat → Clock)

def stateAt (t : Nat) : State α := run step start env t

def issuedAt (t : Nat) : Option SramAccess :=
  (stateAt start env t).host.issue (reply (stateAt start env t).port) (env t).host

def pathInputsAt (t : Nat) : SramPath.Inputs :=
  SramPort.pathInputs (stateAt start env t).port (portInputs (stateAt start env t) (env t))

/-- The access issued in clock `t` is answered in clock `r` by its own kind, and by
nothing else up to the clock of the next access. -/
structure AnsweredOnce (t r : Nat) (access : SramAccess) : Prop where
  later : t < r
  wrValid : (stateAt start env r).port.lb.lbWrValidOd = access.isWrite
  rdValid : (stateAt start env r).port.lb.lbRdValidOd = !access.isWrite
  once : ∀ u, t < u → u ≠ r → (∀ v, t < v → v < u → issuedAt start env v = none) →
    (stateAt start env u).port.lb.lbWrValidOd = false ∧
      (stateAt start env u).port.lb.lbRdValidOd = false

variable {start env} {probe : BitVec 18} {origin : Nat} {view : View} {after : View → α → Prop}

def AlwaysSpares (start : State α) (env : Nat → Clock) (probe : BitVec 18) : Prop :=
  ∀ t, Spares probe (stateAt start env t).port (portInputs (stateAt start env t) (env t))

/-- A pending request waits for the next slot of its port. -/
theorem pending_until_grant (spares : AlwaysSpares start env probe) {data : BitVec 16}
    {stage : SramPort.Stage} (waits : Stage.waits stage = true) :
    ∀ distance t, (origin + t + 1 + distance) % 17 = 0 →
      Pending probe (stateAt start env t) (origin + t) view data stage →
      ∃ g, t ≤ g ∧ g ≤ t + distance ∧
        SramPort.grant (stateAt start env g).port = true ∧
        ∀ u, t ≤ u → u ≤ g →
          Pending probe (stateAt start env u) (origin + u) view data stage := by
  intro distance
  induction distance with
  | zero =>
      intro t slot pending
      refine ⟨t, Nat.le_refl t, Nat.le_refl t, ?_, ?_⟩
      · rw [SramPort.grant_eq pending.underWay.at'.sound]
        exact decide_eq_true (by omega)
      · intro u from' until'
        rw [show u = t by omega]
        exact pending
  | succ distance ih =>
      intro t slot pending
      by_cases now : (origin + t + 1) % 17 = 0
      · refine ⟨t, Nat.le_refl t, by omega, ?_, ?_⟩
        · rw [SramPort.grant_eq pending.underWay.at'.sound]
          exact decide_eq_true now
        · intro u from' until'
          rw [show u = t by omega]
          exact pending
      · have ungranted : SramPort.grant (stateAt start env t).port = false := by
          rw [SramPort.grant_eq pending.underWay.at'.sound]
          exact decide_eq_false now
        have next : Pending probe (stateAt start env (t + 1)) (origin + (t + 1)) view data
            stage := by
          have moved := pending.moves (spares t)
            (by rw [ungranted]; cases stage <;> first | rfl | cases waits)
          have same : stage.next false false false = stage := by
            cases stage <;> first | rfl | cases waits
          rw [ungranted, same] at moved
          exact moved
        obtain ⟨g, from', until', granted, pendings⟩ := ih (t + 1) (by omega) next
        refine ⟨g, by omega, by omega, granted, ?_⟩
        intro u lower upper
        by_cases first : u = t
        · rw [first]
          exact pending
        · exact pendings u (by omega) upper

theorem Pending.silent_bus {t : Nat} {data : BitVec 16} {stage : SramPort.Stage}
    (pending : Pending probe (stateAt start env t) (origin + t) view data stage) :
    Silent (portInputs (stateAt start env t) (env t)) :=
  Host.bus_of_no_issue (Host.issue_of_not_free pending.not_free)

theorem pending_write (spares : AlwaysSpares start env probe) {data : BitVec 16} {t : Nat}
    (pending : Pending probe (stateAt start env t) (origin + t) view data .writing) :
    ∃ g, t ≤ g ∧ g ≤ t + 16 ∧
      SramPath.mmWrite (stateAt start env g).port.path (pathInputsAt start env g) = true ∧
      Answered probe (stateAt start env (g + 1)) (origin + (g + 1)) view
        (.write sramAccCtrlRegAddr data) ∧
      ∀ u, t ≤ u → u < g + 1 →
        ∃ stage, Pending probe (stateAt start env u) (origin + u) view data stage := by
  obtain ⟨g, from', until', granted, pendings⟩ :=
    pending_until_grant spares rfl (16 - (origin + t) % 17) t (by omega) pending
  have atGrant := pendings g from' (Nat.le_refl g)
  have wrEn : (stateAt start env g).port.lb.sramMmWrEnOh = true := atGrant.underWay.wrEn_eq
  refine ⟨g, from', by omega, ?_, ?_, ?_⟩
  · change (SramPort.grant _ && _) = true
    rw [granted]
    exact wrEn
  · exact atGrant.acknowledged (spares g) (by rw [granted]; rfl)
  · intro u lower upper
    exact ⟨_, pendings u lower (by omega)⟩

theorem pending_read (spares : AlwaysSpares start env probe) {data : BitVec 16} {t : Nat}
    (pending : Pending probe (stateAt start env t) (origin + t) view data .reading) :
    ∃ g, t ≤ g ∧ g ≤ t + 16 ∧
      SramPath.mmRead (stateAt start env g).port.path (pathInputsAt start env g) = true ∧
      (stateAt start env (g + 3)).port.path.arb.lbMmRdValidOd = true ∧
      (stateAt start env (g + 4)).port.lb.sramDataF =
        SramPath.sramRdDataId (stateAt start env (g + 3)).port.path ∧
      Answered probe (stateAt start env (g + 5)) (origin + (g + 5)) view
        (.write sramAccCtrlRegAddr data) ∧
      ∀ u, t ≤ u → u < g + 5 →
        ∃ stage, Pending probe (stateAt start env u) (origin + u) view data stage := by
  obtain ⟨g, from', until', granted, pendings⟩ :=
    pending_until_grant spares rfl (16 - (origin + t) % 17) t (by omega) pending
  have atGrant := pendings g from' (Nat.le_refl g)
  have rdEn : (stateAt start env g).port.lb.sramMmRdEnOh = true :=
    congrArg SramPort.Marks.rdEn atGrant.underWay.at'.marks
  have issued : Pending probe (stateAt start env (g + 1)) (origin + (g + 1)) view data .issued := by
    have moved := atGrant.moves (spares g) rfl
    rw [granted] at moved
    exact moved
  have driven : Pending probe (stateAt start env (g + 2)) (origin + (g + 2)) view data .driven :=
    issued.moves (spares (g + 1)) rfl
  have arrived : Pending probe (stateAt start env (g + 3)) (origin + (g + 3)) view data .arrived :=
    driven.moves (spares (g + 2)) rfl
  have latched : Pending probe (stateAt start env (g + 4)) (origin + (g + 4)) view data .latched :=
    arrived.moves (spares (g + 3)) rfl
  have valid : (stateAt start env (g + 3)).port.path.arb.lbMmRdValidOd = true :=
    arrived.underWay.rdValid_eq
  have taken := sramData_silent (stateAt start env (g + 3)).port arrived.silent_bus
  rw [valid, if_pos rfl] at taken
  refine ⟨g, from', by omega, ?_, valid, taken, latched.acknowledged (spares (g + 4)) rfl, ?_⟩
  · change (SramPort.grant _ && _) = true
    rw [granted]
    exact rdEn
  · intro u lower upper
    by_cases early : u ≤ g
    · exact ⟨_, pendings u lower early⟩
    · obtain rfl | rfl | rfl | rfl : u = g + 1 ∨ u = g + 2 ∨ u = g + 3 ∨ u = g + 4 := by omega
      · exact ⟨_, issued⟩
      · exact ⟨_, driven⟩
      · exact ⟨_, arrived⟩
      · exact ⟨_, latched⟩

/-- What the memory side does between a control write in clock `t` and its
acknowledge in clock `r`. -/
structure Accessed (start : State α) (env : Nat → Clock) (t r : Nat) (data : BitVec 16) :
    Prop where
  granted : data.getLsbD 1 = true → ∃ g, t < g ∧ g < r ∧
    SramPath.mmWrite (stateAt start env g).port.path (pathInputsAt start env g) = true
  latched : data.getLsbD 1 = false → ∃ g, t < g ∧ g + 4 < r ∧
    SramPath.mmRead (stateAt start env g).port.path (pathInputsAt start env g) = true ∧
    (stateAt start env (g + 3)).port.path.arb.lbMmRdValidOd = true ∧
    (stateAt start env (g + 4)).port.lb.sramDataF =
      SramPath.sramRdDataId (stateAt start env (g + 3)).port.path

theorem pending_program {data : BitVec 16} {t r : Nat}
    (pendings : ∀ u, t ≤ u → u < r →
      ∃ stage, Pending probe (stateAt start env u) (origin + u) view data stage) :
    ∀ gap, t + gap ≤ r →
      (stateAt start env (t + gap)).host = (stateAt start env t).host := by
  intro gap
  induction gap with
  | zero => exact fun _ => rfl
  | succ gap ih =>
      intro inside
      obtain ⟨stage, pending⟩ := pendings (t + gap) (by omega) (by omega)
      exact (Host.step_of_not_free pending.not_free).trans (ih (by omega))

/-- The access of clock `t` is answered in clock `r`; the host waits until then. -/
structure Served (probe : BitVec 18) (origin : Nat) (start : State α) (env : Nat → Clock)
    (view : View) (t r : Nat) (access : SramAccess) : Prop where
  later : t < r
  answered : Answered probe (stateAt start env r) (origin + r) view access
  program : (stateAt start env r).host.program = (stateAt start env (t + 1)).host.program
  silent : ∀ u, t < u → u < r → (stateAt start env u).port.lb.lbWrValidOd = false ∧
    (stateAt start env u).port.lb.lbRdValidOd = false

theorem served_of_pendings {data : BitVec 16} {t r : Nat} (later : t < r)
    (answered : Answered probe (stateAt start env r) (origin + r) view
      (.write sramAccCtrlRegAddr data))
    (pendings : ∀ u, t + 1 ≤ u → u < r →
      ∃ stage, Pending probe (stateAt start env u) (origin + u) view data stage) :
    Served probe origin start env view t r (.write sramAccCtrlRegAddr data) := by
  refine
    { later := later
      answered := answered
      program := ?_
      silent := ?_ }
  · have kept := pending_program pendings (r - (t + 1)) (by omega)
    rw [show t + 1 + (r - (t + 1)) = r by omega] at kept
    rw [kept]
  · intro u lower upper
    obtain ⟨stage, pending⟩ := pendings u lower upper
    exact ⟨pending.wrValid, pending.rdValid⟩

theorem ctrl_served (spares : AlwaysSpares start env probe) {t : Nat}
    (ready : Ready probe after (stateAt start env t) (origin + t) view) {data : BitVec 16}
    (issued : issuedAt start env t = some (.write sramAccCtrlRegAddr data)) :
    ∃ r, Served probe origin start env view t r (.write sramAccCtrlRegAddr data) ∧
      Accessed start env t r data := by
  have pending : Pending probe (stateAt start env (t + 1)) (origin + (t + 1)) view data
      (if data.getLsbD 1 then .writing else .reading) :=
    ready.ctrl_step issued (spares t)
  cases direction : data.getLsbD 1 with
  | true =>
      rw [direction] at pending
      obtain ⟨g, from', until', granted, answered, pendings⟩ := pending_write spares pending
      refine ⟨g + 1, served_of_pendings (by omega) answered pendings, ?_⟩
      refine { granted := fun _ => ⟨g, by omega, by omega, granted⟩, latched := fun reads => ?_ }
      rw [direction] at reads
      cases reads
  | false =>
      rw [direction] at pending
      obtain ⟨g, from', until', granted, valid, taken, answered, pendings⟩ :=
        pending_read spares pending
      refine ⟨g + 5, served_of_pendings (by omega) answered pendings, ?_⟩
      refine
        { granted := fun writes => ?_
          latched := fun _ => ⟨g, by omega, by omega, granted, valid, taken⟩ }
      rw [direction] at writes
      cases writes

theorem access_served (spares : AlwaysSpares start env probe) {t : Nat}
    (ready : Ready probe after (stateAt start env t) (origin + t) view) {access : SramAccess}
    (issued : issuedAt start env t = some access) :
    ∃ r, Served probe origin start env view t r access := by
  by_cases ctrl : ∃ data, access = .write sramAccCtrlRegAddr data
  · obtain ⟨data, rfl⟩ := ctrl
    obtain ⟨r, served, -⟩ := ctrl_served spares ready issued
    exact ⟨r, served⟩
  · refine ⟨t + 1, ?_⟩
    exact
      { later := Nat.lt_succ_self t
        answered := ready.register_step issued
          (fun data same => ctrl ⟨data, same⟩) (spares t)
        program := rfl
        silent := fun u lower upper => by omega }

theorem ready_until (spares : AlwaysSpares start env probe) {t : Nat}
    (ready : Ready probe after (stateAt start env t) (origin + t) view) :
    ∀ gap, (∀ v, t ≤ v → v < t + gap → issuedAt start env v = none) →
      Ready probe after (stateAt start env (t + gap)) (origin + (t + gap)) view ∧
        (stateAt start env (t + gap)).host.resumed (reply (stateAt start env (t + gap)).port) =
          (stateAt start env t).host.resumed (reply (stateAt start env t).port) ∧
        (0 < gap → (stateAt start env (t + gap)).port.lb.lbWrValidOd = false ∧
          (stateAt start env (t + gap)).port.lb.lbRdValidOd = false) := by
  intro gap
  induction gap with
  | zero => exact fun _ => ⟨ready, rfl, fun some => absurd some (Nat.lt_irrefl 0)⟩
  | succ gap ih =>
      intro quiet
      obtain ⟨before, program, -⟩ := ih fun v lower upper => quiet v lower (by omega)
      have none : issuedAt start env (t + gap) = none := quiet (t + gap) (by omega) (by omega)
      obtain ⟨idle, expects, silent⟩ := before.idle_step none (spares (t + gap))
      refine ⟨idle.ready expects, ?_, fun _ => silent⟩
      rw [← program]
      exact idle.resumed

theorem served_once (spares : AlwaysSpares start env probe) {t r : Nat} {access : SramAccess}
    (ready : Ready probe after (stateAt start env t) (origin + t) view)
    (issued : issuedAt start env t = some access)
    (served : Served probe origin start env view t r access) :
    AnsweredOnce start env t r access := by
  have expects : Expects probe after (stateAt start env r).host.program view := by
    rw [served.program]
    exact (ready.issued issued).2.2.1
  refine
    { later := served.later
      wrValid := served.answered.wrValid
      rdValid := served.answered.rdValid
      once := ?_ }
  intro u lower other quiet
  have later := served.later
  by_cases before : u < r
  · exact served.silent u lower before
  · have idle := (ready_until spares (served.answered.ready expects) (u - r) fun v from' until' =>
      quiet v (by omega) (by omega)).2.2 (by omega)
    rw [show r + (u - r) = u by omega] at idle
    exact idle

/-! ### The end of the program -/

theorem program_done_stays {value : α} {t : Nat}
    (done : (stateAt start env t).host.program = .done value) :
    ∀ gap, (stateAt start env (t + gap)).host.program = .done value := by
  intro gap
  induction gap with
  | zero => exact done
  | succ gap ih =>
      change (stateAt start env (t + gap)).host.resumed _ = _
      unfold Host.resumed
      rw [ih]
      split
      · rfl
      · rfl

theorem ready_paused (spares : AlwaysSpares start env probe) {t : Nat} {program : Program α}
    (ready : Ready probe after (stateAt start env t) (origin + t) view)
    (left : (stateAt start env t).host.resumed (reply (stateAt start env t).port) = program)
    (paused : (env t).host.go = false) :
    Ready probe after (stateAt start env (t + 1)) (origin + (t + 1)) view ∧
      (stateAt start env (t + 1)).host.resumed (reply (stateAt start env (t + 1)).port) =
        program := by
  have none : ∀ v, t ≤ v → v < t + 1 → issuedAt start env v = none := by
    intro v from' until'
    obtain rfl : v = t := by omega
    unfold issuedAt Host.issue
    rw [paused, Bool.false_and]
    exact if_neg Bool.false_ne_true
  obtain ⟨still, kept, -⟩ := ready_until spares ready 1 none
  exact ⟨still, kept.trans left⟩

/-- A host that always gets to its next access finishes the program, with a value
that the program ensures. -/
theorem program_finishes (spares : AlwaysSpares start env probe)
    (patient : ∀ t, ∃ later, t ≤ later ∧ (env later).host.go = true) (program : Program α) :
    ∀ t view, Ready probe after (stateAt start env t) (origin + t) view →
      (stateAt start env t).host.resumed (reply (stateAt start env t).port) = program →
      ∃ finish value final, after final value ∧
        (stateAt start env finish).host.program = .done value := by
  induction program with
  | done value =>
      intro t view ready left
      have expects := ready.expects
      rw [left] at expects
      exact ⟨t + 1, value, view, expects, left⟩
  | ask access next ih =>
      intro t view ready left
      obtain ⟨u, -, ⟨waiting, same⟩, goes⟩ :=
        @lasts_until (fun u => (env u).host.go)
          (fun u => Ready probe after (stateAt start env u) (origin + u) view ∧
            (stateAt start env u).host.resumed (reply (stateAt start env u).port) =
              .ask access next)
          patient (fun u waits paused => ready_paused spares waits.1 waits.2 paused) t
          ⟨ready, left⟩
      have issued : issuedAt start env u = some access := by
        refine Host.issue_some_iff.mpr ⟨goes, waiting.free, ?_⟩
        rw [same]
        rfl
      obtain ⟨r, served⟩ := access_served spares waiting issued
      have kept : (stateAt start env r).host.program = .ask access next :=
        served.program.trans same
      have expects : Expects probe after (stateAt start env r).host.program view := by
        rw [kept, ← same]
        exact waiting.expects
      refine ih (access.answer (stateAt start env r).port.lb.lbRdDataOd) r _
        (served.answered.ready expects) ?_
      unfold Host.resumed
      rw [served.answered.served, kept, if_pos rfl]
      rfl

/-! ### Every clock -/

theorem situation_always (spares : AlwaysSpares start env probe)
    (first : Idle probe start origin view) (expects : Expects probe after start.host.program view) :
    ∀ t, ∃ view, Expects probe after (stateAt start env t).host.program view ∧
      Situation probe (stateAt start env t) (origin + t) view := by
  intro t
  induction t with
  | zero => exact ⟨view, expects, .idle first⟩
  | succ t ih =>
      obtain ⟨view, expects, situation⟩ := ih
      have fromReady : ∀ view, Ready probe after (stateAt start env t) (origin + t) view →
          ∃ view, Expects probe after (stateAt start env (t + 1)).host.program view ∧
            Situation probe (stateAt start env (t + 1)) (origin + (t + 1)) view := by
        intro view ready
        cases issue : issuedAt start env t with
        | none =>
            obtain ⟨idle, next, -⟩ := ready.idle_step issue (spares t)
            exact ⟨view, next, .idle idle⟩
        | some access =>
            have next := (ready.issued issue).2.2.1
            by_cases ctrl : ∃ data, access = .write sramAccCtrlRegAddr data
            · obtain ⟨data, rfl⟩ := ctrl
              exact ⟨view, next, .pending data _ (ready.ctrl_step issue (spares t))⟩
            · exact ⟨view, next, .answered access
                (ready.register_step issue (fun data same => ctrl ⟨data, same⟩) (spares t))⟩
      cases situation with
      | idle idle => exact fromReady view (idle.ready expects)
      | answered access answered => exact fromReady _ (answered.ready expects)
      | pending data stage pending =>
          have kept : (stateAt start env (t + 1)).host = (stateAt start env t).host :=
            Host.step_of_not_free pending.not_free
          rw [← kept] at expects
          rcases pending.step (spares t) with next | answered
          · exact ⟨view, expects, .pending data _ next⟩
          · exact ⟨view, expects, .answered _ answered⟩

theorem ready_of_issue (spares : AlwaysSpares start env probe)
    (first : Idle probe start origin view) (expects : Expects probe after start.host.program view)
    {t : Nat} {access : SramAccess} (issued : issuedAt start env t = some access) :
    ∃ view, Ready probe after (stateAt start env t) (origin + t) view := by
  obtain ⟨view, expects, situation⟩ := situation_always spares first expects t
  cases situation with
  | idle idle => exact ⟨view, idle.ready expects⟩
  | answered access answered => exact ⟨_, answered.ready expects⟩
  | pending data stage pending =>
      have free := (Host.issue_some_iff.mp issued).2.1
      rw [pending.not_free] at free
      cases free

end Runs

end Synesthesia.SramHost
