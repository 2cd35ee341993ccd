/-
A host that runs a program over a register bus.

Each access is issued by a pulse and waits for its answer; the address stays on
the bus until then.  The next access may come in the clock of the answer or at any
later time, and an idle host leaves the address to chance.
-/

import Mathlib.Logic.Basic
import Synesthesia.Prog.Requests

namespace Synesthesia.Prog

variable {Addr Data α : Type}

inductive Access (Addr Data : Type) where
  | write (addr : Addr) (data : Data)
  | read (addr : Addr)

namespace Access

def addr : Access Addr Data → Addr
  | write addr _ => addr
  | read addr => addr

def isWrite : Access Addr Data → Bool
  | write _ _ => true
  | read _ => false

/-- A write is only acknowledged, a read returns a word. -/
def Answer : Access Addr Data → Type
  | write _ _ => Unit
  | read _ => Data

def answer (data : Data) : (access : Access Addr Data) → access.Answer
  | write _ _ => ()
  | read _ => data

end Access

abbrev BusProgram (Addr Data α : Type) : Type :=
  Requests (Access Addr Data) Access.Answer α

namespace BusProgram

def head : BusProgram Addr Data α → Option (Access Addr Data)
  | .done _ => none
  | .ask access _ => some access

def answered (data : Data) : BusProgram Addr Data α → BusProgram Addr Data α
  | .done value => .done value
  | .ask access next => next (access.answer data)

end BusProgram

/-- The program, and whether its first access is already issued. -/
structure Host (Addr Data α : Type) where
  program : BusProgram Addr Data α
  waiting : Bool

structure BusReply (Data : Type) where
  rdValid : Bool
  wrValid : Bool
  rdData : Data

/-- What the surroundings of the host decide in a clock: whether it gets to its next
access, and what an idle host leaves on the bus. -/
structure HostClock (Addr Data : Type) where
  go : Bool
  idleAddr : Addr
  idleData : Data

namespace Host

def served (host : Host Addr Data α) (reply : BusReply Data) : Bool :=
  host.waiting && (reply.rdValid || reply.wrValid)

/-- The program once the answer of this clock is taken. -/
def resumed (host : Host Addr Data α) (reply : BusReply Data) : BusProgram Addr Data α :=
  if host.served reply then host.program.answered reply.rdData else host.program

def free (host : Host Addr Data α) (reply : BusReply Data) : Bool :=
  !host.waiting || host.served reply

def issue (host : Host Addr Data α) (reply : BusReply Data) (clock : HostClock Addr Data) :
    Option (Access Addr Data) :=
  if clock.go && host.free reply then (host.resumed reply).head else none

def busAddr (host : Host Addr Data α) (reply : BusReply Data) (clock : HostClock Addr Data) :
    Addr :=
  if host.free reply then
    match host.issue reply clock with
    | some access => access.addr
    | none => clock.idleAddr
  else
    match host.program.head with
    | some access => access.addr
    | none => clock.idleAddr

def busRdEn (host : Host Addr Data α) (reply : BusReply Data) (clock : HostClock Addr Data) :
    Bool :=
  match host.issue reply clock with
  | some access => !access.isWrite
  | none => false

def busWrEn (host : Host Addr Data α) (reply : BusReply Data) (clock : HostClock Addr Data) :
    Bool :=
  match host.issue reply clock with
  | some access => access.isWrite
  | none => false

def busWrData (host : Host Addr Data α) (reply : BusReply Data) (clock : HostClock Addr Data) :
    Data :=
  match host.issue reply clock with
  | some (.write _ data) => data
  | _ => clock.idleData

def step (host : Host Addr Data α) (reply : BusReply Data) (clock : HostClock Addr Data) :
    Host Addr Data α :=
  { program := host.resumed reply
    waiting := (host.issue reply clock).isSome || !host.free reply }

/-! ### What is on the bus -/

variable {host : Host Addr Data α} {reply : BusReply Data} {clock : HostClock Addr Data}

theorem issue_of_not_free (busy : host.free reply = false) : host.issue reply clock = none := by
  unfold issue
  rw [busy, Bool.and_false]
  exact if_neg Bool.false_ne_true

theorem issue_some_iff {access : Access Addr Data} :
    host.issue reply clock = some access ↔
      clock.go = true ∧ host.free reply = true ∧ (host.resumed reply).head = some access := by
  unfold issue
  cases clock.go <;> cases host.free reply <;> simp

theorem bus_of_issue {access : Access Addr Data} (issued : host.issue reply clock = some access) :
    host.busAddr reply clock = access.addr ∧ host.busWrEn reply clock = access.isWrite ∧
      host.busRdEn reply clock = !access.isWrite ∧
      ∀ addr data, access = .write addr data → host.busWrData reply clock = data := by
  have free := (issue_some_iff.mp issued).2.1
  unfold busAddr busWrEn busRdEn busWrData
  rw [issued, free]
  refine ⟨rfl, rfl, rfl, ?_⟩
  rintro addr data rfl
  rfl

theorem bus_of_no_issue (idle : host.issue reply clock = none) :
    host.busWrEn reply clock = false ∧ host.busRdEn reply clock = false := by
  unfold busWrEn busRdEn
  rw [idle]
  exact ⟨rfl, rfl⟩

theorem busAddr_of_not_free {access : Access Addr Data} (busy : host.free reply = false)
    (head : host.program.head = some access) : host.busAddr reply clock = access.addr := by
  unfold busAddr
  rw [busy, head]
  rfl

theorem step_of_not_free (busy : host.free reply = false) : host.step reply clock = host := by
  have waiting : host.waiting = true := by
    unfold free at busy
    cases waits : host.waiting with
    | true => rfl
    | false =>
        rw [waits] at busy
        cases busy
  have unserved : host.served reply = false := by
    unfold free at busy
    rw [waiting] at busy
    exact busy
  unfold step resumed
  rw [issue_of_not_free busy, busy, unserved]
  cases host
  cases waiting
  rfl

end Host

end Synesthesia.Prog
