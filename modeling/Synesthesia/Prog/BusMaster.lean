/-
A bus master that is offered accesses and makes them one at a time.

While an access waits for its answer its address stays on the bus, and offers are
not taken.  An offer can be taken in the clock of the answer.
-/

import Synesthesia.Prog.BusHost

namespace Synesthesia.Prog

variable {Addr Data : Type}

/-- The access that waits for its answer. -/
structure BusMaster (Addr Data : Type) where
  waiting : Option (Access Addr Data)

/-- What the surroundings offer in a clock, and what an idle master leaves on the bus. -/
structure Offer (Addr Data : Type) where
  access : Option (Access Addr Data)
  idleAddr : Addr
  idleData : Data

namespace BusMaster

def free (master : BusMaster Addr Data) (reply : BusReply Data) : Bool :=
  master.waiting.isNone || (reply.rdValid || reply.wrValid)

def issue (master : BusMaster Addr Data) (reply : BusReply Data) (offer : Offer Addr Data) :
    Option (Access Addr Data) :=
  if master.free reply then offer.access else none

/-- The access on the bus, be it issued in this clock or waiting. -/
def current (master : BusMaster Addr Data) (reply : BusReply Data) (offer : Offer Addr Data) :
    Option (Access Addr Data) :=
  if master.free reply then offer.access else master.waiting

def busAddr (master : BusMaster Addr Data) (reply : BusReply Data) (offer : Offer Addr Data) :
    Addr :=
  match master.current reply offer with
  | some access => access.addr
  | none => offer.idleAddr

def busRdEn (master : BusMaster Addr Data) (reply : BusReply Data) (offer : Offer Addr Data) :
    Bool :=
  match master.issue reply offer with
  | some (.read _) => true
  | _ => false

def busWrEn (master : BusMaster Addr Data) (reply : BusReply Data) (offer : Offer Addr Data) :
    Bool :=
  match master.issue reply offer with
  | some (.write _ _) => true
  | _ => false

def busWrData (master : BusMaster Addr Data) (reply : BusReply Data) (offer : Offer Addr Data) :
    Data :=
  match master.issue reply offer with
  | some (.write _ data) => data
  | _ => offer.idleData

def step (master : BusMaster Addr Data) (reply : BusReply Data) (offer : Offer Addr Data) :
    BusMaster Addr Data :=
  { waiting := master.current reply offer }

variable {master : BusMaster Addr Data} {reply : BusReply Data} {offer : Offer Addr Data}
  {access : Access Addr Data}

theorem free_of_issue (issued : master.issue reply offer = some access) :
    master.free reply = true := by
  unfold issue at issued
  cases free : master.free reply with
  | true => rfl
  | false =>
      rw [free] at issued
      cases issued

theorem current_of_issue (issued : master.issue reply offer = some access) :
    master.current reply offer = some access := by
  have free := free_of_issue issued
  unfold issue at issued
  unfold current
  rw [free] at issued ⊢
  exact issued

theorem current_of_idle (free : master.free reply = true)
    (idle : master.issue reply offer = none) : master.current reply offer = none := by
  unfold issue at idle
  unfold current
  rw [free] at idle ⊢
  exact idle

theorem busAddr_of_issue (issued : master.issue reply offer = some access) :
    master.busAddr reply offer = access.addr := by
  unfold busAddr
  rw [current_of_issue issued]

theorem busWrEn_of_issue (issued : master.issue reply offer = some access) :
    master.busWrEn reply offer = access.isWrite := by
  unfold busWrEn
  rw [issued]
  cases access <;> rfl

theorem busRdEn_of_issue (issued : master.issue reply offer = some access) :
    master.busRdEn reply offer = !access.isWrite := by
  unfold busRdEn
  rw [issued]
  cases access <;> rfl

theorem busWrData_of_issue {addr : Addr} {data : Data}
    (issued : master.issue reply offer = some (.write addr data)) :
    master.busWrData reply offer = data := by
  unfold busWrData
  rw [issued]

theorem quiet_of_no_issue (idle : master.issue reply offer = none) :
    master.busWrEn reply offer = false ∧ master.busRdEn reply offer = false := by
  unfold busWrEn busRdEn
  rw [idle]
  exact ⟨rfl, rfl⟩

section Waiting

variable (waits : master.waiting = some access)
  (unanswered : reply.rdValid = false ∧ reply.wrValid = false)

include waits unanswered

theorem not_free_of_waiting : master.free reply = false := by
  unfold free
  rw [waits, unanswered.1, unanswered.2]
  rfl

theorem issue_of_waiting : master.issue reply offer = none := by
  unfold issue
  rw [not_free_of_waiting waits unanswered]
  rfl

theorem busAddr_of_waiting : master.busAddr reply offer = access.addr := by
  unfold busAddr current
  rw [not_free_of_waiting waits unanswered, waits]
  rfl

theorem step_of_waiting : (master.step reply offer).waiting = some access := by
  change master.current reply offer = _
  unfold current
  rw [not_free_of_waiting waits unanswered]
  exact waits

end Waiting

end BusMaster

end Synesthesia.Prog
