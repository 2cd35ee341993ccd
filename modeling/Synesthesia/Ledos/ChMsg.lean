/-
`chmsg.c`: synchronous messages of the kernel.

A sender sleeps in the queue of the receiver until the message is accepted, and
after that until it is released.  Only what the message functions read and write
is kept of a thread: its state and the senders in its queue.  The debug checks of
the kernel are switched off in `chconf.h`, so a release wakes whatever thread it
is given.
-/

import Mathlib.Logic.Function.Basic

namespace Synesthesia.ChMsg

/-- `p_state`; a thread that is current, ready or asleep for some time is `ready`. -/
inductive Status where
  | ready
  | sndMsgQ
  | sndMsg
  | wtMsg
deriving DecidableEq

structure Kernel (Thread : Type) where
  status : Thread → Status
  msgqueue : Thread → List Thread

namespace Kernel

variable {Thread : Type} [DecidableEq Thread] (kernel : Kernel Thread) (self tp : Thread)

def setStatus (status : Status) : Kernel Thread :=
  { kernel with status := Function.update kernel.status tp status }

def setQueue (queue : List Thread) : Kernel Thread :=
  { kernel with msgqueue := Function.update kernel.msgqueue tp queue }

/-- `chMsgSend` up to the point where the sender sleeps. -/
def chMsgSend : Kernel Thread :=
  let queued := kernel.setQueue tp (kernel.msgqueue tp ++ [self])
  let woken := if queued.status tp = .wtMsg then queued.setStatus tp .ready else queued
  woken.setStatus self .sndMsgQ

def chMsgIsPendingI : Bool :=
  !(kernel.msgqueue tp).isEmpty

/-- The end of `chMsgWait`: `fifo_remove` has no result on an empty queue. -/
def fifoRemove : Option (Thread × Kernel Thread) :=
  match kernel.msgqueue self with
  | [] => none
  | sender :: queue => some (sender, (kernel.setQueue self queue).setStatus sender .sndMsg)

/-- `chMsgRelease`, that is `chSchWakeupS`. -/
def chMsgRelease : Kernel Thread :=
  kernel.setStatus tp .ready

/-! ### Fields after an operation -/

variable {kernel self tp} {other : Thread} {status : Status} {queue : List Thread}

@[simp]
theorem setStatus_same : (kernel.setStatus tp status).status tp = status :=
  Function.update_self _ _ _

@[simp]
theorem setStatus_other (different : other ≠ tp) :
    (kernel.setStatus tp status).status other = kernel.status other :=
  Function.update_of_ne different _ _

@[simp]
theorem setStatus_msgqueue : (kernel.setStatus tp status).msgqueue = kernel.msgqueue :=
  rfl

@[simp]
theorem setQueue_same : (kernel.setQueue tp queue).msgqueue tp = queue :=
  Function.update_self _ _ _

@[simp]
theorem setQueue_status : (kernel.setQueue tp queue).status = kernel.status :=
  rfl

end Kernel

end Synesthesia.ChMsg
