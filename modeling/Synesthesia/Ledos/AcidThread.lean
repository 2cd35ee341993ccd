/-
`bash.c`: the handshake of `cmd_drop_acid` with `acid_thread`.

The shell thread and the plugin thread take turns in any order, one statement or
kernel call at a time.  The same message starts and stops the plugin; which of the
two it is follows from the place in the code that sends or accepts it.
-/

import Synesthesia.Ledos.Bash
import Synesthesia.Ledos.ChMsg

namespace Synesthesia.AcidThread

open Synesthesia.ChMsg

inductive ThreadId where
  | shell
  | acid
deriving DecidableEq

/-! ### Programs -/

/-- Places in the shell thread; the call works on the arguments of its command line. -/
inductive ShellPc where
  | prompt
  | entry (args : List (List Char))
  | usageTest (args : List (List Char))
  | select (args : List (List Char))
  | enable
  | acidTpTest
  | sendStart
  | startSent
  | getChar
  | sendStop
  | stopSent
  | disable

/-- Places in `acid_thread`; `woken` is inside `chMsgWait`, behind the sleep. -/
inductive AcidPc where
  | entry
  | waitStart
  | wokenStart
  | releaseStart
  | poll
  | readCache
  | callAcid
  | paint
  | sleep
  | waitStop
  | wokenStop
  | releaseStop

inductive Signal where
  | start
  | stop

inductive Label where
  | quiet
  | setBashTp
  | setCurrentAcid
  | sent (signal : Signal) (receiver : ThreadId)
  | accepted (signal : Signal) (sender : ThreadId)
  | released (signal : Signal) (tp : ThreadId)
  | calledAcid (acid : Option String)
  | painted

structure State where
  kernel : Kernel ThreadId
  acidTp : Option ThreadId
  bashTp : Option ThreadId
  currentAcid : Option String
  shellPc : ShellPc
  acidPc : AcidPc

/-- Before the two threads ran, with the plugin selected at initialisation. -/
def initial (acid : Option String) : State :=
  { kernel :=
      { status := fun _ => .ready
        msgqueue := fun _ => [] }
    acidTp := none
    bashTp := none
    currentAcid := acid
    shellPc := .prompt
    acidPc := .entry }

/--
What the shell thread meets: the arguments of the next call, the result of the
comparison through `argv[0]` when that is `NULL`, the next key.
-/
structure Choice where
  args : List (List Char)
  nullHelp : Bool
  key : Char

def usageWanted (args : List (List Char)) (nullHelp : Bool) : Bool :=
  decide (1 < args.length) ||
    match args with
    | [] => nullHelp
    | name :: _ => Bash.strcasecmp name "--help".toList

/-- The plugin that `update_acid` finds. -/
def findAcid (name : List Char) : Option String :=
  Bash.acidBox.find? fun acidName => Bash.strcasecmp acidName.toList name

/-- One step of the shell thread; none when it is asleep. -/
def shellStep (s : State) (choice : Choice) : Option (Label × State) :=
  if s.kernel.status .shell ≠ .ready then none
  else
    match s.shellPc with
    | .prompt => some (.quiet, { s with shellPc := .entry choice.args })
    | .entry args =>
        some (.setBashTp, { s with bashTp := some .shell, shellPc := .usageTest args })
    | .usageTest args =>
        if usageWanted args choice.nullHelp then some (.quiet, { s with shellPc := .prompt })
        else some (.quiet, { s with shellPc := .select args })
    | .select [] => some (.quiet, { s with shellPc := .enable })
    | .select (name :: _) =>
        match findAcid name with
        | none => some (.quiet, { s with shellPc := .prompt })
        | some acid =>
            some (.setCurrentAcid, { s with currentAcid := some acid, shellPc := .enable })
    | .enable => some (.quiet, { s with shellPc := .acidTpTest })
    | .acidTpTest =>
        match s.acidTp with
        | none => some (.quiet, { s with shellPc := .prompt })
        | some _ => some (.quiet, { s with shellPc := .sendStart })
    | .sendStart =>
        s.acidTp.map fun tp =>
          (.sent .start tp,
            { s with kernel := s.kernel.chMsgSend .shell tp, shellPc := .startSent })
    | .startSent => some (.quiet, { s with shellPc := .getChar })
    | .getChar =>
        if choice.key = 'q' then some (.quiet, { s with shellPc := .sendStop })
        else some (.quiet, s)
    | .sendStop =>
        s.acidTp.map fun tp =>
          (.sent .stop tp,
            { s with kernel := s.kernel.chMsgSend .shell tp, shellPc := .stopSent })
    | .stopSent => some (.quiet, { s with shellPc := .disable })
    | .disable => some (.quiet, { s with shellPc := .prompt })

/-- `chMsgWait`, which accepts a message or sleeps. -/
def waitStep (s : State) (signal : Signal) (woken release : AcidPc) : Option (Label × State) :=
  match s.kernel.fifoRemove .acid with
  | none =>
      some (.quiet, { s with kernel := s.kernel.setStatus .acid .wtMsg, acidPc := woken })
  | some (sender, kernel) =>
      some (.accepted signal sender, { s with kernel := kernel, acidPc := release })

def wokenStep (s : State) (signal : Signal) (release : AcidPc) : Option (Label × State) :=
  (s.kernel.fifoRemove .acid).map fun removed =>
    (.accepted signal removed.1, { s with kernel := removed.2, acidPc := release })

def releaseStep (s : State) (signal : Signal) (next : AcidPc) : Option (Label × State) :=
  s.bashTp.map fun tp =>
    (.released signal tp, { s with kernel := s.kernel.chMsgRelease tp, acidPc := next })

def acidStep (s : State) : Option (Label × State) :=
  if s.kernel.status .acid ≠ .ready then none
  else
    match s.acidPc with
    | .entry => some (.quiet, { s with acidTp := some .acid, acidPc := .waitStart })
    | .waitStart => waitStep s .start .wokenStart .releaseStart
    | .wokenStart => wokenStep s .start .releaseStart
    | .releaseStart => releaseStep s .start .poll
    | .poll =>
        s.acidTp.map fun tp =>
          if s.kernel.chMsgIsPendingI tp then (.quiet, { s with acidPc := .waitStop })
          else (.quiet, { s with acidPc := .readCache })
    | .readCache => some (.quiet, { s with acidPc := .callAcid })
    | .callAcid => some (.calledAcid s.currentAcid, { s with acidPc := .paint })
    | .paint => some (.painted, { s with acidPc := .sleep })
    | .sleep => some (.quiet, { s with acidPc := .poll })
    | .waitStop => waitStep s .stop .wokenStop .releaseStop
    | .wokenStop => wokenStep s .stop .releaseStop
    | .releaseStop => releaseStep s .stop .waitStart

def step (s : State) (choice : Choice) : ThreadId → Option (Label × State)
  | .shell => shellStep s choice
  | .acid => acidStep s

/-- The states that are reached, with the labels of the steps, the latest first. -/
inductive Reaches (acid : Option String) : List Label → State → Prop
  | start : Reaches acid [] (initial acid)
  | step {trace : List Label} {s s' : State} {label : Label} (choice : Choice)
      (thread : ThreadId) (reached : Reaches acid trace s)
      (stepped : step s choice thread = some (label, s')) : Reaches acid (label :: trace) s'

end Synesthesia.AcidThread
