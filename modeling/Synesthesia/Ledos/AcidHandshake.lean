/-
The handshake of `cmd_drop_acid` with `acid_thread` over whole runs.

A round of messages has six phases.  The invariant says for each of them where the
two threads are, what is in the queue, and that the global pointers are set.
-/

import Synesthesia.Ledos.AcidThread

namespace Synesthesia.AcidThread

open Synesthesia.ChMsg

/-! ### Rounds -/

inductive Phase where
  | idle
  | startSent
  | startAccepted
  | painting
  | stopSent
  | stopAccepted

def exchanges (trace : List Label) : List Label :=
  trace.filter fun label =>
    match label with
    | .sent _ _ => true
    | .accepted _ _ => true
    | .released _ _ => true
    | _ => false

/--
A history of rounds, the latest message first: each send is accepted by the wait it
is meant for, and released once, by the place behind that wait.
-/
inductive Rounds : List Label → Phase → Prop
  | none : Rounds [] .idle
  | startSent {history : List Label} (rounds : Rounds history .idle) :
      Rounds (.sent .start .acid :: history) .startSent
  | startAccepted {history : List Label} (rounds : Rounds history .startSent) :
      Rounds (.accepted .start .shell :: history) .startAccepted
  | startReleased {history : List Label} (rounds : Rounds history .startAccepted) :
      Rounds (.released .start .shell :: history) .painting
  | stopSent {history : List Label} (rounds : Rounds history .painting) :
      Rounds (.sent .stop .acid :: history) .stopSent
  | stopAccepted {history : List Label} (rounds : Rounds history .stopSent) :
      Rounds (.accepted .stop .shell :: history) .stopAccepted
  | stopReleased {history : List Label} (rounds : Rounds history .stopAccepted) :
      Rounds (.released .stop .shell :: history) .idle

/-- Between the release of a start message and the acceptance of the stop message. -/
def Phase.Running : Phase → Prop
  | .painting => True
  | .stopSent => True
  | _ => False

/-- The steps that are allowed in a phase, and the phase that follows. -/
inductive Follows : Phase → Label → Phase → Prop
  | quiet (phase : Phase) : Follows phase .quiet phase
  | setBashTp : Follows .idle .setBashTp .idle
  | setCurrentAcid : Follows .idle .setCurrentAcid .idle
  | startSent : Follows .idle (.sent .start .acid) .startSent
  | startAccepted : Follows .startSent (.accepted .start .shell) .startAccepted
  | startReleased : Follows .startAccepted (.released .start .shell) .painting
  | calledAcid {phase : Phase} (acid : Option String) (running : phase.Running) :
      Follows phase (.calledAcid acid) phase
  | painted {phase : Phase} (running : phase.Running) : Follows phase .painted phase
  | stopSent : Follows .painting (.sent .stop .acid) .stopSent
  | stopAccepted : Follows .stopSent (.accepted .stop .shell) .stopAccepted
  | stopReleased : Follows .stopAccepted (.released .stop .shell) .idle

theorem Follows.rounds {history : List Label} {phase next : Phase} {label : Label}
    (follows : Follows phase label next) (rounds : Rounds (exchanges history) phase) :
    Rounds (exchanges (label :: history)) next := by
  cases follows with
  | quiet => exact rounds
  | setBashTp => exact rounds
  | setCurrentAcid => exact rounds
  | startSent => exact rounds.startSent
  | startAccepted => exact rounds.startAccepted
  | startReleased => exact rounds.startReleased
  | calledAcid => exact rounds
  | painted => exact rounds
  | stopSent => exact rounds.stopSent
  | stopAccepted => exact rounds.stopAccepted
  | stopReleased => exact rounds.stopReleased

/-! ### Where the threads are in a phase -/

/-- The loop of `acid_thread` that paints. -/
def AcidPc.InPaintLoop : AcidPc → Prop
  | .poll => True
  | .readCache => True
  | .callAcid => True
  | .paint => True
  | .sleep => True
  | _ => False

/-- From the release of a stop message to the next start message. -/
def ShellPc.Idle : ShellPc → Prop
  | .startSent => False
  | .getChar => False
  | .sendStop => False
  | _ => True

/-- From the release of a start message to the stop message. -/
def ShellPc.Watching : ShellPc → Prop
  | .startSent => True
  | .getChar => True
  | .sendStop => True
  | _ => False

/-- Before the first statement of a call. -/
def ShellPc.BeforeCall : ShellPc → Prop
  | .prompt => True
  | .entry _ => True
  | _ => False

/-- The state of the sender and what is in the queue of `acid_thread`. -/
structure Mail (s : State) (status : Status) (queue : List ThreadId) : Prop where
  sender : s.kernel.status .shell = status
  queue : s.kernel.msgqueue .acid = queue

def AcidWaits (s : State) : Prop :=
  (s.kernel.status .acid = .ready ∧ (s.acidPc = .entry ∨ s.acidPc = .waitStart)) ∨
    (s.kernel.status .acid = .wtMsg ∧ s.acidPc = .wokenStart)

def Agrees (s : State) : Phase → Prop
  | .idle => Mail s .ready [] ∧ s.shellPc.Idle ∧ AcidWaits s
  | .startSent =>
      Mail s .sndMsgQ [.shell] ∧ s.shellPc = .startSent ∧ s.kernel.status .acid = .ready ∧
        (s.acidPc = .waitStart ∨ s.acidPc = .wokenStart)
  | .startAccepted =>
      Mail s .sndMsg [] ∧ s.shellPc = .startSent ∧ s.kernel.status .acid = .ready ∧
        s.acidPc = .releaseStart
  | .painting =>
      Mail s .ready [] ∧ s.shellPc.Watching ∧ s.kernel.status .acid = .ready ∧
        s.acidPc.InPaintLoop
  | .stopSent =>
      Mail s .sndMsgQ [.shell] ∧ s.shellPc = .stopSent ∧ s.kernel.status .acid = .ready ∧
        (s.acidPc.InPaintLoop ∨ s.acidPc = .waitStop)
  | .stopAccepted =>
      Mail s .sndMsg [] ∧ s.shellPc = .stopSent ∧ s.kernel.status .acid = .ready ∧
        s.acidPc = .releaseStop

/-- The invariant: the globals are set before they are used, and the places agree. -/
structure Inv (s : State) (phase : Phase) : Prop where
  acidTp : (s.acidTp = some .acid ∧ s.acidPc ≠ .entry) ∨ (s.acidTp = none ∧ s.acidPc = .entry)
  sending : s.shellPc = .sendStart → s.acidTp = some .acid
  bashTp : s.bashTp = some .shell ∨ s.shellPc.BeforeCall
  agrees : Agrees s phase

theorem inv_initial (acid : Option String) : Inv (initial acid) .idle :=
  { acidTp := .inr ⟨rfl, rfl⟩
    sending := by
      intro sending
      cases sending
    bashTp := .inr trivial
    agrees := ⟨⟨rfl, rfl⟩, trivial, .inl ⟨rfl, .inl rfl⟩⟩ }

/-! ### Steps -/

variable {s s' : State} {phase : Phase} {label : Label}

theorem Inv.idle_move (inv : Inv s .idle) {pc : ShellPc} (idle : pc.Idle)
    (sending : pc = .sendStart → s.acidTp = some .acid)
    (bashTp : s.bashTp = some .shell ∨ pc.BeforeCall) :
    Inv { s with shellPc := pc } .idle :=
  { acidTp := inv.acidTp
    sending := sending
    bashTp := bashTp
    agrees := ⟨⟨inv.agrees.1.sender, inv.agrees.1.queue⟩, idle, inv.agrees.2.2⟩ }

theorem Inv.bashTp_set (inv : Inv s phase) (called : ¬ s.shellPc.BeforeCall) :
    s.bashTp = some .shell := by
  rcases inv.bashTp with set | before
  · exact set
  · exact absurd before called

theorem Inv.acidTp_set (inv : Inv s phase) (started : s.acidPc ≠ .entry) :
    s.acidTp = some .acid := by
  rcases inv.acidTp with ⟨set, _⟩ | ⟨_, before⟩
  · exact set
  · exact absurd before started

theorem Inv.past_entry (inv : Inv s phase) {tp : ThreadId} (started : s.acidTp = some tp) :
    s.acidPc ≠ .entry := by
  rcases inv.acidTp with ⟨_, past⟩ | ⟨null, _⟩
  · exact past
  · rw [null] at started
    cases started

theorem chMsgSend_mail (kernel : Kernel ThreadId) (empty : kernel.msgqueue .acid = [])
    (waits : kernel.status .acid = .ready ∨ kernel.status .acid = .wtMsg) :
    (kernel.chMsgSend .shell .acid).status .shell = .sndMsgQ ∧
      (kernel.chMsgSend .shell .acid).status .acid = .ready ∧
      (kernel.chMsgSend .shell .acid).msgqueue .acid = [.shell] := by
  unfold Kernel.chMsgSend
  rcases waits with ready | asleep
  · simp [ready, empty]
  · simp [asleep, empty]

theorem shellStep_idle (inv : Inv s .idle) {choice : Choice}
    (stepped : shellStep s choice = some (label, s')) :
    ∃ next, Inv s' next ∧ Follows .idle label next := by
  obtain ⟨mail, idle, waits⟩ := inv.agrees
  unfold shellStep at stepped
  rw [if_neg (not_not.mpr mail.sender)] at stepped
  cases pc : s.shellPc with
  | prompt =>
      rw [pc] at stepped
      cases stepped
      exact ⟨.idle, inv.idle_move trivial (by simp) (.inr trivial), .quiet _⟩
  | entry args =>
      rw [pc] at stepped
      cases stepped
      refine ⟨.idle, ?_, .setBashTp⟩
      exact
        { acidTp := inv.acidTp
          sending := by simp
          bashTp := .inl rfl
          agrees := ⟨⟨mail.sender, mail.queue⟩, trivial, waits⟩ }
  | usageTest args =>
      rw [pc] at stepped
      have set := inv.bashTp_set (by rw [pc]; exact id)
      dsimp only at stepped
      split at stepped
      · cases stepped
        exact ⟨.idle, inv.idle_move trivial (by simp) (.inl set), .quiet _⟩
      · cases stepped
        exact ⟨.idle, inv.idle_move trivial (by simp) (.inl set), .quiet _⟩
  | select args =>
      rw [pc] at stepped
      have set := inv.bashTp_set (by rw [pc]; exact id)
      cases args with
      | nil =>
          cases stepped
          exact ⟨.idle, inv.idle_move trivial (by simp) (.inl set), .quiet _⟩
      | cons name rest =>
          dsimp only at stepped
          cases found : findAcid name with
          | none =>
              rw [found] at stepped
              cases stepped
              exact ⟨.idle, inv.idle_move trivial (by simp) (.inl set), .quiet _⟩
          | some acid =>
              rw [found] at stepped
              cases stepped
              refine ⟨.idle, ?_, .setCurrentAcid⟩
              exact
                { acidTp := inv.acidTp
                  sending := by simp
                  bashTp := .inl set
                  agrees := ⟨⟨mail.sender, mail.queue⟩, trivial, waits⟩ }
  | enable =>
      rw [pc] at stepped
      have set := inv.bashTp_set (by rw [pc]; exact id)
      cases stepped
      exact ⟨.idle, inv.idle_move trivial (by simp) (.inl set), .quiet _⟩
  | acidTpTest =>
      rw [pc] at stepped
      have set := inv.bashTp_set (by rw [pc]; exact id)
      dsimp only at stepped
      split at stepped
      case h_1 =>
          cases stepped
          exact ⟨.idle, inv.idle_move trivial (by simp) (.inl set), .quiet _⟩
      case h_2 tp found =>
          have started := inv.acidTp_set (inv.past_entry found)
          cases stepped
          exact ⟨.idle, inv.idle_move trivial (fun _ => started) (.inl set), .quiet _⟩
  | sendStart =>
      have started := inv.sending pc
      have set := inv.bashTp_set (by rw [pc]; exact id)
      have past := inv.past_entry started
      rw [pc, started] at stepped
      cases stepped
      have awake : s.kernel.status .acid = .ready ∨ s.kernel.status .acid = .wtMsg :=
        waits.imp And.left And.left
      obtain ⟨sender, receiver, queue⟩ := chMsgSend_mail s.kernel mail.queue awake
      refine ⟨.startSent, ?_, .startSent⟩
      refine
        { acidTp := .inl ⟨rfl, past⟩
          sending := by simp
          bashTp := .inl set
          agrees := ⟨⟨sender, queue⟩, rfl, receiver, ?_⟩ }
      rcases waits with ⟨_, entry | waiting⟩ | ⟨_, woken⟩
      · exact absurd entry past
      · exact .inl waiting
      · exact .inr woken
  | startSent =>
      rw [pc] at idle
      exact absurd idle id
  | getChar =>
      rw [pc] at idle
      exact absurd idle id
  | sendStop =>
      rw [pc] at idle
      exact absurd idle id
  | stopSent =>
      rw [pc] at stepped
      have set := inv.bashTp_set (by rw [pc]; exact id)
      cases stepped
      exact ⟨.idle, inv.idle_move trivial (by simp) (.inl set), .quiet _⟩
  | disable =>
      rw [pc] at stepped
      have set := inv.bashTp_set (by rw [pc]; exact id)
      cases stepped
      exact ⟨.idle, inv.idle_move trivial (by simp) (.inl set), .quiet _⟩

theorem shellStep_painting (inv : Inv s .painting) {choice : Choice}
    (stepped : shellStep s choice = some (label, s')) :
    ∃ next, Inv s' next ∧ Follows .painting label next := by
  obtain ⟨mail, watching, receiver, painting⟩ := inv.agrees
  have past : s.acidPc ≠ .entry := by
    intro entry
    rw [entry] at painting
    exact painting
  have started := inv.acidTp_set past
  have set := inv.bashTp_set fun before => by
    cases pc : s.shellPc <;> rw [pc] at before watching <;> first | exact before | exact watching
  have stays : ∀ pc : ShellPc, pc.Watching → Inv { s with shellPc := pc } .painting := by
    intro pc inside
    exact
      { acidTp := inv.acidTp
        sending := fun _ => started
        bashTp := .inl set
        agrees := ⟨⟨mail.sender, mail.queue⟩, inside, receiver, painting⟩ }
  unfold shellStep at stepped
  rw [if_neg (not_not.mpr mail.sender)] at stepped
  cases pc : s.shellPc with
  | startSent =>
      rw [pc] at stepped
      cases stepped
      exact ⟨.painting, stays .getChar trivial, .quiet _⟩
  | getChar =>
      rw [pc] at stepped
      dsimp only at stepped
      split at stepped
      · cases stepped
        exact ⟨.painting, stays .sendStop trivial, .quiet _⟩
      · cases stepped
        exact ⟨.painting, inv, .quiet _⟩
  | sendStop =>
      rw [pc, started] at stepped
      cases stepped
      obtain ⟨sender, awake, queue⟩ := chMsgSend_mail s.kernel mail.queue (.inl receiver)
      refine ⟨.stopSent, ?_, .stopSent⟩
      exact
        { acidTp := .inl ⟨rfl, past⟩
          sending := by simp
          bashTp := .inl set
          agrees := ⟨⟨sender, queue⟩, rfl, awake, .inl painting⟩ }
  | prompt =>
      rw [pc] at watching
      exact absurd watching id
  | entry args =>
      rw [pc] at watching
      exact absurd watching id
  | usageTest args =>
      rw [pc] at watching
      exact absurd watching id
  | select args =>
      rw [pc] at watching
      exact absurd watching id
  | enable =>
      rw [pc] at watching
      exact absurd watching id
  | acidTpTest =>
      rw [pc] at watching
      exact absurd watching id
  | sendStart =>
      rw [pc] at watching
      exact absurd watching id
  | stopSent =>
      rw [pc] at watching
      exact absurd watching id
  | disable =>
      rw [pc] at watching
      exact absurd watching id

theorem shellStep_blocked {choice : Choice} (asleep : s.kernel.status .shell ≠ .ready) :
    shellStep s choice = none :=
  if_pos asleep

theorem fifoRemove_mail {kernel : Kernel ThreadId} (queue : kernel.msgqueue .acid = [.shell]) :
    ∃ removed : Kernel ThreadId, kernel.fifoRemove .acid = some (.shell, removed) ∧
      removed.status .shell = .sndMsg ∧ removed.status .acid = kernel.status .acid ∧
      removed.msgqueue .acid = [] := by
  refine ⟨(kernel.setQueue .acid []).setStatus .shell .sndMsg, ?_, by simp, by simp, by simp⟩
  rw [Kernel.fifoRemove, queue]

theorem acidStep_idle (inv : Inv s .idle) (stepped : acidStep s = some (label, s')) :
    ∃ next, Inv s' next ∧ Follows .idle label next := by
  obtain ⟨mail, idle, waits⟩ := inv.agrees
  rcases waits with ⟨ready, entry | waiting⟩ | ⟨asleep, _⟩
  · rw [acidStep, if_neg (not_not.mpr ready), entry] at stepped
    cases stepped
    refine ⟨.idle, ?_, .quiet _⟩
    exact
      { acidTp := .inl ⟨rfl, by simp⟩
        sending := fun _ => rfl
        bashTp := inv.bashTp
        agrees := ⟨⟨mail.sender, mail.queue⟩, idle, .inl ⟨ready, .inr rfl⟩⟩ }
  · have empty : s.kernel.fifoRemove .acid = none := by
      rw [Kernel.fifoRemove, mail.queue]
    rw [acidStep, if_neg (not_not.mpr ready), waiting] at stepped
    dsimp only at stepped
    rw [waitStep, empty] at stepped
    cases stepped
    refine ⟨.idle, ?_, .quiet _⟩
    exact
      { acidTp := .inl ⟨inv.acidTp_set (by simp [waiting]), by simp⟩
        sending := inv.sending
        bashTp := inv.bashTp
        agrees := ⟨⟨by simp [mail.sender], by simp [mail.queue]⟩, idle, .inr ⟨by simp, rfl⟩⟩ }
  · rw [acidStep, if_pos (by rw [asleep]; decide)] at stepped
    cases stepped

theorem wait_accepts {signal : Signal} {woken release : AcidPc}
    (queue : s.kernel.msgqueue .acid = [.shell]) :
    ∃ removed : Kernel ThreadId,
      waitStep s signal woken release =
          some (.accepted signal .shell, { s with kernel := removed, acidPc := release }) ∧
        wokenStep s signal release =
          some (.accepted signal .shell, { s with kernel := removed, acidPc := release }) ∧
        removed.status .shell = .sndMsg ∧ removed.status .acid = s.kernel.status .acid ∧
        removed.msgqueue .acid = [] := by
  obtain ⟨removed, taken, sender, receiver, empty⟩ := fifoRemove_mail queue
  refine ⟨removed, ?_, ?_, sender, receiver, empty⟩
  · rw [waitStep, taken]
  · rw [wokenStep, taken]
    rfl

theorem acidStep_startSent (inv : Inv s .startSent) (stepped : acidStep s = some (label, s')) :
    ∃ next, Inv s' next ∧ Follows .startSent label next := by
  obtain ⟨mail, sent, ready, waits⟩ := inv.agrees
  have past : s.acidPc ≠ .entry := by
    rcases waits with waiting | woken
    · simp [waiting]
    · simp [woken]
  have accepts := @wait_accepts s .start .wokenStart .releaseStart mail.queue
  obtain ⟨removed, waited, wokenUp, sender, receiver, empty⟩ := accepts
  have next : Inv { s with kernel := removed, acidPc := .releaseStart } .startAccepted :=
    { acidTp := .inl ⟨inv.acidTp_set past, by simp⟩
      sending := by simp [sent]
      bashTp := inv.bashTp
      agrees := ⟨⟨sender, empty⟩, sent, receiver.trans ready, rfl⟩ }
  rw [acidStep, if_neg (not_not.mpr ready)] at stepped
  rcases waits with waiting | woken
  · rw [waiting] at stepped
    dsimp only at stepped
    rw [waited] at stepped
    cases stepped
    exact ⟨.startAccepted, next, .startAccepted⟩
  · rw [woken] at stepped
    dsimp only at stepped
    rw [wokenUp] at stepped
    cases stepped
    exact ⟨.startAccepted, next, .startAccepted⟩

theorem acidStep_startAccepted (inv : Inv s .startAccepted)
    (stepped : acidStep s = some (label, s')) :
    ∃ next, Inv s' next ∧ Follows .startAccepted label next := by
  obtain ⟨mail, sent, ready, releasing⟩ := inv.agrees
  have set := inv.bashTp_set (by rw [sent]; exact id)
  rw [acidStep, if_neg (not_not.mpr ready), releasing] at stepped
  dsimp only at stepped
  rw [releaseStep, set] at stepped
  cases stepped
  refine ⟨.painting, ?_, .startReleased⟩
  exact
    { acidTp := .inl ⟨inv.acidTp_set (by simp [releasing]), by simp⟩
      sending := by simp [sent]
      bashTp := .inl rfl
      agrees := by
        refine ⟨⟨by simp [Kernel.chMsgRelease], by simp [Kernel.chMsgRelease, mail.queue]⟩, ?_,
          by simp [Kernel.chMsgRelease, ready], trivial⟩
        rw [sent]
        exact trivial }

theorem acidStep_stopAccepted (inv : Inv s .stopAccepted)
    (stepped : acidStep s = some (label, s')) :
    ∃ next, Inv s' next ∧ Follows .stopAccepted label next := by
  obtain ⟨mail, sent, ready, releasing⟩ := inv.agrees
  have set := inv.bashTp_set (by rw [sent]; exact id)
  rw [acidStep, if_neg (not_not.mpr ready), releasing] at stepped
  dsimp only at stepped
  rw [releaseStep, set] at stepped
  cases stepped
  refine ⟨.idle, ?_, .stopReleased⟩
  exact
    { acidTp := .inl ⟨inv.acidTp_set (by simp [releasing]), by simp⟩
      sending := by simp [sent]
      bashTp := .inl rfl
      agrees := by
        refine ⟨⟨by simp [Kernel.chMsgRelease], by simp [Kernel.chMsgRelease, mail.queue]⟩, ?_,
          .inl ⟨by simp [Kernel.chMsgRelease, ready], .inr rfl⟩⟩
        rw [sent]
        exact trivial }

theorem acidStep_loop (ready : s.kernel.status .acid = .ready) (started : s.acidTp = some .acid)
    (painting : s.acidPc.InPaintLoop) (stepped : acidStep s = some (label, s')) :
    ∃ pc : AcidPc, s' = { s with acidPc := pc } ∧
      (∀ phase : Phase, phase.Running → Follows phase label phase) ∧
      (pc.InPaintLoop ∨ pc = .waitStop ∧ s.kernel.msgqueue .acid ≠ []) := by
  rw [acidStep, if_neg (not_not.mpr ready)] at stepped
  cases pc : s.acidPc with
  | poll =>
      rw [pc] at stepped
      dsimp only at stepped
      cases pending : s.kernel.chMsgIsPendingI .acid with
      | true =>
          simp only [started, Option.map_some, pending, reduceIte, Option.some.injEq,
            Prod.mk.injEq] at stepped
          obtain ⟨rfl, rfl⟩ := stepped
          refine ⟨.waitStop, by rw [started], fun phase _ => .quiet phase, .inr ⟨rfl, ?_⟩⟩
          intro empty
          rw [Kernel.chMsgIsPendingI, empty] at pending
          cases pending
      | false =>
          simp only [started, Option.map_some, pending, Bool.false_eq_true, reduceIte,
            Option.some.injEq, Prod.mk.injEq] at stepped
          obtain ⟨rfl, rfl⟩ := stepped
          exact ⟨.readCache, by rw [started], fun phase _ => .quiet phase, .inl trivial⟩
  | readCache =>
      rw [pc] at stepped
      cases stepped
      exact ⟨.callAcid, rfl, fun phase _ => .quiet phase, .inl trivial⟩
  | callAcid =>
      rw [pc] at stepped
      cases stepped
      exact ⟨.paint, rfl, fun _ running => .calledAcid _ running, .inl trivial⟩
  | paint =>
      rw [pc] at stepped
      cases stepped
      exact ⟨.sleep, rfl, fun _ running => .painted running, .inl trivial⟩
  | sleep =>
      rw [pc] at stepped
      cases stepped
      exact ⟨.poll, rfl, fun phase _ => .quiet phase, .inl trivial⟩
  | entry =>
      rw [pc] at painting
      exact absurd painting id
  | waitStart =>
      rw [pc] at painting
      exact absurd painting id
  | wokenStart =>
      rw [pc] at painting
      exact absurd painting id
  | releaseStart =>
      rw [pc] at painting
      exact absurd painting id
  | waitStop =>
      rw [pc] at painting
      exact absurd painting id
  | wokenStop =>
      rw [pc] at painting
      exact absurd painting id
  | releaseStop =>
      rw [pc] at painting
      exact absurd painting id

theorem AcidPc.InPaintLoop.ne_entry {pc : AcidPc} (painting : pc.InPaintLoop) : pc ≠ .entry := by
  rintro rfl
  exact painting

theorem acidStep_painting (inv : Inv s .painting) (stepped : acidStep s = some (label, s')) :
    ∃ next, Inv s' next ∧ Follows .painting label next := by
  obtain ⟨mail, watching, ready, painting⟩ := inv.agrees
  have started := inv.acidTp_set painting.ne_entry
  obtain ⟨pc, rfl, follows, inside | ⟨_, pending⟩⟩ := acidStep_loop ready started painting stepped
  · refine ⟨.painting, ?_, follows .painting trivial⟩
    exact
      { acidTp := .inl ⟨started, inside.ne_entry⟩
        sending := inv.sending
        bashTp := inv.bashTp
        agrees := ⟨⟨mail.sender, mail.queue⟩, watching, ready, inside⟩ }
  · exact absurd mail.queue pending

theorem acidStep_stopSent (inv : Inv s .stopSent) (stepped : acidStep s = some (label, s')) :
    ∃ next, Inv s' next ∧ Follows .stopSent label next := by
  obtain ⟨mail, sent, ready, painting | waiting⟩ := inv.agrees
  · have started := inv.acidTp_set painting.ne_entry
    obtain ⟨pc, rfl, follows, place⟩ := acidStep_loop ready started painting stepped
    refine ⟨.stopSent, ?_, follows .stopSent trivial⟩
    refine
      { acidTp := .inl ⟨started, ?_⟩
        sending := inv.sending
        bashTp := inv.bashTp
        agrees := ⟨⟨mail.sender, mail.queue⟩, sent, ready, place.imp id And.left⟩ }
    rcases place with inside | ⟨leaves, _⟩
    · exact inside.ne_entry
    · simp [leaves]
  · have started := inv.acidTp_set (by simp [waiting])
    have accepts := @wait_accepts s .stop .wokenStop .releaseStop mail.queue
    obtain ⟨removed, waited, _, sender, receiver, empty⟩ := accepts
    rw [acidStep, if_neg (not_not.mpr ready), waiting] at stepped
    dsimp only at stepped
    rw [waited] at stepped
    cases stepped
    refine ⟨.stopAccepted, ?_, .stopAccepted⟩
    exact
      { acidTp := .inl ⟨started, by simp⟩
        sending := by simp [sent]
        bashTp := inv.bashTp
        agrees := ⟨⟨sender, empty⟩, sent, receiver.trans ready, rfl⟩ }

/-- Every step of either thread is one that the phase allows. -/
theorem step_follows (inv : Inv s phase) {choice : Choice} {thread : ThreadId}
    (stepped : step s choice thread = some (label, s')) :
    ∃ next, Inv s' next ∧ Follows phase label next := by
  have mute : s.kernel.status .shell ≠ .ready → thread = .acid := by
    intro asleep
    cases thread with
    | acid => rfl
    | shell =>
        rw [step, shellStep_blocked asleep] at stepped
        cases stepped
  cases phase with
  | idle =>
      cases thread with
      | shell => exact shellStep_idle inv stepped
      | acid => exact acidStep_idle inv stepped
  | startSent =>
      obtain rfl := mute (by rw [inv.agrees.1.sender]; decide)
      exact acidStep_startSent inv stepped
  | startAccepted =>
      obtain rfl := mute (by rw [inv.agrees.1.sender]; decide)
      exact acidStep_startAccepted inv stepped
  | painting =>
      cases thread with
      | shell => exact shellStep_painting inv stepped
      | acid => exact acidStep_painting inv stepped
  | stopSent =>
      obtain rfl := mute (by rw [inv.agrees.1.sender]; decide)
      exact acidStep_stopSent inv stepped
  | stopAccepted =>
      obtain rfl := mute (by rw [inv.agrees.1.sender]; decide)
      exact acidStep_stopAccepted inv stepped

/-! ### Runs -/

variable {acid : Option String} {trace : List Label}

theorem reaches_inv (reached : Reaches acid trace s) :
    ∃ phase, Inv s phase ∧ Rounds (exchanges trace) phase := by
  induction reached with
  | start => exact ⟨.idle, inv_initial acid, .none⟩
  | step choice thread _ stepped ih =>
      obtain ⟨phase, inv, rounds⟩ := ih
      obtain ⟨next, kept, follows⟩ := step_follows inv stepped
      exact ⟨next, kept, follows.rounds rounds⟩

/-- The thread sleeps in a message function. -/
def Blocked (s : State) (thread : ThreadId) : Prop :=
  s.kernel.status thread ≠ .ready

/-- The plugin is called or its colours are painted. -/
def Label.Paints : Label → Prop
  | .calledAcid _ => True
  | .painted => True
  | _ => False

/-- `current_acid` or `bash_tp` is assigned. -/
def Label.Assigns : Label → Prop
  | .setBashTp => True
  | .setCurrentAcid => True
  | _ => False

theorem Follows.paints {next : Phase} (follows : Follows phase label next)
    (paints : label.Paints) : phase.Running := by
  cases follows with
  | calledAcid acid running => exact running
  | painted running => exact running
  | quiet => exact absurd paints id
  | setBashTp => exact absurd paints id
  | setCurrentAcid => exact absurd paints id
  | startSent => exact absurd paints id
  | startAccepted => exact absurd paints id
  | startReleased => exact absurd paints id
  | stopSent => exact absurd paints id
  | stopAccepted => exact absurd paints id
  | stopReleased => exact absurd paints id

theorem Follows.assigns {next : Phase} (follows : Follows phase label next)
    (assigns : label.Assigns) : phase = .idle := by
  cases follows with
  | setBashTp => rfl
  | setCurrentAcid => rfl
  | calledAcid => exact absurd assigns id
  | painted => exact absurd assigns id
  | quiet => exact absurd assigns id
  | startSent => exact absurd assigns id
  | startAccepted => exact absurd assigns id
  | startReleased => exact absurd assigns id
  | stopSent => exact absurd assigns id
  | stopAccepted => exact absurd assigns id
  | stopReleased => exact absurd assigns id

def Kept (s s' : State) : Prop :=
  s'.currentAcid = s.currentAcid ∧ s'.bashTp = s.bashTp

theorem waitStep_kept {signal : Signal} {woken release : AcidPc}
    (stepped : waitStep s signal woken release = some (label, s')) : Kept s s' := by
  unfold waitStep at stepped
  split at stepped
  · cases stepped
    exact ⟨rfl, rfl⟩
  · cases stepped
    exact ⟨rfl, rfl⟩

theorem wokenStep_kept {signal : Signal} {release : AcidPc}
    (stepped : wokenStep s signal release = some (label, s')) : Kept s s' := by
  obtain ⟨removed, _, same⟩ := Option.map_eq_some_iff.mp stepped
  cases same
  exact ⟨rfl, rfl⟩

theorem releaseStep_kept {signal : Signal} {next : AcidPc}
    (stepped : releaseStep s signal next = some (label, s')) : Kept s s' := by
  obtain ⟨tp, _, same⟩ := Option.map_eq_some_iff.mp stepped
  cases same
  exact ⟨rfl, rfl⟩

theorem acidStep_kept (stepped : acidStep s = some (label, s')) : Kept s s' := by
  unfold acidStep at stepped
  split at stepped
  · cases stepped
  · cases pc : s.acidPc with
    | entry =>
        rw [pc] at stepped
        cases stepped
        exact ⟨rfl, rfl⟩
    | waitStart =>
        rw [pc] at stepped
        exact waitStep_kept stepped
    | wokenStart =>
        rw [pc] at stepped
        exact wokenStep_kept stepped
    | releaseStart =>
        rw [pc] at stepped
        exact releaseStep_kept stepped
    | poll =>
        rw [pc] at stepped
        obtain ⟨tp, _, same⟩ := Option.map_eq_some_iff.mp stepped
        split at same
        · cases same
          exact ⟨rfl, rfl⟩
        · cases same
          exact ⟨rfl, rfl⟩
    | readCache =>
        rw [pc] at stepped
        cases stepped
        exact ⟨rfl, rfl⟩
    | callAcid =>
        rw [pc] at stepped
        cases stepped
        exact ⟨rfl, rfl⟩
    | paint =>
        rw [pc] at stepped
        cases stepped
        exact ⟨rfl, rfl⟩
    | sleep =>
        rw [pc] at stepped
        cases stepped
        exact ⟨rfl, rfl⟩
    | waitStop =>
        rw [pc] at stepped
        exact waitStep_kept stepped
    | wokenStop =>
        rw [pc] at stepped
        exact wokenStep_kept stepped
    | releaseStop =>
        rw [pc] at stepped
        exact releaseStep_kept stepped

theorem shellStep_kept {choice : Choice} (stepped : shellStep s choice = some (label, s'))
    (silent : ¬ label.Assigns) : Kept s s' := by
  unfold shellStep at stepped
  split at stepped
  · cases stepped
  · split at stepped
    case h_2 =>
      cases stepped
      exact absurd trivial silent
    case h_3 =>
      split at stepped
      · cases stepped
        exact ⟨rfl, rfl⟩
      · cases stepped
        exact ⟨rfl, rfl⟩
    case h_5 =>
      split at stepped
      · cases stepped
        exact ⟨rfl, rfl⟩
      · cases stepped
        exact absurd trivial silent
    case h_7 =>
      split at stepped
      · cases stepped
        exact ⟨rfl, rfl⟩
      · cases stepped
        exact ⟨rfl, rfl⟩
    case h_8 =>
      obtain ⟨tp, _, same⟩ := Option.map_eq_some_iff.mp stepped
      cases same
      exact ⟨rfl, rfl⟩
    case h_10 =>
      split at stepped
      · cases stepped
        exact ⟨rfl, rfl⟩
      · cases stepped
        exact ⟨rfl, rfl⟩
    case h_11 =>
      obtain ⟨tp, _, same⟩ := Option.map_eq_some_iff.mp stepped
      cases same
      exact ⟨rfl, rfl⟩
    all_goals
      cases stepped
      exact ⟨rfl, rfl⟩

theorem step_kept {choice : Choice} {thread : ThreadId}
    (stepped : step s choice thread = some (label, s')) (silent : ¬ label.Assigns) :
    Kept s s' := by
  cases thread with
  | shell => exact shellStep_kept stepped silent
  | acid => exact acidStep_kept stepped

theorem Inv.running (inv : Inv s phase) (painting : s.acidPc.InPaintLoop) : phase.Running := by
  cases phase with
  | painting => trivial
  | stopSent => trivial
  | idle =>
      rcases inv.agrees.2.2 with ⟨_, entry | waiting⟩ | ⟨_, woken⟩
      · rw [entry] at painting
        exact absurd painting id
      · rw [waiting] at painting
        exact absurd painting id
      · rw [woken] at painting
        exact absurd painting id
  | startSent =>
      rcases inv.agrees.2.2.2 with waiting | woken
      · rw [waiting] at painting
        exact absurd painting id
      · rw [woken] at painting
        exact absurd painting id
  | startAccepted =>
      rw [inv.agrees.2.2.2] at painting
      exact absurd painting id
  | stopAccepted =>
      rw [inv.agrees.2.2.2] at painting
      exact absurd painting id

theorem Inv.not_both_blocked (inv : Inv s phase) : ¬ (Blocked s .shell ∧ Blocked s .acid) := by
  rintro ⟨shell, acid⟩
  cases phase with
  | idle => exact shell inv.agrees.1.sender
  | startSent => exact acid inv.agrees.2.2.1
  | startAccepted => exact acid inv.agrees.2.2.1
  | painting => exact shell inv.agrees.1.sender
  | stopSent => exact acid inv.agrees.2.2.1
  | stopAccepted => exact acid inv.agrees.2.2.1

/-! ### A sender is released -/

def acidSteps : Nat → State → Option State
  | 0, s => some s
  | count + 1, s => (acidStep s).bind fun stepped => acidSteps count stepped.2

/-- Steps of `acid_thread` to the next release, while a message is on its way. -/
def distance : AcidPc → Nat
  | .entry => 0
  | .releaseStart => 1
  | .releaseStop => 1
  | .waitStart => 2
  | .wokenStart => 2
  | .waitStop => 2
  | .wokenStop => 2
  | .poll => 3
  | .sleep => 4
  | .paint => 5
  | .callAcid => 6
  | .readCache => 7

theorem acidStep_leaves (ready : s.kernel.status .acid = .ready)
    (started : s.acidTp = some .acid) (pending : s.kernel.msgqueue .acid = [.shell])
    (painting : s.acidPc.InPaintLoop) :
    ∃ label s', acidStep s = some (label, s') ∧ distance s'.acidPc < distance s.acidPc := by
  have awake : acidStep s = _ := if_neg (not_not.mpr ready)
  rw [awake]
  cases pc : s.acidPc with
  | poll =>
      have found : s.kernel.chMsgIsPendingI .acid = true := by
        rw [Kernel.chMsgIsPendingI, pending]
        rfl
      refine ⟨.quiet, { s with acidPc := .waitStop }, ?_, Nat.lt_succ_self 2⟩
      simp only [started, Option.map_some, found, reduceIte]
  | readCache => exact ⟨_, _, rfl, Nat.lt_succ_self 6⟩
  | callAcid => exact ⟨_, _, rfl, Nat.lt_succ_self 5⟩
  | paint => exact ⟨_, _, rfl, Nat.lt_succ_self 4⟩
  | sleep => exact ⟨_, _, rfl, Nat.lt_succ_self 3⟩
  | entry =>
      rw [pc] at painting
      exact absurd painting id
  | waitStart =>
      rw [pc] at painting
      exact absurd painting id
  | wokenStart =>
      rw [pc] at painting
      exact absurd painting id
  | releaseStart =>
      rw [pc] at painting
      exact absurd painting id
  | waitStop =>
      rw [pc] at painting
      exact absurd painting id
  | wokenStop =>
      rw [pc] at painting
      exact absurd painting id
  | releaseStop =>
      rw [pc] at painting
      exact absurd painting id

theorem acidStep_releases {signal : Signal} {next : AcidPc}
    (releasing : acidStep s = releaseStep s signal next) (set : s.bashTp = some .shell) :
    ∃ label s', acidStep s = some (label, s') ∧ ¬ Blocked s' .shell := by
  refine ⟨_, _, by rw [releasing, releaseStep, set]; rfl, ?_⟩
  rw [Blocked, not_not]
  exact Kernel.setStatus_same

theorem acidStep_nearer (inv : Inv s phase) (blocked : Blocked s .shell) :
    ∃ label s', acidStep s = some (label, s') ∧
      (¬ Blocked s' .shell ∨ distance s'.acidPc < distance s.acidPc) := by
  have awake : s.kernel.status .acid = .ready → acidStep s = _ := fun ready =>
    if_neg (not_not.mpr ready)
  cases phase with
  | idle => exact absurd inv.agrees.1.sender blocked
  | painting => exact absurd inv.agrees.1.sender blocked
  | startSent =>
      obtain ⟨mail, _, ready, waits⟩ := inv.agrees
      have accepts := @wait_accepts s .start .wokenStart .releaseStart mail.queue
      obtain ⟨removed, waited, wokenUp, _⟩ := accepts
      rcases waits with waiting | woken
      · refine ⟨_, _, by rw [awake ready, waiting]; exact waited, .inr ?_⟩
        rw [waiting]
        exact Nat.lt_succ_self 1
      · refine ⟨_, _, by rw [awake ready, woken]; exact wokenUp, .inr ?_⟩
        rw [woken]
        exact Nat.lt_succ_self 1
  | startAccepted =>
      obtain ⟨_, sent, ready, releasing⟩ := inv.agrees
      have set := inv.bashTp_set (by rw [sent]; exact id)
      obtain ⟨label, s', stepped, released⟩ :=
        @acidStep_releases s .start .poll (by rw [awake ready, releasing]) set
      exact ⟨label, s', stepped, .inl released⟩
  | stopSent =>
      obtain ⟨mail, _, ready, painting | waiting⟩ := inv.agrees
      · have started := inv.acidTp_set painting.ne_entry
        obtain ⟨label, s', stepped, nearer⟩ :=
          acidStep_leaves ready started mail.queue painting
        exact ⟨label, s', stepped, .inr nearer⟩
      · have accepts := @wait_accepts s .stop .wokenStop .releaseStop mail.queue
        obtain ⟨removed, waited, _⟩ := accepts
        refine ⟨_, _, by rw [awake ready, waiting]; exact waited, .inr ?_⟩
        rw [waiting]
        exact Nat.lt_succ_self 1
  | stopAccepted =>
      obtain ⟨_, sent, ready, releasing⟩ := inv.agrees
      have set := inv.bashTp_set (by rw [sent]; exact id)
      obtain ⟨label, s', stepped, released⟩ :=
        @acidStep_releases s .stop .waitStart (by rw [awake ready, releasing]) set
      exact ⟨label, s', stepped, .inl released⟩

/-- By its own steps `acid_thread` releases a sender that waits. -/
theorem acidSteps_release (limit : Nat) {phase : Phase} {s : State} (inv : Inv s phase)
    (near : distance s.acidPc < limit) (blocked : Blocked s .shell) :
    ∃ count ≤ limit, ∃ s', acidSteps count s = some s' ∧ ¬ Blocked s' .shell := by
  induction limit generalizing phase s with
  | zero => exact absurd near (Nat.not_lt_zero _)
  | succ limit ih =>
      obtain ⟨label, s', stepped, progress⟩ := acidStep_nearer inv blocked
      by_cases done : Blocked s' .shell
      · have nearer := progress.resolve_left (not_not.mpr done)
        obtain ⟨next, kept, _⟩ := @step_follows s s' phase label inv ⟨[], false, 'q'⟩ .acid stepped
        obtain ⟨count, within, last, ran, released⟩ := ih kept (by omega) done
        refine ⟨count + 1, by omega, last, ?_, released⟩
        rw [acidSteps, stepped]
        exact ran
      · exact ⟨1, by omega, s', by rw [acidSteps, stepped]; rfl, done⟩

theorem distance_le (pc : AcidPc) : distance pc < 8 := by
  cases pc <;> decide

/-! ### The handshake -/

/--
In every run the messages come in whole rounds, and in each state that is reached:
only between the release of a start and the acceptance of the stop does a step call
the plugin or paint, no step assigns or changes the two globals while the plugin
thread is in its paint loop, the threads are not both blocked, and a sender that is
blocked is released by the next steps of `acid_thread`.
-/
theorem handshake (reached : Reaches acid trace s) :
    ∃ phase, Rounds (exchanges trace) phase ∧
      (∀ choice thread label s', step s choice thread = some (label, s') →
        (label.Paints → phase.Running) ∧
          (s.acidPc.InPaintLoop → ¬ label.Assigns ∧ Kept s s')) ∧
      ¬ (Blocked s .shell ∧ Blocked s .acid) ∧
      (Blocked s .shell →
        ∃ count ≤ 8, ∃ s', acidSteps count s = some s' ∧ ¬ Blocked s' .shell) := by
  obtain ⟨phase, inv, rounds⟩ := reaches_inv reached
  refine ⟨phase, rounds, ?_, inv.not_both_blocked, fun blocked =>
    acidSteps_release 8 inv (distance_le _) blocked⟩
  intro choice thread label s' stepped
  obtain ⟨next, _, follows⟩ := step_follows inv stepped
  refine ⟨follows.paints, fun painting => ?_⟩
  have silent : ¬ label.Assigns := by
    intro assigns
    have running := inv.running painting
    rw [follows.assigns assigns] at running
    exact running
  exact ⟨silent, step_kept stepped silent⟩

/-- The run under a schedule, the latest step first. -/
def execute (acid : Option String) : List (Choice × ThreadId) → Option (List Label × State)
  | [] => some ([], initial acid)
  | turn :: earlier =>
      match execute acid earlier with
      | none => none
      | some (trace, s) =>
          match step s turn.1 turn.2 with
          | none => none
          | some (label, s') => some (label :: trace, s')

theorem execute_reaches {schedule : List (Choice × ThreadId)}
    (ran : execute acid schedule = some (trace, s)) : Reaches acid trace s := by
  induction schedule generalizing trace s with
  | nil =>
      cases ran
      exact .start
  | cons turn earlier ih =>
      unfold execute at ran
      split at ran
      case h_1 => cases ran
      case h_2 trace s before =>
        split at ran
        case h_1 => cases ran
        case h_2 label s' stepped =>
          cases ran
          exact .step turn.1 turn.2 (ih before) stepped

/-- `drop_acid Sunshine` and a `q`, the latest step first: the plugin paints once. -/
def sunshineRound : List (Choice × ThreadId) :=
  let choice : Choice := ⟨["Sunshine".toList], false, 'q'⟩
  let threads : List ThreadId :=
    List.replicate 2 .shell ++ List.replicate 3 .acid ++ List.replicate 3 .shell ++
      List.replicate 7 .acid ++ List.replicate 7 .shell ++ List.replicate 2 .acid
  threads.map fun thread => (choice, thread)

/-- The whole round, and the state in which the shell waits for its stop to be accepted. -/
theorem handshake_sunshine :
    (∃ trace s phase, execute (some "sunshine") sunshineRound = some (trace, s) ∧
      exchanges trace =
        [.released .stop .shell, .accepted .stop .shell, .sent .stop .acid,
          .released .start .shell, .accepted .start .shell, .sent .start .acid] ∧
      Rounds (exchanges trace) phase ∧ ¬ (Blocked s .shell ∧ Blocked s .acid)) ∧
    ∃ trace s, execute (some "sunshine") (sunshineRound.drop 5) = some (trace, s) ∧
      Blocked s .shell ∧
      ∃ count ≤ 8, ∃ s', acidSteps count s = some s' ∧ ¬ Blocked s' .shell := by
  constructor
  · have ran : ∃ trace s, execute (some "sunshine") sunshineRound = some (trace, s) ∧
        exchanges trace =
          [.released .stop .shell, .accepted .stop .shell, .sent .stop .acid,
            .released .start .shell, .accepted .start .shell, .sent .start .acid] :=
      ⟨_, _, rfl, rfl⟩
    obtain ⟨trace, s, ran, messages⟩ := ran
    obtain ⟨phase, rounds, _, free, _⟩ := handshake (execute_reaches ran)
    exact ⟨trace, s, phase, ran, messages, rounds, free⟩
  · have ran : ∃ trace s, execute (some "sunshine") (sunshineRound.drop 5) = some (trace, s) ∧
        s.kernel.status .shell ≠ .ready := ⟨_, _, rfl, fun ready => nomatch ready⟩
    obtain ⟨trace, s, ran, blocked⟩ := ran
    obtain ⟨phase, _, _, _, release⟩ := handshake (execute_reaches ran)
    exact ⟨trace, s, ran, blocked, release blocked⟩

end Synesthesia.AcidThread
