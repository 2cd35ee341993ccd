/-
What `syn_lb_cdc_bridge` carries, over every interleaving of its two clocks.

Beside the bridge runs a monitor: the transaction the local bus has not answered
yet, the local-bus edges since the last Avalon edge, and how many Avalon edges
every word of the response FIFO has spent there.  The environment is legal when
it answers only what is outstanding and when the empty flag of the response FIFO
does not lag for ever.
-/

import Synesthesia.Avalon.LbCdcBridge

namespace Synesthesia.LbCdcBridge

open Synesthesia.Rtl

/-- A transaction as the local bus shows it. -/
structure Xtn where
  read : Bool
  addr : BitVec 16
  data : BitVec 32
deriving DecidableEq

def viewXtn (xtn : BitVec 96) : Xtn :=
  { read := isRead xtn
    addr := xtnAddr xtn
    data := xtnData xtn }

/-- The transaction an Avalon request asks for.  A request that raises both
`av_read_ih` and `av_write_ih` is a read. -/
def request (inputs : AvInputs) : Xtn :=
  { read := inputs.avReadIh
    addr := inputs.avAddrId.extractLsb' 2 16
    data := inputs.avWriteDataId }

theorem viewXtn_wrData (inputs : AvInputs) :
    viewXtn (xtnFfWrData inputs) = request inputs := by
  have read : isRead (xtnFfWrData inputs) = inputs.avReadIh := by
    simp only [isRead, xtnFfWrData, BitVec.getLsbD_append, BitVec.getLsbD_ofBool]
    grind
  have addr : xtnAddr (xtnFfWrData inputs) = inputs.avAddrId.extractLsb' 2 16 := by
    apply BitVec.eq_of_getLsbD_eq
    intro i inside
    simp only [xtnAddr, xtnFfWrData, BitVec.getLsbD_extractLsb', BitVec.getLsbD_append]
    grind
  have data : xtnData (xtnFfWrData inputs) = inputs.avWriteDataId := by
    apply BitVec.eq_of_getLsbD_eq
    intro i inside
    simp only [xtnData, xtnFfWrData, BitVec.getLsbD_extractLsb', BitVec.getLsbD_append]
    grind
  rw [viewXtn, read, addr, data]
  rfl

structure Monitor where
  pending : Option Xtn
  lbSince : Nat
  ages : List Nat

structure System where
  bridge : State
  monitor : Monitor

def initial : System :=
  { bridge := reset
    monitor :=
      { pending := none
        lbSince := 0
        ages := [] } }

/-- The request the local bus carries in the current clock. -/
def pulse (state : State) : Option Xtn :=
  if state.lbRdEnOh || state.lbWrEnOh then
    some
      { read := state.lbRdEnOh
        addr := state.lbAddrOd
        data := state.lbWrDataOd }
  else none

/-- The transaction the target may answer in the current clock. -/
def outstanding (system : System) : Option Xtn :=
  (pulse system.bridge).or system.monitor.pending

def Monitor.step (system : System) : Edge → Monitor
  | .av _ =>
      let ages :=
        if system.bridge.rspFf.rdempty then system.monitor.ages
        else system.monitor.ages.tail
      { pending := system.monitor.pending
        lbSince := 0
        ages := ages.map (· + 1) }
  | .lb inputs =>
      { pending := if xtnFfRdReq inputs then none else outstanding system
        lbSince := system.monitor.lbSince + 1
        ages := system.monitor.ages ++ strobed inputs.lbRdValidId 0 }

def System.step (system : System) (edge : Edge) : System :=
  { bridge := LbCdcBridge.step system.bridge edge
    monitor := Monitor.step system edge }

/-- At most two local-bus edges fall between two Avalon edges, the target answers
an outstanding read with `lb_rd_valid` and an outstanding write with
`lb_wr_valid`, and a word that has spent more than `lag` Avalon edges in the
response FIFO is known to its read side. -/
def Legal (lag : Nat) (system : System) : Edge → Prop
  | .av inputs =>
      let after := system.step (.av inputs)
      ∀ age ∈ after.monitor.ages.drop after.bridge.rspFf.seen, age ≤ lag
  | .lb inputs =>
      system.monitor.lbSince < 2 ∧
        (inputs.lbRdValidId = true → ∃ xtn ∈ outstanding system, xtn.read = true) ∧
        (inputs.lbWrValidId = true → ∃ xtn ∈ outstanding system, xtn.read = false)

instance (lag : Nat) (system : System) : ∀ edge, Decidable (Legal lag system edge)
  | .av inputs =>
      inferInstanceAs (Decidable (∀ age ∈ (system.step (.av inputs)).monitor.ages.drop
        (system.step (.av inputs)).bridge.rspFf.seen, age ≤ lag))
  | .lb inputs =>
      inferInstanceAs (Decidable (system.monitor.lbSince < 2 ∧
        (inputs.lbRdValidId = true → ∃ xtn ∈ outstanding system, xtn.read = true) ∧
        (inputs.lbWrValidId = true → ∃ xtn ∈ outstanding system, xtn.read = false)))

def systemAt (edges : Nat → Edge) : Nat → System := run System.step initial edges

theorem systemAt_succ (edges : Nat → Edge) (t : Nat) :
    systemAt edges (t + 1) = (systemAt edges t).step (edges t) := rfl

/-! ### What the two sides observe -/

def acceptedNow (system : System) : Edge → List Xtn
  | .av inputs => strobed (xtnFfWrEnC system.bridge inputs) (request inputs)
  | .lb _ => []

def issuedNow (system : System) : Edge → List Xtn
  | .av _ => []
  | .lb _ => (pulse system.bridge).toList

/-- Answered transactions, each with the read data of its answer. -/
def answeredNow (system : System) : Edge → List (Xtn × BitVec 32)
  | .av _ => []
  | .lb inputs =>
      if xtnFfRdReq inputs then
        (outstanding system).toList.map fun xtn => (xtn, inputs.lbRdDataId)
      else []

def deliveredNow (system : System) : Edge → List (BitVec 32)
  | .av _ => strobed system.bridge.avReadDataValidOh system.bridge.avReadDataOd
  | .lb _ => []

/-- Avalon requests taken while `av_wait_req_oh` was low. -/
def accepted (edges : Nat → Edge) : Nat → List Xtn :=
  collect fun t => acceptedNow (systemAt edges t) (edges t)

/-- Local-bus clocks with `lb_rd_en_oh` or `lb_wr_en_oh`, one entry a clock. -/
def issued (edges : Nat → Edge) : Nat → List Xtn :=
  collect fun t => issuedNow (systemAt edges t) (edges t)

def answered (edges : Nat → Edge) : Nat → List (Xtn × BitVec 32) :=
  collect fun t => answeredNow (systemAt edges t) (edges t)

/-- Avalon clocks with `av_read_data_valid_oh`, one entry a clock. -/
def delivered (edges : Nat → Edge) : Nat → List (BitVec 32) :=
  collect fun t => deliveredNow (systemAt edges t) (edges t)

def readData (answers : List (Xtn × BitVec 32)) : List (BitVec 32) :=
  (answers.filter fun answer => answer.1.read).map Prod.snd

theorem readData_append (early late : List (Xtn × BitVec 32)) :
    readData (early ++ late) = readData early ++ readData late := by
  simp only [readData, List.filter_append, List.map_append]

/-! ### Requests -/

/-- The bus registers show the head of the request FIFO. -/
structure Shows (system : System) (xtn : BitVec 96) : Prop where
  wait : system.bridge.waitForRspF = true
  known : system.bridge.xtnFf.rdempty = false
  head : ∃ rest, system.bridge.xtnFf.words = xtn :: rest
  addr : system.bridge.lbAddrOd = xtnAddr xtn
  data : system.bridge.lbWrDataOd = xtnData xtn

/-- The three phases of the local bus: nothing issued, the pulse itself, and the
wait for the answer. -/
inductive Phase (sent done : List Xtn) (system : System) : Prop where
  | idle
      (wait : system.bridge.waitForRspF = false)
      (quiet : pulse system.bridge = none)
      (pending : system.monitor.pending = none)
      (sent : sent = done)
  | pulsing (xtn : BitVec 96)
      (shows : Shows system xtn)
      (pulses : pulse system.bridge = some (viewXtn xtn))
      (pending : system.monitor.pending = none)
      (sent : sent = done)
  | waiting (xtn : BitVec 96)
      (shows : Shows system xtn)
      (quiet : pulse system.bridge = none)
      (pending : system.monitor.pending = some (viewXtn xtn))
      (sent : sent = done ++ [viewXtn xtn])

theorem Phase.outstanding_eq {sent done : List Xtn} {system : System}
    (phase : Phase sent done system) :
    (system.bridge.waitForRspF = false ∧ outstanding system = none ∧
        pulse system.bridge = none ∧ sent = done) ∨
      ∃ xtn, Shows system xtn ∧ outstanding system = some (viewXtn xtn) ∧
        sent ++ (pulse system.bridge).toList = done ++ [viewXtn xtn] := by
  cases phase with
  | idle wait quiet pending sent =>
      exact .inl ⟨wait, by rw [outstanding, quiet, pending]; rfl, quiet, sent⟩
  | pulsing xtn shows pulses pending sent =>
      refine .inr ⟨xtn, shows, by rw [outstanding, pulses]; rfl, ?_⟩
      rw [pulses, sent]
      rfl
  | waiting xtn shows quiet pending sent =>
      refine .inr ⟨xtn, shows, by rw [outstanding, quiet, pending]; rfl, ?_⟩
      rw [quiet, sent, Option.toList_none, List.append_nil]

theorem Shows.av {system : System} {xtn : BitVec 96} (shows : Shows system xtn)
    (inputs : AvInputs) : Shows (system.step (.av inputs)) xtn := by
  obtain ⟨rest, head⟩ := shows.head
  refine
    { wait := shows.wait
      known := shows.known
      head := ⟨rest ++ strobed (xtnFfWrEnC system.bridge inputs) (xtnFfWrData inputs), ?_⟩
      addr := shows.addr
      data := shows.data }
  change system.bridge.xtnFf.words ++ _ = _
  rw [head, List.cons_append]

theorem phase_av {sent done : List Xtn} {system : System}
    (phase : Phase sent done system) (inputs : AvInputs) :
    Phase sent done (system.step (.av inputs)) := by
  cases phase with
  | idle wait quiet pending sent => exact .idle wait quiet pending sent
  | pulsing xtn shows pulses pending sent =>
      exact .pulsing xtn (shows.av inputs) pulses pending sent
  | waiting xtn shows quiet pending sent =>
      exact .waiting xtn (shows.av inputs) quiet pending sent

theorem lb_quiet {system : System} (wait : system.bridge.waitForRspF = true)
    (inputs : LbInputs) : pulse (system.step (.lb inputs)).bridge = none := by
  simp only [pulse, System.step, LbCdcBridge.step, lbEdge, wait, Bool.not_true,
    Bool.and_false, Bool.false_and, Bool.or_self, Bool.false_eq_true, reduceIte]

theorem Shows.lb_wait {system : System} {xtn : BitVec 96} (shows : Shows system xtn)
    (sound : system.bridge.xtnFf.Sound) {inputs : LbInputs}
    (noAnswer : xtnFfRdReq inputs = false) :
    Shows (system.step (.lb inputs)) xtn := by
  obtain ⟨rest, head⟩ := shows.head
  have shown : system.bridge.xtnFf.q inputs.xtnUnknown = xtn := by
    obtain ⟨_, same⟩ := AsyncFifo.q_of_seen sound shows.known inputs.xtnUnknown
    rw [head] at same
    exact (List.cons.inj same).1.symm
  have kept : (system.step (.lb inputs)).bridge.xtnFf =
      system.bridge.xtnFf.readEdge false inputs.xtnLearn := by
    change system.bridge.xtnFf.readEdge (xtnFfRdReq inputs) _ = _
    rw [noAnswer]
  refine
    { wait := ?_
      known := ?_
      head := ⟨rest, ?_⟩
      addr := ?_
      data := ?_ }
  · change (if system.bridge.waitForRspF then !(xtnFfRdReq inputs) else _) = true
    rw [shows.wait, noAnswer]
    rfl
  · rw [kept]
    exact AsyncFifo.readEdge_seen sound shows.known _
  · rw [kept]
    exact head
  · change xtnAddr (system.bridge.xtnFf.q inputs.xtnUnknown) = _
    rw [shown]
  · change xtnData (system.bridge.xtnFf.q inputs.xtnUnknown) = _
    rw [shown]

theorem lb_issue {system : System} (wait : system.bridge.waitForRspF = false)
    (sound : system.bridge.xtnFf.Sound) {inputs : LbInputs}
    (noAnswer : xtnFfRdReq inputs = false) :
    (system.bridge.xtnFf.rdempty = true ∧
        (system.step (.lb inputs)).bridge.waitForRspF = false ∧
        pulse (system.step (.lb inputs)).bridge = none) ∨
      ∃ xtn, Shows (system.step (.lb inputs)) xtn ∧
        pulse (system.step (.lb inputs)).bridge = some (viewXtn xtn) := by
  cases empty : system.bridge.xtnFf.rdempty with
  | true =>
      refine .inl ⟨rfl, ?_, ?_⟩
      · change (if system.bridge.waitForRspF then _ else !system.bridge.xtnFf.rdempty) = false
        rw [wait, empty]
        rfl
      · simp only [pulse, System.step, LbCdcBridge.step, lbEdge, empty, Bool.not_true,
          Bool.false_and, Bool.or_self, Bool.false_eq_true, reduceIte]
  | false =>
      obtain ⟨rest, head⟩ := AsyncFifo.q_of_seen sound empty inputs.xtnUnknown
      have kept : (system.step (.lb inputs)).bridge.xtnFf =
          system.bridge.xtnFf.readEdge false inputs.xtnLearn := by
        change system.bridge.xtnFf.readEdge (xtnFfRdReq inputs) _ = _
        rw [noAnswer]
      refine .inr ⟨system.bridge.xtnFf.q inputs.xtnUnknown, ?_, ?_⟩
      · refine
          { wait := ?_
            known := ?_
            head := ⟨rest, ?_⟩
            addr := rfl
            data := rfl }
        · change (if system.bridge.waitForRspF then _ else !system.bridge.xtnFf.rdempty) = true
          rw [wait, empty]
          rfl
        · rw [kept]
          exact AsyncFifo.readEdge_seen sound empty _
        · rw [kept]
          exact head
      · simp only [pulse, System.step, LbCdcBridge.step, lbEdge, empty, wait, Bool.not_false,
          Bool.true_and]
        cases kind : isRead (system.bridge.xtnFf.q inputs.xtnUnknown) with
        | true => simp [viewXtn, kind]
        | false => simp [viewXtn, kind]

theorem lb_answer {system : System} (wait : system.bridge.waitForRspF = true)
    {inputs : LbInputs} (answer : xtnFfRdReq inputs = true) :
    (system.step (.lb inputs)).bridge.waitForRspF = false ∧
      (system.step (.lb inputs)).monitor.pending = none := by
  constructor
  · change (if system.bridge.waitForRspF then !(xtnFfRdReq inputs) else _) = false
    rw [wait, answer]
    rfl
  · change (if xtnFfRdReq inputs then none else _) = none
    rw [answer]
    rfl

theorem Legal.answer {lag : Nat} {system : System} {inputs : LbInputs}
    (legal : Legal lag system (.lb inputs)) (answer : xtnFfRdReq inputs = true) :
    ∃ xtn, outstanding system = some xtn ∧ inputs.lbRdValidId = xtn.read := by
  obtain ⟨_, reads, writes⟩ := legal
  cases read : inputs.lbRdValidId with
  | true =>
      obtain ⟨xtn, open', kind⟩ := reads read
      exact ⟨xtn, open', kind.symm⟩
  | false =>
      rw [xtnFfRdReq, read, Bool.false_or] at answer
      obtain ⟨xtn, open', kind⟩ := writes answer
      exact ⟨xtn, open', kind.symm⟩

/-- Everything accepted is answered or still in the request FIFO, and what was
issued is what was answered and at most the head of that FIFO. -/
structure Requests (taken sent : List Xtn) (answers : List (Xtn × BitVec 32))
    (system : System) : Prop where
  sound : system.bridge.xtnFf.Sound
  room : system.bridge.xtnFf.words.length ≤ ffDepth
  queue : taken = answers.map Prod.fst ++ system.bridge.xtnFf.words.map viewXtn
  phase : Phase sent (answers.map Prod.fst) system

theorem requests_initial : Requests [] [] [] initial :=
  { sound := AsyncFifo.init_sound
    room := Nat.zero_le _
    queue := rfl
    phase := .idle rfl rfl rfl rfl }

theorem requests_av {taken sent : List Xtn} {answers : List (Xtn × BitVec 32)}
    {system : System} (requests : Requests taken sent answers system) (inputs : AvInputs) :
    Requests (taken ++ acceptedNow system (.av inputs)) sent answers
      (system.step (.av inputs)) := by
  refine
    { sound := AsyncFifo.writeEdge_sound requests.sound _ _ _
      room := ?_
      queue := ?_
      phase := phase_av requests.phase inputs }
  · change (system.bridge.xtnFf.words ++ strobed (xtnFfWrEnC system.bridge inputs) _).length ≤ _
    cases write : xtnFfWrEnC system.bridge inputs with
    | false => simpa using requests.room
    | true =>
        have free : xtnFfFull system.bridge = false := by
          rw [xtnFfWrEnC, Bool.and_eq_true, Bool.not_eq_true'] at write
          exact write.2
        simp only [xtnFfFull, AsyncFifo.wrfull, decide_eq_false_iff_not] at free
        rw [strobed_true, List.length_append, List.length_singleton]
        omega
  · change _ = _ ++ (system.bridge.xtnFf.words ++ strobed (xtnFfWrEnC system.bridge inputs)
      (xtnFfWrData inputs)).map viewXtn
    rw [requests.queue, List.map_append, List.append_assoc]
    simp only [acceptedNow]
    cases xtnFfWrEnC system.bridge inputs with
    | false => rfl
    | true => simp only [strobed_true, List.map_cons, List.map_nil, viewXtn_wrData]

theorem requests_lb {lag : Nat} {taken sent : List Xtn}
    {answers : List (Xtn × BitVec 32)} {system : System}
    (requests : Requests taken sent answers system) {inputs : LbInputs}
    (legal : Legal lag system (.lb inputs)) :
    Requests taken (sent ++ issuedNow system (.lb inputs))
      (answers ++ answeredNow system (.lb inputs)) (system.step (.lb inputs)) := by
  have sound : (system.step (.lb inputs)).bridge.xtnFf.Sound := AsyncFifo.readEdge_sound _ _ _
  cases answer : xtnFfRdReq inputs with
  | true =>
      obtain ⟨xtn, open', _⟩ := legal.answer answer
      rcases requests.phase.outstanding_eq with ⟨_, nothing, _⟩ | ⟨word, shows, due, sent⟩
      · rw [nothing] at open'
        cases open'
      · obtain ⟨rest, head⟩ := shows.head
        obtain ⟨wait, pending⟩ := lb_answer shows.wait answer
        have popped : (system.step (.lb inputs)).bridge.xtnFf.words = rest := by
          change (if xtnFfRdReq inputs then system.bridge.xtnFf.words.tail else _) = rest
          rw [answer, if_pos rfl, head, List.tail_cons]
        have now : answeredNow system (.lb inputs) = [(viewXtn word, inputs.lbRdDataId)] := by
          simp only [answeredNow, answer, due, reduceIte, Option.toList_some, List.map_cons,
            List.map_nil]
        have queue := requests.queue
        have room := requests.room
        rw [head] at queue room
        rw [List.length_cons] at room
        refine
          { sound := sound
            room := ?_
            queue := ?_
            phase := .idle wait (lb_quiet shows.wait inputs) pending ?_ }
        · rw [popped]
          omega
        · rw [popped, now, queue]
          simp only [List.map_append, List.map_cons, List.map_nil, List.append_assoc,
            List.singleton_append]
        · rw [now, List.map_append]
          exact sent
  | false =>
      have words : (system.step (.lb inputs)).bridge.xtnFf.words =
          system.bridge.xtnFf.words := by
        change (if xtnFfRdReq inputs then _ else system.bridge.xtnFf.words) = _
        rw [answer]
        rfl
      have none' : answeredNow system (.lb inputs) = [] := by
        simp only [answeredNow, answer, Bool.false_eq_true, reduceIte]
      have pending : (system.step (.lb inputs)).monitor.pending = outstanding system := by
        change (if xtnFfRdReq inputs then none else outstanding system) = _
        rw [answer]
        rfl
      refine
        { sound := sound
          room := by rw [words]; exact requests.room
          queue := by rw [words, none', List.append_nil]; exact requests.queue
          phase := ?_ }
      rw [none', List.append_nil]
      rcases requests.phase.outstanding_eq with
        ⟨wait, nothing, quiet, settled⟩ | ⟨word, shows, due, settled⟩
      · rw [nothing] at pending
        have same : sent ++ issuedNow system (.lb inputs) = answers.map Prod.fst := by
          rw [issuedNow, quiet, Option.toList_none, List.append_nil, settled]
        rcases lb_issue wait requests.sound answer with ⟨_, wait, quiet⟩ | ⟨xtn, shows, pulses⟩
        · exact .idle wait quiet pending same
        · exact .pulsing xtn shows pulses pending same
      · exact .waiting word (shows.lb_wait requests.sound answer) (lb_quiet shows.wait inputs)
          (pending.trans due) settled

/-! ### Responses -/

/-- The answered read data is delivered, in the output register or in the
response FIFO.  No two words of that FIFO have the same age, which bounds it. -/
structure Returns (lag : Nat) (answers : List (Xtn × BitVec 32))
    (data : List (BitVec 32)) (system : System) : Prop where
  sound : system.bridge.rspFf.Sound
  order : readData answers = data ++
    strobed system.bridge.avReadDataValidOh system.bridge.avReadDataOd ++
      system.bridge.rspFf.words
  sizes : system.monitor.ages.length = system.bridge.rspFf.words.length
  sorted : system.monitor.ages.Pairwise (· > ·)
  bounded : ∀ age ∈ system.monitor.ages, age ≤ lag + 1
  unseen : ∀ age ∈ system.monitor.ages.drop system.bridge.rspFf.seen, age ≤ lag
  fresh : 0 ∈ system.monitor.ages →
    2 ≤ system.monitor.lbSince ∨
      system.monitor.lbSince = 1 ∧ system.bridge.waitForRspF = false

theorem returns_initial (lag : Nat) : Returns lag [] [] initial :=
  { sound := AsyncFifo.init_sound
    order := rfl
    sizes := rfl
    sorted := List.Pairwise.nil
    bounded := fun _ inside => absurd inside List.not_mem_nil
    unseen := fun _ inside => absurd inside List.not_mem_nil
    fresh := fun inside => absurd inside List.not_mem_nil }

/-- Distinct ages up to a bound leave room for one word each. -/
theorem length_le_of_sorted {ages : List Nat} (sorted : ages.Pairwise (· > ·)) :
    ∀ {bound : Nat}, (∀ age ∈ ages, age ≤ bound) → ages.length ≤ bound + 1 := by
  induction sorted with
  | nil =>
      intro bound _
      exact Nat.zero_le _
  | @cons age rest older _ ih =>
      intro bound bounded
      have first := bounded age List.mem_cons_self
      cases rest with
      | nil => exact Nat.succ_le_succ (Nat.zero_le _)
      | cons next rest =>
          have positive := older next List.mem_cons_self
          have shorter := @ih (age - 1) fun other inside =>
            Nat.le_sub_one_of_lt (older other inside)
          rw [List.length_cons]
          omega

theorem Returns.rspFf_length_le {lag : Nat} {answers : List (Xtn × BitVec 32)}
    {data : List (BitVec 32)} {system : System}
    (returns : Returns lag answers data system) :
    system.bridge.rspFf.words.length ≤ lag + 2 := by
  rw [← returns.sizes]
  exact length_le_of_sorted returns.sorted returns.bounded

theorem returns_av {lag : Nat} {answers : List (Xtn × BitVec 32)}
    {data : List (BitVec 32)} {system : System}
    (returns : Returns lag answers data system) {inputs : AvInputs}
    (legal : Legal lag system (.av inputs)) :
    Returns lag answers (data ++ deliveredNow system (.av inputs))
      (system.step (.av inputs)) := by
  have sound : (system.step (.av inputs)).bridge.rspFf.Sound :=
    AsyncFifo.readEdge_sound _ _ _
  have old : 0 ∉ (system.step (.av inputs)).monitor.ages := by
    intro inside
    obtain ⟨age, _, impossible⟩ := List.mem_map.mp inside
    exact Nat.succ_ne_zero age impossible
  cases empty : system.bridge.rspFf.rdempty with
  | true =>
      have valid : (system.step (.av inputs)).bridge.avReadDataValidOh = false := by
        change (!system.bridge.rspFf.rdempty) = false
        rw [empty]
        rfl
      have words : (system.step (.av inputs)).bridge.rspFf.words =
          system.bridge.rspFf.words := by
        change (if !system.bridge.rspFf.rdempty then _ else system.bridge.rspFf.words) = _
        rw [empty]
        rfl
      have ages : (system.step (.av inputs)).monitor.ages =
          system.monitor.ages.map (· + 1) := by
        change (if system.bridge.rspFf.rdempty then _ else _ : List Nat).map (· + 1) = _
        rw [empty, if_pos rfl]
      have young : ∀ age ∈ system.monitor.ages, age ≤ lag := by
        have unseen := returns.unseen
        rw [AsyncFifo.rdempty, decide_eq_true_eq] at empty
        rwa [empty, List.drop_zero] at unseen
      refine
        { sound := sound
          order := ?_
          sizes := by rw [ages, words, List.length_map]; exact returns.sizes
          sorted := ?_
          bounded := ?_
          unseen := legal
          fresh := fun inside => absurd inside old }
      · rw [valid, words, strobed_false, List.append_nil, returns.order]
        rfl
      · rw [ages]
        exact returns.sorted.map _ fun _ _ older => Nat.succ_lt_succ older
      · rw [ages]
        intro age inside
        obtain ⟨before, member, rfl⟩ := List.mem_map.mp inside
        exact Nat.succ_le_succ (young before member)
  | false =>
      obtain ⟨rest, head⟩ := AsyncFifo.q_of_seen returns.sound empty inputs.rspUnknown
      have valid : (system.step (.av inputs)).bridge.avReadDataValidOh = true := by
        change (!system.bridge.rspFf.rdempty) = true
        rw [empty]
        rfl
      have shown : (system.step (.av inputs)).bridge.avReadDataOd =
          system.bridge.rspFf.q inputs.rspUnknown := by
        change (if system.bridge.rspFf.rdempty then _ else _ : BitVec 32) = _
        rw [empty]
        rfl
      have words : (system.step (.av inputs)).bridge.rspFf.words = rest := by
        change (if !system.bridge.rspFf.rdempty then system.bridge.rspFf.words.tail else _) = _
        rw [empty, head]
        rfl
      have ages : (system.step (.av inputs)).monitor.ages =
          system.monitor.ages.tail.map (· + 1) := by
        change (if system.bridge.rspFf.rdempty then _ else _ : List Nat).map (· + 1) = _
        rw [empty, if_neg Bool.false_ne_true]
      have sizes := returns.sizes
      have sorted := returns.sorted
      have bounded := returns.bounded
      rw [head, List.length_cons] at sizes
      obtain ⟨first, later, split⟩ : ∃ first later, system.monitor.ages = first :: later :=
        List.exists_cons_of_length_eq_add_one sizes
      rw [split] at sizes sorted bounded ages
      rw [List.pairwise_cons] at sorted
      rw [List.tail_cons] at ages
      refine
        { sound := sound
          order := ?_
          sizes := ?_
          sorted := ?_
          bounded := ?_
          unseen := legal
          fresh := fun inside => absurd inside old }
      · rw [valid, words, shown, strobed_true, returns.order, head]
        simp only [deliveredNow, List.append_assoc, List.singleton_append]
      · rw [ages, words, List.length_map]
        exact Nat.succ.inj sizes
      · rw [ages]
        exact sorted.2.map _ fun _ _ older => Nat.succ_lt_succ older
      · rw [ages]
        intro age inside
        obtain ⟨before, member, rfl⟩ := List.mem_map.mp inside
        exact Nat.le_trans (sorted.1 before member) (bounded first List.mem_cons_self)

/-- A local-bus edge adds the data of an answered read.  Between two Avalon edges
this happens once at most: the second edge finds the bridge idle. -/
theorem returns_lb {lag : Nat} {taken sent : List Xtn}
    {answers : List (Xtn × BitVec 32)} {data : List (BitVec 32)} {system : System}
    (requests : Requests taken sent answers system)
    (returns : Returns lag answers data system) {inputs : LbInputs}
    (legal : Legal lag system (.lb inputs)) :
    Returns lag (answers ++ answeredNow system (.lb inputs)) data
      (system.step (.lb inputs)) := by
  have sound : (system.step (.lb inputs)).bridge.rspFf.Sound :=
    AsyncFifo.writeEdge_sound returns.sound _ _ _
  have words : (system.step (.lb inputs)).bridge.rspFf.words =
      system.bridge.rspFf.words ++ strobed inputs.lbRdValidId inputs.lbRdDataId := by
    change _ ++ strobed inputs.lbRdValidId _ = _
    rw [rspData_eq]
  have seen : (system.step (.lb inputs)).bridge.rspFf.seen = system.bridge.rspFf.seen := rfl
  have ages : (system.step (.lb inputs)).monitor.ages =
      system.monitor.ages ++ strobed inputs.lbRdValidId 0 := rfl
  have since : (system.step (.lb inputs)).monitor.lbSince = system.monitor.lbSince + 1 := rfl
  have answered : readData (answeredNow system (.lb inputs)) =
      strobed inputs.lbRdValidId inputs.lbRdDataId := by
    cases answer : xtnFfRdReq inputs with
    | true =>
        obtain ⟨xtn, open', kind⟩ := legal.answer answer
        simp only [answeredNow, answer, open', reduceIte, Option.toList_some, List.map_cons,
          List.map_nil, readData, kind]
        cases kind : xtn.read with
        | true => simp [kind]
        | false => simp [kind]
    | false =>
        have noRead : inputs.lbRdValidId = false := by
          rw [xtnFfRdReq, Bool.or_eq_false_iff] at answer
          exact answer.1
        simp [answeredNow, answer, noRead, readData]
  have order : readData (answers ++ answeredNow system (.lb inputs)) = data ++
      strobed system.bridge.avReadDataValidOh system.bridge.avReadDataOd ++
        (system.step (.lb inputs)).bridge.rspFf.words := by
    rw [readData_append, answered, returns.order, words, List.append_assoc]
  cases read : inputs.lbRdValidId with
  | false =>
      rw [read, strobed_false, List.append_nil] at words ages
      refine
        { sound := sound
          order := order
          sizes := by rw [words, ages]; exact returns.sizes
          sorted := by rw [ages]; exact returns.sorted
          bounded := by rw [ages]; exact returns.bounded
          unseen := by rw [ages, seen]; exact returns.unseen
          fresh := ?_ }
      rw [ages, since]
      intro inside
      rcases returns.fresh inside with many | ⟨one, _⟩
      · exact .inl (Nat.le_succ_of_le many)
      · exact .inl (by omega)
  | true =>
      rw [read, strobed_true] at words ages
      have answer : xtnFfRdReq inputs = true := by
        rw [xtnFfRdReq, read, Bool.true_or]
      have wait : system.bridge.waitForRspF = true := by
        obtain ⟨xtn, open', _⟩ := legal.answer answer
        rcases requests.phase.outstanding_eq with ⟨_, nothing, _⟩ | ⟨_, shows, _⟩
        · rw [nothing] at open'
          cases open'
        · exact shows.wait
      have positive : ∀ age ∈ system.monitor.ages, 0 < age := by
        intro age inside
        refine Nat.pos_of_ne_zero fun zero => ?_
        rw [zero] at inside
        rcases returns.fresh inside with many | ⟨_, idle⟩
        · exact absurd legal.1 (Nat.not_lt.mpr many)
        · rw [wait] at idle
          cases idle
      refine
        { sound := sound
          order := order
          sizes := ?_
          sorted := ?_
          bounded := ?_
          unseen := ?_
          fresh := ?_ }
      · rw [words, ages, List.length_append, List.length_append, returns.sizes]
        rfl
      · rw [ages]
        refine List.pairwise_append.mpr ⟨returns.sorted, List.pairwise_singleton _ _, ?_⟩
        intro age inside last member
        rw [List.mem_singleton] at member
        rw [member]
        exact positive age inside
      · rw [ages]
        intro age inside
        rcases List.mem_append.mp inside with member | member
        · exact returns.bounded age member
        · rw [List.mem_singleton] at member
          omega
      · rw [ages, seen]
        have known : system.bridge.rspFf.seen ≤ system.monitor.ages.length := by
          rw [returns.sizes]
          exact returns.sound
        rw [List.drop_append_of_le_length known]
        intro age inside
        rcases List.mem_append.mp inside with member | member
        · exact returns.unseen age member
        · rw [List.mem_singleton] at member
          omega
      · intro _
        have idle := (lb_answer wait answer).1
        rw [since]
        cases system.monitor.lbSince with
        | zero => exact .inr ⟨rfl, idle⟩
        | succ before => exact .inl (by omega)

/-! ### Whole runs -/

section Run

variable {edges : Nat → Edge} {lag : Nat}

/-- Both halves of the invariant, over the histories of a run. -/
structure Carries (lag : Nat) (edges : Nat → Edge) (t : Nat) : Prop where
  requests : Requests (accepted edges t) (issued edges t) (answered edges t)
    (systemAt edges t)
  returns : Returns lag (answered edges t) (delivered edges t) (systemAt edges t)

theorem carries_step {t : Nat} (carries : Carries lag edges t)
    (legal : Legal lag (systemAt edges t) (edges t)) : Carries lag edges (t + 1) := by
  have accepted' : accepted edges (t + 1) =
      accepted edges t ++ acceptedNow (systemAt edges t) (edges t) := rfl
  have issued' : issued edges (t + 1) =
      issued edges t ++ issuedNow (systemAt edges t) (edges t) := rfl
  have answered' : answered edges (t + 1) =
      answered edges t ++ answeredNow (systemAt edges t) (edges t) := rfl
  have delivered' : delivered edges (t + 1) =
      delivered edges t ++ deliveredNow (systemAt edges t) (edges t) := rfl
  cases edge : edges t with
  | av inputs =>
      rw [edge] at legal accepted' issued' answered' delivered'
      simp only [issuedNow, answeredNow, List.append_nil] at issued' answered'
      refine
        { requests := ?_
          returns := ?_ }
      · rw [systemAt_succ, edge, accepted', issued', answered']
        exact requests_av carries.requests inputs
      · rw [systemAt_succ, edge, answered', delivered']
        exact returns_av carries.returns legal
  | lb inputs =>
      rw [edge] at legal accepted' issued' answered' delivered'
      simp only [acceptedNow, deliveredNow, List.append_nil] at accepted' delivered'
      refine
        { requests := ?_
          returns := ?_ }
      · rw [systemAt_succ, edge, accepted', issued', answered']
        exact requests_lb carries.requests legal
      · rw [systemAt_succ, edge, answered', delivered']
        exact returns_lb carries.requests carries.returns legal

theorem run_carries (legal : ∀ t, Legal lag (systemAt edges t) (edges t)) :
    ∀ t, Carries lag edges t := by
  intro t
  induction t with
  | zero =>
      exact
        { requests := requests_initial
          returns := returns_initial lag }
  | succ t ih => exact carries_step ih (legal t)

/-! ### Every transaction arrives -/

def Edge.isLb : Edge → Bool
  | .av _ => false
  | .lb _ => true

def Edge.isAv (edge : Edge) : Bool := !edge.isLb

theorem Edge.exists_lb {edge : Edge} (lbEdge : edge.isLb = true) :
    ∃ inputs, edge = .lb inputs := by
  cases edge with
  | av inputs => cases lbEdge
  | lb inputs => exact ⟨inputs, rfl⟩

theorem Edge.exists_av {edge : Edge} (avEdge : edge.isLb = false) :
    ∃ inputs, edge = .av inputs := by
  cases edge with
  | av inputs => exact ⟨inputs, rfl⟩
  | lb inputs => cases avEdge

/-- Both clocks keep running, a word of the request FIFO becomes known at some
point, and the target answers in finite time. -/
structure Fair (edges : Nat → Edge) : Prop where
  avClock : ∀ t, ∃ later, t ≤ later ∧ (edges later).isAv = true
  lbClock : ∀ t, ∃ later, t ≤ later ∧ (edges later).isLb = true
  known : ∀ t, (systemAt edges t).bridge.xtnFf.words ≠ [] →
    ∃ later, t ≤ later ∧ (systemAt edges later).bridge.xtnFf.rdempty = false
  answers : ∀ t, outstanding (systemAt edges t) ≠ none →
    ∃ later inputs, t ≤ later ∧ edges later = .lb inputs ∧ xtnFfRdReq inputs = true

theorem answered_length_le {t later : Nat} (after : t ≤ later) :
    (answered edges t).length ≤ (answered edges later).length := by
  obtain ⟨gap, rfl⟩ := Nat.exists_eq_add_of_le after
  exact (collect_isPrefix _ t gap).length_le

theorem delivered_length_le {t later : Nat} (after : t ≤ later) :
    (delivered edges t).length ≤ (delivered edges later).length := by
  obtain ⟨gap, rfl⟩ := Nat.exists_eq_add_of_le after
  exact (collect_isPrefix _ t gap).length_le

theorem lb_sets_wait {t : Nat} (carries : Carries lag edges t)
    (legal : Legal lag (systemAt edges t) (edges t)) {inputs : LbInputs}
    (edge : edges t = .lb inputs)
    (known : (systemAt edges t).bridge.xtnFf.rdempty = false) :
    ∃ later, t ≤ later ∧ (systemAt edges later).bridge.waitForRspF = true := by
  rcases carries.requests.phase.outstanding_eq with ⟨wait, nothing, _⟩ | ⟨_, shows, _⟩
  · rw [edge] at legal
    have noAnswer : xtnFfRdReq inputs = false := by
      rw [← Bool.not_eq_true]
      intro answer
      obtain ⟨xtn, open', _⟩ := legal.answer answer
      rw [nothing] at open'
      cases open'
    refine ⟨t + 1, Nat.le_succ t, ?_⟩
    rw [systemAt_succ, edge]
    rcases lb_issue wait carries.requests.sound noAnswer with ⟨empty, _⟩ | ⟨_, shows, _⟩
    · rw [known] at empty
      cases empty
    · exact shows.wait
  · exact ⟨t, Nat.le_refl t, shows.wait⟩

theorem reaches_wait (legal : ∀ t, Legal lag (systemAt edges t) (edges t))
    (fair : Fair edges) {t : Nat}
    (known : (systemAt edges t).bridge.xtnFf.rdempty = false) :
    ∃ later, t ≤ later ∧ (systemAt edges later).bridge.waitForRspF = true := by
  have lasts : ∀ k, (systemAt edges k).bridge.xtnFf.rdempty = false →
      (edges k).isLb = false → (systemAt edges (k + 1)).bridge.xtnFf.rdempty = false := by
    intro k known avNow
    obtain ⟨inputs, edge⟩ := Edge.exists_av avNow
    rw [systemAt_succ, edge]
    exact known
  obtain ⟨clock, after, known, lbNow⟩ := lasts_until _ fair.lbClock lasts t known
  obtain ⟨inputs, edge⟩ := Edge.exists_lb lbNow
  obtain ⟨later, afterwards, wait⟩ :=
    lb_sets_wait (run_carries legal clock) (legal clock) edge known
  exact ⟨later, Nat.le_trans after afterwards, wait⟩

theorem answered_grows (legal : ∀ t, Legal lag (systemAt edges t) (edges t))
    (fair : Fair edges) {t : Nat}
    (left : (systemAt edges t).bridge.xtnFf.words ≠ []) :
    ∃ later, t ≤ later ∧ (answered edges t).length < (answered edges later).length := by
  obtain ⟨first, afterStart, known⟩ := fair.known t left
  obtain ⟨busy, afterKnown, wait⟩ := reaches_wait legal fair known
  have due : outstanding (systemAt edges busy) ≠ none := by
    rcases (run_carries legal busy).requests.phase.outstanding_eq with
      ⟨idle, _⟩ | ⟨_, _, due, _⟩
    · rw [wait] at idle
      cases idle
    · rw [due]
      exact Option.some_ne_none _
  obtain ⟨last, inputs, afterBusy, edge, answer⟩ := fair.answers busy due
  have legalThen := legal last
  rw [edge] at legalThen
  obtain ⟨xtn, open', _⟩ := legalThen.answer answer
  refine ⟨last + 1, by omega, ?_⟩
  have before : (answered edges t).length ≤ (answered edges last).length :=
    answered_length_le (by omega)
  have one : (answeredNow (systemAt edges last) (edges last)).length = 1 := by
    rw [edge]
    simp only [answeredNow, answer, open', reduceIte, Option.toList_some, List.map_cons,
      List.map_nil, List.length_singleton]
  rw [answered, collect_succ, List.length_append, one]
  exact Nat.lt_succ_of_le before

theorem delivered_grows (fair : Fair edges) {t : Nat}
    (valid : (systemAt edges t).bridge.avReadDataValidOh = true) :
    ∃ later, t ≤ later ∧ (delivered edges t).length < (delivered edges later).length := by
  have lasts : ∀ k, (systemAt edges k).bridge.avReadDataValidOh = true →
      (edges k).isAv = false →
      (systemAt edges (k + 1)).bridge.avReadDataValidOh = true := by
    intro k valid lbNow
    obtain ⟨inputs, edge⟩ := Edge.exists_lb ((Bool.not_eq_false' _).mp lbNow)
    rw [systemAt_succ, edge]
    exact valid
  obtain ⟨clock, after, valid, avNow⟩ := lasts_until _ fair.avClock lasts t valid
  obtain ⟨inputs, edge⟩ := Edge.exists_av ((Bool.not_eq_true' _).mp avNow)
  have before : (delivered edges t).length ≤ (delivered edges clock).length :=
    delivered_length_le after
  refine ⟨clock + 1, by omega, ?_⟩
  rw [delivered, collect_succ, List.length_append, edge, deliveredNow, valid, strobed_true,
    List.length_singleton]
  exact Nat.lt_succ_of_le before

theorem av_takes_or_ages {t age : Nat} {inputs : AvInputs} (edge : edges t = .av inputs)
    (oldest : (systemAt edges t).monitor.ages.head? = some age) :
    (systemAt edges (t + 1)).bridge.avReadDataValidOh = true ∨
      (systemAt edges (t + 1)).monitor.ages.head? = some (age + 1) := by
  rw [systemAt_succ, edge]
  cases empty : (systemAt edges t).bridge.rspFf.rdempty with
  | false =>
      left
      change (!(systemAt edges t).bridge.rspFf.rdempty) = true
      rw [empty]
      rfl
  | true =>
      right
      change ((if (systemAt edges t).bridge.rspFf.rdempty then _ else _ : List Nat).map
        (· + 1)).head? = _
      rw [empty, if_pos rfl, List.head?_map, oldest]
      rfl

theorem oldest_stays {t age : Nat} {inputs : LbInputs} (edge : edges t = .lb inputs)
    (oldest : (systemAt edges t).monitor.ages.head? = some age) :
    (systemAt edges (t + 1)).monitor.ages.head? = some age := by
  rw [systemAt_succ, edge]
  change ((systemAt edges t).monitor.ages ++ _).head? = _
  rw [List.head?_append, oldest]
  rfl

/-- The oldest response ages until it is taken, and the lag bounds its age. -/
theorem rspFf_taken (legal : ∀ t, Legal lag (systemAt edges t) (edges t))
    (fair : Fair edges) :
    ∀ room t age, (systemAt edges t).monitor.ages.head? = some age → lag + 2 ≤ age + room →
      ∃ later, t ≤ later ∧ (systemAt edges later).bridge.avReadDataValidOh = true := by
  intro room
  induction room with
  | zero =>
      intro t age oldest old
      have bound := (run_carries legal t).returns.bounded age (List.mem_of_mem_head? oldest)
      omega
  | succ room ih =>
      intro t age oldest young
      have lasts : ∀ k, (systemAt edges k).monitor.ages.head? = some age →
          (edges k).isAv = false → (systemAt edges (k + 1)).monitor.ages.head? = some age := by
        intro k oldest lbNow
        obtain ⟨inputs, edge⟩ := Edge.exists_lb ((Bool.not_eq_false' _).mp lbNow)
        exact oldest_stays edge oldest
      obtain ⟨clock, after, oldest, avNow⟩ := lasts_until _ fair.avClock lasts t oldest
      obtain ⟨inputs, edge⟩ := Edge.exists_av ((Bool.not_eq_true' _).mp avNow)
      rcases av_takes_or_ages edge oldest with valid | older
      · exact ⟨clock + 1, by omega, valid⟩
      · obtain ⟨later, afterwards, valid⟩ := ih (clock + 1) (age + 1) older (by omega)
        exact ⟨later, by omega, valid⟩

theorem accepted_answered (legal : ∀ t, Legal lag (systemAt edges t) (edges t))
    (fair : Fair edges) (t : Nat) :
    ∃ later, t ≤ later ∧ accepted edges t <+: (answered edges later).map Prod.fst := by
  have grows : ∀ k, (answered edges (t + k)).length < (accepted edges t).length →
      ∃ later, k ≤ later ∧
        (answered edges (t + k)).length < (answered edges (t + later)).length := by
    intro k short
    have left : (systemAt edges (t + k)).bridge.xtnFf.words ≠ [] := by
      intro none'
      have queue := (run_carries legal (t + k)).requests.queue
      rw [none', List.map_nil, List.append_nil] at queue
      have sizes := congrArg List.length queue
      have more : (accepted edges t).length ≤ (accepted edges (t + k)).length :=
        (collect_isPrefix _ t k).length_le
      rw [List.length_map] at sizes
      omega
    obtain ⟨later, after, grown⟩ := answered_grows legal fair left
    obtain ⟨gap, rfl⟩ := Nat.exists_eq_add_of_le after
    rw [Nat.add_assoc] at grown
    exact ⟨k + gap, Nat.le_add_right _ _, grown⟩
  obtain ⟨later, _, enough⟩ := reaches_of_grows
    (fun k => (answered edges (t + k)).length) _ grows 0
  refine ⟨t + later, Nat.le_add_right _ _, ?_⟩
  refine List.prefix_of_prefix_length_le (collect_isPrefix _ t later) ?_ ?_
  · exact ⟨_, (run_carries legal (t + later)).requests.queue.symm⟩
  · rw [List.length_map]
    exact enough

theorem answered_delivered (legal : ∀ t, Legal lag (systemAt edges t) (edges t))
    (fair : Fair edges) (t : Nat) :
    ∃ later, t ≤ later ∧ readData (answered edges t) <+: delivered edges later := by
  have extends' : ∀ k, readData (answered edges t) <+: readData (answered edges (t + k)) := by
    intro k
    obtain ⟨more, same⟩ : answered edges t <+: answered edges (t + k) :=
      collect_isPrefix _ t k
    exact ⟨readData more, by rw [← readData_append, same]⟩
  have grows : ∀ k, (delivered edges (t + k)).length < (readData (answered edges t)).length →
      ∃ later, k ≤ later ∧
        (delivered edges (t + k)).length < (delivered edges (t + later)).length := by
    intro k short
    have returns := (run_carries legal (t + k)).returns
    obtain ⟨shown, afterStart, valid⟩ : ∃ later, t + k ≤ later ∧
        (systemAt edges later).bridge.avReadDataValidOh = true := by
      cases now : (systemAt edges (t + k)).bridge.avReadDataValidOh with
      | true => exact ⟨t + k, Nat.le_refl _, now⟩
      | false =>
          have order := returns.order
          rw [now, strobed_false, List.append_nil] at order
          have more := (extends' k).length_le
          rw [order, List.length_append, ← returns.sizes] at more
          cases ages : (systemAt edges (t + k)).monitor.ages with
          | nil =>
              rw [ages, List.length_nil] at more
              omega
          | cons age rest =>
              exact rspFf_taken legal fair (lag + 2) (t + k) age (by rw [ages]; rfl)
                (Nat.le_add_left _ _)
    obtain ⟨later, after, grown⟩ := delivered_grows fair valid
    have before : (delivered edges (t + k)).length ≤ (delivered edges shown).length :=
      delivered_length_le afterStart
    obtain ⟨gap, rfl⟩ := Nat.exists_eq_add_of_le (Nat.le_trans afterStart after)
    rw [Nat.add_assoc] at grown
    exact ⟨k + gap, Nat.le_add_right _ _, Nat.lt_of_le_of_lt before grown⟩
  obtain ⟨later, _, enough⟩ := reaches_of_grows
    (fun k => (delivered edges (t + k)).length) _ grows 0
  refine ⟨t + later, Nat.le_add_right _ _, ?_⟩
  refine List.prefix_of_prefix_length_le (extends' later) ?_ enough
  rw [(run_carries legal (t + later)).returns.order, List.append_assoc]
  exact List.prefix_append _ _

/-- What holds at every step of a run. -/
structure Transported (edges : Nat → Edge) (t : Nat) : Prop where
  /-- Every pulse carries the next accepted transaction. -/
  issuedInOrder : issued edges t <+: accepted edges t
  answeredInOrder : (answered edges t).map Prod.fst <+: issued edges t
  /-- A new transaction starts only when the last one was answered. -/
  single : pulse (systemAt edges t).bridge ≠ none → (systemAt edges t).monitor.pending = none
  oneKind : ((systemAt edges t).bridge.lbRdEnOh && (systemAt edges t).bridge.lbWrEnOh) = false
  oneClock : pulse (systemAt edges t).bridge ≠ none → (edges t).isLb = true →
    pulse (systemAt edges (t + 1)).bridge = none
  /-- Address and data stay on the bus until the answer. -/
  held : ∀ xtn, outstanding (systemAt edges t) = some xtn →
    (systemAt edges t).bridge.lbAddrOd = xtn.addr ∧
      (systemAt edges t).bridge.lbWrDataOd = xtn.data
  /-- Read data is returned once for each read, in the order of the reads. -/
  returned : delivered edges t <+: readData (answered edges t)
  rspRoom : (systemAt edges t).bridge.rspFf.words.length ≤ ffDepth
  xtnRoom : (systemAt edges t).bridge.xtnFf.words.length ≤ ffDepth

theorem enables_exclusive (edges : Nat → Edge) :
    ∀ t, ((systemAt edges t).bridge.lbRdEnOh && (systemAt edges t).bridge.lbWrEnOh) = false := by
  intro t
  induction t with
  | zero => rfl
  | succ t ih =>
      rw [systemAt_succ]
      cases edges t with
      | av inputs => exact ih
      | lb inputs =>
          simp only [System.step, LbCdcBridge.step, lbEdge]
          cases isRead ((systemAt edges t).bridge.xtnFf.q inputs.xtnUnknown) with
          | true => simp only [Bool.not_true, Bool.and_false]
          | false => simp only [Bool.and_false, Bool.false_and]

theorem carries_transported (prompt : lag + 2 ≤ ffDepth) {t : Nat}
    (carries : Carries lag edges t) : Transported edges t := by
  have phase := carries.requests.phase
  have queue := carries.requests.queue
  refine
    { issuedInOrder := ?_
      answeredInOrder := ?_
      single := ?_
      oneKind := enables_exclusive edges t
      oneClock := ?_
      held := ?_
      returned := ?_
      rspRoom := Nat.le_trans carries.returns.rspFf_length_le prompt
      xtnRoom := carries.requests.room }
  · cases phase with
    | idle _ _ _ sent =>
        rw [sent, queue]
        exact List.prefix_append _ _
    | pulsing _ _ _ _ sent =>
        rw [sent, queue]
        exact List.prefix_append _ _
    | waiting xtn shows _ _ sent =>
        obtain ⟨rest, head⟩ := shows.head
        refine ⟨rest.map viewXtn, ?_⟩
        rw [sent, queue, head, List.map_cons, List.append_assoc, List.singleton_append]
  · cases phase with
    | idle _ _ _ sent => exact sent ▸ List.prefix_refl _
    | pulsing _ _ _ _ sent => exact sent ▸ List.prefix_refl _
    | waiting _ _ _ _ sent => exact sent ▸ List.prefix_append _ _
  · cases phase with
    | idle _ _ pending _ => exact fun _ => pending
    | pulsing _ _ _ pending _ => exact fun _ => pending
    | waiting _ _ quiet _ _ => exact fun pulses => absurd quiet pulses
  · intro pulses lbNow
    obtain ⟨inputs, edge⟩ := Edge.exists_lb lbNow
    rw [systemAt_succ, edge]
    rcases phase.outstanding_eq with ⟨_, _, quiet, _⟩ | ⟨_, shows, _⟩
    · exact absurd quiet pulses
    · exact lb_quiet shows.wait inputs
  · intro xtn open'
    rcases phase.outstanding_eq with ⟨_, nothing, _⟩ | ⟨word, shows, due, _⟩
    · rw [nothing] at open'
      cases open'
    · rw [due, Option.some.injEq] at open'
      rw [← open']
      exact ⟨shows.addr, shows.data⟩
  · rw [carries.returns.order, List.append_assoc]
    exact List.prefix_append _ _

/-- The bridge issues the accepted transactions once each and in order, one at a
time, and returns the data of every read.  The response FIFO does not overflow as
long as its empty flag lags by at most 126 Avalon edges. -/
theorem bridge_transports (edges : Nat → Edge) (lag : Nat) (prompt : lag + 2 ≤ ffDepth)
    (legal : ∀ t, Legal lag (systemAt edges t) (edges t)) :
    (∀ t, Transported edges t) ∧
      (Fair edges → ∀ t,
        (∃ later, t ≤ later ∧ accepted edges t <+: (answered edges later).map Prod.fst) ∧
          ∃ later, t ≤ later ∧ readData (answered edges t) <+: delivered edges later) := by
  refine ⟨fun t => carries_transported prompt (run_carries legal t), fun fair t => ?_⟩
  exact ⟨accepted_answered legal fair t, answered_delivered legal fair t⟩

end Run

/-! ### A write and a read -/

def idleAv : AvInputs :=
  { avReadIh := false
    avWriteIh := false
    avAddrId := 0
    avWriteDataId := 0
    xtnRelease := 0
    rspLearn := 1
    rspUnknown := 0 }

def idleLb : LbInputs :=
  { lbRdValidId := false
    lbRdDataId := 0
    lbWrValidId := false
    xtnLearn := 1
    xtnUnknown := 0 }

/-- A write to address 8 and a read of address 4 behind it, each answered two local-bus
clocks after its pulse. -/
def writeRead : Nat → Edge
  | 0 => .av { idleAv with avWriteIh := true, avAddrId := 8, avWriteDataId := 5 }
  | 2 => .av { idleAv with avReadIh := true, avAddrId := 4 }
  | 7 => .lb { idleLb with lbWrValidId := true }
  | 13 => .lb { idleLb with lbRdValidId := true, lbRdDataId := 9 }
  | t => if t % 2 = 0 then .av idleAv else .lb idleLb

structure Settled (system : System) : Prop where
  wait : system.bridge.waitForRspF = false
  quiet : pulse system.bridge = none
  xtnFf : system.bridge.xtnFf.words = [] ∧ system.bridge.xtnFf.seen = 0
  rspFf : system.bridge.rspFf.words = [] ∧ system.bridge.rspFf.seen = 0
  pending : system.monitor.pending = none
  ages : system.monitor.ages = []

theorem settled_av {system : System} (settled : Settled system) :
    Settled (system.step (.av idleAv)) := by
  obtain ⟨wait, quiet, ⟨xtnWords, xtnSeen⟩, ⟨rspWords, rspSeen⟩, pending, ages⟩ := settled
  constructor <;> simp_all [System.step, LbCdcBridge.step, avEdge, Monitor.step, idleAv,
    xtnFfWrEnC, AsyncFifo.writeEdge, AsyncFifo.readEdge, AsyncFifo.rdempty, pulse]

theorem settled_lb {system : System} (settled : Settled system) :
    Settled (system.step (.lb idleLb)) := by
  obtain ⟨wait, quiet, ⟨xtnWords, xtnSeen⟩, ⟨rspWords, rspSeen⟩, pending, ages⟩ := settled
  constructor <;> simp_all [System.step, LbCdcBridge.step, lbEdge, Monitor.step, idleLb,
    xtnFfRdReq, AsyncFifo.writeEdge, AsyncFifo.readEdge, AsyncFifo.rdempty, pulse, outstanding]

theorem writeRead_later (t : Nat) :
    writeRead (19 + t) = if (19 + t) % 2 = 0 then .av idleAv else .lb idleLb := by
  rw [Nat.add_comm]
  rfl

theorem writeRead_settled : ∀ t, Settled (systemAt writeRead (19 + t)) := by
  intro t
  induction t with
  | zero => exact ⟨rfl, rfl, ⟨rfl, rfl⟩, ⟨rfl, rfl⟩, rfl, rfl⟩
  | succ t ih =>
      rw [← Nat.add_assoc, systemAt_succ, writeRead_later]
      split
      · exact settled_av ih
      · exact settled_lb ih

theorem writeRead_since :
    ∀ t, (systemAt writeRead (19 + t)).monitor.lbSince + (19 + t) % 2 ≤ 1 := by
  intro t
  induction t with
  | zero => decide
  | succ t ih =>
      rw [← Nat.add_assoc, systemAt_succ, writeRead_later]
      split
      · change 0 + _ ≤ 1
        omega
      · change (systemAt writeRead (19 + t)).monitor.lbSince + 1 + _ ≤ 1
        omega

theorem writeRead_legal : ∀ t, Legal 5 (systemAt writeRead t) (writeRead t) := by
  have start : ∀ t < 19, Legal 5 (systemAt writeRead t) (writeRead t) := by decide
  intro t
  by_cases early : t < 19
  · exact start t early
  · obtain ⟨late, rfl⟩ := Nat.exists_eq_add_of_le (Nat.le_of_not_lt early)
    have since := writeRead_since late
    rw [writeRead_later]
    split
    · have ages := (settled_av (writeRead_settled late)).ages
      intro age inside
      rw [ages, List.drop_nil] at inside
      cases inside
    · exact ⟨by omega, (fun read => nomatch read), (fun write => nomatch write)⟩

theorem writeRead_fair : Fair writeRead := by
  have kind : ∀ t, (writeRead (19 + t)).isLb = decide ((19 + t) % 2 = 1) := by
    intro t
    rw [writeRead_later]
    split <;> simp [Edge.isLb] <;> omega
  have early : ∀ {t}, (systemAt writeRead t).bridge.xtnFf.words ≠ [] ∨
      outstanding (systemAt writeRead t) ≠ none → t ≤ 13 := by
    intro t busy
    have start : ∀ t < 19, (systemAt writeRead t).bridge.xtnFf.words ≠ [] ∨
        outstanding (systemAt writeRead t) ≠ none → t ≤ 13 := by decide
    by_cases soon : t < 19
    · exact start t soon busy
    · obtain ⟨late, rfl⟩ := Nat.exists_eq_add_of_le (Nat.le_of_not_lt soon)
      have settled := writeRead_settled late
      rcases busy with words | due
      · exact absurd settled.xtnFf.1 words
      · rw [outstanding, settled.quiet, settled.pending] at due
        exact absurd rfl due
  refine
    { avClock := fun t => ⟨19 + (2 * t + 1), by omega, ?_⟩
      lbClock := fun t => ⟨19 + 2 * t, by omega, ?_⟩
      known := fun t left => ⟨13, early (.inl left), by decide⟩
      answers := fun t due => ⟨13, _, early (.inr due), rfl, rfl⟩ }
  · rw [Edge.isAv, kind]
    simp only [Bool.not_eq_true', decide_eq_false_iff_not]
    omega
  · rw [kind]
    simp only [decide_eq_true_eq]
    omega

theorem bridge_transports_writeRead :
    (∀ t, Transported writeRead t) ∧
      (∃ later, 19 ≤ later ∧
        accepted writeRead 19 <+: (answered writeRead later).map Prod.fst) ∧
      (∃ later, 19 ≤ later ∧ readData (answered writeRead 19) <+: delivered writeRead later) ∧
      issued writeRead 19 =
        [{ read := false, addr := 2, data := 5 }, { read := true, addr := 1, data := 0 }] ∧
      delivered writeRead 19 = [9] := by
  obtain ⟨transported, progress⟩ := bridge_transports writeRead 5 (by decide) writeRead_legal
  obtain ⟨answers, returns⟩ := progress writeRead_fair 19
  exact ⟨transported, answers, returns, by decide, by decide⟩

end Synesthesia.LbCdcBridge
