/-
A host that reads the FFT result memories through `fft_cache_mm_sl`.

The host keeps the address of a read until its answer, so no two reads overlap.  The
engines write the memories in a clock of their own; what the read ports return at an edge
of the bus clock is an input here.
-/

import Synesthesia.Avalon.FftCacheMmSl
import Synesthesia.Ledos.Sunshine

namespace Synesthesia.FftCacheMmSl

open Synesthesia.Rtl
open Synesthesia.Prog
open Synesthesia.Sunshine (BusProgram32)

/-- What the surroundings do in a clock of the bus: the pace of the host, and the words
that the read ports of both memories return. -/
structure Clock where
  host : HostClock (BitVec 32) (BitVec 32)
  lchnl : BitVec 7 → BitVec 32
  rchnl : BitVec 7 → BitVec 32

structure Reader (α : Type) where
  slave : State
  host : Host (BitVec 32) (BitVec 32) α

/-- The interconnect passes the address of a word. -/
def mmAddr (addr : BitVec 32) : BitVec 10 := addr.extractLsb' 2 10

def Clock.word (now : Clock) (addr : BitVec 32) : BitVec 32 :=
  if (mmAddr addr).getLsbD 9 then now.lchnl ((mmAddr addr).extractLsb' 2 7)
  else now.rchnl ((mmAddr addr).extractLsb' 2 7)

def State.withWords (slave : State) (lchnl rchnl : BitVec 7 → BitVec 32) : State :=
  { slave with
    fftResRamLchnl := { slave.fftResRamLchnl with memory := lchnl }
    fftResRamRchnl := { slave.fftResRamRchnl with memory := rchnl } }

def reply (slave : State) : BusReply (BitVec 32) :=
  { rdValid := slave.avReadDataValidOh
    wrValid := false
    rdData := slave.avReadDataOd }

namespace Reader

variable {α : Type}

def slaveInputs (reader : Reader α) (now : Clock) : Inputs :=
  { avReadIh := reader.host.busRdEn (reply reader.slave) now.host
    avAddrId := mmAddr (reader.host.busAddr (reply reader.slave) now.host) }

def step (reader : Reader α) (now : Clock) : Reader α :=
  { slave := FftCacheMmSl.step (reader.slave.withWords now.lchnl now.rchnl) (reader.slaveInputs now)
    host := reader.host.step (reply reader.slave) now.host }

end Reader

/-! ### The slave during a read -/

section Slave

variable {slave : State} {left : Bool} {word : BitVec 32} {lchnl rchnl : BitVec 7 → BitVec 32}
  {inputs : Inputs}

/-- One clock after a read of the given half. -/
structure Asked (left : Bool) (word : BitVec 32) (slave : State) : Prop where
  pst : slave.pstVecF = 1
  silent : slave.avReadDataValidOh = false
  half : slave.fftResLNRSelF.getLsbD 0 = left
  latch : (if left then slave.fftResRamLchnl.latch else slave.fftResRamRchnl.latch) = word

/-- Two clocks after it. -/
structure Fetched (left : Bool) (word : BitVec 32) (slave : State) : Prop where
  pst : slave.pstVecF = 2
  silent : slave.avReadDataValidOh = false
  sides : slave.fftResLNRSelF ≠ 0 ↔ left = true
  q : (if left then slave.fftResRamLchnl.q else slave.fftResRamRchnl.q) = word

theorem asked_of_read (empty : slave.pstVecF = 0) (read : inputs.avReadIh = true) :
    Asked (inputs.avAddrId.getLsbD 9)
      (if inputs.avAddrId.getLsbD 9 then lchnl (fftResRamRdAddrOd inputs)
        else rchnl (fftResRamRdAddrOd inputs))
      (step (slave.withWords lchnl rchnl) inputs) := by
  refine
    { pst := ?_
      silent := ?_
      half := delay_getLsbD_zero _ _
      latch := ?_ }
  · change delay slave.pstVecF inputs.avReadIh = 1
    rw [empty, read]
    rfl
  · change slave.pstVecF.getLsbD 1 = false
    rw [empty]
    rfl
  · simp only [step, DualPortRam.step, readPorts, State.withWords, Bool.false_eq_true, false_and,
      reduceIte]

theorem Asked.fetched (asked : Asked left word slave) (quiet : inputs.avReadIh = false)
    (held : inputs.avAddrId.getLsbD 9 = left) :
    Fetched left word (step (slave.withWords lchnl rchnl) inputs) := by
  refine
    { pst := ?_
      silent := ?_
      sides := ?_
      q := asked.latch }
  · change delay slave.pstVecF inputs.avReadIh = 2
    rw [asked.pst, quiet]
    rfl
  · change slave.pstVecF.getLsbD 1 = false
    rw [asked.pst]
    rfl
  · change delay slave.fftResLNRSelF (inputs.avAddrId.getLsbD 9) ≠ 0 ↔ _
    rw [delay_ne_zero, asked.half, held, or_self]

theorem Fetched.answered (fetched : Fetched left word slave) (quiet : inputs.avReadIh = false) :
    let next := step (slave.withWords lchnl rchnl) inputs
    next.avReadDataValidOh = true ∧ next.avReadDataOd = word ∧ next.pstVecF = 0 := by
  refine ⟨?_, ?_, ?_⟩
  · change slave.pstVecF.getLsbD 1 = true
    rw [fetched.pst]
    rfl
  · have pending : slave.pstVecF ≠ 0 := by
      rw [fetched.pst]
      decide
    change (if slave.pstVecF ≠ 0 then
      if slave.fftResLNRSelF ≠ 0 then slave.fftResRamLchnl.q else slave.fftResRamRchnl.q
      else slave.avReadDataOd) = word
    rw [if_pos pending, ← fetched.q]
    exact if_congr fetched.sides rfl rfl
  · change delay slave.pstVecF inputs.avReadIh = 0
    rw [fetched.pst, quiet]
    rfl

end Slave

/-! ### The host during a read -/

section Reads

variable {α : Type} {reader : Reader α} {program : BusProgram32 α}

/-- No read is under way, and the program is what is left to do. -/
structure Ready (program : BusProgram32 α) (reader : Reader α) : Prop where
  free : reader.host.free (reply reader.slave) = true
  left : reader.host.resumed (reply reader.slave) = program
  empty : reader.slave.pstVecF = 0

theorem Ready.start {slave : State} (empty : slave.pstVecF = 0) (program : BusProgram32 α) :
    Ready program { slave := slave, host := { program := program, waiting := false } } :=
  { free := rfl
    left := rfl
    empty := empty }

theorem Ready.wait (ready : Ready program reader) {now : Clock}
    (idle : reader.host.issue (reply reader.slave) now.host = none) :
    Ready program (reader.step now) := by
  have host : (reader.step now).host = { program := program, waiting := false } := by
    change reader.host.step _ _ = _
    rw [Host.step, ready.left, idle, ready.free]
    rfl
  have noRead := (Host.bus_of_no_issue idle).2
  refine
    { free := ?_
      left := ?_
      empty := ?_ }
  · rw [host]
    rfl
  · rw [host]
    rfl
  · change delay reader.slave.pstVecF (reader.host.busRdEn _ _) = 0
    rw [ready.empty, noRead]
    rfl

structure Waits (addr : BitVec 32) (next : BitVec 32 → BusProgram32 α) (reader : Reader α) :
    Prop where
  host : reader.host = { program := .ask (Access.read addr) next, waiting := true }
  silent : reader.slave.avReadDataValidOh = false

section Waits

variable {addr : BitVec 32} {next : BitVec 32 → BusProgram32 α}
  (waits : Waits addr next reader) (now : Clock)

include waits

theorem Waits.busy : reader.host.free (reply reader.slave) = false := by
  unfold Host.free Host.served reply
  rw [waits.host, waits.silent]
  rfl

theorem Waits.quiet : (reader.slaveInputs now).avReadIh = false :=
  (Host.bus_of_no_issue (Host.issue_of_not_free waits.busy)).2

theorem Waits.held : (reader.slaveInputs now).avAddrId = mmAddr addr := by
  have head : reader.host.program.head = some (Access.read addr) := by
    rw [waits.host]
    rfl
  exact congrArg mmAddr (Host.busAddr_of_not_free waits.busy head)

theorem Waits.host_step :
    (reader.step now).host = { program := .ask (Access.read addr) next, waiting := true } :=
  (Host.step_of_not_free waits.busy).trans waits.host

end Waits

theorem Ready.read {addr : BitVec 32} {next : BitVec 32 → BusProgram32 α}
    (ready : Ready (.ask (Access.read addr) next) reader) {now : Clock} (go : now.host.go = true)
    (second third : Clock) :
    Ready (next (now.word addr)) (((reader.step now).step second).step third) := by
  have issued : reader.host.issue (reply reader.slave) now.host = some (Access.read addr) := by
    rw [Host.issue_some_iff, ready.left]
    exact ⟨go, ready.free, rfl⟩
  obtain ⟨onBus, -, enabled, -⟩ := Host.bus_of_issue issued
  have place : (reader.slaveInputs now).avAddrId = mmAddr addr := congrArg mmAddr onBus
  have asked : Asked ((mmAddr addr).getLsbD 9) (now.word addr) (reader.step now).slave := by
    have taken : Asked _ _
        (step (reader.slave.withWords now.lchnl now.rchnl) (reader.slaveInputs now)) :=
      asked_of_read ready.empty enabled
    rw [fftResRamRdAddrOd, place] at taken
    exact taken
  have waits : Waits addr next (reader.step now) := by
    refine
      { host := ?_
        silent := asked.silent }
    change reader.host.step _ _ = _
    rw [Host.step, ready.left, issued]
    rfl
  have fetched : Fetched ((mmAddr addr).getLsbD 9) (now.word addr)
      ((reader.step now).step second).slave :=
    asked.fetched (waits.quiet second) (by rw [waits.held])
  have waits' : Waits addr next ((reader.step now).step second) :=
    { host := waits.host_step second
      silent := fetched.silent }
  obtain ⟨valid, data, empty⟩ :
      (((reader.step now).step second).step third).slave.avReadDataValidOh = true ∧
        (((reader.step now).step second).step third).slave.avReadDataOd = now.word addr ∧
        (((reader.step now).step second).step third).slave.pstVecF = 0 :=
    fetched.answered (waits'.quiet third)
  have host := waits'.host_step third
  refine
    { free := ?_
      left := ?_
      empty := empty }
  · unfold Host.free Host.served reply
    rw [host, valid]
    rfl
  · unfold Host.resumed Host.served reply
    rw [host, valid, data]
    rfl

/-! ### Runs -/

def readerAt (start : Reader α) (env : Nat → Clock) : Nat → Reader α := run Reader.step start env

variable {start : Reader α} {env : Nat → Clock}

theorem done_stays {t : Nat} {value : α} (ready : Ready (.done value) (readerAt start env t)) :
    ∀ n, Ready (.done value) (readerAt start env (t + n)) := by
  intro n
  induction n with
  | zero => exact ready
  | succ n ih =>
      refine ih.wait ?_
      unfold Host.issue
      rw [ih.left]
      exact ite_self _

theorem Ready.read_by {addr : BitVec 32} {next : BitVec 32 → BusProgram32 α} {wait : Nat} :
    ∀ {t : Nat}, Ready (.ask (Access.read addr) next) (readerAt start env t) →
      (env (t + wait)).host.go = true →
      ∃ less ≤ wait, Ready (next ((env (t + less)).word addr))
        (readerAt start env (t + less + 3)) := by
  induction wait with
  | zero => exact fun ready go => ⟨0, Nat.le_refl _, ready.read go _ _⟩
  | succ wait ih =>
      intro t ready go
      by_cases now : (env t).host.go = true
      · exact ⟨0, Nat.zero_le _, ready.read now _ _⟩
      · have idle : (readerAt start env t).host.issue (reply (readerAt start env t).slave)
            (env t).host = none := by
          unfold Host.issue
          rw [Bool.eq_false_iff.mpr now]
          rfl
        rw [← Nat.add_assoc, Nat.add_right_comm] at go
        obtain ⟨less, bound, served⟩ := ih (t := t + 1) (ready.wait idle) go
        refine ⟨less + 1, Nat.succ_le_succ bound, ?_⟩
        rw [← Nat.add_assoc, Nat.add_right_comm t]
        exact served

/-- The host gets to its next access in time. -/
def Prompt (patience : Nat) (env : Nat → Clock) : Prop :=
  ∀ t, ∃ wait ≤ patience, (env (t + wait)).host.go = true

/-- Over memories that keep their words, a program of reads is done in time and gets the
words of its addresses. -/
theorem reads_done {patience last n : Nat} {word : BitVec 32 → BitVec 32} {after : α → Prop}
    {program : BusProgram32 α} (prompt : Prompt patience env)
    (words : ∀ t < last, ∀ addr, (env t).word addr = word addr)
    (few : program.AtMost n)
    (ensured : program.Ensures (Sunshine.Fixed word) Sunshine.OnlyReads after)
    (ready : Ready program start) (inside : n * (patience + 3) ≤ last) :
    ∃ value, after value ∧ ∀ t, n * (patience + 3) < t →
      (readerAt start env t).host.program = .done value := by
  have serves : ∀ t request next, Ready (.ask request next) (readerAt start env t) →
      t + (patience + 3) ≤ last → Sunshine.OnlyReads request →
      ∃ later answer, later ≤ t + (patience + 3) ∧ Sunshine.Fixed word request answer ∧
        Ready (next answer) (readerAt start env later) := by
    intro t request next ready early allowed
    cases request with
    | write addr data => cases allowed
    | read addr =>
        obtain ⟨wait, short, go⟩ := prompt t
        obtain ⟨less, bound, served⟩ := Ready.read_by ready go
        exact ⟨t + less + 3, _, by omega, words _ (by omega) addr, served⟩
  obtain ⟨later, value, soon, reached, finished⟩ :=
    @Requests.finishes _ _ _ _ _ _ (fun t program => Ready program (readerAt start env t)) _ _
      serves n 0 program few ensured ready (by omega)
  refine ⟨value, reached, fun t after => ?_⟩
  obtain ⟨gap, rfl⟩ := Nat.exists_eq_add_of_lt (show later < t by omega)
  exact (done_stays finished gap).left

end Reads

end Synesthesia.FftCacheMmSl
