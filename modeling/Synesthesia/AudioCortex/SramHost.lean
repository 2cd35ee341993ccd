/-
Host accesses to the SRAM: `sram_read16` and `sram_write16` run against `sram_lb`
while words are streamed and parsed.

What a program may rely on is kept as a view: the address and data registers, and
one word of the memory that nobody else writes.  Unknown parts are `none`.
-/

import Synesthesia.AudioCortex.SramPort
import Synesthesia.Prog.BusHost

namespace Synesthesia.SramHost

open Synesthesia.Rtl
open Synesthesia.Prog
open Synesthesia.AcortexRegMap

abbrev Program (α : Type) : Type := BusProgram (BitVec 8) (BitVec 16) α

abbrev SramAccess : Type := Access (BitVec 8) (BitVec 16)

/-! ### sram.c -/

def iowr (addr : BitVec 8) (data : BitVec 32) : Program Unit :=
  Requests.call (Access.write addr (data.setWidth 16))

def iord (addr : BitVec 8) : Program (BitVec 16) := Requests.call (Access.read addr)

def sramMmRdEnMsk : BitVec 32 := 1
def sramMmWrEnMsk : BitVec 32 := 2
def sramAddrHMsk : BitVec 32 := 0x3
def sramAddrLMsk : BitVec 32 := 0xffff

def sramRead16 (addr : BitVec 32) : Program (BitVec 16) := do
  iowr sramAccAddrHRegAddr ((addr >>> 16) &&& sramAddrHMsk)
  iowr sramAccAddrLRegAddr (addr &&& sramAddrLMsk)
  iowr sramAccCtrlRegAddr sramMmRdEnMsk
  iord sramAccDataRegAddr

def sramWrite16 (addr : BitVec 32) (data : BitVec 16) : Program Unit := do
  iowr sramAccAddrHRegAddr ((addr >>> 16) &&& sramAddrHMsk)
  iowr sramAccAddrLRegAddr (addr &&& sramAddrLMsk)
  iowr sramAccDataRegAddr (data.setWidth 32)
  iowr sramAccCtrlRegAddr sramMmWrEnMsk

/-! ### The closed loop -/

structure State (α : Type) where
  host : Host (BitVec 8) (BitVec 16) α
  port : SramPort.State

/-- What the surroundings decide in a clock: the pace of the host, and the streamed
words. -/
structure Clock where
  host : HostClock (BitVec 8) (BitVec 16)
  lbStDataId : BitVec 16
  lbStValidIh : Bool
  imRdReqIh : Bool

variable {α : Type}

def reply (port : SramPort.State) : BusReply (BitVec 16) :=
  { rdValid := port.lb.lbRdValidOd
    wrValid := port.lb.lbWrValidOd
    rdData := port.lb.lbRdDataOd }

def portInputs (state : State α) (clock : Clock) : SramPort.Inputs :=
  { lbRdEnIh := state.host.busRdEn (reply state.port) clock.host
    lbWrEnIh := state.host.busWrEn (reply state.port) clock.host
    lbAddrId := state.host.busAddr (reply state.port) clock.host
    lbWrDataId := state.host.busWrData (reply state.port) clock.host
    lbStDataId := clock.lbStDataId
    lbStValidIh := clock.lbStValidIh
    imRdReqIh := clock.imRdReqIh }

def step (state : State α) (clock : Clock) : State α :=
  { host := state.host.step (reply state.port) clock.host
    port := SramPort.step state.port (portInputs state clock) }

/-! ### Views -/

/-- What the host knows about its registers and about the word at one address. -/
structure View where
  addr : BitVec 18
  data : Option (BitVec 16)
  cell : Option (BitVec 16)

def View.afterCtrl (probe : BitVec 18) (view : View) (data : BitVec 16) : View :=
  if data.getLsbD 1 then
    { view with cell := if view.addr = probe then view.data else view.cell }
  else { view with data := if view.addr = probe then view.cell else none }

def View.afterRegister (view : View) (addr : BitVec 8) (data : BitVec 16) : View :=
  { addr :=
      (if addr = sramAccAddrHRegAddr then data.extractLsb' 0 2
        else view.addr.extractLsb' 16 2) ++
      (if addr = sramAccAddrLRegAddr then data else view.addr.extractLsb' 0 16)
    data := if addr = sramAccDataRegAddr then some data else view.data
    cell := view.cell }

/-- The effect of an access on the view, once it is answered. -/
def View.after (probe : BitVec 18) (view : View) : SramAccess → View
  | .read _ => view
  | .write addr data =>
      if addr = sramAccCtrlRegAddr then view.afterCtrl probe data
      else view.afterRegister addr data

def View.answers (view : View) : (access : SramAccess) → access.Answer → Prop
  | .write _ _, _ => True
  | .read addr, answer =>
      addr = sramAccDataRegAddr → ∀ data, view.data = some data → answer = data

def Allowed : SramAccess → Prop
  | .read _ => True
  | .write addr data => addr = sramAccCtrlRegAddr → data.getLsbD 0 = !data.getLsbD 1

/-- The view describes the port. -/
structure Holds (probe : BitVec 18) (port : SramPort.State) (view : View) : Prop where
  addr : port.lb.sramMmAddrOd = view.addr
  data : ∀ word, view.data = some word → port.lb.sramDataF = word
  cell : ∀ word, view.cell = some word → SramPath.scheduled port.path probe = word

def View.unknown (addr : BitVec 18) : View :=
  { addr := addr
    data := none
    cell := none }

theorem holds_unknown (probe : BitVec 18) (port : SramPort.State) :
    Holds probe port (View.unknown port.lb.sramMmAddrOd) :=
  { addr := rfl
    data := fun _ known => by cases known
    cell := fun _ known => by cases known }

/-- No streamed word goes to the address in this clock. -/
def Spares (probe : BitVec 18) (port : SramPort.State) (inputs : SramPort.Inputs) : Prop :=
  SramPath.stAccept port.path (SramPort.pathInputs port inputs) = true →
    SramFfCntrlr.sramWrAddrOd port.path.ff ≠ probe

structure Pulses (inputs : SramPort.Inputs) (access : SramAccess) : Prop where
  addr : inputs.lbAddrId = access.addr
  write : inputs.lbWrEnIh = access.isWrite
  read : inputs.lbRdEnIh = !access.isWrite
  data : ∀ addr data, access = .write addr data → inputs.lbWrDataId = data

def Silent (inputs : SramPort.Inputs) : Prop :=
  inputs.lbWrEnIh = false ∧ inputs.lbRdEnIh = false

section Edges

variable {probe : BitVec 18} {port : SramPort.State} {inputs : SramPort.Inputs} {view : View}
  {clock : Nat}

/-- The word at the spared address changes only by a granted host write. -/
theorem cell_step (wired : SramPath.Wired port.path) (spares : Spares probe port inputs) :
    SramPath.scheduled (SramPort.step port inputs).path probe =
      store (SramPath.scheduled port.path) (SramPort.grant port && port.lb.sramMmWrEnOh)
        port.lb.sramMmAddrOd port.lb.sramDataF probe := by
  rw [SramPort.scheduled_next wired]
  have stream : store (SramPath.scheduled port.path)
      (SramPath.stAccept port.path (SramPort.pathInputs port inputs))
      (SramFfCntrlr.sramWrAddrOd port.path.ff) inputs.lbStDataId probe =
        SramPath.scheduled port.path probe := by
    cases accept : SramPath.stAccept port.path (SramPort.pathInputs port inputs) with
    | false => rw [store_false]
    | true => exact store_other _ _ _ (spares accept).symm
  unfold store at stream ⊢
  rw [stream]

theorem free_marks (at' : SramPort.At port clock .free) :
    port.lb.sramMmWrEnOh = false ∧ port.lb.sramMmRdEnOh = false ∧
      port.path.arb.lbMmRdValidOd = false :=
  ⟨congrArg SramPort.Marks.wrEn at'.marks, congrArg SramPort.Marks.rdEn at'.marks,
    congrArg SramPort.Marks.rdValid at'.marks⟩

theorem free_silent (at' : SramPort.At port clock .free) (silent : Silent inputs) :
    (SramPort.step port inputs).lb.lbWrValidOd = false ∧
      (SramPort.step port inputs).lb.lbRdValidOd = false := by
  refine ⟨?_, silent.2⟩
  rw [SramPort.lbWrValid_step at'.marks, silent.1]
  exact ite_self false

theorem accCtrl_silent (silent : Silent inputs) (bit : Nat) :
    SramPort.accCtrl inputs bit = false := by
  unfold SramPort.accCtrl
  rw [silent.1, Bool.and_false, Bool.false_and]

theorem free_step (at' : SramPort.At port clock .free) (ctrlRd : SramPort.accCtrl inputs 0 = false)
    (ctrlWr : SramPort.accCtrl inputs 1 = false) :
    SramPort.At (SramPort.step port inputs) (clock + 1) .free := by
  have fits : SramPort.Fits .free inputs :=
    ⟨fun asked => absurd (ctrlRd.symm.trans asked) Bool.false_ne_true, fun _ => rfl⟩
  have next := at'.step fits
  rw [ctrlRd, ctrlWr] at next
  exact next

theorem holds_quiet (at' : SramPort.At port clock .free) (holds : Holds probe port view)
    (quiet : inputs.lbWrEnIh = false) (spares : Spares probe port inputs) :
    Holds probe (SramPort.step port inputs) view := by
  obtain ⟨noWrite, -, noValid⟩ := free_marks at'
  have none : inputs.lbWrEnIh = true → False := fun pulse =>
    absurd (quiet.symm.trans pulse) Bool.false_ne_true
  refine
    { addr := ?_
      data := ?_
      cell := ?_ }
  · rw [SramPort.sramMmAddr_step fun pulse => (none pulse).elim]
    exact holds.addr
  · rw [SramPort.sramData_step _ fun pulse => (none pulse).elim, noValid]
    exact holds.data
  · rw [cell_step at'.sound.wired spares, noWrite, Bool.and_false, store_false]
    exact holds.cell

theorem holds_write {addr : BitVec 8} {data : BitVec 16} (at' : SramPort.At port clock .free)
    (holds : Holds probe port view) (pulses : Pulses inputs (.write addr data))
    (spares : Spares probe port inputs) :
    Holds probe (SramPort.step port inputs) (view.afterRegister addr data) := by
  obtain ⟨noWrite, -, noValid⟩ := free_marks at'
  have onBus : inputs.lbAddrId = addr := pulses.addr
  have write : inputs.lbWrEnIh = true := pulses.write
  have word : inputs.lbWrDataId = data := pulses.data addr data rfl
  refine
    { addr := ?_
      data := ?_
      cell := ?_ }
  · change SramLb.nextSramMmAddr port.lb (SramPort.lbInputs port inputs) = _
    unfold SramLb.nextSramMmAddr View.afterRegister
    simp only [SramPort.lbInputs, onBus, write, word, holds.addr, if_true]
  · intro known same
    change SramLb.nextSramData port.lb (SramPort.lbInputs port inputs) = _
    unfold SramLb.nextSramData
    unfold View.afterRegister at same
    simp only [SramPort.lbInputs, onBus, write, word, noValid, Bool.true_and, beq_iff_eq,
      Bool.false_eq_true, if_false]
    by_cases dataReg : addr = sramAccDataRegAddr
    · rw [if_pos dataReg]
      rw [if_pos dataReg] at same
      exact Option.some.inj same
    · rw [if_neg dataReg]
      rw [if_neg dataReg] at same
      exact holds.data known same
  · rw [cell_step at'.sound.wired spares, noWrite, Bool.and_false, store_false]
    exact holds.cell

/-! ### An access under way -/

/-- Whether the word of the register is still the one from before the access. -/
def Stage.waits : SramPort.Stage → Bool
  | .writing => true
  | .reading => true
  | _ => false

/-- A control write that is not answered yet. -/
structure UnderWay (probe : BitVec 18) (port : SramPort.State) (clock : Nat) (view : View)
    (data : BitVec 16) (stage : SramPort.Stage) : Prop where
  at' : SramPort.At port clock stage
  busy : stage ≠ .free
  kind : data.getLsbD 1 = decide (stage = .writing)
  addr : port.lb.sramMmAddrOd = view.addr
  word : ∀ word, (if Stage.waits stage then view else view.afterCtrl probe data).data = some word →
    SramPort.word port stage = word
  cell : ∀ word, view.cell = some word → SramPath.scheduled port.path probe = word

theorem underWay_start {data : BitVec 16} (at' : SramPort.At port clock .free)
    (holds : Holds probe port view) (pulses : Pulses inputs (.write sramAccCtrlRegAddr data))
    (allowed : data.getLsbD 0 = !data.getLsbD 1) (spares : Spares probe port inputs) :
    UnderWay probe (SramPort.step port inputs) (clock + 1) view data
      (if data.getLsbD 1 then .writing else .reading) := by
  obtain ⟨noWrite, -, noValid⟩ := free_marks at'
  have onBus : inputs.lbAddrId = sramAccCtrlRegAddr := pulses.addr
  have write : inputs.lbWrEnIh = true := pulses.write
  have word : inputs.lbWrDataId = data := pulses.data _ data rfl
  have asked : ∀ bit, SramPort.accCtrl inputs bit = data.getLsbD bit := by
    intro bit
    unfold SramPort.accCtrl
    rw [onBus, write, word]
    rfl
  have fits : SramPort.Fits .free inputs := by
    refine ⟨fun read => ⟨rfl, ?_⟩, fun _ => rfl⟩
    rw [asked] at read ⊢
    rw [allowed, Bool.not_eq_true'] at read
    exact read
  have next := at'.step fits
  have addrKept : (SramPort.step port inputs).lb.sramMmAddrOd = view.addr := by
    rw [SramPort.sramMmAddr_step fun _ => ?_]
    · exact holds.addr
    · rw [onBus]
      decide
  have dataKept : (SramPort.step port inputs).lb.sramDataF = port.lb.sramDataF := by
    rw [SramPort.sramData_step _ fun _ => ?_, noValid]
    · rfl
    · rw [onBus]
      decide
  have cellKept : SramPath.scheduled (SramPort.step port inputs).path probe =
      SramPath.scheduled port.path probe := by
    rw [cell_step at'.sound.wired spares, noWrite, Bool.and_false, store_false]
  rw [asked, asked, allowed] at next
  cases direction : data.getLsbD 1 with
  | true =>
      rw [direction] at next
      exact
        { at' := next
          busy := by decide
          kind := direction
          addr := addrKept
          word := fun known same => dataKept.trans (holds.data known same)
          cell := fun known same => cellKept.trans (holds.cell known same) }
  | false =>
      rw [direction] at next
      exact
        { at' := next
          busy := by decide
          kind := direction
          addr := addrKept
          word := fun known same => dataKept.trans (holds.data known same)
          cell := fun known same => cellKept.trans (holds.cell known same) }

section Waiting

variable {data : BitVec 16} {stage : SramPort.Stage}

theorem underWay_fits (silent : Silent inputs) : SramPort.Fits stage inputs :=
  ⟨fun asked => absurd ((accCtrl_silent silent 0).symm.trans asked) Bool.false_ne_true,
    fun asked => absurd ((accCtrl_silent silent 1).symm.trans asked) Bool.false_ne_true⟩

theorem UnderWay.at_step (underWay : UnderWay probe port clock view data stage)
    (silent : Silent inputs) :
    SramPort.At (SramPort.step port inputs) (clock + 1)
      (stage.next (SramPort.grant port) false false) := by
  have next := underWay.at'.step (underWay_fits silent)
  rw [accCtrl_silent silent, accCtrl_silent silent] at next
  exact next

theorem UnderWay.addr_step (underWay : UnderWay probe port clock view data stage)
    (silent : Silent inputs) :
    (SramPort.step port inputs).lb.sramMmAddrOd = view.addr := by
  rw [SramPort.sramMmAddr_step fun pulse =>
    absurd (silent.1.symm.trans pulse) Bool.false_ne_true]
  exact underWay.addr

theorem sramData_silent (port : SramPort.State) (silent : Silent inputs) :
    (SramPort.step port inputs).lb.sramDataF =
      if port.path.arb.lbMmRdValidOd then SramPath.sramRdDataId port.path
      else port.lb.sramDataF :=
  SramPort.sramData_step _ fun pulse => absurd (silent.1.symm.trans pulse) Bool.false_ne_true

theorem UnderWay.cell_step (underWay : UnderWay probe port clock view data stage)
    (spares : Spares probe port inputs)
    (noWrite : (SramPort.grant port && port.lb.sramMmWrEnOh) = false) :
    ∀ word, view.cell = some word →
      SramPath.scheduled (SramPort.step port inputs).path probe = word := by
  intro word known
  rw [SramHost.cell_step underWay.at'.sound.wired spares, noWrite, store_false]
  exact underWay.cell word known

theorem UnderWay.rdValid_eq (underWay : UnderWay probe port clock view data stage) :
    port.path.arb.lbMmRdValidOd = stage.marks.rdValid :=
  congrArg SramPort.Marks.rdValid underWay.at'.marks

theorem UnderWay.wrEn_eq (underWay : UnderWay probe port clock view data stage) :
    port.lb.sramMmWrEnOh = stage.marks.wrEn :=
  congrArg SramPort.Marks.wrEn underWay.at'.marks

theorem UnderWay.lbWrValid_step (underWay : UnderWay probe port clock view data stage)
    (onBus : inputs.lbAddrId = sramAccCtrlRegAddr) :
    (SramPort.step port inputs).lb.lbWrValidOd = stage.acknowledges (SramPort.grant port) := by
  rw [SramPort.lbWrValid_step underWay.at'.marks, if_pos onBus]

theorem UnderWay.waits_step (underWay : UnderWay probe port clock view data stage)
    (silent : Silent inputs) (spares : Spares probe port inputs)
    (waits : Stage.waits stage = true) (ungranted : SramPort.grant port = false) :
    UnderWay probe (SramPort.step port inputs) (clock + 1) view data stage := by
  have next := underWay.at_step silent
  have same : stage.next (SramPort.grant port) false false = stage := by
    rw [ungranted]
    cases stage <;> first | rfl | cases waits
  have wordKept : SramPort.word (SramPort.step port inputs) stage = SramPort.word port stage := by
    have kept := sramData_silent port silent
    rw [underWay.rdValid_eq] at kept
    cases stage <;> first | exact kept | cases waits
  rw [same] at next
  refine
    { at' := next
      busy := underWay.busy
      kind := underWay.kind
      addr := underWay.addr_step silent
      word := fun word known => wordKept.trans (underWay.word word known)
      cell := underWay.cell_step spares (by rw [ungranted, Bool.false_and]) }

theorem UnderWay.granted_step (underWay : UnderWay probe port clock view data .reading)
    (silent : Silent inputs) (spares : Spares probe port inputs)
    (granted : SramPort.grant port = true) :
    UnderWay probe (SramPort.step port inputs) (clock + 1) view data .issued := by
  have next := underWay.at_step silent
  rw [granted] at next
  have noWrite : (SramPort.grant port && port.lb.sramMmWrEnOh) = false := by
    rw [underWay.wrEn_eq]
    exact Bool.and_false _
  refine
    { at' := next
      busy := by decide
      kind := underWay.kind
      addr := underWay.addr_step silent
      word := ?_
      cell := underWay.cell_step spares noWrite }
  intro word known
  have reads : data.getLsbD 1 = false := underWay.kind
  simp only [Stage.waits, View.afterCtrl, reads, Bool.false_eq_true, if_false] at known
  by_cases same : view.addr = probe
  · rw [if_pos same] at known
    rw [SramPort.word_granted inputs underWay.at'.marks granted, underWay.addr, same]
    exact underWay.cell_step spares noWrite word known
  · rw [if_neg same] at known
    cases known

theorem UnderWay.travels_step (underWay : UnderWay probe port clock view data stage)
    (silent : Silent inputs) (spares : Spares probe port inputs)
    (travels : stage = .issued ∨ stage = .driven ∨ stage = .arrived) :
    UnderWay probe (SramPort.step port inputs) (clock + 1) view data
      (stage.next (SramPort.grant port) false false) := by
  have moved := SramPort.word_step underWay.at'.sound.wired inputs underWay.at'.marks travels
    fun pulse => absurd (silent.1.symm.trans pulse) Bool.false_ne_true
  rw [accCtrl_silent silent, accCtrl_silent silent] at moved
  have noWrite : (SramPort.grant port && port.lb.sramMmWrEnOh) = false := by
    rw [underWay.wrEn_eq]
    rcases travels with rfl | rfl | rfl <;> exact Bool.and_false _
  have word := underWay.word
  have kind := underWay.kind
  refine
    { at' := underWay.at_step silent
      busy := ?_
      kind := ?_
      addr := underWay.addr_step silent
      word := ?_
      cell := underWay.cell_step spares noWrite }
  · rcases travels with rfl | rfl | rfl <;> intro same <;> cases same
  · rw [kind]
    rcases travels with rfl | rfl | rfl <;> rfl
  · rw [moved]
    rcases travels with rfl | rfl | rfl <;> exact word

theorem UnderWay.written (underWay : UnderWay probe port clock view data .writing)
    (silent : Silent inputs) (spares : Spares probe port inputs)
    (granted : SramPort.grant port = true) :
    Holds probe (SramPort.step port inputs) (view.afterCtrl probe data) := by
  have writes : data.getLsbD 1 = true := underWay.kind
  have dataKept := sramData_silent port silent
  rw [underWay.rdValid_eq] at dataKept
  have cell := SramHost.cell_step underWay.at'.sound.wired spares
  rw [underWay.wrEn_eq, granted, underWay.addr] at cell
  unfold View.afterCtrl
  rw [if_pos writes]
  refine
    { addr := underWay.addr_step silent
      data := fun word known => dataKept.trans (underWay.word word known)
      cell := ?_ }
  intro word known
  by_cases same : view.addr = probe
  · rw [if_pos same] at known
    rw [cell, same]
    exact (store_same _ _ _).trans (underWay.word word known)
  · rw [if_neg same] at known
    rw [cell, store_other _ _ _ (Ne.symm same)]
    exact underWay.cell word known

theorem UnderWay.latched (underWay : UnderWay probe port clock view data .latched)
    (silent : Silent inputs) (spares : Spares probe port inputs) :
    Holds probe (SramPort.step port inputs) (view.afterCtrl probe data) := by
  have reads : data.getLsbD 1 = false := underWay.kind
  have dataKept := sramData_silent port silent
  rw [underWay.rdValid_eq] at dataKept
  have noWrite : (SramPort.grant port && port.lb.sramMmWrEnOh) = false := by
    rw [underWay.wrEn_eq]
    exact Bool.and_false _
  have word := underWay.word
  unfold View.afterCtrl at word ⊢
  rw [reads, if_neg Bool.false_ne_true] at word ⊢
  exact
    { addr := underWay.addr_step silent
      data := fun known same => dataKept.trans (word known same)
      cell := underWay.cell_step spares noWrite }

/-- While the host waits, a clock edge moves the access on or acknowledges it. -/
theorem underWay_step (underWay : UnderWay probe port clock view data stage)
    (silent : Silent inputs) (onBus : inputs.lbAddrId = sramAccCtrlRegAddr)
    (spares : Spares probe port inputs) :
    ((SramPort.step port inputs).lb.lbWrValidOd = false ∧
      UnderWay probe (SramPort.step port inputs) (clock + 1) view data
        (stage.next (SramPort.grant port) false false)) ∨
    ((SramPort.step port inputs).lb.lbWrValidOd = true ∧
      SramPort.At (SramPort.step port inputs) (clock + 1) .free ∧
      Holds probe (SramPort.step port inputs) (view.afterCtrl probe data)) := by
  have answer := underWay.lbWrValid_step onBus
  have next := underWay.at_step silent
  cases stage with
  | free => exact absurd rfl underWay.busy
  | writing =>
      cases granted : SramPort.grant port with
      | false =>
          rw [granted] at answer
          exact Or.inl ⟨answer, underWay.waits_step silent spares rfl granted⟩
      | true =>
          rw [granted] at answer next
          exact Or.inr ⟨answer, next, underWay.written silent spares granted⟩
  | reading =>
      cases granted : SramPort.grant port with
      | false => exact Or.inl ⟨answer, underWay.waits_step silent spares rfl granted⟩
      | true => exact Or.inl ⟨answer, underWay.granted_step silent spares granted⟩
  | issued => exact Or.inl ⟨answer, underWay.travels_step silent spares (Or.inl rfl)⟩
  | driven => exact Or.inl ⟨answer, underWay.travels_step silent spares (Or.inr (Or.inl rfl))⟩
  | arrived => exact Or.inl ⟨answer, underWay.travels_step silent spares (Or.inr (Or.inr rfl))⟩
  | latched => exact Or.inr ⟨answer, next, underWay.latched silent spares⟩

end Waiting

end Edges

end Synesthesia.SramHost
