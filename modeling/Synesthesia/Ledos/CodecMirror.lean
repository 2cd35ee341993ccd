/-
The copy of the codec registers against the codec.

Every function of `codec.c` is a list of transfers: it changes the copy, sends one
entry of it, and stops at the first answer that is no acknowledge.  The copy is
changed before the answer is known and not changed back, so it mirrors the codec
exactly as long as nothing is lost with an unacknowledged word.
-/

import Synesthesia.Ledos.Codec
import Mathlib.Algebra.Group.Nat.Defs

namespace Synesthesia.Codec

/-! ### Transfers -/

inductive Transfer where
  | reset
  | assign (idx : Fin 11) (word : BitVec 16)
  | field (idx : Fin 11) (offst msk val : BitVec 8)

def Transfer.idx : Transfer → Fin 11
  | .reset => codecResetIdx
  | .assign idx _ => idx
  | .field idx _ _ _ => idx

def Transfer.update : Transfer → Shadow → Shadow
  | .reset, _ => shadowDefaults
  | .assign idx word, shadow => Function.update shadow idx word
  | .field idx offst msk val, shadow =>
      Function.update shadow idx (withField (shadow idx) offst msk val)

def Transfer.exec (acks : Nat → Bool) : Transfer → State → I2cRes × State
  | .reset => codecReset acks
  | .assign idx word => setShadow acks idx word
  | .field idx offst msk val => codecConfigReg acks idx offst msk val

def Transfer.config (field : Field) (val : BitVec 8) : Transfer :=
  .field field.idx field.offst field.msk val

/-- The transfers of a call if all of them are acknowledged. -/
def plan : Call → List Transfer
  | .codecReset => [.reset]
  | .codecInit bps fs =>
      [.reset, .assign codecPowerDownRegIdx 0xc10, .assign codecLeftLineInRegIdx 0x17,
        .assign codecRightLineInRegIdx 0x217, .assign codecLeftHpOutRegIdx 0x4f9,
        .assign codecRightHpOutRegIdx 0x6f9, .assign codecDigitalAudPathRegIdx 0xa00,
        .assign codecDigitalAudIfFmtRegIdx 0xe0f, .config codecIwl (bps2iwlLookup bps).val,
        .config codecSr (fs2srLookup fs).val, .assign codecActiveCtrlRegIdx 0x1201,
        .assign codecPowerDownRegIdx 0xc00]
  | .codecConfigReg idx offst msk val => [.field idx offst msk val]
  | .codecDspIfActivate => [.config codecActive 0x1]
  | .codecDspIfInactivate => [.config codecActive 0x0]
  | .codecDacActivate => [.config codecDacpd 0x0, .config codecDacSel 0x1, .config codecDacMu 0x0]
  | .codecDacInactivate => [.config codecDacMu 0x1, .config codecDacSel 0x0, .config codecDacpd 0x1]
  | .codecPwrOffNOn val => [.config codecPwroff val.val]
  | .codecLineinPwrDwnNUp val => [.config codecLineinpd val.val]
  | .codecLineoutPwrDwnNUp val => [.config codecOutpd val.val]
  | .codecAdcHpfEnable val => [.config codecAdcHpd val.val]
  | .codecAdcPwrDwnNUp val => [.config codecAdcpd val.val]
  | .codecSrUpdate val => [.config codecSr val.val]
  | .codecIwlUpdate val => [.config codecIwl val.val]

/-- The transfers a list gets through, each with the state before it. -/
def executed (acks : Nat → Bool) : List Transfer → State → List (Transfer × State)
  | [], _ => []
  | transfer :: rest, state =>
      (transfer, state) ::
        if acks state.sent.length then executed acks rest (transfer.exec acks state).2 else []

/-! ### What is asked of a call -/

def registerAddress (idx : Fin 11) : BitVec 7 :=
  if idx = codecResetIdx then resetRegister else BitVec.ofNat 7 idx

/-- Each entry of the copy carries the address of its register. -/
def Addressed (shadow : Shadow) : Prop :=
  ∀ idx, (shadow idx).extractLsb' 9 7 = registerAddress idx

/-- The copy of each data register holds its value. -/
def Mirrors (state : State) : Prop :=
  ∀ i : Fin 10, (state.codecShadowReg i.castSucc).extractLsb' 0 9 = state.codec i

/-- A field lies within the nine bits of a register. -/
def Call.InRange : Call → Prop
  | .codecConfigReg _ offst msk _ => offst.toNat < 9 ∧ msk.toNat * 2 ^ offst.toNat < 2 ^ 9
  | _ => True

/-- After a call the copy mirrors the codec, every word it sent bore the address of
its entry, and entries whose word was not acknowledged are as before. -/
structure Faithful (acks : Nat → Bool) (transfers : List Transfer) (state : State)
    (result : I2cRes × State) : Prop where
  mirrors : Mirrors result.2
  addressed : ∀ done ∈ executed acks transfers state, ∃ word : BitVec 16,
    result.2.sent[done.2.sent.length]? = some (codecI2cWriteAddr, word) ∧
      word.extractLsb' 9 7 = registerAddress done.1.idx
  kept : result.1 = .i2cNackDetected → ∀ done ∈ executed acks transfers state,
    acks done.2.sent.length = false →
      result.2.codecShadowReg done.1.idx = done.2.codecShadowReg done.1.idx

/-- The copy already holds what a transfer would change. -/
def Transfer.Unchanging : Transfer → Shadow → Prop
  | .reset, shadow => shadow = shadowDefaults
  | .assign idx word, shadow => shadow idx = word
  | .field idx offst msk val, shadow =>
      shadow idx &&& fieldBits msk offst = fieldBits (val &&& msk) offst

/-- A transfer resets the codec only with the data registers at their defaults. -/
def Transfer.Settled (transfer : Transfer) (shadow : Shadow) : Prop :=
  transfer = .reset ∨ transfer.idx ≠ codecResetIdx ∨
    ∀ i : Fin 10, shadow i.castSucc = shadowDefaults i.castSucc

/-- Nothing is lost with an unacknowledged word.  The transfers begin with
transaction number `count`. -/
def Harmless (acks : Nat → Bool) : List Transfer → Nat → Shadow → Prop
  | [], _, _ => True
  | transfer :: rest, count, shadow =>
      if acks count then
        transfer.Settled shadow ∧ Harmless acks rest (count + 1) (transfer.update shadow)
      else transfer.Unchanging shadow

/-! ### Functions as lists of transfers -/

section Functions

variable {acks : Nat → Bool}

theorem Transfer.exec_eq (transfer : Transfer) (state : State) :
    transfer.exec acks state =
      sendShadow acks transfer.idx
        { state with codecShadowReg := transfer.update state.codecShadowReg } := by
  cases transfer with
  | reset => rfl
  | assign idx word => rfl
  | field idx offst msk val => rfl

theorem Transfer.exec_ack (transfer : Transfer) {state : State}
    (ack : acks state.sent.length = true) :
    transfer.exec acks state =
      (.i2cOk,
        { codecShadowReg := transfer.update state.codecShadowReg
          codec := codecWrite state.codec (transfer.update state.codecShadowReg transfer.idx)
          sent := state.sent ++
            [(codecI2cWriteAddr, transfer.update state.codecShadowReg transfer.idx)] }) := by
  rw [transfer.exec_eq, sendShadow, i2cXtnWrite16, if_pos ack]
  rfl

theorem Transfer.exec_nack (transfer : Transfer) {state : State}
    (nack : acks state.sent.length = false) :
    transfer.exec acks state =
      (.i2cNackDetected,
        { codecShadowReg := transfer.update state.codecShadowReg
          codec := state.codec
          sent := state.sent ++
            [(codecI2cWriteAddr, transfer.update state.codecShadowReg transfer.idx)] }) := by
  have lost : ¬ acks state.sent.length = true := by
    rw [nack]
    exact Bool.false_ne_true
  rw [transfer.exec_eq, sendShadow, i2cXtnWrite16, if_neg lost]
  rfl

theorem checked_singleton (transfer : Transfer) :
    checked [transfer.exec acks] = transfer.exec acks := by
  funext state
  unfold checked
  cases ack : acks state.sent.length with
  | true => rw [transfer.exec_ack ack, if_pos rfl, checked]
  | false => rw [transfer.exec_nack ack, if_neg I2cRes.noConfusion]

theorem exec_single {call : Call} {transfer : Transfer} (single : plan call = [transfer])
    (same : exec acks call = transfer.exec acks) :
    exec acks call = checked ((plan call).map (Transfer.exec acks)) := by
  rw [single, same]
  exact (checked_singleton transfer).symm

theorem exec_plan (call : Call) :
    exec acks call = checked ((plan call).map (Transfer.exec acks)) := by
  cases call with
  | codecInit bps fs => rfl
  | codecDacActivate => rfl
  | codecDacInactivate => rfl
  | _ => exact exec_single rfl rfl

end Functions

/-! ### Words -/

def Transfer.InRange : Transfer → Prop
  | .reset => True
  | .assign idx word => word.extractLsb' 9 7 = registerAddress idx
  | .field _ offst msk _ => offst.toNat < 9 ∧ msk.toNat * 2 ^ offst.toNat < 2 ^ 9

theorem word_ext {word other : BitVec 16}
    (top : word.extractLsb' 9 7 = other.extractLsb' 9 7)
    (low : word.extractLsb' 0 9 = other.extractLsb' 0 9) : word = other := by
  apply BitVec.eq_of_getLsbD_eq
  intro k inside
  rcases Nat.lt_or_ge k 9 with small | large
  · have bit := congrArg (BitVec.getLsbD · k) low
    simpa only [BitVec.getLsbD_extractLsb', small, decide_true, Bool.true_and, Nat.zero_add]
      using bit
  · have bit := congrArg (BitVec.getLsbD · (k - 9)) top
    simpa only [BitVec.getLsbD_extractLsb', show k - 9 < 7 by omega, decide_true, Bool.true_and,
      show 9 + (k - 9) = k by omega] using bit

theorem fieldBits_high {msk offst : BitVec 8} (inside : msk.toNat * 2 ^ offst.toNat < 2 ^ 9)
    {k : Nat} (high : 9 ≤ k) : (fieldBits msk offst).getLsbD k = false := by
  have value : (fieldBits msk offst).toNat = msk.toNat * 2 ^ offst.toNat := by
    rw [fieldBits, BitVec.toNat_shiftLeft, BitVec.toNat_setWidth_of_le (by decide),
      Nat.shiftLeft_eq, Nat.mod_eq_of_lt (by omega)]
  rw [BitVec.getLsbD, value]
  exact Nat.testBit_lt_two_pow
    (Nat.lt_of_lt_of_le inside (Nat.pow_le_pow_right (by decide) high))

theorem fieldBits_sub (val msk offst : BitVec 8) {k : Nat}
    (set : (fieldBits (val &&& msk) offst).getLsbD k = true) :
    (fieldBits msk offst).getLsbD k = true := by
  rw [fieldBits, BitVec.getLsbD_shiftLeft, BitVec.getLsbD_setWidth] at set ⊢
  simp only [BitVec.getLsbD_and, Bool.and_eq_true] at set ⊢
  exact ⟨set.1, set.2.1, set.2.2.2⟩

theorem withField_high (word : BitVec 16) {offst msk : BitVec 8}
    (inside : msk.toNat * 2 ^ offst.toNat < 2 ^ 9) (val : BitVec 8) :
    (withField word offst msk val).extractLsb' 9 7 = word.extractLsb' 9 7 := by
  apply BitVec.eq_of_getLsbD_eq
  intro k small
  have clear := fieldBits_high inside (show 9 ≤ 9 + k by omega)
  have none : (fieldBits (val &&& msk) offst).getLsbD (9 + k) = false := by
    rw [← Bool.not_eq_true]
    intro set
    rw [fieldBits_sub val msk offst set] at clear
    cases clear
  rw [BitVec.getLsbD_extractLsb', BitVec.getLsbD_extractLsb', withField, BitVec.getLsbD_or,
    BitVec.getLsbD_and, BitVec.getLsbD_not, clear, none, decide_eq_true (show 9 + k < 16 by omega)]
  simp

theorem withField_eq_self (word : BitVec 16) (offst msk val : BitVec 8) :
    withField word offst msk val = word ↔
      word &&& fieldBits msk offst = fieldBits (val &&& msk) offst := by
  constructor
  · intro same
    apply BitVec.eq_of_getLsbD_eq
    intro k inside
    have bit := congrArg (BitVec.getLsbD · k) same
    have sub := fieldBits_sub val msk offst (k := k)
    simp only [withField, BitVec.getLsbD_or, BitVec.getLsbD_and, BitVec.getLsbD_not, inside,
      decide_true, Bool.true_and] at bit ⊢
    cases value : word.getLsbD k <;> cases mask : (fieldBits msk offst).getLsbD k <;>
      simp_all
  · intro same
    apply BitVec.eq_of_getLsbD_eq
    intro k inside
    have bit := congrArg (BitVec.getLsbD · k) same
    simp only [withField, BitVec.getLsbD_or, BitVec.getLsbD_and, BitVec.getLsbD_not, inside,
      decide_true, Bool.true_and] at bit ⊢
    rw [← bit]
    cases word.getLsbD k <;> cases (fieldBits msk offst).getLsbD k <;> rfl

/-! ### One transfer -/

theorem shadowDefaults_addressed : Addressed shadowDefaults := by
  unfold Addressed
  decide

theorem Transfer.update_idx_ne {transfer : Transfer} (partial' : transfer ≠ .reset)
    (shadow : Shadow) {idx : Fin 11} (other : idx ≠ transfer.idx) :
    transfer.update shadow idx = shadow idx := by
  cases transfer with
  | reset => exact absurd rfl partial'
  | assign idx' word => exact Function.update_of_ne other _ _
  | field idx' offst msk val => exact Function.update_of_ne other _ _

theorem Transfer.InRange.addressed {transfer : Transfer} {shadow : Shadow}
    (inRange : transfer.InRange) (addressed : Addressed shadow) :
    Addressed (transfer.update shadow) := by
  intro idx
  cases transfer with
  | reset => exact shadowDefaults_addressed idx
  | assign idx' word =>
      by_cases same : idx = idx'
      · subst same
        rw [Transfer.update, Function.update_self]
        exact inRange
      · rw [Transfer.update, Function.update_of_ne same]
        exact addressed idx
  | field idx' offst msk val =>
      by_cases same : idx = idx'
      · subst same
        rw [Transfer.update, Function.update_self, withField_high _ inRange.2]
        exact addressed idx
      · rw [Transfer.update, Function.update_of_ne same]
        exact addressed idx

theorem Transfer.update_eq_self (transfer : Transfer) (shadow : Shadow) :
    transfer.update shadow = shadow ↔ transfer.Unchanging shadow := by
  cases transfer with
  | reset => exact eq_comm
  | assign idx word =>
      rw [Transfer.update, Function.update_eq_self_iff]
      exact eq_comm
  | field idx offst msk val =>
      rw [Transfer.update, Function.update_eq_self_iff]
      exact withField_eq_self _ _ _ _

theorem shadowDefaults_low (i : Fin 10) :
    (shadowDefaults i.castSucc).extractLsb' 0 9 = codecDefaults i := by
  revert i
  decide

theorem Addressed.ext {shadow other : Shadow} (addressed : Addressed shadow)
    (addressed' : Addressed other) {idx : Fin 11}
    (low : (shadow idx).extractLsb' 0 9 = (other idx).extractLsb' 0 9) : shadow idx = other idx :=
  word_ext ((addressed idx).trans (addressed' idx).symm) low

theorem registerAddress_castSucc (i : Fin 10) : registerAddress i.castSucc = BitVec.ofNat 7 i := by
  revert i
  decide

theorem registerAddress_eq_reset (idx : Fin 11) :
    registerAddress idx = resetRegister ↔ idx = codecResetIdx := by
  revert idx
  decide

theorem registerAddress_inj {idx idx' : Fin 11}
    (same : registerAddress idx = registerAddress idx') :
    idx = idx' := by
  revert idx idx'
  decide

section Functions

variable {acks : Nat → Bool} {transfer : Transfer} {state : State}

theorem Transfer.InRange.codecWrite_eq (inRange : transfer.InRange)
    (addressed : Addressed state.codecShadowReg) :
    codecWrite state.codec (transfer.update state.codecShadowReg transfer.idx) =
      if transfer.idx = codecResetIdx then codecDefaults
      else fun i =>
        if transfer.idx = i.castSucc then
          (transfer.update state.codecShadowReg transfer.idx).extractLsb' 0 9
        else state.codec i := by
  have address := inRange.addressed addressed transfer.idx
  rw [codecWrite, address]
  by_cases resets : transfer.idx = codecResetIdx
  · rw [if_pos ((registerAddress_eq_reset _).mpr resets), if_pos resets]
  · rw [if_neg fun same => resets ((registerAddress_eq_reset _).mp same), if_neg resets]
    funext i
    by_cases same : transfer.idx = i.castSucc
    · rw [if_pos same, if_pos (by rw [same, registerAddress_castSucc])]
    · rw [if_neg same, if_neg]
      rw [← registerAddress_castSucc]
      exact fun equal => same (registerAddress_inj equal)

theorem Mirrors.ack_iff (mirrors : Mirrors state) (addressed : Addressed state.codecShadowReg)
    (inRange : transfer.InRange) (ack : acks state.sent.length = true) :
    Mirrors (transfer.exec acks state).2 ↔ transfer.Settled state.codecShadowReg := by
  rw [transfer.exec_ack ack, inRange.codecWrite_eq addressed, Mirrors, Transfer.Settled]
  by_cases whole : transfer = .reset
  · subst whole
    exact ⟨fun _ => .inl rfl, fun _ i => shadowDefaults_low i⟩
  · by_cases resets : transfer.idx = codecResetIdx
    · rw [if_pos resets]
      have kept : ∀ i : Fin 10, transfer.update state.codecShadowReg i.castSucc =
          state.codecShadowReg i.castSucc := by
        intro i
        refine Transfer.update_idx_ne whole _ ?_
        rw [resets]
        exact Fin.ne_of_lt i.castSucc_lt_last
      constructor
      · intro defaults
        refine .inr (.inr fun i => addressed.ext shadowDefaults_addressed ?_)
        rw [← kept i, shadowDefaults_low]
        exact defaults i
      · rintro (other | other | defaults)
        · exact absurd other whole
        · exact absurd resets other
        · intro i
          have low := shadowDefaults_low i
          rw [← defaults i, ← kept i] at low
          exact low
    · rw [if_neg resets]
      refine ⟨fun _ => .inr (.inl resets), fun _ i => ?_⟩
      have value : (transfer.update state.codecShadowReg i.castSucc).extractLsb' 0 9 =
          if transfer.idx = i.castSucc then
            (transfer.update state.codecShadowReg transfer.idx).extractLsb' 0 9
          else state.codec i := by
        by_cases same : transfer.idx = i.castSucc
        · rw [if_pos same, same]
        · rw [if_neg same, Transfer.update_idx_ne whole _ (Ne.symm same)]
          exact mirrors i
      exact value

theorem Mirrors.nack_iff (mirrors : Mirrors state) (addressed : Addressed state.codecShadowReg)
    (inRange : transfer.InRange) (nack : acks state.sent.length = false) :
    (Mirrors (transfer.exec acks state).2 ∧
        (transfer.exec acks state).2.codecShadowReg transfer.idx =
          state.codecShadowReg transfer.idx) ↔
      transfer.Unchanging state.codecShadowReg := by
  rw [← transfer.update_eq_self, transfer.exec_nack nack, Mirrors]
  constructor
  · rintro ⟨low, same⟩
    funext idx
    cases idx using Fin.lastCases with
    | cast i =>
        refine (inRange.addressed addressed).ext addressed ?_
        rw [mirrors i]
        exact low i
    | last =>
        by_cases resets : transfer.idx = codecResetIdx
        · rw [resets] at same
          exact same
        · refine Transfer.update_idx_ne ?_ _ (Ne.symm resets)
          rintro rfl
          exact resets rfl
  · intro unchanged
    rw [unchanged]
    exact ⟨mirrors, rfl⟩

/-! ### Lists of transfers -/

def outcome (acks : Nat → Bool) (transfers : List Transfer) : State → I2cRes × State :=
  checked (transfers.map (Transfer.exec acks))

/-- A transfer that does not reset the codec alone. -/
def Transfer.Plain (transfer : Transfer) : Prop :=
  transfer = .reset ∨ transfer.idx ≠ codecResetIdx

theorem outcome_ack (rest : List Transfer) (ack : acks state.sent.length = true) :
    outcome acks (transfer :: rest) state = outcome acks rest (transfer.exec acks state).2 := by
  rw [outcome, List.map_cons, checked, if_pos (by rw [transfer.exec_ack ack])]
  rfl

theorem outcome_nack (rest : List Transfer) (nack : acks state.sent.length = false) :
    outcome acks (transfer :: rest) state =
      (.i2cNackDetected, (transfer.exec acks state).2) := by
  rw [outcome, List.map_cons, checked, if_neg]
  rw [transfer.exec_nack nack]
  exact I2cRes.noConfusion

theorem Transfer.exec_sent (transfer : Transfer) (state : State) :
    (transfer.exec acks state).2.sent =
      state.sent ++ [(codecI2cWriteAddr, transfer.update state.codecShadowReg transfer.idx)] := by
  cases ack : acks state.sent.length with
  | true => rw [transfer.exec_ack ack]
  | false => rw [transfer.exec_nack ack]

theorem Transfer.exec_shadow (transfer : Transfer) (state : State) :
    (transfer.exec acks state).2.codecShadowReg = transfer.update state.codecShadowReg := by
  cases ack : acks state.sent.length with
  | true => rw [transfer.exec_ack ack]
  | false => rw [transfer.exec_nack ack]

theorem outcome_sent (transfers : List Transfer) (state : State) :
    state.sent <+: (outcome acks transfers state).2.sent := by
  induction transfers generalizing state with
  | nil => exact List.prefix_refl _
  | cons transfer rest ih =>
      have grows : state.sent <+: (transfer.exec acks state).2.sent := by
        rw [transfer.exec_sent]
        exact List.prefix_append _ _
      cases ack : acks state.sent.length with
      | true =>
          rw [outcome_ack rest ack]
          exact grows.trans (ih _)
      | false =>
          rw [outcome_nack rest ack]
          exact grows

theorem outcome_addressed {transfers : List Transfer} (inRange : ∀ t ∈ transfers, t.InRange)
    (addressed : Addressed state.codecShadowReg) :
    Addressed (outcome acks transfers state).2.codecShadowReg := by
  induction transfers generalizing state with
  | nil => exact addressed
  | cons transfer rest ih =>
      have next : Addressed (transfer.exec acks state).2.codecShadowReg := by
        rw [transfer.exec_shadow]
        exact (inRange transfer List.mem_cons_self).addressed addressed
      cases ack : acks state.sent.length with
      | true =>
          rw [outcome_ack rest ack]
          exact ih (fun t inside => inRange t (List.mem_cons_of_mem _ inside)) next
      | false =>
          rw [outcome_nack rest ack]
          exact next

theorem outcome_word {rest : List Transfer} (inRange : transfer.InRange)
    (addressed : Addressed state.codecShadowReg) :
    ∃ word : BitVec 16,
      (outcome acks (transfer :: rest) state).2.sent[state.sent.length]? =
          some (codecI2cWriteAddr, word) ∧
        word.extractLsb' 9 7 = registerAddress transfer.idx := by
  refine ⟨transfer.update state.codecShadowReg transfer.idx, ?_, inRange.addressed addressed _⟩
  have grows : (transfer.exec acks state).2.sent <+:
      (outcome acks (transfer :: rest) state).2.sent := by
    cases ack : acks state.sent.length with
    | true =>
        rw [outcome_ack rest ack]
        exact outcome_sent rest _
    | false =>
        have same : (outcome acks (transfer :: rest) state).2.sent =
            (transfer.exec acks state).2.sent := by
          rw [outcome_nack rest ack]
        exact same ▸ List.prefix_refl _
  obtain ⟨more, sent⟩ := grows
  rw [← sent, transfer.exec_sent, List.append_assoc, List.getElem?_append_right (Nat.le_refl _),
    Nat.sub_self]
  rfl

theorem faithful_nack {rest : List Transfer} (mirrors : Mirrors state)
    (addressed : Addressed state.codecShadowReg) (inRange : transfer.InRange)
    (nack : acks state.sent.length = false) :
    Faithful acks (transfer :: rest) state (outcome acks (transfer :: rest) state) ↔
      transfer.Unchanging state.codecShadowReg := by
  have word := @outcome_word acks transfer state rest inRange addressed
  have only : executed acks (transfer :: rest) state = [(transfer, state)] := by
    rw [executed, nack]
    rfl
  rw [← mirrors.nack_iff addressed inRange nack]
  rw [outcome_nack rest nack] at word ⊢
  constructor
  · intro faithful
    refine ⟨faithful.mirrors, ?_⟩
    refine faithful.kept rfl (transfer, state) ?_ nack
    rw [only]
    exact List.mem_singleton_self _
  · rintro ⟨mirrors', same⟩
    constructor
    case mirrors => exact mirrors'
    case addressed =>
      intro done inside
      rw [only, List.mem_singleton] at inside
      subst inside
      exact word
    case kept =>
      intro _ done inside _
      rw [only, List.mem_singleton] at inside
      subst inside
      exact same

theorem faithful_ack {rest : List Transfer} (addressed : Addressed state.codecShadowReg)
    (inRange : transfer.InRange) (ack : acks state.sent.length = true) :
    Faithful acks (transfer :: rest) state (outcome acks (transfer :: rest) state) ↔
      Faithful acks rest (transfer.exec acks state).2
        (outcome acks rest (transfer.exec acks state).2) := by
  have word := @outcome_word acks transfer state rest inRange addressed
  have all : executed acks (transfer :: rest) state =
      (transfer, state) :: executed acks rest (transfer.exec acks state).2 := by
    rw [executed, if_pos ack]
  rw [outcome_ack rest ack] at word ⊢
  constructor
  · intro faithful
    constructor
    case mirrors => exact faithful.mirrors
    case addressed =>
      intro done inside
      exact faithful.addressed done (all ▸ List.mem_cons_of_mem _ inside)
    case kept =>
      intro failed done inside
      exact faithful.kept failed done (all ▸ List.mem_cons_of_mem _ inside)
  · intro faithful
    constructor
    case mirrors => exact faithful.mirrors
    case addressed =>
      intro done inside
      rw [all, List.mem_cons] at inside
      rcases inside with rfl | inside
      · exact word
      · exact faithful.addressed done inside
    case kept =>
      intro failed done inside nack
      rw [all, List.mem_cons] at inside
      rcases inside with rfl | inside
      · cases ack.symm.trans nack
      · exact faithful.kept failed done inside nack

theorem faithful_nil : Faithful acks [] state (outcome acks [] state) ↔ Mirrors state := by
  constructor
  · exact Faithful.mirrors
  · intro mirrors
    constructor
    case mirrors => exact mirrors
    case addressed =>
      intro done inside
      cases inside
    case kept =>
      intro _ done inside
      cases inside

theorem Transfer.exec_count (transfer : Transfer) (state : State) :
    (transfer.exec acks state).2.sent.length = state.sent.length + 1 := by
  rw [transfer.exec_sent, List.length_append]
  rfl

theorem faithful_single (mirrors : Mirrors state) (addressed : Addressed state.codecShadowReg)
    (inRange : transfer.InRange) :
    Faithful acks [transfer] state (outcome acks [transfer] state) ↔
      Harmless acks [transfer] state.sent.length state.codecShadowReg := by
  unfold Harmless
  cases ack : acks state.sent.length with
  | true =>
      rw [if_pos rfl, faithful_ack addressed inRange ack, faithful_nil,
        mirrors.ack_iff addressed inRange ack, Harmless, and_true]
  | false => rw [if_neg Bool.false_ne_true, faithful_nack mirrors addressed inRange ack]

theorem faithful_plain {transfers : List Transfer} (mirrors : Mirrors state)
    (addressed : Addressed state.codecShadowReg) (inRange : ∀ t ∈ transfers, t.InRange)
    (plain : ∀ t ∈ transfers, t.Plain) :
    Faithful acks transfers state (outcome acks transfers state) ↔
      Harmless acks transfers state.sent.length state.codecShadowReg := by
  induction transfers generalizing state with
  | nil =>
      rw [faithful_nil, Harmless]
      exact ⟨fun _ => trivial, fun _ => mirrors⟩
  | cons transfer rest ih =>
      have inRange' := inRange transfer List.mem_cons_self
      have settled : transfer.Settled state.codecShadowReg := by
        rcases plain transfer List.mem_cons_self with whole | other
        · exact .inl whole
        · exact .inr (.inl other)
      unfold Harmless
      cases ack : acks state.sent.length with
      | true =>
          have next : Addressed (transfer.exec acks state).2.codecShadowReg := by
            rw [transfer.exec_shadow]
            exact inRange'.addressed addressed
          rw [if_pos rfl, faithful_ack addressed inRange' ack,
            ih ((mirrors.ack_iff addressed inRange' ack).mpr settled) next
              (fun t inside => inRange t (List.mem_cons_of_mem _ inside))
              (fun t inside => plain t (List.mem_cons_of_mem _ inside)),
            transfer.exec_count, transfer.exec_shadow, and_iff_right settled]
      | false => rw [if_neg Bool.false_ne_true, faithful_nack mirrors addressed inRange' ack]

end Functions

/-! ### Calls -/

/-- Every function but the general one keeps to the data registers and their fields. -/
theorem plan_proper (call : Call) :
    (∃ idx offst msk val, call = .codecConfigReg idx offst msk val) ∨
      (∀ t ∈ plan call, t.InRange) ∧ ∀ t ∈ plan call, t.Plain := by
  cases call with
  | codecConfigReg idx offst msk val => exact .inl ⟨idx, offst, msk, val, rfl⟩
  | codecReset => exact .inr (by simp [plan, Transfer.InRange, Transfer.Plain])
  | _ =>
      refine .inr ?_
      simp only [plan, List.forall_mem_cons, List.not_mem_nil, false_implies, implies_true,
        Transfer.InRange, Transfer.Plain, Transfer.config, Transfer.idx, reduceCtorEq, false_or,
        true_or, and_true, true_and]
      decide

section Functions

variable {acks : Nat → Bool} {state : State} {call : Call}

theorem exec_addressed (inRange : call.InRange) (addressed : Addressed state.codecShadowReg) :
    Addressed (exec acks call state).2.codecShadowReg := by
  rw [exec_plan]
  refine outcome_addressed ?_ addressed
  rcases plan_proper call with ⟨idx, offst, msk, val, rfl⟩ | ⟨proper, _⟩
  · intro transfer inside
    rw [plan, List.mem_singleton] at inside
    subst inside
    exact inRange
  · exact proper

/-- From a faithful copy a call leads to a faithful copy if and only if it is
harmless. -/
theorem faithful_iff (inRange : call.InRange) (mirrors : Mirrors state)
    (addressed : Addressed state.codecShadowReg) :
    Faithful acks (plan call) state (exec acks call state) ↔
      Harmless acks (plan call) state.sent.length state.codecShadowReg := by
  rw [exec_plan]
  rcases plan_proper call with ⟨idx, offst, msk, val, rfl⟩ | ⟨proper, plain⟩
  · exact faithful_single mirrors addressed inRange
  · exact faithful_plain mirrors addressed proper plain

theorem codecReset_mirrors (ack : acks state.sent.length = true) :
    Mirrors (codecReset acks state).2 ∧ Addressed (codecReset acks state).2.codecShadowReg := by
  have whole := Transfer.exec_ack .reset ack
  have same : Transfer.exec acks .reset = codecReset acks := rfl
  have written : codecWrite state.codec (shadowDefaults codecResetIdx) = codecDefaults :=
    if_pos (by decide)
  have update : Transfer.update .reset state.codecShadowReg = shadowDefaults := rfl
  rw [← same, whole, update, Transfer.idx, written]
  constructor
  · exact shadowDefaults_low
  · exact shadowDefaults_addressed

end Functions

/-- For every sequence of calls after an acknowledged reset and every pattern of
acknowledges: all calls so far were faithful if and only if all were harmless. -/
theorem calls_faithful_iff (acks : Nat → Bool) (init : State) (calls : Nat → Call)
    (ack : acks init.sent.length = true) (inRange : ∀ n, (calls n).InRange) (n : Nat) :
    Mirrors (codecReset acks init).2 ∧
      ((∀ k < n, Faithful acks (plan (calls k)) (after acks (codecReset acks init).2 calls k)
          (exec acks (calls k) (after acks (codecReset acks init).2 calls k))) ↔
        ∀ k < n, Harmless acks (plan (calls k))
          (after acks (codecReset acks init).2 calls k).sent.length
          (after acks (codecReset acks init).2 calls k).codecShadowReg) := by
  obtain ⟨mirrors, addressed⟩ := codecReset_mirrors ack
  refine ⟨mirrors, ?_⟩
  have addressed' : ∀ k,
      Addressed (after acks (codecReset acks init).2 calls k).codecShadowReg := by
    intro k
    induction k with
    | zero => exact addressed
    | succ k ih => exact exec_addressed (inRange k) ih
  constructor
  · intro faithful k before
    refine (faithful_iff (inRange k) ?_ (addressed' k)).mp (faithful k before)
    cases k with
    | zero => exact mirrors
    | succ k => exact (faithful k (by omega)).mirrors
  · intro harmless k
    induction k with
    | zero =>
        exact fun before => (faithful_iff (inRange 0) mirrors addressed).mpr (harmless 0 before)
    | succ k ih =>
        intro before
        exact (faithful_iff (inRange (k + 1)) (ih (by omega)).mirrors (addressed' (k + 1))).mpr
          (harmless (k + 1) before)

/-- Before the software starts: a cleared copy of a codec at its defaults. -/
def powerUp : State :=
  { codecShadowReg := fun _ => 0
    codec := codecDefaults
    sent := [] }

def resetOnly (count : Nat) : Bool := decide (count = 0)

theorem calls_faithful_power :
    Mirrors (codecReset resetOnly powerUp).2 ∧
      ((∀ k < 1, Faithful resetOnly (plan (.codecPwrOffNOn .off))
          (after resetOnly (codecReset resetOnly powerUp).2 (fun _ => .codecPwrOffNOn .off) k)
          (exec resetOnly (.codecPwrOffNOn .off)
            (after resetOnly (codecReset resetOnly powerUp).2 (fun _ => .codecPwrOffNOn .off) k))) ↔
        ∀ k < 1, Harmless resetOnly (plan (.codecPwrOffNOn .off))
          (after resetOnly (codecReset resetOnly powerUp).2
            (fun _ => .codecPwrOffNOn .off) k).sent.length
          (after resetOnly (codecReset resetOnly powerUp).2
            (fun _ => .codecPwrOffNOn .off) k).codecShadowReg) :=
  calls_faithful_iff resetOnly powerUp (fun _ => .codecPwrOffNOn .off) rfl (fun _ => trivial) 1

/-- Turning the line input on without an acknowledge leaves the copy wrong. -/
theorem unacknowledged_call_spoils_copy :
    ¬ ∀ (acks : Nat → Bool) (init : State) (calls : Nat → Call), acks init.sent.length = true →
      (∀ n, (calls n).InRange) → ∀ k,
        Faithful acks (plan (calls k)) (after acks (codecReset acks init).2 calls k)
          (exec acks (calls k) (after acks (codecReset acks init).2 calls k)) := by
  intro law
  have mirrors := (law resetOnly powerUp (fun _ => .codecLineinPwrDwnNUp .on) rfl
    (fun _ => trivial) 0).mirrors
  exact absurd (mirrors 6) (by decide)

end Synesthesia.Codec
