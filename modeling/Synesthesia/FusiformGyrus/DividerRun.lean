/-
What `divider_rad4` computes.

Two digits of the numerator enter the remainder in every clock.  The invariant
is the school method in base four: the digits taken in so far, divided by the
denominator, give the remainder and the quotient digits found so far.
-/

import Synesthesia.FusiformGyrus.DividerRad4

namespace Synesthesia.DividerRad4

/-! ### One quotient digit -/

theorem borrow {a b : BitVec 35} (aSmall : a.toNat < 2 ^ 34) (bSmall : b.toNat < 2 ^ 34) :
    (a - b).getLsbD 34 = decide (a.toNat < b.toNat) := by
  rw [BitVec.getLsbD, Nat.testBit_eq_decide_div_mod_eq, BitVec.toNat_sub, decide_eq_decide]
  omega

/-- The multiples of the denominator that are compared with the remainder. -/
structure Multiples (d : Nat) (state : State) : Prop where
  denom : state.denom.toNat = d
  triple : state.tripleDenom.toNat = 3 * d

section Digit

variable {state : State} {d : Nat}

theorem Multiples.small (multiples : Multiples d state) : d < 2 ^ 32 := by
  rw [← multiples.denom]
  exact state.denom.isLt

theorem upperWorking_toNat (state : State) :
    (upperWorking state).toNat = state.working.toNat / 2 ^ 32 := by
  have bound := state.working.isLt
  rw [upperWorking, BitVec.extractLsb'_toNat, Nat.shiftRight_eq_div_pow]
  omega

theorem lowerWorking_toNat (state : State) :
    (lowerWorking state).toNat = state.working.toNat % 2 ^ 32 := by
  rw [lowerWorking, BitVec.extractLsb'_toNat, Nat.shiftRight_zero]

theorem minuend_toNat (state : State) :
    ((upperWorking state).setWidth 35).toNat = (upperWorking state).toNat := by
  have bound := (upperWorking state).isLt
  rw [BitVec.toNat_setWidth]
  omega

theorem Multiples.one (multiples : Multiples d state) :
    (state.denom.setWidth 35).toNat = d := by
  have small := multiples.small
  rw [BitVec.toNat_setWidth, multiples.denom]
  omega

theorem Multiples.two (multiples : Multiples d state) :
    (state.denom.setWidth 35 <<< 1).toNat = 2 * d := by
  have small := multiples.small
  rw [BitVec.toNat_shiftLeft, multiples.one, Nat.shiftLeft_eq]
  omega

theorem Multiples.three (multiples : Multiples d state) :
    (state.tripleDenom.setWidth 35).toNat = 3 * d := by
  have small := multiples.small
  rw [BitVec.toNat_setWidth, multiples.triple]
  omega

theorem Multiples.borrows (multiples : Multiples d state) :
    (minusOne state).getLsbD 34 = decide ((upperWorking state).toNat < d) ∧
      (minusTwo state).getLsbD 34 = decide ((upperWorking state).toNat < 2 * d) ∧
      (minusThree state).getLsbD 34 = decide ((upperWorking state).toNat < 3 * d) := by
  have small := multiples.small
  have bound := (upperWorking state).isLt
  have minuend := minuend_toNat state
  refine ⟨?_, ?_, ?_⟩
  · rw [minusOne, borrow (by omega) (by rw [multiples.one]; omega), minuend, multiples.one]
  · rw [minusTwo, borrow (by omega) (by rw [multiples.two]; omega), minuend, multiples.two]
  · rw [minusThree, borrow (by omega) (by rw [multiples.three]; omega), minuend, multiples.three]

theorem Multiples.digit (multiples : Multiples d state)
    (close : (upperWorking state).toNat < 4 * d) :
    (quotBits state).toNat = (upperWorking state).toNat / d ∧
      (approMinus state).toNat = (upperWorking state).toNat % d := by
  obtain ⟨one, two, three⟩ := multiples.borrows
  have minuend := minuend_toNat state
  generalize upper : (upperWorking state).toNat = u at *
  rcases Nat.lt_or_ge u d with below | atLeast1
  · have bits : quotBits state = 0 := by
      rw [quotBits, one, two, three, decide_eq_true (by omega), decide_eq_true (by omega),
        decide_eq_true (by omega)]
      rfl
    rw [approMinus, bits, Nat.div_eq_of_lt below, Nat.mod_eq_of_lt below]
    exact ⟨rfl, minuend⟩
  · have positive : 0 < d := by omega
    rcases Nat.lt_or_ge u (2 * d) with below | atLeast2
    · have bits : quotBits state = 1 := by
        rw [quotBits, one, two, three, decide_eq_true (by omega), decide_eq_false (by omega),
          decide_eq_true (by omega)]
        rfl
      have quotient : u / d = 1 := Nat.div_eq_of_lt_le (by omega) (by omega)
      have remainder := Nat.div_add_mod u d
      rw [quotient] at remainder
      rw [approMinus, bits, quotient]
      refine ⟨rfl, ?_⟩
      change (minusOne state).toNat = _
      rw [minusOne, BitVec.toNat_sub_of_le (by rw [BitVec.le_def, minuend, multiples.one]; omega),
        minuend, multiples.one]
      omega
    · rcases Nat.lt_or_ge u (3 * d) with below | atLeast3
      · have bits : quotBits state = 2 := by
          rw [quotBits, one, two, three, decide_eq_false (by omega), decide_eq_false (by omega),
            decide_eq_true (by omega)]
          rfl
        have quotient : u / d = 2 := Nat.div_eq_of_lt_le (by omega) (by omega)
        have remainder := Nat.div_add_mod u d
        rw [quotient] at remainder
        rw [approMinus, bits, quotient]
        refine ⟨rfl, ?_⟩
        change (minusTwo state).toNat = _
        rw [minusTwo,
          BitVec.toNat_sub_of_le (by rw [BitVec.le_def, minuend, multiples.two]; omega),
          minuend, multiples.two]
        omega
      · have bits : quotBits state = 3 := by
          rw [quotBits, one, two, three, decide_eq_false (by omega), decide_eq_false (by omega),
            decide_eq_false (by omega)]
          rfl
        have quotient : u / d = 3 := Nat.div_eq_of_lt_le (by omega) (by omega)
        have remainder := Nat.div_add_mod u d
        rw [quotient] at remainder
        rw [approMinus, bits, quotient]
        refine ⟨rfl, ?_⟩
        change (minusThree state).toNat = _
        rw [minusThree,
          BitVec.toNat_sub_of_le (by rw [BitVec.le_def, minuend, multiples.three]; omega),
          minuend, multiples.three]
        omega

end Digit

/-! ### All digits -/

theorem toNat_append_add {highBits lowBits : Nat} (high : BitVec highBits) (low : BitVec lowBits) :
    (high ++ low).toNat = high.toNat * 2 ^ lowBits + low.toNat := by
  rw [BitVec.toNat_append, ← Nat.shiftLeft_add_eq_or_of_lt low.isLt, Nat.shiftLeft_eq]

/-- `left` digits of `n` are still to come. -/
structure Dividing (n d left : Nat) (state : State) : Prop where
  multiples : Multiples d state
  cntr : state.cntr = BitVec.ofNat 7 left
  taken : ∃ quot rem, n / 4 ^ left = quot * d + rem ∧ rem < d ∧
    state.working.toNat = rem * 2 ^ 34 + n % 4 ^ left * 4 ^ (17 - left) + quot

theorem dividing_load {state : State} {inputs : Inputs} (load : inputs.load = true)
    (positive : 0 < inputs.d.toNat) :
    Dividing inputs.n.toNat inputs.d.toNat 16 (step state inputs) := by
  have numerator := inputs.n.isLt
  have denominator := inputs.d.isLt
  have next : step state inputs =
      { working := (0 : BitVec 32) ++ inputs.n ++ (0 : BitVec 2)
        denom := inputs.d
        tripleDenom := inputs.d.setWidth 34 + inputs.d.setWidth 34 <<< 1
        cntr := 16 } := by
    rw [step, if_pos load]
  rw [next]
  constructor
  case multiples =>
    constructor
    case denom => rfl
    case triple =>
      change (inputs.d.setWidth 34 + inputs.d.setWidth 34 <<< 1).toNat = _
      rw [BitVec.toNat_add, BitVec.toNat_shiftLeft, BitVec.toNat_setWidth, Nat.shiftLeft_eq]
      omega
  case cntr => rfl
  case taken =>
    refine ⟨0, 0, ?_, positive, ?_⟩
    · omega
    · change ((0 : BitVec 32) ++ inputs.n ++ (0 : BitVec 2)).toNat = _
      rw [toNat_append_add, toNat_append_add, show (0 : BitVec 32).toNat = 0 from rfl,
        show (0 : BitVec 2).toNat = 0 from rfl]
      omega

theorem Dividing.upper {n d left : Nat} {state : State} (dividing : Dividing n d (left + 1) state)
    (numerator : n < 2 ^ 32) (inside : left < 16) :
    ∃ quot rem, n / 4 ^ left = 4 * (quot * d) + (upperWorking state).toNat ∧
      (upperWorking state).toNat = 4 * rem + n / 4 ^ left % 4 ∧ rem < d ∧
      (lowerWorking state).toNat = n % 4 ^ left * 4 ^ (16 - left) + quot := by
  obtain ⟨quot, rem, taken, small, working⟩ := dividing.taken
  have shorter : n / 4 ^ (left + 1) = n / 4 ^ left / 4 := by
    rw [Nat.pow_succ, Nat.div_div_eq_div_mul]
  have lower : n % 4 ^ (left + 1) = n % 4 ^ left + 4 ^ left * (n / 4 ^ left % 4) := by
    rw [Nat.pow_succ, Nat.mod_mul]
  have whole : 4 ^ left * 4 ^ (16 - left) = 2 ^ 32 := by
    rw [← Nat.pow_add, show left + (16 - left) = 16 by omega, show (2 : Nat) ^ 32 = 4 ^ 16 from rfl]
  have below : n % 4 ^ left < 4 ^ left := Nat.mod_lt _ (Nat.pow_pos (by decide))
  have early : n / 4 ^ left < 4 ^ (16 - left) := by
    rw [Nat.div_lt_iff_lt_mul (Nat.pow_pos (by decide)), Nat.mul_comm, whole]
    exact numerator
  have few : quot ≤ quot * d := Nat.le_mul_of_pos_right quot (by omega)
  have room : n % 4 ^ left * 4 ^ (16 - left) + 4 ^ (16 - left) ≤ 2 ^ 32 := by
    rw [← Nat.succ_mul, ← whole]
    exact Nat.mul_le_mul_right _ below
  have split : n % 4 ^ (left + 1) * 4 ^ (17 - (left + 1)) =
      n % 4 ^ left * 4 ^ (16 - left) + 2 ^ 32 * (n / 4 ^ left % 4) := by
    rw [lower, show 17 - (left + 1) = 16 - left by omega, Nat.add_mul, Nat.mul_right_comm, whole]
  rw [split] at working
  rw [shorter] at taken
  refine ⟨quot, rem, ?_, ?_, small, ?_⟩
  · rw [upperWorking_toNat, working]
    omega
  · rw [upperWorking_toNat, working]
    omega
  · rw [lowerWorking_toNat, working]
    omega

theorem dividing_step {n d left : Nat} {state : State} {inputs : Inputs}
    (dividing : Dividing n d (left + 1) state) (numerator : n < 2 ^ 32) (inside : left < 16)
    (noLoad : inputs.load = false) : Dividing n d left (step state inputs) := by
  obtain ⟨quot, rem, taken, upper, small, lower⟩ := dividing.upper numerator inside
  have digit : n / 4 ^ left % 4 < 4 := Nat.mod_lt _ (by decide)
  obtain ⟨bits, appro⟩ := dividing.multiples.digit (by omega)
  have running : cntrZero state = false := by
    rw [cntrZero, dividing.cntr, beq_eq_false_iff_ne]
    intro zero
    have values := congrArg BitVec.toNat zero
    rw [BitVec.toNat_ofNat, show (0 : BitVec 7).toNat = 0 from rfl] at values
    omega
  have next : step state inputs =
      { state with
        cntr := state.cntr - 1
        working :=
          (approMinus state).extractLsb' 0 32 ++ lowerWorking state ++ quotBits state } := by
    rw [step, if_neg (by rw [noLoad]; decide), if_neg (by rw [running]; decide)]
  rw [next]
  constructor
  case multiples => exact ⟨dividing.multiples.denom, dividing.multiples.triple⟩
  case cntr =>
    change state.cntr - 1 = _
    rw [dividing.cntr, BitVec.ofNat_add]
    exact BitVec.add_sub_cancel _ _
  case taken =>
    have below : (upperWorking state).toNat % d < d := Nat.mod_lt _ (by omega)
    have narrow := dividing.multiples.small
    have high : ((approMinus state).extractLsb' 0 32).toNat = (upperWorking state).toNat % d := by
      rw [BitVec.extractLsb'_toNat, appro, Nat.shiftRight_zero, Nat.mod_eq_of_lt (by omega)]
    refine ⟨4 * quot + (upperWorking state).toNat / d, (upperWorking state).toNat % d, ?_, below,
      ?_⟩
    · rw [Nat.add_mul, Nat.mul_assoc, Nat.add_assoc, Nat.div_add_mod']
      exact taken
    · change ((approMinus state).extractLsb' 0 32 ++ lowerWorking state ++ quotBits state).toNat = _
      rw [toNat_append_add, toNat_append_add, high, lower, bits,
        show 4 ^ (17 - left) = 4 ^ (16 - left) * 4 by rw [← Nat.pow_succ]; congr 1; omega,
        ← Nat.mul_assoc]
      omega

theorem Dividing.q {n d : Nat} {state : State} (dividing : Dividing n d 0 state)
    (numerator : n < 2 ^ 32) : (q state).toNat = n / d := by
  obtain ⟨quot, rem, taken, small, working⟩ := dividing.taken
  rw [Nat.pow_zero, Nat.div_one] at taken
  rw [Nat.pow_zero, Nat.mod_one] at working
  have quotient : n / d = quot := by
    rw [taken, Nat.mul_comm, Nat.mul_add_div (by omega), Nat.div_eq_of_lt small, Nat.add_zero]
  have few : quot ≤ n := by
    rw [← quotient]
    exact Nat.div_le_self n d
  rw [DividerRad4.q, lowerWorking_toNat, working, quotient]
  omega

/-! ### A division from its load on -/

theorem cntr_step {state : State} {inputs : Inputs} (noLoad : inputs.load = false) :
    (step state inputs).cntr = if cntrZero state then state.cntr else state.cntr - 1 := by
  rw [step, if_neg (by rw [noLoad]; decide)]
  cases cntrZero state <;> rfl

theorem cntr_load {state : State} {inputs : Inputs} (load : inputs.load = true) :
    (step state inputs).cntr = 16 := by
  rw [step, if_pos load]

section Division

variable {states : Nat → State} {inputs : Nat → Inputs} {t : Nat}

/-- Loaded in clock `t` and not reloaded, the divider shows the quotient in
clock `t + 17`. -/
theorem divides (runs : ∀ t, states (t + 1) = step (states t) (inputs t))
    (load : (inputs t).load = true) (positive : 0 < (inputs t).d.toNat)
    (alone : ∀ i < 16, (inputs (t + 1 + i)).load = false) :
    (q (states (t + 17))).toNat = (inputs t).n.toNat / (inputs t).d.toNat := by
  have numerator := (inputs t).n.isLt
  have digits : ∀ i ≤ 16,
      Dividing (inputs t).n.toNat (inputs t).d.toNat (16 - i) (states (t + 1 + i)) := by
    intro i
    induction i with
    | zero =>
        intro _
        rw [Nat.add_zero, runs t]
        exact dividing_load load positive
    | succ i ih =>
        intro inside
        have before := ih (by omega)
        rw [show 16 - i = 16 - (i + 1) + 1 by omega] at before
        rw [← Nat.add_assoc, runs]
        exact dividing_step before numerator (by omega) (alone i (by omega))
  exact (digits 16 (Nat.le_refl _)).q numerator

end Division

end Synesthesia.DividerRad4
