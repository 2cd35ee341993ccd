/-
Runs of a single-clock synchronous design.

A design is a register type, a reset value and a next-state function that
reads the registers and the inputs of one clock cycle.  A run fixes the inputs
of every cycle, so the register value at cycle `t` is the value seen between
clock edges `t - 1` and `t`.

Nothing here mentions a particular circuit.
-/

import Mathlib.Algebra.Group.Nat.Defs
import Mathlib.Data.List.Basic

namespace Synesthesia.Rtl

variable {State Input Word : Type}

/-- Register value at the start of cycle `t`. -/
def run (step : State → Input → State) (init : State) (inputs : Nat → Input) :
    Nat → State
  | 0 => init
  | t + 1 => step (run step init inputs t) (inputs t)

@[simp] theorem run_zero (step : State → Input → State) (init : State)
    (inputs : Nat → Input) : run step init inputs 0 = init := rfl

theorem run_succ (step : State → Input → State) (init : State)
    (inputs : Nat → Input) (t : Nat) :
    run step init inputs (t + 1) =
      step (run step init inputs t) (inputs t) := rfl

theorem holds_over {Value : Type} (value : Nat → Value) {t length : Nat}
    (keeps : ∀ i < length, value (t + i + 1) = value (t + i)) :
    ∀ i ≤ length, value (t + i) = value t := by
  intro i inside
  induction i with
  | zero => rfl
  | succ i ih =>
      rw [← Nat.add_assoc, keeps i (by omega)]
      exact ih (by omega)

/-- Everything the cycles before `t` contributed, in order. -/
def collect (emit : Nat → List Word) : Nat → List Word
  | 0 => []
  | t + 1 => collect emit t ++ emit t

@[simp] theorem collect_zero (emit : Nat → List Word) : collect emit 0 = [] := rfl

theorem collect_succ (emit : Nat → List Word) (t : Nat) :
    collect emit (t + 1) = collect emit t ++ emit t := rfl

theorem collect_add (emit : Nat → List Word) (t : Nat) :
    ∀ n, collect emit (t + n) = collect emit t ++ collect (fun k => emit (t + k)) n := by
  intro n
  induction n with
  | zero => exact (List.append_nil _).symm
  | succ n ih => rw [← Nat.add_assoc, collect_succ, collect_succ, ih, List.append_assoc]

theorem collect_eq_nil {emit : Nat → List Word} {t : Nat} (silent : ∀ k < t, emit k = []) :
    collect emit t = [] := by
  induction t with
  | zero => rfl
  | succ t ih =>
      rw [collect_succ, ih fun k before => silent k (by omega), silent t (Nat.lt_succ_self t)]
      rfl

theorem collect_isPrefix (emit : Nat → List Word) (t later : Nat) :
    collect emit t <+: collect emit (t + later) := by
  induction later with
  | zero => exact List.prefix_refl _
  | succ later ih =>
      rw [← Nat.add_assoc, collect_succ]
      exact ih.trans (List.prefix_append _ _)

/-- A value that is present only when its strobe is high. -/
def strobed (strobe : Bool) (word : Word) : List Word :=
  if strobe then [word] else []

@[simp] theorem strobed_true (word : Word) : strobed true word = [word] := rfl

@[simp] theorem strobed_false (word : Word) : strobed false word = [] := rfl

theorem map_strobed {Other : Type} (f : Word → Other) (strobe : Bool) (word : Word) :
    (strobed strobe word).map f = strobed strobe (f word) := by
  cases strobe <;> rfl

theorem length_strobed (strobe : Bool) (word : Word) :
    (strobed strobe word).length = strobe.toNat := by
  cases strobe <;> rfl

theorem length_collect_strobed (strobe : Nat → Bool) (left right : Nat → Word) (t : Nat) :
    (collect (fun k => strobed (strobe k) (left k)) t).length =
      (collect (fun k => strobed (strobe k) (right k)) t).length := by
  induction t with
  | zero => rfl
  | succ t ih =>
      rw [collect_succ, collect_succ, List.length_append, List.length_append, ih, length_strobed,
        length_strobed]

/-- Two values behind one strobe give the same words if they agree under it. -/
theorem collect_strobed_eq_iff (strobe : Nat → Bool) (left right : Nat → Word) (t : Nat) :
    collect (fun k => strobed (strobe k) (left k)) t =
        collect (fun k => strobed (strobe k) (right k)) t ↔
      ∀ k < t, strobe k = true → left k = right k := by
  induction t with
  | zero => exact ⟨fun _ k before => absurd before (Nat.not_lt_zero k), fun _ => rfl⟩
  | succ t ih =>
      have lengths := length_collect_strobed strobe left right t
      have last : strobed (strobe t) (left t) = strobed (strobe t) (right t) ↔
          (strobe t = true → left t = right t) := by
        cases strobe t with
        | true => simp
        | false => simp
      rw [collect_succ, collect_succ]
      constructor
      · intro same k before
        obtain ⟨earlier, now⟩ := List.append_inj same lengths
        rcases Nat.lt_succ_iff_lt_or_eq.mp before with past | rfl
        · exact ih.mp earlier k past
        · exact last.mp now
      · intro agree
        rw [ih.mpr fun k before => agree k (by omega), last.mpr (agree t (Nat.lt_succ_self t))]

theorem shift_getLsbD {width kept : Nat} (vec : BitVec width) (bit : Bool) {i : Nat}
    (inside : i ≤ kept) :
    (vec.extractLsb' 0 kept ++ BitVec.ofBool bit).getLsbD i =
      if i = 0 then bit else vec.getLsbD (i - 1) := by
  rw [BitVec.getLsbD_append, BitVec.getLsbD_ofBool, BitVec.getLsbD_extractLsb', Nat.zero_add]
  by_cases first : i = 0
  · subst first
    rfl
  · rw [if_neg (by omega), if_neg first, decide_eq_true (by omega), Bool.true_and]

/-- A quantity that grows whenever it is below `goal` reaches it. -/
theorem reaches_of_grows (size : Nat → Nat) (goal : Nat)
    (grows : ∀ t, size t < goal → ∃ later, t ≤ later ∧ size t < size later) :
    ∀ t, ∃ later, t ≤ later ∧ goal ≤ size later := by
  suffices climb : ∀ missing t, goal - size t ≤ missing →
      ∃ later, t ≤ later ∧ goal ≤ size later from
    fun t => climb _ t (Nat.le_refl _)
  intro missing
  induction missing with
  | zero =>
      intro t done
      exact ⟨t, Nat.le_refl t, Nat.le_of_sub_eq_zero (Nat.le_zero.mp done)⟩
  | succ missing ih =>
      intro t close
      by_cases reached : goal ≤ size t
      · exact ⟨t, Nat.le_refl t, reached⟩
      · obtain ⟨later, after, more⟩ := grows t (Nat.lt_of_not_le reached)
        obtain ⟨last, afterwards, enough⟩ := ih later (by omega)
        exact ⟨last, Nat.le_trans after afterwards, enough⟩

theorem lasts_until {event : Nat → Bool} (property : Nat → Prop)
    (occurs : ∀ t, ∃ later, t ≤ later ∧ event later = true)
    (lasts : ∀ t, property t → event t = false → property (t + 1)) :
    ∀ t, property t → ∃ later, t ≤ later ∧ property later ∧ event later = true := by
  intro t holds
  obtain ⟨later, after, occurred⟩ := occurs t
  obtain ⟨gap, rfl⟩ := Nat.exists_eq_add_of_le after
  clear after
  induction gap generalizing t with
  | zero => exact ⟨t, Nat.le_refl t, holds, occurred⟩
  | succ gap ih =>
      cases now : event t with
      | true => exact ⟨t, Nat.le_refl t, holds, now⟩
      | false =>
          rw [show t + (gap + 1) = t + 1 + gap by omega] at occurred
          obtain ⟨last, after, rest⟩ := ih (t + 1) (lasts t holds now) occurred
          exact ⟨last, by omega, rest⟩

end Synesthesia.Rtl
