/-
Word memories and the circular window of a FIFO kept in one.

A memory is a function from addresses to words.  The window of a FIFO is the
list of words at consecutive addresses, taken modulo the size of the memory,
from the read count up to the write count.
-/

import Mathlib.Algebra.Group.Nat.Defs
import Mathlib.Data.List.Basic

namespace Synesthesia.Rtl

variable {Address Word : Type} [DecidableEq Address]

def store (memory : Address → Word) (enable : Bool) (address : Address)
    (word : Word) : Address → Word :=
  fun probe => if enable = true ∧ probe = address then word else memory probe

@[simp] theorem store_false (memory : Address → Word) (address : Address)
    (word : Word) : store memory false address word = memory := by
  funext probe
  simp [store]

theorem store_congr {memory memory' : Address → Word} {enable enable' : Bool}
    {address address' : Address} {word word' : Word} (memories : memory' = memory)
    (enables : enable' = enable)
    (agree : enable = true → address' = address ∧ word' = word) :
    store memory' enable' address' word' = store memory enable address word := by
  subst memories enables
  cases enable' with
  | true => rw [(agree rfl).1, (agree rfl).2]
  | false => rw [store_false, store_false]

@[simp] theorem store_same (memory : Address → Word) (address : Address)
    (word : Word) : store memory true address word address = word := by
  simp [store]

theorem store_other (memory : Address → Word) (enable : Bool)
    {address probe : Address} (word : Word) (different : probe ≠ address) :
    store memory enable address word probe = memory probe := by
  simp [store, different]

/-- A memory filled address by address: word `i` is stored in clock `slot i`. -/
structure Filled {bits : Nat} (memory : Nat → BitVec bits → Word) (slot : Nat → Nat)
    (word : Nat → Word) (last : Nat) : Prop where
  apart : ∀ i j, slot i = slot j → i = j
  stored : ∀ i < 2 ^ bits, slot i < last →
    memory (slot i + 1) = store (memory (slot i)) true (BitVec.ofNat bits i) (word i)
  kept : ∀ t < last, (∀ i < 2 ^ bits, t ≠ slot i) → memory (t + 1) = memory t

theorem Filled.at {bits last : Nat} {memory : Nat → BitVec bits → Word} {slot : Nat → Nat}
    {word : Nat → Word} (filled : Filled memory slot word last) (address : BitVec bits) :
    ∀ t ≤ last, memory t address =
      if slot address.toNat < t then word address.toNat else memory 0 address := by
  intro t
  induction t with
  | zero => exact fun _ => (if_neg (Nat.not_lt_zero _)).symm
  | succ t ih =>
      intro inside
      have before := ih (by omega)
      by_cases now : ∃ i, i < 2 ^ bits ∧ t = slot i
      · obtain ⟨i, small, rfl⟩ := now
        rw [filled.stored i small (by omega)]
        by_cases same : address = BitVec.ofNat bits i
        · have index : address.toNat = i := by
            rw [same, BitVec.toNat_ofNat, Nat.mod_eq_of_lt small]
          rw [← same, store_same, index, if_pos (Nat.lt_succ_self _)]
        · have other : slot address.toNat ≠ slot i := by
            intro equal
            apply same
            rw [← filled.apart _ _ equal, BitVec.ofNat_toNat, BitVec.setWidth_eq]
          rw [store_other _ _ _ same, before]
          congr 1
          rw [eq_iff_iff]
          omega
      · have free : ∀ i < 2 ^ bits, t ≠ slot i := fun i small equal => now ⟨i, small, equal⟩
        have other := free address.toNat address.isLt
        rw [filled.kept t (by omega) free, before]
        congr 1
        rw [eq_iff_iff]
        omega

/-! ### Circular window -/

/-- The `count` words from position `start` on, wrapping at the memory size. -/
def window {bits : Nat} (memory : BitVec bits → Word) (start count : Nat) :
    List Word :=
  (List.range count).map (fun offset => memory (BitVec.ofNat bits (start + offset)))

@[simp] theorem window_length {bits : Nat} (memory : BitVec bits → Word)
    (start count : Nat) : (window memory start count).length = count := by
  simp [window]

theorem window_pop {bits : Nat} (memory : BitVec bits → Word) (start count : Nat) :
    window memory start (count + 1) =
      memory (BitVec.ofNat bits start) :: window memory (start + 1) count := by
  simp only [window, List.range_succ_eq_map, List.map_cons, List.map_map,
    Nat.add_zero]
  congr 1
  apply List.map_congr_left
  intro offset _
  simp [Function.comp_apply, Nat.add_comm, Nat.add_left_comm]

theorem window_store_outside {bits : Nat} (memory : BitVec bits → Word)
    (enable : Bool) (address : BitVec bits) (word : Word) (start count : Nat)
    (outside : enable = true → ∀ offset, offset < count →
      BitVec.ofNat bits (start + offset) ≠ address) :
    window (store memory enable address word) start count =
      window memory start count := by
  cases enable with
  | false => rw [store_false]
  | true =>
      apply List.map_congr_left
      intro offset member
      exact store_other memory true word
        (outside rfl offset (List.mem_range.mp member))

theorem position_ne_of_lt {bits start count offset : Nat}
    (room : count < 2 ^ bits) (inside : offset < count) :
    BitVec.ofNat bits (start + offset) ≠ BitVec.ofNat bits (start + count) := by
  intro same
  have values := congrArg BitVec.toNat same
  rw [BitVec.toNat_ofNat, BitVec.toNat_ofNat] at values
  have apart : (start + count - (start + offset)) % 2 ^ bits = 0 :=
    Nat.sub_mod_eq_zero_of_mod_eq values.symm
  rw [Nat.mod_eq_of_lt (by omega)] at apart
  omega

theorem window_push {bits : Nat} (memory : BitVec bits → Word) (word : Word)
    (start count : Nat) (room : count < 2 ^ bits) :
    window (store memory true (BitVec.ofNat bits (start + count)) word) start
        (count + 1) =
      window memory start count ++ [word] := by
  have old := window_store_outside memory true
    (BitVec.ofNat bits (start + count)) word start count
    (fun _ _ inside => position_ne_of_lt room inside)
  rw [← old]
  simp [window, List.range_succ, -List.map_map]

end Synesthesia.Rtl
