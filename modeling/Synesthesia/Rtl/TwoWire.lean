/-
What happens on a two-wire bus, seen by a device that follows the levels of its clock
line and its data line.

A change of the data line while the clock line is high starts or stops a transaction;
a rising clock line samples the data line.  Nothing here mentions a particular master.
-/

import Synesthesia.Rtl.Clocked

namespace Synesthesia.TwoWire

open Synesthesia.Rtl

structure Lines where
  scl : Bool
  sda : Bool

inductive Event where
  | start
  | stop
  | rise (sda : Bool)
  | fall
  deriving DecidableEq, Repr

/-- What a device sees between two clocks. -/
def observe (before after : Lines) : List Event :=
  match before.scl, after.scl with
  | true, true =>
      if before.sda = after.sda then [] else if after.sda then [.stop] else [.start]
  | false, true => [.rise after.sda]
  | true, false => [.fall]
  | false, false => []

def events (lines : Nat → Lines) (t length : Nat) : List Event :=
  collect (fun i => observe (lines (t + i)) (lines (t + i + 1))) length

/-! ### Transactions -/

def pulse (level : Bool) : List Event := [.rise level, .fall]

/-- A byte from its highest bit on, and the acknowledge slot. -/
def levels (byte : BitVec 8) (nack : Bool) (slot : Nat) : Bool :=
  if slot < 8 then byte.getLsbD (7 - slot) else nack

def frame (byte : BitVec 8) (nack : Bool) : List Event :=
  collect (fun slot => pulse (levels byte nack slot)) 9

/-- Bytes up to the first one that is not acknowledged. -/
def transfer : List (BitVec 8 × Bool) → List Event
  | [] => []
  | (byte, nack) :: rest => frame byte nack ++ if nack then [] else transfer rest

/-- The clock line rises once more before the stop. -/
def transaction (bytes : List (BitVec 8 × Bool)) : List Event :=
  [.start, .fall] ++ transfer bytes ++ [.rise false, .stop]

/-- The number of bytes up to the first one that is not acknowledged. -/
def sent : List (BitVec 8 × Bool) → Nat
  | [] => 0
  | (_, nack) :: rest => 1 + if nack then 0 else sent rest

/-- Some acknowledge slot of a transfer is sampled high. -/
def refused (bytes : List (BitVec 8 × Bool)) : Bool := (bytes.take (sent bytes)).any Prod.snd

theorem transfer_cons (byte : BitVec 8) (nack : Bool) (rest : List (BitVec 8 × Bool)) :
    transfer ((byte, nack) :: rest) =
      frame byte nack ++ transfer (if nack then [] else rest) := by
  cases nack <;> rfl

theorem sent_cons (byte : BitVec 8) (nack : Bool) (rest : List (BitVec 8 × Bool)) :
    sent ((byte, nack) :: rest) = 1 + sent (if nack then [] else rest) := by
  cases nack <;> rfl

theorem refused_cons (byte : BitVec 8) (nack : Bool) (rest : List (BitVec 8 × Bool)) :
    refused ((byte, nack) :: rest) = (nack || refused rest) := by
  unfold refused
  rw [sent_cons, Nat.add_comm, List.take_succ_cons, List.any_cons]
  cases nack <;> rfl

example : frame 0x34 false =
    [.rise false, .fall, .rise false, .fall, .rise true, .fall, .rise true, .fall,
      .rise false, .fall, .rise true, .fall, .rise false, .fall, .rise false, .fall,
      .rise false, .fall] := by
  decide

/-! ### Events of an interval -/

theorem observe_low {before after : Lines} (low : before.scl = false)
    (still : after.scl = false) : observe before after = [] := by
  unfold observe
  rw [low, still]

theorem observe_still {before after : Lines} (same : before = after) :
    observe before after = [] := by
  subst same
  unfold observe
  cases before.scl with
  | false => rfl
  | true => exact if_pos rfl

theorem events_add (lines : Nat → Lines) (t first second : Nat) :
    events lines t (first + second) = events lines t first ++ events lines (t + first) second := by
  unfold events
  rw [collect_add]
  simp only [Nat.add_assoc]

theorem events_silent {lines : Nat → Lines} {t length : Nat}
    (silent : ∀ i < length, observe (lines (t + i)) (lines (t + i + 1)) = []) :
    events lines t length = [] :=
  collect_eq_nil silent

theorem events_two {lines : Nat → Lines} {t length first second : Nat} (order : first < second)
    (inside : second < length)
    (silent : ∀ i < length, i ≠ first → i ≠ second →
      observe (lines (t + i)) (lines (t + i + 1)) = []) :
    events lines t length =
      observe (lines (t + first)) (lines (t + first + 1)) ++
        observe (lines (t + second)) (lines (t + second + 1)) := by
  have before : events lines t first = [] :=
    events_silent fun i lower => silent i (by omega) (by omega) (by omega)
  have between : events lines (t + (first + 1)) (second - first - 1) = [] := by
    refine events_silent fun i lower => ?_
    rw [show t + (first + 1) + i = t + (first + 1 + i) by omega]
    exact silent _ (by omega) (by omega) (by omega)
  have after : events lines (t + (second + 1)) (length - second - 1) = [] := by
    refine events_silent fun i lower => ?_
    rw [show t + (second + 1) + i = t + (second + 1 + i) by omega]
    exact silent _ (by omega) (by omega) (by omega)
  have one : ∀ u, events lines u 1 = observe (lines u) (lines (u + 1)) := fun u => List.nil_append _
  calc
    events lines t length =
        events lines t
          (first + (1 + ((second - first - 1) + (1 + (length - second - 1))))) := by
      rw [show first + (1 + ((second - first - 1) + (1 + (length - second - 1)))) = length by omega]
    _ = _ := by
      rw [events_add, before, events_add, one, events_add,
        show t + first + 1 = t + (first + 1) by omega, between, events_add, one,
        show t + (first + 1) + (second - first - 1) = t + second by omega,
        show t + second + 1 = t + (second + 1) by omega, after]
      simp

end Synesthesia.TwoWire
