/-
Dual-clock show-ahead FIFO with lagging flags.

The two sides of a dual-clock FIFO learn of each other's accesses with a delay.
The read side knows of the first `seen` words only, and the write side still
counts `held` places that were freed already, so both flags err on the safe
side.  How many words or places a side learns of at one of its edges is an input
of the model.
-/

import Synesthesia.Rtl.Clocked

namespace Synesthesia.Rtl

structure AsyncFifo (Word : Type) where
  words : List Word
  seen : Nat
  held : Nat

namespace AsyncFifo

variable {Word : Type}

def init : AsyncFifo Word :=
  { words := []
    seen := 0
    held := 0 }

def rdempty (fifo : AsyncFifo Word) : Bool := decide (fifo.seen = 0)

def wrfull (depth : Nat) (fifo : AsyncFifo Word) : Bool :=
  decide (depth ≤ fifo.words.length + fifo.held)

/-- The oldest word is shown without a request, once it has been seen. -/
def q (fifo : AsyncFifo Word) (unknown : Word) : Word :=
  if fifo.seen = 0 then unknown else fifo.words.headD unknown

def readEdge (fifo : AsyncFifo Word) (rdreq : Bool) (learn : Nat) : AsyncFifo Word :=
  let words := if rdreq then fifo.words.tail else fifo.words
  { words := words
    seen := min (fifo.seen - rdreq.toNat + learn) words.length
    held := fifo.held + rdreq.toNat }

def writeEdge (fifo : AsyncFifo Word) (wrreq : Bool) (word : Word) (release : Nat) :
    AsyncFifo Word :=
  { words := fifo.words ++ strobed wrreq word
    seen := fifo.seen
    held := fifo.held - release }

/-- The read side never knows of words that are not there. -/
def Sound (fifo : AsyncFifo Word) : Prop := fifo.seen ≤ fifo.words.length

theorem init_sound : Sound (init : AsyncFifo Word) := Nat.le_refl 0

theorem readEdge_sound (fifo : AsyncFifo Word) (rdreq : Bool) (learn : Nat) :
    Sound (readEdge fifo rdreq learn) := Nat.min_le_right _ _

theorem writeEdge_sound {fifo : AsyncFifo Word} (sound : Sound fifo) (wrreq : Bool)
    (word : Word) (release : Nat) : Sound (writeEdge fifo wrreq word release) := by
  unfold Sound writeEdge at *
  simp only [List.length_append]
  omega

theorem q_of_seen {fifo : AsyncFifo Word} (sound : Sound fifo)
    (known : fifo.rdempty = false) (unknown : Word) :
    ∃ rest, fifo.words = fifo.q unknown :: rest := by
  simp only [rdempty, decide_eq_false_iff_not] at known
  unfold Sound at sound
  rw [q, if_neg known]
  cases words : fifo.words with
  | nil =>
      rw [words] at sound
      exact absurd (Nat.le_zero.mp sound) known
  | cons word rest => exact ⟨rest, rfl⟩

theorem readEdge_seen {fifo : AsyncFifo Word} (sound : Sound fifo)
    (known : fifo.rdempty = false) (learn : Nat) :
    (readEdge fifo false learn).rdempty = false := by
  simp only [rdempty, decide_eq_false_iff_not] at known ⊢
  unfold Sound at sound
  simp only [readEdge, Bool.false_eq_true, reduceIte, Bool.toNat_false, Nat.sub_zero]
  omega

end AsyncFifo

end Synesthesia.Rtl
