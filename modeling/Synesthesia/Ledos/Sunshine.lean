/-
One picture of `acid_thread`: `fft_cache.c`, `lsd.c`, `vcortex.c`.

`read_fft_cache` copies the spectra of both channels, the plugin `sunshine` turns the
words of the left one into on-times, and `pwm_paint` writes the on-times to the RAM of the
modulation, one word for each channel.
-/

import Synesthesia.Prog.BusHost
import Synesthesia.Prog.Served
import Synesthesia.Rtl.Memory

namespace Synesthesia.Sunshine

open Synesthesia.Prog
open Synesthesia.Rtl

/-! ### Reading the spectra -/

def fftLcacheBase : BitVec 32 := 0x80
def fftRcacheBase : BitVec 32 := 0x00

structure FftBffrs where
  lfftBffr : BitVec 8 → BitVec 32
  rfftBffr : BitVec 8 → BitVec 32

abbrev BusProgram32 (α : Type) : Type := BusProgram (BitVec 32) (BitVec 32) α

def iord32Direct (addr : BitVec 32) : BusProgram32 (BitVec 32) :=
  Requests.call (Access.read addr)

/-- The passes of the loop that are left, with the value of `i`. -/
def readPasses : Nat → BitVec 8 → FftBffrs → BusProgram32 FftBffrs
  | 0, _, bffrs => pure bffrs
  | left + 1, i, bffrs =>
      iord32Direct ((i.setWidth 32 + fftRcacheBase) <<< 4) >>= fun rword =>
        iord32Direct ((i.setWidth 32 + fftLcacheBase) <<< 4) >>= fun lword =>
          readPasses left (i + 1)
            { lfftBffr := store bffrs.lfftBffr true i lword
              rfftBffr := store bffrs.rfftBffr true i rword }

/-- The loop runs while `i < num`. -/
def readFftCache (num : BitVec 8) (bffrs : FftBffrs) : BusProgram32 FftBffrs :=
  readPasses num.toNat 0 bffrs

theorem readPasses_atMost (left : Nat) (i : BitVec 8) (bffrs : FftBffrs) :
    (readPasses left i bffrs).AtMost (2 * left) := by
  induction left generalizing i bffrs with
  | zero => trivial
  | succ left ih => exact fun _ _ => ih _ _

section Spec

/-- Answers of an environment in which every address has one word. -/
def Fixed (word : BitVec 32 → BitVec 32) :
    (access : Access (BitVec 32) (BitVec 32)) → access.Answer → Prop
  | .write _ _, _ => True
  | .read addr, answer => answer = word addr

def OnlyReads (access : Access (BitVec 32) (BitVec 32)) : Prop := access.isWrite = false

variable {word : BitVec 32 → BitVec 32}

def Filled (word : BitVec 32 → BitVec 32) (num : Nat) (bffrs : FftBffrs) : Prop :=
  ∀ i : BitVec 8, i.toNat < num →
    bffrs.rfftBffr i = word ((i.setWidth 32 + fftRcacheBase) <<< 4) ∧
      bffrs.lfftBffr i = word ((i.setWidth 32 + fftLcacheBase) <<< 4)

theorem Filled.pass {i : BitVec 8} {bffrs : FftBffrs} {rword lword : BitVec 32}
    (filled : Filled word i.toNat bffrs)
    (right : rword = word ((i.setWidth 32 + fftRcacheBase) <<< 4))
    (left : lword = word ((i.setWidth 32 + fftLcacheBase) <<< 4)) :
    Filled word (i.toNat + 1)
      { lfftBffr := store bffrs.lfftBffr true i lword
        rfftBffr := store bffrs.rfftBffr true i rword } := by
  intro k before
  by_cases last : k = i
  · subst last
    simp only [store_same]
    exact ⟨right, left⟩
  · have earlier : k.toNat ≠ i.toNat := fun same => last (BitVec.eq_of_toNat_eq same)
    simp only [store_other _ _ _ last]
    exact filled k (by omega)

theorem readPasses_ensures (left : Nat) (i : BitVec 8) (bffrs : FftBffrs)
    (fits : i.toNat + left < 256) (filled : Filled word i.toNat bffrs) :
    (readPasses left i bffrs).Ensures (Fixed word) OnlyReads (Filled word (i.toNat + left)) := by
  induction left generalizing i bffrs with
  | zero => exact filled
  | succ left ih =>
      have next : (i + 1).toNat = i.toNat + 1 := by
        rw [BitVec.toNat_add]
        exact Nat.mod_eq_of_lt (Nat.lt_of_le_of_lt (Nat.add_le_add_left (Nat.succ_pos left) _) fits)
      refine ⟨rfl, fun rword right => ⟨rfl, fun lword left' => ?_⟩⟩
      have rest := ih (i + 1)
        { lfftBffr := store bffrs.lfftBffr true i lword
          rfftBffr := store bffrs.rfftBffr true i rword }
      rw [next, Nat.add_assoc, Nat.add_comm 1] at rest
      exact rest fits (filled.pass right left')

theorem readFftCache_ensures (num : BitVec 8) (bffrs : FftBffrs) :
    (readFftCache num bffrs).Ensures (Fixed word) OnlyReads (Filled word num.toNat) := by
  have zero : (0 : BitVec 8).toNat = 0 := rfl
  have ensured : (readPasses num.toNat 0 bffrs).Ensures (Fixed word) OnlyReads
      (Filled word ((0 : BitVec 8).toNat + num.toNat)) :=
    readPasses_ensures num.toNat 0 bffrs (by omega)
      fun _ before => absurd before (Nat.not_lt_zero _)
  rw [zero, Nat.zero_add] at ensured
  exact ensured

end Spec

/-! ### Painting -/

def vcortexPwmRamBase : BitVec 32 := 0x31000

def vcortexPwmChnnls : Nat := 16

/-- One buffer of on-times; the cast to `alt_u16` keeps the low half. -/
def acidSunshine (lfftBffr : BitVec 8 → BitVec 32) (i : BitVec 4) : BitVec 16 :=
  (lfftBffr (i.setWidth 8) <<< 14).setWidth 16

/-- The accesses of `pwm_paint`, relative to the base of the slave. -/
def pwmPaint (bffr : BitVec 4 → BitVec 16) : List (Access (BitVec 32) (BitVec 32)) :=
  (List.range vcortexPwmChnnls).map fun i =>
    .write (vcortexPwmRamBase + (BitVec.ofNat 32 i <<< 4)) ((bffr (BitVec.ofNat 4 i)).setWidth 32)

/-- Only the two lowest bits of a word of the spectrum reach the on-time. -/
theorem acidSunshine_toNat (lfftBffr : BitVec 8 → BitVec 32) (i : BitVec 4) :
    (acidSunshine lfftBffr i).toNat = (lfftBffr (i.setWidth 8)).toNat % 4 * 2 ^ 14 := by
  rw [acidSunshine, BitVec.toNat_setWidth, BitVec.toNat_shiftLeft, Nat.shiftLeft_eq]
  omega

end Synesthesia.Sunshine
