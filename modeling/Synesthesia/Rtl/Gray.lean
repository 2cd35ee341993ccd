/-
Gray-coded pointer comparison for a FIFO of `2 ^ width` words.

The pointers carry one bit more than the address.  Two pointers are equal when
their Gray codes are equal, and exactly one memory apart when their Gray codes
agree except in the two topmost bits.
-/

import Mathlib.Data.Nat.Bitwise

namespace Synesthesia.Rtl

/-- Binary-reflected Gray code: each bit exclusive-or its left neighbour. -/
def gray {bits : Nat} (value : BitVec bits) : BitVec bits :=
  value ^^^ (value >>> 1)

theorem getLsbD_gray {bits : Nat} (value : BitVec bits) (index : Nat) :
    (gray value).getLsbD index =
      (value.getLsbD index ^^ value.getLsbD (index + 1)) := by
  simp [gray, Nat.add_comm 1 index]

/-- Two values agree from a bit upwards when their Gray codes do: the top bits
are equal and each lower bit is fixed by the one above it. -/
theorem getLsbD_eq_of_gray {bits : Nat} (left right : BitVec bits)
    (same : ∀ index, (gray left).getLsbD index = (gray right).getLsbD index) :
    ∀ distance index, bits ≤ index + distance →
      left.getLsbD index = right.getLsbD index := by
  intro distance
  induction distance with
  | zero =>
      intro index outside
      rw [BitVec.getLsbD_of_ge _ _ (by omega), BitVec.getLsbD_of_ge _ _ (by omega)]
  | succ distance ih =>
      intro index outside
      have above := ih (index + 1) (by omega)
      have code := same index
      rw [getLsbD_gray, getLsbD_gray, above] at code
      simpa using code

theorem gray_injective {bits : Nat} {left right : BitVec bits}
    (same : gray left = gray right) : left = right := by
  apply BitVec.eq_of_getLsbD_eq
  intro index _
  exact getLsbD_eq_of_gray left right (fun i => by rw [same]) bits index (by omega)

theorem getLsbD_add_twoPow {width : Nat} (value : BitVec (width + 1))
    (index : Nat) (inside : index ≤ width) :
    (value + BitVec.twoPow (width + 1) width).getLsbD index =
      (value.getLsbD index ^^ decide (index = width)) := by
  have weight : 2 ^ width < 2 ^ (width + 1) := Nat.pow_lt_pow_right (by omega) (by omega)
  simp only [BitVec.getLsbD, BitVec.toNat_add, BitVec.toNat_twoPow,
    Nat.mod_eq_of_lt weight]
  rw [Nat.testBit_mod_two_pow, Nat.add_comm value.toNat]
  rcases Nat.lt_or_eq_of_le inside with below | top
  · rw [Nat.testBit_two_pow_add_gt below]
    simp [Nat.ne_of_lt below]
    omega
  · subst top
    rw [Nat.testBit_two_pow_add_eq]
    simp

/-- The comparison used for a full FIFO: the two topmost Gray bits differ and
the others agree exactly when the pointers are one whole memory apart. -/
theorem gray_compare_full {width : Nat} (positive : 0 < width)
    (write read : BitVec (width + 1)) :
    ((gray write).extractLsb' (width - 1) 2 =
        ~~~ (gray read).extractLsb' (width - 1) 2 ∧
      (gray write).extractLsb' 0 (width - 1) =
        (gray read).extractLsb' 0 (width - 1)) ↔
      write = read + BitVec.twoPow (width + 1) width := by
  have flipped : ∀ index, index ≤ width →
      (gray (read + BitVec.twoPow (width + 1) width)).getLsbD index =
        ((gray read).getLsbD index ^^ decide (width - 1 ≤ index)) := by
    intro index inside
    rw [getLsbD_gray, getLsbD_gray, getLsbD_add_twoPow read index inside]
    by_cases top : index = width
    · subst top
      rw [BitVec.getLsbD_of_ge _ (index + 1) (by omega),
        BitVec.getLsbD_of_ge read (index + 1) (by omega)]
      simp
    · rw [getLsbD_add_twoPow read (index + 1) (by omega)]
      by_cases next : index + 1 = width
      · simp [next, top, show width - 1 ≤ index by omega]
      · simp [next, top, show ¬ width - 1 ≤ index by omega]
  constructor
  · rintro ⟨upper, lower⟩
    apply gray_injective
    apply BitVec.eq_of_getLsbD_eq
    intro index inside
    rw [flipped index (by omega)]
    by_cases low : index < width - 1
    · have bit := congrArg (fun v => v.getLsbD index) lower
      simp only [BitVec.getLsbD_extractLsb', low, decide_true, Bool.true_and,
        Nat.zero_add] at bit
      simp [bit, show ¬ width - 1 ≤ index by omega]
    · have bit := congrArg (fun v => v.getLsbD (index - (width - 1))) upper
      simp only [BitVec.getLsbD_extractLsb', BitVec.getLsbD_not,
        show width - 1 + (index - (width - 1)) = index by omega,
        show index - (width - 1) < 2 by omega, decide_true, Bool.true_and] at bit
      simp [bit, show width - 1 ≤ index by omega]
  · intro apart
    subst apart
    constructor
    · apply BitVec.eq_of_getLsbD_eq
      intro index inside
      simp only [BitVec.getLsbD_extractLsb', BitVec.getLsbD_not, inside,
        decide_true, Bool.true_and]
      rw [flipped (width - 1 + index) (by omega)]
      simp
    · apply BitVec.eq_of_getLsbD_eq
      intro index inside
      simp only [BitVec.getLsbD_extractLsb', inside, decide_true, Bool.true_and,
        Nat.zero_add]
      rw [flipped index (by omega)]
      simp [show ¬ width - 1 ≤ index by omega]

end Synesthesia.Rtl
