/-
Accuracy of the magnitudes with the CORDIC table of the repository.

The tangent of a bin is rounded down before its cosine is looked up, so the magnitude is
never much too large.  It is large enough exactly when the cosine in the table is close
to the cosine of the bin.
-/

import Mathlib.Data.Nat.Sqrt
import Mathlib.Tactic.Ring
import Synesthesia.FusiformGyrus.MagnitudePasses

namespace Synesthesia.Magnitude

open Synesthesia.ButterflyWing (Complex)

/-- `cordic_ram.mif` -/
def cordicRamMif (address : BitVec 8) : BitVec 16 :=
  BitVec.ofNat 16 (entries.getD address.toNat 0)
where
  entries : List Nat :=
    [65535, 46340, 29308, 20724, 15894, 12852, 10774, 9268, 8128, 7237, 6521, 5933, 5442, 5026,
      4669, 4359, 4088, 3848, 3635, 3444, 3272, 3117, 2975, 2846, 2728, 2619, 2518, 2425, 2339,
      2258, 2183, 2112, 2047, 1985, 1926, 1871, 1819, 1770, 1724, 1679, 1637, 1597, 1559, 1523,
      1489, 1455, 1424, 1394, 1365, 1337, 1310, 1284, 1260, 1236, 1213, 1191, 1170, 1149, 1129,
      1110, 1092, 1074, 1056, 1040, 1023, 1008, 992, 978, 963, 949, 936, 922, 910, 897, 885, 873,
      862, 851, 840, 829, 819, 809, 799, 789, 780, 770, 761, 753, 744, 736, 728, 720, 712, 704, 697,
      689, 682, 675, 668, 661, 655, 648, 642, 636, 630, 624, 618, 612, 606, 601, 595, 590, 585, 579,
      574, 569, 564, 560, 555, 550, 546, 541, 537, 532, 528, 524, 520, 516, 511, 508, 504, 500, 496,
      492, 489, 485, 481, 478, 474, 471, 468, 464, 461, 458, 455, 451, 448, 445, 442, 439, 436, 434,
      431, 428, 425, 422, 420, 417, 414, 412, 409, 407, 404, 402, 399, 397, 394, 392, 390, 387, 385,
      383, 381, 378, 376, 374, 372, 370, 368, 366, 364, 362, 360, 358, 356, 354, 352, 350, 348, 346,
      344, 343, 341, 339, 337, 336, 334, 332, 330, 329, 327, 326, 324, 322, 321, 319, 318, 316, 315,
      313, 312, 310, 309, 307, 306, 304, 303, 302, 300, 299, 297, 296, 295, 293, 292, 291, 289, 288,
      287, 286, 284, 283, 282, 281, 280, 278, 277, 276, 275, 274, 273, 271, 270, 269, 268, 267, 266,
      265, 264, 263, 262, 261, 260, 259, 258, 257]

def modulusSq (word : Complex 32) : Nat := modulus word.real ^ 2 + modulus word.im ^ 2

/-- A magnitude within five percent of the true modulus. -/
def Accurate (word : Complex 32) (m : Nat) : Prop :=
  95 ^ 2 * modulusSq word < 100 ^ 2 * m ^ 2 ∧ 100 ^ 2 * m ^ 2 < 105 ^ 2 * modulusSq word

/-- Bins other than zero with both parts below `2 ^ 25`. -/
structure InRange (word : Complex 32) : Prop where
  real : modulus word.real < 2 ^ 25
  im : modulus word.im < 2 ^ 25
  nonzero : word.real ≠ 0 ∨ word.im ≠ 0

/-- The next integer above 95 percent of the modulus, counted in units. -/
def aim (word : Complex 32) (unit : Nat) : Nat :=
  Nat.sqrt (95 ^ 2 * modulusSq word) / (100 * unit) + 1

/-- The cosine in the table is no larger than the real part allows for a magnitude of
at least 95 percent.  From `2 ^ 16` on the real part is divided before it is scaled. -/
def Resolved (word : Complex 32) : Prop :=
  word.real ≠ 0 ∧
    if modulus word.real < 2 ^ 16 then
      cosine cordicRamMif word * aim word 1 ≤ modulus word.real * 2 ^ 16
    else cosine cordicRamMif word * aim word (2 ^ 16) ≤ modulus word.real

instance (word : Complex 32) (m : Nat) : Decidable (Accurate word m) :=
  inferInstanceAs (Decidable (_ ∧ _))

instance (word : Complex 32) : Decidable (Resolved word) :=
  inferInstanceAs (Decidable (_ ∧ _))

/-! ### The table -/

theorem table_facts (index : Fin 256) :
    2 ^ 32 * 100 ^ 2 <
        105 ^ 2 * ((1 + index.val ^ 2) * (cordicRamMif (BitVec.ofNat 8 index)).toNat ^ 2) ∧
      65535 ≤ (cordicRamMif (BitVec.ofNat 8 index)).toNat * (index.val + 1) := by
  have table : cordicRamMif.entries.length = 256 ∧
      ∀ entry ∈ cordicRamMif.entries.zipIdx, entry.1 < 2 ^ 16 ∧
        2 ^ 32 * 100 ^ 2 < 105 ^ 2 * ((1 + entry.2 ^ 2) * entry.1 ^ 2) ∧
        65535 ≤ entry.1 * (entry.2 + 1) := by
    decide +kernel
  have place : index.val < cordicRamMif.entries.length := index.isLt.trans_eq table.1.symm
  obtain ⟨fits, facts⟩ := table.2 (cordicRamMif.entries[index.val], index.val)
    (List.mk_mem_zipIdx_iff_getElem?.mpr (List.getElem?_eq_getElem place))
  have word : (cordicRamMif (BitVec.ofNat 8 index)).toNat = cordicRamMif.entries[index.val] := by
    rw [cordicRamMif, BitVec.toNat_ofNat, BitVec.toNat_ofNat, Nat.mod_eq_of_lt index.isLt,
      List.getD_eq_getElem?_getD, List.getElem?_eq_getElem place, Option.getD_some,
      Nat.mod_eq_of_lt fits]
  rw [word]
  exact facts

/-! ### The index of a bin -/

section Bin

variable {word : Complex 32} (nonzero : word.real ≠ 0)

include nonzero

theorem index_le : (cordicIndex word).toNat * modulus word.real ≤ modulus word.im := by
  have below : (cordicIndex word).toNat ≤ tangent word := by
    unfold cordicIndex
    by_cases large : 255 < tangent word
    · rw [if_pos (.inr large)]
      exact Nat.le_of_lt large
    · rw [if_neg (not_or.mpr ⟨nonzero, large⟩), BitVec.toNat_ofNat]
      exact Nat.mod_le _ _
  exact Nat.le_trans (Nat.mul_le_mul_right _ below) (Nat.div_mul_le_self _ _)

theorem modulusSq_ge :
    modulus word.real ^ 2 * (1 + (cordicIndex word).toNat ^ 2) ≤ modulusSq word := by
  have square := Nat.pow_le_pow_left (index_le nonzero) 2
  rw [Nat.mul_pow] at square
  unfold modulusSq
  calc
    modulus word.real ^ 2 * (1 + (cordicIndex word).toNat ^ 2) =
        modulus word.real ^ 2 + (cordicIndex word).toNat ^ 2 * modulus word.real ^ 2 := by
      rw [Nat.mul_add, Nat.mul_one, Nat.mul_comm ((cordicIndex word).toNat ^ 2)]
    _ ≤ _ := Nat.add_le_add_left square _

end Bin

theorem cosine_facts (word : Complex 32) :
    2 ^ 32 * 100 ^ 2 <
        105 ^ 2 * ((1 + (cordicIndex word).toNat ^ 2) * cosine cordicRamMif word ^ 2) ∧
      65535 ≤ cosine cordicRamMif word * ((cordicIndex word).toNat + 1) := by
  have facts := table_facts ⟨(cordicIndex word).toNat, (cordicIndex word).isLt⟩
  rw [BitVec.ofNat_toNat, BitVec.setWidth_eq] at facts
  exact facts

theorem cosine_pos (word : Complex 32) : 0 < cosine cordicRamMif word := by
  apply Nat.pos_of_ne_zero
  intro zero
  have facts := (cosine_facts word).2
  rw [zero, Nat.zero_mul] at facts
  exact absurd facts (by decide)

/-! ### The two bounds -/

theorem never_large {word : Complex 32} (nonzero : word.real ≠ 0) {m : Nat}
    (divided : m * cosine cordicRamMif word ≤ modulus word.real * 2 ^ 16) :
    100 ^ 2 * m ^ 2 < 105 ^ 2 * modulusSq word := by
  have positive : 0 < modulus word.real ^ 2 := Nat.pow_pos (modulus_pos nonzero)
  have square := Nat.pow_le_pow_left divided 2
  rw [Nat.mul_pow, Nat.mul_pow] at square
  have table := (cosine_facts word).1
  have below := modulusSq_ge nonzero
  generalize modulus word.real ^ 2 = real at *
  generalize cosine cordicRamMif word ^ 2 = cosineSq at *
  generalize 1 + (cordicIndex word).toNat ^ 2 = secantSq at *
  refine Nat.lt_of_mul_lt_mul_right (a := cosineSq) ?_
  calc
    100 ^ 2 * m ^ 2 * cosineSq = 100 ^ 2 * (m ^ 2 * cosineSq) := Nat.mul_assoc _ _ _
    _ ≤ 100 ^ 2 * (real * (2 ^ 16) ^ 2) := Nat.mul_le_mul_left _ square
    _ = real * (2 ^ 32 * 100 ^ 2) := by ring
    _ < real * (105 ^ 2 * (secantSq * cosineSq)) := Nat.mul_lt_mul_of_pos_left table positive
    _ = 105 ^ 2 * (real * secantSq) * cosineSq := by ring
    _ ≤ 105 ^ 2 * modulusSq word * cosineSq :=
      Nat.mul_le_mul_right _ (Nat.mul_le_mul_left _ below)

/-- A multiple of the unit is at least 95 percent of the modulus when it reaches the
next integer. -/
theorem large_enough (word : Complex 32) {unit count : Nat} (positive : 0 < unit) :
    95 ^ 2 * modulusSq word < 100 ^ 2 * (count * unit) ^ 2 ↔ aim word unit ≤ count := by
  unfold aim
  rw [← Nat.mul_pow, ← Nat.sqrt_lt', Nat.succ_le_iff, Nat.div_lt_iff_lt_mul (by omega)]
  rw [show count * (100 * unit) = 100 * (count * unit) by
    rw [← Nat.mul_assoc, Nat.mul_comm count, Nat.mul_assoc]]

/-! ### Magnitudes -/

theorem magnitude_fine {word : Complex 32} (fine : modulus word.real < 2 ^ 16) :
    magnitude cordicRamMif word = modulus word.real * 2 ^ 16 / cosine cordicRamMif word := by
  unfold magnitude scaledQuotient
  exact if_pos fine

theorem magnitude_zero {word : Complex 32} (zero : word.real = 0) :
    magnitude cordicRamMif word = 0 := by
  have nothing : modulus word.real = 0 := by
    rw [zero]
    rfl
  rw [magnitude_fine (by rw [nothing]; decide), nothing, Nat.zero_mul, Nat.zero_div]

theorem magnitude_coarse {word : Complex 32} (range : InRange word) (nonzero : word.real ≠ 0)
    (coarse : ¬ modulus word.real < 2 ^ 16) :
    magnitude cordicRamMif word =
      modulus word.real / cosine cordicRamMif word * 2 ^ 16 := by
  have table := (cosine_facts word).2
  have index := index_le nonzero
  have real := range.real
  have im := range.im
  have fits : modulus word.real / cosine cordicRamMif word < 2 ^ 16 := by
    rw [Nat.div_lt_iff_lt_mul (cosine_pos word)]
    have reach : modulus word.real * ((cordicIndex word).toNat + 1) < 2 ^ 26 := by
      rw [Nat.mul_add, Nat.mul_one, Nat.mul_comm]
      omega
    have scaled : modulus word.real * 65535 ≤ cosine cordicRamMif word * 2 ^ 26 := by
      calc
        modulus word.real * 65535 ≤
            modulus word.real * (cosine cordicRamMif word * ((cordicIndex word).toNat + 1)) :=
          Nat.mul_le_mul_left _ table
        _ = cosine cordicRamMif word * (modulus word.real * ((cordicIndex word).toNat + 1)) := by
          ring
        _ ≤ _ := Nat.mul_le_mul_left _ (Nat.le_of_lt reach)
    have positive := cosine_pos word
    omega
  unfold magnitude scaledQuotient
  rw [if_neg coarse, Nat.mod_eq_of_lt fits]

theorem magnitude_upper {word : Complex 32} (range : InRange word) :
    100 ^ 2 * magnitude cordicRamMif word ^ 2 < 105 ^ 2 * modulusSq word := by
  by_cases zero : word.real = 0
  · have im : word.im ≠ 0 := range.nonzero.resolve_left (not_not.mpr zero)
    have positive : 0 < modulusSq word :=
      Nat.lt_of_lt_of_le (Nat.pow_pos (modulus_pos im)) (Nat.le_add_left _ _)
    rw [magnitude_zero zero]
    exact Nat.mul_pos (by decide) positive
  · apply never_large zero
    by_cases fine : modulus word.real < 2 ^ 16
    · rw [magnitude_fine fine]
      exact Nat.div_mul_le_self _ _
    · rw [magnitude_coarse range zero fine, Nat.mul_right_comm]
      exact Nat.mul_le_mul_right _ (Nat.div_mul_le_self _ _)

/-- Exactly the resolved bins are accurate. -/
theorem accurate_iff {word : Complex 32} (range : InRange word) :
    Accurate word (magnitude cordicRamMif word) ↔ Resolved word := by
  rw [Accurate, and_iff_left (magnitude_upper range), Resolved]
  by_cases zero : word.real = 0
  · rw [magnitude_zero zero]
    constructor
    · exact fun large => absurd large (Nat.not_lt_zero _)
    · exact fun resolved => absurd zero resolved.1
  · rw [ne_eq, and_iff_right zero]
    by_cases fine : modulus word.real < 2 ^ 16
    · rw [if_pos fine, ← Nat.mul_one (magnitude cordicRamMif word),
        large_enough word Nat.one_pos, magnitude_fine fine,
        Nat.le_div_iff_mul_le (cosine_pos word), Nat.mul_comm]
    · rw [if_neg fine, magnitude_coarse range zero fine, large_enough word (Nat.two_pow_pos 16),
        Nat.le_div_iff_mul_le (cosine_pos word), Nat.mul_comm]

end Synesthesia.Magnitude
