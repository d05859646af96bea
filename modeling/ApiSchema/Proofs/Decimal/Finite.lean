import ApiSchema.Decimal.Numeral
import Mathlib.Algebra.Group.Nat.Defs

set_option autoImplicit false

namespace ApiSchema

namespace Binary64

theorem binade_eq : binade = 2 ^ 52 := rfl

def onePower : Nat := 1074

theorem unitsPerOne_eq : unitsPerOne = 2 ^ onePower := by decide +kernel

theorem unitsPerOne_pos : 0 < unitsPerOne := by
  rw [unitsPerOne_eq]
  exact Nat.two_pow_pos onePower

/-- Rounding goes up by one code at most. -/
theorem nearestCode_le_succ (num den : Nat) :
    nearestCode num den ≤ num / den / 2 ^ (Nat.log2 (num / den) - 52) +
      (Nat.log2 (num / den) - 52) * binade + 1 := by
  simp only [nearestCode]
  split
  · exact Nat.le_succ _
  split
  · exact Nat.le_refl _
  · have odd := Nat.mod_lt (num / den / Nat.pow 2 (Nat.log2 (num / den) - 52) +
      (Nat.log2 (num / den) - 52) * binade) (show 0 < 2 by decide)
    exact Nat.add_le_add_left (Nat.le_of_lt_succ odd) _

theorem below_le_nearestCode (num den : Nat) :
    num / den / 2 ^ (Nat.log2 (num / den) - 52) + (Nat.log2 (num / den) - 52) * binade ≤
      nearestCode num den := by
  simp only [nearestCode]
  split
  · exact Nat.le_refl _
  split
  · exact Nat.le_succ _
  · exact Nat.le_add_right _ _

/-- A power of two is the first magnitude of its binade. -/
theorem nearestCode_two_pow {den k : Nat} (positive : 0 < den) (large : 52 ≤ k) :
    nearestCode (2 ^ k * den) den = (k - 51) * binade := by
  have whole : 2 ^ k * den / den = 2 ^ k := Nat.mul_div_cancel _ positive
  have parts : 2 ^ k = 2 ^ 52 * 2 ^ (k - 52) := by
    rw [← Nat.pow_add]
    congr 1
    omega
  have stride_pos : 0 < Nat.pow 2 (k - 52) := Nat.pow_pos (by decide)
  have leading : 2 ^ k / Nat.pow 2 (k - 52) = binade := by
    rw [parts]
    exact Nat.mul_div_cancel _ stride_pos
  have back : binade * (Nat.pow 2 (k - 52) * den) = 2 ^ k * den := by
    rw [parts, Nat.mul_assoc]
    rfl
  have nothing_left : 2 * (2 ^ k * den - binade * (Nat.pow 2 (k - 52) * den)) <
      Nat.pow 2 (k - 52) * den := by
    rw [back, Nat.sub_self]
    exact Nat.mul_pos stride_pos positive
  have count : k - 51 = k - 52 + 1 := by omega
  simp only [nearestCode, whole, Nat.log2_two_pow, leading, nothing_left, ↓reduceIte]
  rw [count, Nat.succ_mul, Nat.add_comm]

/-- What is not above a power of two has a code not above the first of its binade. -/
theorem nearestCode_le {num den k : Nat} (positive : 0 < den) (large : 53 ≤ k)
    (below : num ≤ 2 ^ k * den) : nearestCode num den ≤ (k - 51) * binade := by
  rcases Nat.eq_or_lt_of_le below with rfl | less
  · exact Nat.le_of_eq (nearestCode_two_pow positive (by omega))
  · have whole : num / den < 2 ^ k := Nat.div_lt_of_lt_mul (by rwa [Nat.mul_comm])
    have room := nearestCode_le_succ num den
    generalize num / den = n at whole room
    have shift : Nat.log2 n - 52 ≤ k - 53 := by
      by_cases zero : n = 0
      · subst zero
        simp
      · have log := (Nat.log2_lt zero).mpr whole
        omega
    have leading : n / 2 ^ (Nat.log2 n - 52) < 2 ^ 53 := by
      rw [Nat.div_lt_iff_lt_mul (Nat.pow_pos (by decide)), ← Nat.pow_add]
      exact Nat.lt_of_lt_of_le Nat.lt_log2_self (Nat.pow_le_pow_right (by decide) (by omega))
    generalize Nat.log2 n - 52 = s at shift leading room
    have binades : (s + 2) * binade ≤ (k - 51) * binade :=
      Nat.mul_le_mul_right binade (by omega)
    rw [binade_eq] at room binades ⊢
    omega

/-- What is not below a power of two has a code not below the first of its binade. -/
theorem le_nearestCode {num den k : Nat} (positive : 0 < den) (large : 52 ≤ k)
    (above : 2 ^ k * den ≤ num) : (k - 51) * binade ≤ nearestCode num den := by
  have whole : 2 ^ k ≤ num / den := (Nat.le_div_iff_mul_le positive).mpr above
  have room := below_le_nearestCode num den
  generalize num / den = n at whole room
  have some_unit : n ≠ 0 := Nat.ne_of_gt (Nat.lt_of_lt_of_le (Nat.two_pow_pos k) whole)
  have log : k ≤ Nat.log2 n := (Nat.le_log2 some_unit).mpr whole
  have leading : 2 ^ 52 ≤ n / 2 ^ (Nat.log2 n - 52) := by
    rw [Nat.le_div_iff_mul_le (Nat.two_pow_pos _), ← Nat.pow_add]
    refine Nat.le_trans (Nat.pow_le_pow_right (by decide) ?_) (Nat.log2_self_le some_unit)
    omega
  have binades : (k - 51) * binade ≤ (Nat.log2 n - 52 + 1) * binade :=
    Nat.mul_le_mul_right binade (by omega)
  generalize Nat.log2 n - 52 = s at leading room binades
  rw [binade_eq] at room binades ⊢
  omega

/-- A magnitude up to the first of a binade is not above that power of two. -/
theorem units_le {code k : Nat} (large : 52 ≤ k) (below : code ≤ (k - 51) * binade) :
    units code ≤ 2 ^ k := by
  have binade_pos : 0 < binade := Nat.pow_pos (by decide)
  rw [units]
  split
  · next small =>
      have first : binade ≤ 2 ^ k := Nat.pow_le_pow_right (by decide) large
      omega
  · next normal =>
      have split_code := Nat.div_add_mod code binade
      have remainder := Nat.mod_lt code binade_pos
      have some_binade : 1 ≤ code / binade := (Nat.one_le_div_iff binade_pos).mpr (by omega)
      have quotient : code / binade ≤ k - 51 := by
        rw [← Nat.mul_div_cancel (k - 51) binade_pos]
        exact Nat.div_le_div_right below
      rcases Nat.eq_or_lt_of_le quotient with last | before
      · -- the first magnitude of the last binade
        have first : code % binade = 0 := by
          rw [last, Nat.mul_comm] at split_code
          omega
        rw [first, last, Nat.add_zero]
        change 2 ^ 52 * 2 ^ (k - 51 - 1) ≤ _
        rw [← Nat.pow_add]
        exact Nat.pow_le_pow_right (by decide) (by omega)
      · have leading : binade + code % binade ≤ 2 ^ 53 := by
          rw [binade_eq] at remainder ⊢
          omega
        have scale : Nat.pow 2 (code / binade - 1) ≤ 2 ^ (k - 53) :=
          Nat.pow_le_pow_right (by decide) (by omega)
        refine Nat.le_trans (Nat.mul_le_mul leading scale) ?_
        rw [← Nat.pow_add]
        exact Nat.pow_le_pow_right (by decide) (by omega)

/-- A magnitude from the first of a binade on is not below that power of two. -/
theorem le_units {code k : Nat} (large : 52 ≤ k) (above : (k - 51) * binade ≤ code) :
    2 ^ k ≤ units code := by
  have binade_pos : 0 < binade := Nat.pow_pos (by decide)
  have normal : ¬ code < binade := by
    have one := Nat.mul_le_mul_right binade (show 1 ≤ k - 51 by omega)
    omega
  have quotient : k - 51 ≤ code / binade := (Nat.le_div_iff_mul_le binade_pos).mpr above
  have scale : 2 ^ (k - 52) ≤ Nat.pow 2 (code / binade - 1) :=
    Nat.pow_le_pow_right (by decide) (by omega)
  have parts : 2 ^ k = binade * 2 ^ (k - 52) := by
    rw [binade_eq, ← Nat.pow_add]
    congr 1
    omega
  rw [units, if_neg normal, parts]
  exact Nat.mul_le_mul (Nat.le_add_right _ _) scale

theorem ofCode_isFinite {negative : Bool} {code : Nat} (below : code < magnitudes) :
    (ofCode negative code).isFinite = true := by
  rw [ofCode, dif_pos below]
  rfl

/-- The power of two, in units, that no word of 64 bits is above. -/
def wordPower : Nat := 64 + onePower

def wordCode : Nat := (wordPower - 51) * binade

theorem wordCode_lt : wordCode < magnitudes := by decide

/-- A word of 64 bits has a finite double. -/
theorem nearestCode_word {n : Nat} (word : n ≤ 2 ^ 64) :
    nearestCode (n * unitsPerOne) 1 ≤ wordCode := by
  refine nearestCode_le Nat.one_pos (by decide) ?_
  have units : 2 ^ 64 * unitsPerOne = 2 ^ wordPower := by
    rw [unitsPerOne_eq, wordPower, Nat.pow_add]
  rw [Nat.mul_one, ← units]
  exact Nat.mul_le_mul_right unitsPerOne word

theorem ofNat_isFinite {n : Nat} (negative : Bool) (word : n ≤ 2 ^ 64) :
    (ofNat negative n).isFinite = true :=
  ofCode_isFinite (Nat.lt_of_le_of_lt (nearestCode_word word) wordCode_lt)

end Binary64

namespace Numeral

open Binary64

theorem appendFitting_le {start : Nat} (fits : start ≤ wordLimit) (digits : Text) :
    (appendFitting start digits).1 ≤ wordLimit := by
  induction digits generalizing start with
  | nil => exact fits
  | cons c rest ih =>
      rw [appendFitting]
      split
      · next next_fits => exact ih next_fits
      · exact fits

theorem significand_le (numeral : Numeral) : numeral.significand.1 ≤ wordLimit :=
  appendFitting_le (appendFitting_le (Nat.zero_le _) numeral.whole) numeral.fraction

/-- No power of ten that magnitudes are divided by is below one. -/
theorem unitsPerOne_le_powerUnits (n : Nat) : unitsPerOne ≤ powerUnits n := by
  have some_power : 1 ≤ Nat.pow 10 n := Nat.pow_pos (by decide)
  have above : 2 ^ onePower * 1 ≤ Nat.pow 10 n * unitsPerOne := by
    rw [Nat.mul_one, ← unitsPerOne_eq]
    exact Nat.le_mul_of_pos_left _ some_power
  rw [unitsPerOne_eq]
  exact le_units (by decide) (le_nearestCode Nat.one_pos (by decide) above)

/-- Dividing by a power of ten does not lead to greater codes. -/
theorem nearestCode_power {code : Nat} (below : code ≤ wordCode) (n : Nat) :
    nearestCode (units code * unitsPerOne) (powerUnits n) ≤ wordCode := by
  have one := unitsPerOne_le_powerUnits n
  have positive : 0 < powerUnits n := Nat.lt_of_lt_of_le unitsPerOne_pos one
  exact nearestCode_le positive (by decide) (Nat.mul_le_mul (units_le (by decide) below) one)

theorem scaleDown_le {code : Nat} (n : Nat) (below : code ≤ wordCode) :
    scaleDown code n ≤ wordCode := by
  fun_induction scaleDown code n with
  | case1 => exact nearestCode_power below _
  | case2 _ _ _ ih => exact ih (nearestCode_power below 308)

theorem scaleUp?_isFinite {negative : Bool} {code n : Nat} {value : Binary64}
    (scaled : scaleUp? negative code n = some value) : value.isFinite = true := by
  unfold scaleUp? at scaled
  split at scaled
  · rw [← Option.some.inj scaled]
    rfl
  split at scaled
  · cases scaled
  · split at scaled
    · cases scaled
    · next product finite =>
        rw [← Option.some.inj scaled]
        revert finite
        rw [ofRatio, ofCode]
        split
        · intro _
          rfl
        · intro finite
          exact absurd rfl (finite negative)

/-- What is read from a JSON numeral is a finite double. -/
theorem scaled?_isFinite {numeral : Numeral} {value : Binary64}
    (read : numeral.scaled? = some value) : value.isFinite = true := by
  have digits : numeral.significand.1 ≤ 2 ^ 64 :=
    Nat.le_trans numeral.significand_le (by decide)
  simp only [scaled?] at read
  split at read
  · rw [← Option.some.inj read]
    refine ofCode_isFinite (Nat.lt_of_le_of_lt (scaleDown_le _ ?_) wordCode_lt)
    exact nearestCode_word digits
  · exact scaleUp?_isFinite read

end Numeral

end ApiSchema
