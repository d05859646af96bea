import ApiSchema.Decimal.Shortest
import ApiSchema.Proofs.Json.Numerals

set_option autoImplicit false

namespace ApiSchema

theorem Binary64.units_pos {code : Nat} (positive : 0 < code) : 0 < units code := by
  rw [units]
  split
  · exact positive
  · exact Nat.mul_pos (Nat.add_pos_left (by decide) _) (Nat.pow_pos (by decide))

namespace Decimal

/-- Zero is no point of an interval between positive ends. -/
theorem pos_of_inside {least greatest below width code : Nat} (least_pos : 0 < least)
    (greatest_pos : 0 < greatest)
    (inside : ((least < below * width && below * width < greatest) ||
      (code % 2 = 0 && (least = below * width || below * width = greatest))) = true) :
    0 < below := by
  refine Nat.pos_of_ne_zero ?_
  rintro rfl
  rw [Nat.zero_mul] at inside
  simp [Nat.ne_of_gt least_pos, Nat.ne_of_lt greatest_pos] at inside

theorem gridPoint?_pos {code n : Nat} {power : Int} (positive : 0 < code)
    (found : gridPoint? code power = some n) : 0 < n := by
  have scale_pos : 0 < (gridScale power).1 := by
    rw [gridScale]
    split
    · exact Nat.pow_pos (by decide)
    · exact Nat.one_pos
  have units_pos := Binary64.units_pos positive
  have least_pos := Nat.mul_pos
    (Nat.add_pos_right (Binary64.units (code - 1)) units_pos) scale_pos
  have greatest_pos := Nat.mul_pos
    (Nat.add_pos_left units_pos (Binary64.units (code + 1))) scale_pos
  simp only [gridPoint?] at found
  split at found
  · cases found
  · next inside _ => exact Option.some.inj found ▸ pos_of_inside least_pos greatest_pos inside
  · exact Option.some.inj found ▸ Nat.succ_pos _
  · next inside _ =>
      have below_pos := pos_of_inside least_pos greatest_pos inside
      split at found
      · exact Option.some.inj found ▸ below_pos
      split at found
      · exact Option.some.inj found ▸ Nat.succ_pos _
      · exact Option.some.inj found ▸ Nat.add_pos_left below_pos _

/-- What is found on a grid has a digit other than zero; else nothing is found. -/
theorem shortest_cases {code : Nat} (positive : 0 < code) :
    0 < (shortest code).1 ∨ shortest code = (0, 0) := by
  rw [shortest]
  generalize gridPowers = powers
  cases found : powers.findSome? fun power => (gridPoint? code power).map (·, power) with
  | none => exact Or.inr rfl
  | some point =>
      obtain ⟨power, -, here⟩ := List.exists_of_findSome?_eq_some found
      obtain ⟨n, on_grid, rfl⟩ := Option.map_eq_some_iff.mp here
      exact Or.inl (gridPoint?_pos positive on_grid)

/-- The digits of a number other than zero make a proper numeral, wherever the point stands. -/
theorem Layout.numeral_proper (layout : Layout) (negative : Bool) {n : Nat} (positive : 0 < n)
    (power : Int) : (layout.numeral negative n power).Proper := by
  have digits := Text.digits_ofNat n
  have some_digit := Text.ofNat_ne_nil n
  have no_lead := Text.head?_ofNat positive
  have zeros : ∀ (k : Nat), ∀ c ∈ List.replicate k '0', c.isDigit = true := by
    intro k c member
    rw [List.eq_of_mem_replicate member]
    decide
  have both : ∀ {first second : Text}, (∀ c ∈ first, c.isDigit = true) →
      (∀ c ∈ second, c.isDigit = true) → ∀ c ∈ first ++ second, c.isDigit = true :=
    fun one two c member => (List.mem_append.mp member).elim (one c) (two c)
  -- the digits are cut in two behind the first or a later one
  have cut : ∀ (k : Nat) (exponent : Option Int), (Numeral.mk negative
      ((Text.ofNat n).take (k + 1)) ((Text.ofNat n).drop (k + 1)) exponent).Proper := by
    intro k exponent
    refine ⟨fun c member => digits c (List.mem_of_mem_take member), by simpa using some_digit,
      Or.inl ?_, fun c member => digits c (List.mem_of_mem_drop member)⟩
    simpa [List.head?_take] using no_lead
  rw [Layout.numeral]
  split
  · split
    · refine ⟨both digits (zeros _), by simp [some_digit], Or.inl ?_, by simp⟩
      obtain ⟨c, more, same⟩ := List.exists_cons_of_ne_nil some_digit
      rw [same] at no_lead
      simpa [same] using no_lead
    split
    · exact cut _ none
    · exact ⟨by simp, by simp, Or.inr rfl, both (zeros _) digits⟩
  · exact cut 0 _

/-- The numeral of the digits that a magnitude has if nothing is found. -/
theorem Layout.numeral_zero (layout : Layout) (negative : Bool) :
    (layout.numeral negative 0 0).Proper := by
  have digits : Text.ofNat 0 = ['0'] := rfl
  rw [Layout.numeral, digits]
  split
  · exact ⟨by simp, by simp, Or.inr rfl, by simp⟩
  · exact ⟨by simp, by simp, Or.inr rfl, by simp⟩

theorem Layout.ofBinary64?_proper {layout : Layout} {value : Binary64} {numeral : Numeral}
    (spelled : layout.ofBinary64? value = some numeral) : numeral.Proper := by
  cases value with
  | infinite negative => cases spelled
  | nan => cases spelled
  | finite negative code =>
      rw [Layout.ofBinary64?] at spelled
      split at spelled
      · rw [← Option.some.inj spelled]
        exact ⟨by simp, by simp, Or.inr rfl, by simp⟩
      · next not_zero =>
          have known := shortest_cases (Nat.pos_of_ne_zero not_zero)
          generalize shortest code.val = digits at known spelled
          obtain ⟨n, power⟩ := digits
          rw [← Option.some.inj spelled]
          rcases known with some_digit | nothing
          · exact layout.numeral_proper negative some_digit power
          · obtain ⟨rfl, rfl⟩ := Prod.mk.inj nothing
            exact layout.numeral_zero negative

end Decimal

end ApiSchema
