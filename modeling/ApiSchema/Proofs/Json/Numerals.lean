import ApiSchema.Json.Token

set_option autoImplicit false

namespace ApiSchema

namespace Text

theorem digits_ofNat (n : Nat) : ∀ c ∈ ofNat n, c.isDigit = true :=
  fun _ member => Nat.isDigit_of_mem_toDigits (by decide) (by decide) member

theorem ofNat_ne_nil (n : Nat) : ofNat n ≠ [] := Nat.toDigits_ne_nil

/-- A number other than zero begins with another digit. -/
theorem head?_ofNat {n : Nat} (positive : 0 < n) : (ofNat n).head? ≠ some '0' := by
  induction n using Nat.strongRecOn with
  | ind n ih =>
      rw [ofNat, Nat.toDigits_eq_if (by decide)]
      split
      · simpa using Nat.ne_of_gt positive
      · have front := ih (n / 10) (by omega) (by omega)
        obtain ⟨c, more, same⟩ := List.exists_cons_of_ne_nil (ofNat_ne_nil (n / 10))
        rw [ofNat] at same front
        rw [same] at front ⊢
        exact front

end Text

namespace Numeral

theorem appendDigits_eq (digits : Text) (start : Nat) :
    appendDigits start digits = Nat.ofDigitChars 10 digits start := by
  simp only [appendDigits, digitValue, Nat.ofDigitChars, Nat.mul_comm]

@[simp] theorem appendDigits_ofNat (n : Nat) : appendDigits 0 (Text.ofNat n) = n := by
  rw [appendDigits_eq]
  exact Nat.ofDigitChars_ten_toDigits

/-- The whole part holds digits, with no needless zero in front, and so does the fraction, if
there is one. -/
structure Proper (numeral : Numeral) : Prop where
  whole : ∀ c ∈ numeral.whole, c.isDigit = true
  some_digit : numeral.whole ≠ []
  no_lead : numeral.whole.head? ≠ some '0' ∨ numeral.whole.length = 1
  fraction : ∀ c ∈ numeral.fraction, c.isDigit = true

/-- The text of a numeral begins with a sign or a digit. -/
theorem Proper.first {numeral : Numeral} (proper : numeral.Proper) :
    ∃ c more, numeral.text = c :: more ∧ (c = '-' ∨ c.isDigit = true) := by
  obtain ⟨c, more, same⟩ := List.exists_cons_of_ne_nil proper.some_digit
  rw [text]
  cases numeral.negative with
  | true => exact ⟨'-', _, rfl, Or.inl rfl⟩
  | false => exact ⟨c, _, by rw [same]; rfl, Or.inr (proper.whole c (by simp [same]))⟩

theorem proper_ofInt (n : Int) : (ofInt n).Proper where
  whole := Text.digits_ofNat n.natAbs
  some_digit := Text.ofNat_ne_nil n.natAbs
  no_lead := by
    by_cases zero : n.natAbs = 0
    · exact Or.inr (by rw [ofInt, zero]; rfl)
    · exact Or.inl (Text.head?_ofNat (by omega))
  fraction := by simp [ofInt]

end Numeral

namespace Json

/-- The text does not go on with a number. -/
def NumberEnds (rest : Text) : Prop :=
  ∀ c ∈ rest.head?, c.isDigit = false ∧ c ≠ '.' ∧ c ≠ 'e' ∧ c ≠ 'E'

theorem NumberEnds.no_digit {rest : Text} (ends : NumberEnds rest) :
    ∀ c ∈ rest.head?, c.isDigit = false :=
  fun c first => (ends c first).1

theorem someDigits?_append {digits rest : Text} (all : ∀ c ∈ digits, c.isDigit = true)
    (some_digit : digits ≠ []) (stop : ∀ c ∈ rest.head?, c.isDigit = false) :
    someDigits? (digits ++ rest) = some (digits, rest) := by
  have taken : (digits ++ rest).takeWhile Char.isDigit = digits := by
    rw [List.takeWhile_append_of_pos all]
    cases rest with
    | nil => simp
    | cons c rest => simp [stop c rfl]
  have left : (digits ++ rest).dropWhile Char.isDigit = rest := by
    rw [List.dropWhile_append_of_pos all]
    cases rest with
    | nil => rfl
    | cons c rest => simp [stop c rfl]
  simp only [someDigits?, taken, left, some_digit, ↓reduceIte]

theorem exponentDigits?_ofNat {rest : Text} (negative : Bool) (n : Nat)
    (stop : ∀ c ∈ rest.head?, c.isDigit = false) :
    exponentDigits? negative (Text.ofNat n ++ rest) =
      some (some (if negative then -(n : Int) else n), rest) := by
  rw [exponentDigits?, someDigits?_append (Text.digits_ofNat n) (Text.ofNat_ne_nil n) stop,
    Option.map_some]
  simp only [Numeral.appendDigits_ofNat]

/-- An exponent behind its letter. -/
theorem signedExponent?_text {rest : Text} (n : Int)
    (stop : ∀ c ∈ rest.head?, c.isDigit = false) :
    signedExponent? ((if n < 0 then '-' else '+') :: Text.ofNat n.natAbs ++ rest) =
      some (some n, rest) := by
  by_cases below : n < 0
  · rw [if_pos below, List.cons_append, signedExponent?, exponentDigits?_ofNat true _ stop]
    simp only [↓reduceIte, Option.some.injEq, Prod.mk.injEq, and_true]
    omega
  · rw [if_neg below, List.cons_append, signedExponent?, exponentDigits?_ofNat false _ stop]
    simp only [Bool.false_eq_true, ↓reduceIte, Option.some.injEq, Prod.mk.injEq, and_true]
    omega

def exponentPart : Option Int → Text
  | none => []
  | some n => Numeral.exponentText n

def fractionPart (fraction : Text) : Text := if fraction = [] then [] else '.' :: fraction

theorem exponent?_part {rest : Text} (exponent : Option Int) (ends : NumberEnds rest) :
    exponent? (exponentPart exponent ++ rest) = some (exponent, rest) := by
  cases exponent with
  | some n => exact signedExponent?_text n ends.no_digit
  | none =>
      rw [exponentPart, List.nil_append]
      cases rest with
      | nil => rfl
      | cons c rest =>
          obtain ⟨-, -, lower, upper⟩ := ends c rfl
          rw [exponent?.eq_def]
          split <;> simp_all

theorem exponentPart_head? {rest : Text} (exponent : Option Int) (ends : NumberEnds rest) :
    ∀ c ∈ (exponentPart exponent ++ rest).head?, c.isDigit = false ∧ c ≠ '.' := by
  cases exponent with
  | some n =>
      intro c first
      rw [← Option.some.inj first]
      decide
  | none => exact fun c first => ⟨(ends c first).1, (ends c first).2.1⟩

theorem fraction?_part {fraction rest : Text} (all : ∀ c ∈ fraction, c.isDigit = true)
    (stop : ∀ c ∈ rest.head?, c.isDigit = false ∧ c ≠ '.') :
    fraction? (fractionPart fraction ++ rest) = some (fraction, rest) := by
  rw [fractionPart]
  split
  · next empty =>
      subst empty
      cases rest with
      | nil => rfl
      | cons c rest =>
          have other := (stop c rfl).2
          rw [List.nil_append, fraction?.eq_def]
          split <;> simp_all
  · next some_digit => exact someDigits?_append all some_digit fun c first => (stop c first).1

theorem fractionPart_head? (fraction : Text) {rest : Text}
    (stop : ∀ c ∈ rest.head?, c.isDigit = false) :
    ∀ c ∈ (fractionPart fraction ++ rest).head?, c.isDigit = false := by
  rw [fractionPart]
  split
  · exact stop
  · intro c first
    rw [← Option.some.inj first]
    decide

/-- A numeral without its sign is read from its text. -/
theorem unsignedNumeral?_text {numeral : Numeral} (proper : numeral.Proper) {rest : Text}
    (ends : NumberEnds rest) :
    unsignedNumeral? numeral.negative (numeral.whole ++
      (fractionPart numeral.fraction ++ (exponentPart numeral.exponent ++ rest))) =
      some (numeral, rest) := by
  have stop := exponentPart_head? numeral.exponent ends
  have digits := someDigits?_append proper.whole proper.some_digit
    (fractionPart_head? numeral.fraction fun c first => (stop c first).1)
  have whole := congrArg (Option.filter fun part : Text × Text =>
    part.1.head? ≠ some '0' || part.1.length = 1) digits
  rw [Option.filter_some, if_pos (by simpa using proper.no_lead)] at whole
  change whole? _ = _ at whole
  rw [unsignedNumeral?, whole]
  simp only [Option.bind_eq_bind, Option.bind_some, fraction?_part proper.fraction stop,
    exponent?_part numeral.exponent ends]
  rfl

theorem numeral?_text {numeral : Numeral} (proper : numeral.Proper) {rest : Text}
    (ends : NumberEnds rest) : numeral? (numeral.text ++ rest) = some (numeral, rest) := by
  have read := unsignedNumeral?_text proper ends
  have spelled : numeral.text ++ rest = (if numeral.negative then ['-'] else []) ++
      (numeral.whole ++
        (fractionPart numeral.fraction ++ (exponentPart numeral.exponent ++ rest))) := by
    simp only [Numeral.text, fractionPart, List.append_assoc]
    cases numeral.exponent <;> rfl
  rw [spelled]
  cases sign : numeral.negative with
  | true => rwa [sign] at read
  | false =>
      rw [sign] at read
      obtain ⟨c, more, same⟩ := List.exists_cons_of_ne_nil proper.some_digit
      have digit : c ≠ '-' := by
        rintro rfl
        have := proper.whole '-' (by simp [same])
        revert this
        decide
      simp only [Bool.false_eq_true, ↓reduceIte, List.nil_append]
      rw [numeral?.eq_def]
      split
      · simp_all
      · exact read

/-- No numeral begins like another value. -/
theorem leaf?_numeral {numeral : Numeral} (proper : numeral.Proper) {rest : Text}
    (ends : NumberEnds rest) :
    leaf? (numeral.text ++ rest) = some (.number numeral, rest) := by
  have read := numeral?_text proper ends
  obtain ⟨c, more, same, kind⟩ := proper.first
  rw [same, List.cons_append] at read ⊢
  have others : ∀ d ∈ ['"', 'n', 't', 'f'], ¬ (d = '-' ∨ d.isDigit = true) := by simp
  have apart : ∀ d ∈ ['"', 'n', 't', 'f'], ∀ tail : Text, c :: (more ++ rest) ≠ d :: tail := by
    intro d member tail here
    rw [(List.cons.inj here).1] at kind
    exact others d member kind
  rw [leaf?, read, Option.map_some]
  · exact apart '"' (by decide)
  · exact apart 'n' (by decide)
  · exact apart 't' (by decide)
  · exact apart 'f' (by decide)

end Json

end ApiSchema
