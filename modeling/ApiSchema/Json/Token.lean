import ApiSchema.Json.Basic
import ApiSchema.Text.Hex

set_option autoImplicit false

namespace ApiSchema.Json

inductive Token
  | openArray
  | closeArray
  | openObject
  | closeObject
  | comma
  | colon
  | leaf (value : Json)
  /-- the place from where on a text has no tokens -/
  | fault
deriving Repr

/-- A part of a string: a character, or a unit of sixteen bits written in hexadecimal. -/
inductive StringPart
  | plain (c : Char)
  | unit (n : Nat)
deriving DecidableEq, Repr

/-- The character that a backslash and `c` stand for. -/
def escaped? (c : Char) : Option Char :=
  if c = '"' then some '"'
  else if c = '\\' then some '\\'
  else if c = '/' then some '/'
  else if c = 'b' then some '\x08'
  else if c = 'f' then some '\x0c'
  else if c = 'n' then some '\n'
  else if c = 'r' then some '\r'
  else if c = 't' then some '\t'
  else none

/-- The parts of a string up to its closing quotation mark, and the text behind that. -/
def stringParts? : Text → Option (List StringPart × Text)
  | [] => none
  | '"' :: rest => some ([], rest)
  | '\\' :: 'u' :: a :: b :: c :: d :: rest =>
    match Text.hexNumber? [a, b, c, d], stringParts? rest with
    | some n, some (parts, after) => some (.unit n :: parts, after)
    | _, _ => none
  | '\\' :: c :: rest =>
    match escaped? c, stringParts? rest with
    | some plain, some (parts, after) => some (.plain plain :: parts, after)
    | _, _ => none
  | c :: rest =>
    if c.toNat < 0x20 ∨ c = '\\' then none
    else
      match stringParts? rest with
      | some (parts, after) => some (.plain c :: parts, after)
      | none => none

def isHighSurrogate (n : Nat) : Bool := 0xD800 ≤ n && n < 0xDC00

def isLowSurrogate (n : Nat) : Bool := 0xDC00 ≤ n && n < 0xE000

/-- The text that the parts stand for. A unit in the surrogate range is half of a character, and the
two halves must stand together. -/
def joinParts? : List StringPart → Option Text
  | [] => some []
  | .plain c :: rest => (joinParts? rest).map (c :: ·)
  | .unit high :: .unit low :: rest =>
    if isHighSurrogate high then
      if isLowSurrogate low then
        (joinParts? rest).map
          (Char.ofNat (0x10000 + (high - 0xD800) * 0x400 + (low - 0xDC00)) :: ·)
      else none
    else if isLowSurrogate high then none
    else (joinParts? (.unit low :: rest)).map (Char.ofNat high :: ·)
  | .unit n :: rest =>
    if isHighSurrogate n || isLowSurrogate n then none
    else (joinParts? rest).map (Char.ofNat n :: ·)

/-- The digits at the start of a text and the rest; none if there is no digit. -/
def someDigits? (text : Text) : Option (Text × Text) :=
  let digits := text.takeWhile Char.isDigit
  if digits = [] then none else some (digits, text.dropWhile Char.isDigit)

def fraction? : Text → Option (Text × Text)
  | '.' :: rest => someDigits? rest
  | text => some ([], text)

def exponentDigits? (negative : Bool) (text : Text) : Option (Option Int × Text) :=
  (someDigits? text).map fun (digits, rest) =>
    let n := Numeral.appendDigits 0 digits
    (some (if negative then -(n : Int) else n), rest)

def signedExponent? : Text → Option (Option Int × Text)
  | '-' :: rest => exponentDigits? true rest
  | '+' :: rest => exponentDigits? false rest
  | text => exponentDigits? false text

def exponent? : Text → Option (Option Int × Text)
  | 'e' :: rest => signedExponent? rest
  | 'E' :: rest => signedExponent? rest
  | text => some (none, text)

/-- A whole part: a zero alone, or digits of which the first is no zero. -/
def whole? (text : Text) : Option (Text × Text) :=
  (someDigits? text).filter fun (digits, _) => digits.head? ≠ some '0' || digits.length = 1

def unsignedNumeral? (negative : Bool) (text : Text) : Option (Numeral × Text) := do
  let (whole, rest) ← whole? text
  let (fraction, rest) ← fraction? rest
  let (exponent, rest) ← exponent? rest
  return (⟨negative, whole, fraction, exponent⟩, rest)

def numeral? : Text → Option (Numeral × Text)
  | '-' :: rest => unsignedNumeral? true rest
  | text => unsignedNumeral? false text

/-- The string behind an opening quotation mark. -/
def stringLeaf? (text : Text) : Option (Json × Text) :=
  (stringParts? text).map fun (parts, rest) =>
    (match joinParts? parts with
      | some value => .string value
      | none => .unpaired, rest)

/-- The value that is no container at the start of a text. -/
def leaf? (text : Text) : Option (Json × Text) :=
  match text with
  | '"' :: rest => stringLeaf? rest
  | 'n' :: rest => (Text.stripStart? "ull" rest).map (.null, ·)
  | 't' :: rest => (Text.stripStart? "rue" rest).map (.flag true, ·)
  | 'f' :: rest => (Text.stripStart? "alse" rest).map (.flag false, ·)
  | _ => (numeral? text).map fun (numeral, rest) => (.number numeral, rest)

theorem stringParts?_length_lt {text : Text} {parts : List StringPart} {rest : Text}
    (found : stringParts? text = some (parts, rest)) : rest.length < text.length := by
  fun_induction stringParts? text generalizing parts rest <;> simp_all
  all_goals omega

theorem someDigits?_length_lt {text digits rest : Text}
    (found : someDigits? text = some (digits, rest)) : rest.length < text.length := by
  unfold someDigits? at found
  simp only at found
  have whole := List.takeWhile_append_dropWhile (p := Char.isDigit) (l := text)
  split at found
  · simp at found
  · next some_digit =>
    simp only [Option.some.injEq, Prod.mk.injEq] at found
    have positive := List.length_pos_iff.mpr some_digit
    rw [← whole, ← found.2]
    simp only [List.length_append]
    omega

theorem exponentDigits?_length_lt {negative : Bool} {text rest : Text} {n : Option Int}
    (found : exponentDigits? negative text = some (n, rest)) : rest.length < text.length := by
  obtain ⟨⟨digits, after⟩, scanned, same⟩ := Option.map_eq_some_iff.mp found
  simp only [Prod.mk.injEq] at same
  exact same.2 ▸ someDigits?_length_lt scanned

theorem fraction?_length_le {text digits rest : Text}
    (found : fraction? text = some (digits, rest)) : rest.length ≤ text.length := by
  unfold fraction? at found
  split at found
  · have := someDigits?_length_lt found
    simp only [List.length_cons]
    omega
  · simp only [Option.some.injEq, Prod.mk.injEq] at found
    simp [found.2]

theorem exponent?_length_le {text rest : Text} {n : Option Int}
    (found : exponent? text = some (n, rest)) : rest.length ≤ text.length := by
  have signed : ∀ {tail : Text}, signedExponent? tail = some (n, rest) →
      rest.length ≤ tail.length + 1 := by
    intro tail h
    unfold signedExponent? at h
    split at h
    all_goals
      have := exponentDigits?_length_lt h
      grind
  unfold exponent? at found
  split at found
  · exact signed found
  · exact signed found
  · simp only [Option.some.injEq, Prod.mk.injEq] at found
    simp [found.2]

theorem unsignedNumeral?_length_lt {negative : Bool} {text rest : Text} {numeral : Numeral}
    (found : unsignedNumeral? negative text = some (numeral, rest)) :
    rest.length < text.length := by
  unfold unsignedNumeral? at found
  simp only [Option.bind_eq_bind, Option.pure_def, Option.bind_eq_some_iff, Option.some.injEq,
    Prod.mk.injEq, Prod.exists] at found
  obtain ⟨whole, first, hwhole, fraction, second, hfraction, exponent, third, hexponent, -, rfl⟩ :=
    found
  have one := someDigits?_length_lt (Option.filter_eq_some_iff.mp hwhole).1
  have two := fraction?_length_le hfraction
  have three := exponent?_length_le hexponent
  omega

theorem numeral?_length_lt {text rest : Text} {numeral : Numeral}
    (found : numeral? text = some (numeral, rest)) : rest.length < text.length := by
  unfold numeral? at found
  split at found
  · have := unsignedNumeral?_length_lt found
    simp only [List.length_cons]
    omega
  · exact unsignedNumeral?_length_lt found

/-- What stands behind a leaf is shorter than what begins with it. -/
theorem leaf?_length_lt {text rest : Text} {value : Json}
    (found : leaf? text = some (value, rest)) : rest.length < text.length := by
  have literal : ∀ {word tail : Text} {leaf : Json},
      (Text.stripStart? word tail).map (leaf, ·) = some (value, rest) →
        rest.length ≤ tail.length := by
    intro word tail leaf h
    obtain ⟨after, stripped, same⟩ := Option.map_eq_some_iff.mp h
    simp only [Prod.mk.injEq] at same
    rw [Text.stripStart?_eq_some_iff.mp stripped, ← same.2]
    simp
  unfold leaf? at found
  split at found
  · obtain ⟨⟨parts, after⟩, scanned, same⟩ := Option.map_eq_some_iff.mp found
    have shorter := stringParts?_length_lt scanned
    simp only [Prod.mk.injEq] at same
    rw [← same.2]
    simp only [List.length_cons]
    omega
  · exact Nat.lt_succ_of_le (literal found)
  · exact Nat.lt_succ_of_le (literal found)
  · exact Nat.lt_succ_of_le (literal found)
  · obtain ⟨⟨numeral, after⟩, scanned, same⟩ := Option.map_eq_some_iff.mp found
    simp only [Prod.mk.injEq] at same
    exact same.2 ▸ numeral?_length_lt scanned

def mark? (c : Char) : Option Token :=
  if c = '[' then some .openArray
  else if c = ']' then some .closeArray
  else if c = '{' then some .openObject
  else if c = '}' then some .closeObject
  else if c = ',' then some .comma
  else if c = ':' then some .colon
  else none

/-- The characters that may stand between tokens. -/
def isGap (c : Char) : Bool := c = ' ' || c = '\n' || c = '\t' || c = '\r'

/-- The tokens of a text; a fault is the last. -/
def tokens (text : Text) : List Token :=
  match text with
  | [] => []
  | c :: rest =>
    if isGap c then tokens rest
    else
      match mark? c with
      | some token => token :: tokens rest
      | none =>
        match _found : leaf? (c :: rest) with
        | none => [.fault]
        | some (value, after) => .leaf value :: tokens after
termination_by text.length
decreasing_by
  · simp
  · simp
  · exact leaf?_length_lt _found

end ApiSchema.Json
