import ApiSchema.Json.Printer

set_option autoImplicit false

namespace ApiSchema.Json

/-- The part that a written character is read as. -/
def writtenPart (c : Char) : StringPart :=
  if c ∈ ['\x08', '\x0c', '\n', '\r', '\t'] then .plain c
  else if c.toNat < 0x20 then .unit c.toNat
  else .plain c

def withPart (part : StringPart) : List StringPart × Text → List StringPart × Text
  | (parts, rest) => (part :: parts, rest)

theorem stringParts?_plain {c : Char} (visible : ¬ c.toNat < 0x20) (quote : c ≠ '"')
    (backslash : c ≠ '\\') (rest : Text) :
    stringParts? (c :: rest) = (stringParts? rest).map (withPart (.plain c)) := by
  rw [stringParts?, if_neg (by simp [visible, backslash])]
  · cases stringParts? rest <;> rfl
  all_goals simp [quote, backslash]

theorem stringParts?_escape {c plain : Char} (known : escaped? c = some plain) (rest : Text) :
    stringParts? ('\\' :: c :: rest) = (stringParts? rest).map (withPart (.plain plain)) := by
  rw [stringParts?, known]
  · cases stringParts? rest <;> rfl
  · rintro _ _ _ _ _ rfl
    simp [escaped?] at known

theorem stringParts?_unit {a b c d : Char} {n : Nat}
    (known : Text.hexNumber? [a, b, c, d] = some n) (rest : Text) :
    stringParts? ('\\' :: 'u' :: a :: b :: c :: d :: rest) =
      (stringParts? rest).map (withPart (.unit n)) := by
  rw [stringParts?, known]
  cases stringParts? rest <;> rfl

theorem hexNumber?_control :
    ∀ n < 0x20, Text.hexNumber? ['0', '0', Nat.digitChar (n / 16), Nat.digitChar (n % 16)] =
      some n := by
  decide

theorem stringParts?_writeChar (c : Char) (rest : Text) :
    stringParts? (writeChar c ++ rest) =
      (stringParts? rest).map (withPart (writtenPart c)) := by
  have short : ∀ e plain, escaped? e = some plain → writtenPart plain = .plain plain →
      stringParts? (['\\', e] ++ rest) =
        (stringParts? rest).map (withPart (writtenPart plain)) := by
    intro e plain known part
    rw [part]
    exact stringParts?_escape known rest
  rw [writeChar]
  split
  · next same => exact same ▸ short '"' '"' (by decide) (by decide)
  split
  · next same => exact same ▸ short '\\' '\\' (by decide) (by decide)
  split
  · next same => exact same ▸ short 'b' '\x08' (by decide) (by decide)
  split
  · next same => exact same ▸ short 'f' '\x0c' (by decide) (by decide)
  split
  · next same => exact same ▸ short 'n' '\n' (by decide) (by decide)
  split
  · next same => exact same ▸ short 'r' '\r' (by decide) (by decide)
  split
  · next same => exact same ▸ short 't' '\t' (by decide) (by decide)
  split
  · next control =>
      have part : writtenPart c = .unit c.toNat := by simp [writtenPart, *]
      rw [part]
      exact stringParts?_unit (hexNumber?_control c.toNat control) rest
  · have part : writtenPart c = .plain c := by simp [writtenPart, *]
    rw [part]
    exact stringParts?_plain ‹_› ‹_› ‹_› rest

theorem stringParts?_writeString (text rest : Text) :
    stringParts? (text.flatMap writeChar ++ '"' :: rest) = some (text.map writtenPart, rest) := by
  induction text with
  | nil => rw [List.flatMap_nil, List.nil_append, stringParts?]; rfl
  | cons c text ih =>
      rw [List.flatMap_cons, List.append_assoc, stringParts?_writeChar, ih]
      rfl

/-- A unit that stands for a control character is no half of a pair. -/
theorem joinParts?_unit {n : Nat} (control : n < 0x20) (parts : List StringPart) :
    joinParts? (.unit n :: parts) = (joinParts? parts).map (Char.ofNat n :: ·) := by
  have high : isHighSurrogate n = false := by simp [isHighSurrogate]; omega
  have low : isLowSurrogate n = false := by simp [isLowSurrogate]; omega
  cases parts with
  | nil => simp [joinParts?, high, low]
  | cons part parts => cases part <;> simp [joinParts?, high, low]

theorem joinParts?_writtenPart (text : Text) :
    joinParts? (text.map writtenPart) = some text := by
  induction text with
  | nil => rw [List.map_nil, joinParts?]
  | cons c text ih =>
      rw [List.map_cons, writtenPart]
      split
      · rw [joinParts?, ih, Option.map_some]
      split
      · next control => rw [joinParts?_unit control, ih, Option.map_some, Char.ofNat_toNat]
      · rw [joinParts?, ih, Option.map_some]

theorem leaf?_writeString (text rest : Text) :
    leaf? (writeString text ++ rest) = some (.string text, rest) := by
  have parts := stringParts?_writeString text rest
  change stringLeaf? (text.flatMap writeChar ++ ['"'] ++ rest) = _
  rw [stringLeaf?, List.append_assoc, List.singleton_append, parts, Option.map_some]
  simp only [joinParts?_writtenPart]

end ApiSchema.Json
