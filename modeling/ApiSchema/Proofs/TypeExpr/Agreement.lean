import ApiSchema.TypeExpr.Checker
import ApiSchema.Proofs.TypeExpr.Form
import ApiSchema.Proofs.TypeExpr.Arguments

set_option autoImplicit false

namespace ApiSchema.TypeExpr

open Text (trim)

theorem ofText?_identifier {name : Text} (identifier : isIdentifier name = true) (tail : Text)
    (stop : ∀ c ∈ tail.head?, isIdentifierPart c = false) :
    Shape.ofText? (name ++ tail) = Shape.ofTail? name tail := by
  simp [Shape.ofText?, takeWhile_identifier identifier stop, dropWhile_identifier identifier stop,
    identifier]

/-- What a shape says about the spelling of its text. -/
def Shape.Spells (text : Text) : Shape → Prop
  | bare name => text = name ∧ isIdentifier name = true
  | tagged name format =>
    text = name ++ '#' :: format ∧ isIdentifier name = true ∧ isFormat format = true
  | applied name inner => text = name ++ '<' :: inner ++ ['>'] ∧ isIdentifier name = true

theorem ofText?_spells {text : Text} {shape : Shape} (found : Shape.ofText? text = some shape) :
    shape.Spells text := by
  simp only [Shape.ofText?] at found
  split at found
  · next identifier =>
    have whole := List.takeWhile_append_dropWhile (p := isIdentifierPart) (l := text)
    generalize text.takeWhile isIdentifierPart = name at found whole identifier
    generalize text.dropWhile isIdentifierPart = tail at found whole
    subst whole
    cases tail with
    | nil =>
        simp only [Shape.ofTail?, Option.some.injEq] at found
        subst found
        exact ⟨List.append_nil name, identifier⟩
    | cons c rest =>
        simp only [Shape.ofTail?] at found
        split at found
        · next hash =>
          split at found
          · next free =>
            cases found
            exact ⟨by rw [hash], identifier, free⟩
          · cases found
        · split at found
          · next bracket =>
            obtain ⟨inner, closed, same⟩ := Option.map_eq_some_iff.mp found
            subst same
            refine ⟨?_, identifier⟩
            rw [bracket, Text.stripEnd?_eq_some_iff.mp closed, List.append_assoc, List.cons_append]
            rfl
          · cases found
  · cases found

theorem checkShape_word {word : Word} (valid : word.Valid) : checkShape word.text = .ok [] := by
  have some_text := Word.text_ne_nil valid
  cases word with
  | primitive base =>
      have shape := ofText?_identifier (name_isIdentifier base) [] (by simp)
      rw [List.append_nil] at shape
      simp only [Word.text] at some_text ⊢
      simp [checkShape, some_text, shape, Shape.ofTail?, name_not_keyword]
  | tagged base format =>
      have free : isFormat format = true := valid
      have shape := ofText?_identifier (name_isIdentifier base) ('#' :: format) (by simp; decide)
      simp only [Word.text] at some_text ⊢
      simp [checkShape, shape, Shape.ofTail?, free, Primitive.ofName?_name]
  | named name =>
      obtain ⟨identifier, keyword, -⟩ := isTypeName_iff.mp valid
      have shape := ofText?_identifier identifier [] (by simp)
      rw [List.append_nil] at shape
      simp only [Word.text] at some_text ⊢
      simp [checkShape, some_text, shape, Shape.ofTail?, keyword]

theorem checkShape_applied {name inner : Text} {args : List Text} (word : isTypeName name = true)
    (parts : splitArguments inner = some args) :
    checkShape (name ++ '<' :: inner ++ ['>']) = .ok args := by
  obtain ⟨identifier, free, absent⟩ := isTypeName_iff.mp word
  have shape := ofText?_identifier identifier ('<' :: (inner ++ ['>'])) (by simp; decide)
  have closed : Text.stripEnd? ['>'] (inner ++ ['>']) = some inner :=
    Text.stripEnd?_eq_some_iff.mpr rfl
  rw [List.append_assoc, List.cons_append]
  simp [checkShape, shape, Shape.ofTail?, closed, free, absent, parts]

theorem checkShape_cases {text : Text} {parts : List Text} (shape : checkShape text = .ok parts) :
    (∃ word : Word, word.Valid ∧ text = word.text ∧ parts = []) ∨
      ∃ name inner, text = name ++ '<' :: inner ++ ['>'] ∧ isTypeName name = true ∧
        splitArguments inner = some parts := by
  unfold checkShape at shape
  split at shape
  · cases shape
  · split at shape
    · cases shape
    · next name format found =>
      obtain ⟨spelled, -, free⟩ := ofText?_spells found
      split at shape
      · cases shape
      · next present =>
        obtain ⟨base, same⟩ := Option.ne_none_iff_exists'.mp (by simpa using present)
        refine Or.inl ⟨.tagged base format, free, ?_, (Except.ok.inj shape).symm⟩
        rw [spelled, ofName?_eq_some same]
        rfl
    · next name found =>
      obtain ⟨spelled, identifier⟩ := ofText?_spells found
      split at shape
      · cases shape
      · next keyword =>
        have free : isKeyword name = false := by simpa using keyword
        cases absent : Primitive.ofName? name with
        | none =>
            exact Or.inl ⟨.named name, isTypeName_iff.mpr ⟨identifier, free, absent⟩, spelled,
              (Except.ok.inj shape).symm⟩
        | some base =>
            refine Or.inl ⟨.primitive base, trivial, ?_, (Except.ok.inj shape).symm⟩
            rw [spelled, ofName?_eq_some absent]
            rfl
    · next name inner found =>
      obtain ⟨spelled, identifier⟩ := ofText?_spells found
      split at shape
      · cases shape
      · next keyword =>
        split at shape
        · cases shape
        · next primitive =>
          split at shape
          · cases shape
          · next args cut =>
            have free : isKeyword name = false := by simpa using keyword
            have absent : Primitive.ofName? name = none := by simpa using primitive
            cases shape
            exact Or.inr ⟨name, inner, spelled, isTypeName_iff.mpr ⟨identifier, free, absent⟩, cut⟩

theorem withoutSuffixes_array {fragment item : Text}
    (spelled : trim fragment = item ++ ['[', ']']) :
    withoutSuffixes fragment = withoutSuffixes item := by
  have suffix : Text.stripEnd? "[]" (trim fragment) = some item :=
    Text.stripEnd?_eq_some_iff.mpr spelled
  rw [withoutSuffixes]
  split <;> simp_all

theorem withoutSuffixes_core {fragment : Text}
    (other : Text.stripEnd? "[]" (trim fragment) = none) :
    withoutSuffixes fragment = trim fragment := by
  rw [withoutSuffixes]
  split <;> simp_all

theorem withoutSuffixes_trim (fragment : Text) :
    withoutSuffixes (trim fragment) = withoutSuffixes fragment := by
  rw [withoutSuffixes, withoutSuffixes, Text.trim_trim]

theorem checkFragment_eq (fragment : Text) :
    checkFragment fragment = (checkShape (withoutSuffixes fragment)).bind checkAll := by
  rw [checkFragment]
  split <;> simp_all [Except.bind]

/-- All suffixes of an array are taken away at once. -/
theorem checkFragment_array {fragment item : Text} (spelled : trim fragment = item ++ ['[', ']']) :
    checkFragment fragment = checkFragment item := by
  rw [checkFragment_eq, checkFragment_eq, withoutSuffixes_array spelled]

theorem checkFragment_shape {fragment : Text} {parts : List Text}
    (shape : checkShape (withoutSuffixes fragment) = .ok parts) :
    checkFragment fragment = checkAll parts := by
  rw [checkFragment_eq, shape]
  rfl

theorem checkFragment_eq_ok {fragment : Text} (checked : checkFragment fragment = .ok ()) :
    ∃ parts, checkShape (withoutSuffixes fragment) = .ok parts ∧ checkAll parts = .ok () := by
  rw [checkFragment_eq] at checked
  cases shape : checkShape (withoutSuffixes fragment) with
  | error flaw =>
      rw [shape] at checked
      cases checked
  | ok parts =>
      rw [shape] at checked
      exact ⟨parts, rfl, checked⟩

theorem checkAll_eq_ok_iff {fragments : List Text} :
    checkAll fragments = .ok () ↔ ∀ fragment ∈ fragments, checkFragment fragment = .ok () := by
  induction fragments with
  | nil => simp [checkAll]
  | cons first rest ih =>
      rw [checkAll]
      cases found : checkFragment first with
      | error flaw => simp [found]
      | ok done => simp [found, ih]

theorem parseAll_readable_iff {fragments : List Text} :
    (∃ types, parseAll fragments = .ok types) ↔
      ∀ fragment ∈ fragments, ∃ type, parseFragment fragment = .ok type := by
  simp only [parseAll_eq_ok_iff]
  induction fragments with
  | nil => exact ⟨by simp, fun _ => ⟨[], rfl⟩⟩
  | cons first rest ih =>
      simp only [List.forall_mem_cons, ← ih]
      constructor
      · rintro ⟨types, same⟩
        cases types with
        | nil => simp at same
        | cons type types =>
            simp only [List.map_cons, List.cons.injEq] at same
            exact ⟨⟨type, same.1⟩, types, same.2⟩
      · rintro ⟨⟨type, read⟩, types, same⟩
        exact ⟨type :: types, by simp only [List.map_cons, read, same]⟩

/-- A text without suffixes is read if its shape is known and all its parts are read. -/
theorem parseFragment_of_shape {fragment : Text} {parts : List Text}
    (shape : checkShape (trim fragment) = .ok parts)
    (readable : ∀ part ∈ parts, ∃ type, parseFragment part = .ok type) :
    ∃ type, parseFragment fragment = .ok type := by
  rcases checkShape_cases shape with ⟨word, valid, spelled, -⟩ | ⟨name, inner, spelled, word, cut⟩
  · exact ⟨word.type, parseFragment_word valid spelled⟩
  · obtain ⟨types, read⟩ := parseAll_readable_iff.mpr readable
    exact ⟨_, parseFragment_applied spelled word cut read⟩

theorem checkFragment_of_parse {fragment : Text} {type : TypeExpr}
    (read : parseFragment fragment = .ok type) : checkFragment fragment = .ok () := by
  apply parseFragment_induction (motive := fun fragment _ => checkFragment fragment = .ok ())
    ?word ?array ?applied read
  case word =>
    intro fragment word valid spelled
    have other : Text.stripEnd? "[]" (trim fragment) = none := by
      rw [spelled]
      exact Word.no_suffix valid
    have shape : checkShape (withoutSuffixes fragment) = .ok [] := by
      rw [withoutSuffixes_core other, spelled, checkShape_word valid]
    rw [checkFragment_shape shape, checkAll]
  case array =>
    intro fragment item type spelled _ checked
    rw [checkFragment_array spelled]
    exact checked
  case applied =>
    intro fragment name inner args types spelled word cut inside each
    have other : Text.stripEnd? "[]" (trim fragment) = none := by
      rw [spelled]
      exact no_suffix _ (by decide)
    have shape : checkShape (withoutSuffixes fragment) = .ok args := by
      rw [withoutSuffixes_core other, spelled, checkShape_applied word cut]
    rw [checkFragment_shape shape, checkAll_eq_ok_iff]
    intro arg member
    obtain ⟨argType, argRead⟩ := parseAll_readable_iff.mp ⟨types, inside⟩ arg member
    exact each arg member argType argRead

theorem parse_of_checkFragment {fragment : Text} (checked : checkFragment fragment = .ok ()) :
    ∃ type, parseFragment fragment = .ok type := by
  induction length : fragment.length using Nat.strongRecOn generalizing fragment with
  | ind size ih =>
      have trimmed := Text.trim_length_le fragment
      cases suffix : Text.stripEnd? "[]" (trim fragment) with
      | some item =>
          have spelled : trim fragment = item ++ ['[', ']'] := Text.stripEnd?_eq_some_iff.mp suffix
          rw [checkFragment_array spelled] at checked
          rw [spelled, List.length_append] at trimmed
          obtain ⟨type, read⟩ := ih item.length (by simp at trimmed; omega) checked rfl
          exact ⟨_, parseFragment_array spelled read⟩
      | none =>
          obtain ⟨parts, shape, rest⟩ := checkFragment_eq_ok checked
          have shorter := checkShape_spread shape
          rw [withoutSuffixes_core suffix] at shape shorter
          apply parseFragment_of_shape shape
          intro part member
          have below := length_lt_spread member
          exact ih part.length (by omega) (checkAll_eq_ok_iff.mp rest part member) rfl

theorem check_eq_ok_iff {text : Text} : check text = .ok () ↔ checkFragment text = .ok () := by
  rw [check]
  cases found : checkFragment text with
  | error flaw =>
      show Except.error (SchemaError.invalidType text flaw) = .ok () ↔ _
      simp
  | ok done =>
      show Except.ok done = .ok () ↔ _
      simp

theorem check_eq_error {text : Text} {flaw : Flaw} (found : checkFragment text = .error flaw) :
    check text = .error (.invalidType text flaw) := by
  rw [check, found]
  rfl

/-- Checking and reading accept the same texts. Whichever refuses a text, it says that this text, as
it was given, is no type expression. -/
theorem check_agrees_parse (text : Text) :
    (check text = .ok () ↔ ∃ type, parse text = .ok type) ∧
      (check text = .ok () ∨ ∃ flaw, check text = .error (.invalidType text flaw)) ∧
      ((∃ type, parse text = .ok type) ∨ ∃ flaw, parse text = .error (.invalidType text flaw)) := by
  refine ⟨?_, ?_, ?_⟩
  · simp only [check_eq_ok_iff, parse_eq_ok_iff]
    exact ⟨parse_of_checkFragment, fun ⟨type, read⟩ => checkFragment_of_parse read⟩
  · cases found : checkFragment text with
    | ok done => exact Or.inl (check_eq_ok_iff.mpr found)
    | error flaw => exact Or.inr ⟨flaw, check_eq_error found⟩
  · cases found : parseFragment text with
    | ok type => exact Or.inl ⟨type, parse_eq_ok_iff.mpr found⟩
    | error flaw => exact Or.inr ⟨flaw, parse_eq_error found⟩

end ApiSchema.TypeExpr
