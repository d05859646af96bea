import ApiSchema.TypeExpr.Parser
import ApiSchema.Proofs.Text.Trim
import ApiSchema.Proofs.TypeExpr.Arguments

set_option autoImplicit false

namespace ApiSchema.TypeExpr

/-- A name that an object type can have. -/
def isTypeName (name : Text) : Bool := isIdentifier name && !isReserved name

/-- A type that has no parts. -/
inductive Word
  | primitive (base : Primitive)
  | tagged (base : Primitive) (format : Text)
  | named (name : Text)

namespace Word

def text : Word → Text
  | primitive base => base.name
  | tagged base format => base.name ++ '#' :: format
  | named name => name

def type : Word → TypeExpr
  | primitive base => .primitive base.name base base.defaultFormat
  | tagged base format => .primitive (base.name ++ '#' :: format) base format
  | named name => .object name name []

def Valid : Word → Prop
  | primitive _ => True
  | tagged _ format => isFormat format = true
  | named name => isTypeName name = true

end Word

theorem isTypeName_iff {name : Text} :
    isTypeName name = true ↔
      isIdentifier name = true ∧ isKeyword name = false ∧ Primitive.ofName? name = none := by
  simp [isTypeName, isReserved]

theorem toNat_between {c low high : Char} (above : low.val ≤ c.val) (below : c.val ≤ high.val) :
    low.toNat ≤ c.toNat ∧ c.toNat ≤ high.toNat :=
  ⟨UInt32.le_iff_toNat_le.mp above, UInt32.le_iff_toNat_le.mp below⟩

theorem isUpper_toNat {c : Char} (upper : c.isUpper = true) : 65 ≤ c.toNat ∧ c.toNat ≤ 90 := by
  have range : c.val ≥ 'A'.val ∧ c.val ≤ 'Z'.val := of_decide_eq_true upper
  exact toNat_between range.1 range.2

theorem isLower_toNat {c : Char} (lower : c.isLower = true) : 97 ≤ c.toNat ∧ c.toNat ≤ 122 := by
  have range : (decide (c.val ≥ 'a'.val) && decide (c.val ≤ 'z'.val)) = true := lower
  rw [Bool.and_eq_true, decide_eq_true_eq, decide_eq_true_eq] at range
  exact toNat_between range.1 range.2

theorem isDigit_toNat {c : Char} (digit : c.isDigit = true) : 48 ≤ c.toNat ∧ c.toNat ≤ 57 := by
  have range : (decide (c.val ≥ '0'.val) && decide (c.val ≤ '9'.val)) = true := digit
  rw [Bool.and_eq_true, decide_eq_true_eq, decide_eq_true_eq] at range
  exact toNat_between range.1 range.2

theorem identifierPart_toNat {c : Char} (part : isIdentifierPart c = true) :
    (48 ≤ c.toNat ∧ c.toNat ≤ 57) ∨ (65 ≤ c.toNat ∧ c.toNat ≤ 90) ∨ c.toNat = 95 ∨
      (97 ≤ c.toNat ∧ c.toNat ≤ 122) := by
  have kinds : (((c.isUpper || c.isLower) || c.isDigit) || decide (c = '_')) = true := part
  simp only [Bool.or_eq_true, decide_eq_true_eq] at kinds
  rcases kinds with ((upper | lower) | digit) | rfl
  · exact Or.inr (Or.inl (isUpper_toNat upper))
  · exact Or.inr (Or.inr (Or.inr (isLower_toNat lower)))
  · exact Or.inl (isDigit_toNat digit)
  · exact Or.inr (Or.inr (Or.inl rfl))

theorem identifierPart_solid {c : Char} (part : isIdentifierPart c = true) :
    Text.isBlank c = false := by
  have range := identifierPart_toNat part
  simp only [Text.isBlank, Text.blankRanges, List.any_cons, List.any_nil, Bool.or_false,
    Bool.or_eq_false_iff, Bool.and_eq_false_iff, decide_eq_false_iff_not]
  omega

theorem isIdentifier_ne_nil {name : Text} (word : isIdentifier name = true) : name ≠ [] := by
  rintro rfl
  cases word

theorem isIdentifier_part {name : Text} (word : isIdentifier name = true) :
    ∀ c ∈ name, isIdentifierPart c = true := by
  cases name with
  | nil => cases word
  | cons first rest =>
      simp only [isIdentifier, Bool.and_eq_true, List.all_eq_true] at word
      have start : isIdentifierPart first = true := by
        have letter := word.1
        simp only [isIdentifierStart, Bool.or_eq_true] at letter
        show ((first.isAlpha || first.isDigit) || decide (first = '_')) = true
        simp only [Bool.or_eq_true]
        exact letter.elim (fun alpha => Or.inl (Or.inl alpha)) Or.inr
      intro c member
      rcases List.mem_cons.mp member with rfl | member
      · exact start
      · exact word.2 c member

/-- A character that is no part of an identifier stands in no name. -/
theorem isIdentifier_not_mem {name : Text} (word : isIdentifier name = true) {c : Char}
    (outside : isIdentifierPart c = false) : c ∉ name := by
  intro member
  rw [isIdentifier_part word c member] at outside
  cases outside

theorem takeWhile_identifier {name : Text} (word : isIdentifier name = true) {tail : Text}
    (stop : ∀ c ∈ tail.head?, isIdentifierPart c = false) :
    (name ++ tail).takeWhile isIdentifierPart = name := by
  have none_taken : tail.takeWhile isIdentifierPart = [] := by
    cases tail with
    | nil => rfl
    | cons c rest => simp [stop c (by simp)]
  rw [List.takeWhile_append_of_pos (isIdentifier_part word), none_taken, List.append_nil]

theorem dropWhile_identifier {name : Text} (word : isIdentifier name = true) {tail : Text}
    (stop : ∀ c ∈ tail.head?, isIdentifierPart c = false) :
    (name ++ tail).dropWhile isIdentifierPart = tail := by
  have none_dropped : tail.dropWhile isIdentifierPart = tail := by
    cases tail with
    | nil => rfl
    | cons c rest => simp [stop c (by simp)]
  rw [List.dropWhile_append_of_pos (isIdentifier_part word), none_dropped]

theorem name_isIdentifier (base : Primitive) : isIdentifier base.name = true := by
  cases base <;> decide

theorem name_not_keyword (base : Primitive) : isKeyword base.name = false := by
  cases base <;> decide

theorem ofName?_eq_some {name : Text} {base : Primitive}
    (found : Primitive.ofName? name = some base) : name = base.name := by
  have same : base.name = name := by simpa using List.find?_some found
  exact same.symm

theorem isFormat_part {format : Text} (free : isFormat format = true) {c : Char}
    (member : c ∈ format) : isFormatPart c = true :=
  List.all_eq_true.mp free c member

theorem stripEnd?_eq_none {ending text : Text} (other : ∀ rest, text ≠ rest ++ ending) :
    Text.stripEnd? ending text = none := by
  cases found : Text.stripEnd? ending text with
  | none => rfl
  | some rest => exact absurd (Text.stripEnd?_eq_some_iff.mp found) (other rest)

theorem taggedForm_eq_ok {source name format : Text} {found : Form}
    (tagged : taggedForm source name format = .ok found) :
    ∃ base : Primitive, name = base.name ∧ isFormat format = true ∧
      found = .leaf (.primitive source base format) := by
  unfold taggedForm at tagged
  split at tagged
  · cases tagged
  · next base primitive =>
    split at tagged
    · next free =>
      exact ⟨base, ofName?_eq_some primitive, free, (Except.ok.inj tagged).symm⟩
    · cases tagged

theorem namedForm_eq_ok {source : Text} {found : Form} (named : namedForm source = .ok found) :
    (∃ base : Primitive, source = base.name ∧
        found = .leaf (.primitive source base base.defaultFormat)) ∨
      (isTypeName source = true ∧ found = .leaf (.object source source [])) := by
  unfold namedForm at named
  split at named
  · cases named
  · next word =>
    split at named
    · cases named
    · next free =>
      split at named
      · next base primitive =>
        exact Or.inl ⟨base, ofName?_eq_some primitive, (Except.ok.inj named).symm⟩
      · next absent =>
        refine Or.inr ⟨isTypeName_iff.mpr ⟨?_, ?_, absent⟩, (Except.ok.inj named).symm⟩
        · simpa using word
        · simpa using free

theorem appliedForm_eq_ok {source name rest : Text} {found : Form}
    (applied : appliedForm source name rest = .ok found) :
    ∃ inner args, rest = inner ++ ['>'] ∧ isTypeName name = true ∧
      splitArguments inner = some args ∧ found = .applied name args := by
  unfold appliedForm at applied
  split at applied
  · cases applied
  · next inner closed =>
    split at applied
    · cases applied
    · next word =>
      split at applied
      · cases applied
      · next free =>
        split at applied
        · cases applied
        · next primitive =>
          split at applied
          · cases applied
          · next args parts =>
            have absent : Primitive.ofName? name = none := by simpa using primitive
            exact ⟨inner, args, Text.stripEnd?_eq_some_iff.mp closed,
              isTypeName_iff.mpr ⟨by simpa using word, by simpa using free, absent⟩, parts,
              (Except.ok.inj applied).symm⟩

/-- What a found form says about the spelling. -/
theorem form_eq_ok {source : Text} {found : Form} (shape : form source = .ok found) :
    (∃ item, found = .arrayOf item ∧ source = item ++ ['[', ']']) ∨
      (∃ name inner args, found = .applied name args ∧ source = name ++ '<' :: inner ++ ['>'] ∧
        isTypeName name = true ∧ splitArguments inner = some args) ∨
      ∃ word : Word, found = .leaf word.type ∧ word.Valid ∧ source = word.text := by
  unfold form at shape
  split at shape
  · cases shape
  · split at shape
    · next item suffix =>
      exact Or.inl ⟨item, (Except.ok.inj shape).symm, Text.stripEnd?_eq_some_iff.mp suffix⟩
    · refine Or.inr ?_
      split at shape
      · next name rest cut =>
        obtain ⟨inner, args, closed, word, parts, same⟩ := appliedForm_eq_ok shape
        refine Or.inl ⟨name, inner, args, same, ?_, word, parts⟩
        rw [Text.eq_append_of_cutAt? cut, closed, List.append_assoc, List.cons_append]
      · refine Or.inr ?_
        split at shape
        · next name format cut =>
          obtain ⟨base, rfl, free, same⟩ := taggedForm_eq_ok shape
          have whole := Text.eq_append_of_cutAt? cut
          refine ⟨.tagged base format, ?_, free, whole⟩
          rw [same, whole]
          rfl
        · rcases namedForm_eq_ok shape with ⟨base, rfl, same⟩ | ⟨word, same⟩
          · exact ⟨.primitive base, same, trivial, rfl⟩
          · exact ⟨.named source, same, word, rfl⟩

theorem form_arrayOf (item : Text) : form (item ++ ['[', ']']) = .ok (.arrayOf item) := by
  have suffix : Text.stripEnd? "[]" (item ++ ['[', ']']) = some item :=
    Text.stripEnd?_eq_some_iff.mpr rfl
  have some_text : item ++ ['[', ']'] ≠ [] := by simp
  simp only [form, some_text, ↓reduceIte, suffix]

/-- A text that ends with another character than a bracket is no array. -/
theorem no_suffix (front : Text) {c : Char} (other : c ≠ ']') :
    Text.stripEnd? "[]" (front ++ [c]) = none := by
  apply stripEnd?_eq_none
  intro rest same
  have ends := congrArg List.getLast? same
  have brackets : ("[]" : Text) = ['['] ++ [']'] := rfl
  rw [brackets, ← List.append_assoc, List.getLast?_concat, List.getLast?_concat] at ends
  exact other (Option.some.inj ends)

theorem form_applied {name inner : Text} {args : List Text} (word : isTypeName name = true)
    (parts : splitArguments inner = some args) :
    form (name ++ '<' :: inner ++ ['>']) = .ok (.applied name args) := by
  obtain ⟨identifier, free, absent⟩ := isTypeName_iff.mp word
  have some_text : name ++ '<' :: inner ++ ['>'] ≠ [] := by simp
  have item := no_suffix (name ++ '<' :: inner) (show '>' ≠ ']' by decide)
  have cut : Text.cutAt? '<' (name ++ '<' :: inner ++ ['>']) = some (name, inner ++ ['>']) := by
    rw [List.append_assoc, List.cons_append]
    exact Text.cutAt?_append (isIdentifier_not_mem identifier (by decide)) _
  have closed : Text.stripEnd? ">" (inner ++ ['>']) = some inner :=
    Text.stripEnd?_eq_some_iff.mpr rfl
  simp only [form, some_text, ↓reduceIte, item, cut, appliedForm, closed, identifier, Bool.not_true,
    Bool.false_eq_true, free, absent, Option.isSome_none, parts]

theorem Word.text_part {word : Word} (valid : word.Valid) :
    ∀ c ∈ word.text, isIdentifierPart c = true ∨ c = '#' ∨ isFormatPart c = true := by
  intro c member
  cases word with
  | primitive base => exact Or.inl (isIdentifier_part (name_isIdentifier base) c member)
  | tagged base format =>
      rcases List.mem_append.mp member with member | member
      · exact Or.inl (isIdentifier_part (name_isIdentifier base) c member)
      · rcases List.mem_cons.mp member with rfl | member
        · exact Or.inr (Or.inl rfl)
        · exact Or.inr (Or.inr (isFormat_part valid member))
  | named name => exact Or.inl (isIdentifier_part (isTypeName_iff.mp valid).1 c member)

theorem Word.text_not_mem {word : Word} (valid : word.Valid) {c : Char}
    (outside : isIdentifierPart c = false ∧ c ≠ '#' ∧ isFormatPart c = false) :
    c ∉ word.text := by
  intro member
  rcases text_part valid c member with part | hash | part
  · simp [outside.1] at part
  · exact outside.2.1 hash
  · simp [outside.2.2] at part

theorem Word.text_ne_nil {word : Word} (valid : word.Valid) : word.text ≠ [] := by
  cases word with
  | primitive base => exact isIdentifier_ne_nil (name_isIdentifier base)
  | tagged base format => simp [text]
  | named name => exact isIdentifier_ne_nil (isTypeName_iff.mp valid).1

theorem Word.no_suffix {word : Word} (valid : word.Valid) :
    Text.stripEnd? "[]" word.text = none := by
  apply stripEnd?_eq_none
  intro rest same
  refine text_not_mem valid (show _ ∧ ']' ≠ '#' ∧ _ by decide) ?_
  rw [same]
  exact List.mem_append_right rest (by decide)

theorem form_word {word : Word} (valid : word.Valid) :
    form word.text = .ok (.leaf word.type) := by
  have some_text := Word.text_ne_nil valid
  have item := Word.no_suffix valid
  have no_args : Text.cutAt? '<' word.text = none :=
    Text.cutAt?_eq_none_iff.mpr (Word.text_not_mem valid (by decide))
  simp only [form, some_text, ↓reduceIte, item, no_args]
  cases word with
  | primitive base =>
      have no_tag : Text.cutAt? '#' base.name = none :=
        Text.cutAt?_eq_none_iff.mpr (isIdentifier_not_mem (name_isIdentifier base) (by decide))
      simp [Word.text, Word.type, no_tag, namedForm, name_isIdentifier, name_not_keyword,
        Primitive.ofName?_name]
  | tagged base format =>
      have free : isFormat format = true := valid
      have tag : Text.cutAt? '#' (base.name ++ '#' :: format) = some (base.name, format) :=
        Text.cutAt?_append (isIdentifier_not_mem (name_isIdentifier base) (by decide)) format
      simp [Word.text, Word.type, tag, taggedForm, Primitive.ofName?_name, free]
  | named name =>
      obtain ⟨identifier, free, absent⟩ := isTypeName_iff.mp valid
      have no_tag : Text.cutAt? '#' name = none :=
        Text.cutAt?_eq_none_iff.mpr (isIdentifier_not_mem identifier (by decide))
      simp [Word.text, Word.type, no_tag, namedForm, identifier, free, absent]

/-- Blanks around a type are not read. -/
theorem parseFragment_trim (fragment : Text) :
    parseFragment (Text.trim fragment) = parseFragment fragment := by
  rw [parseFragment, parseFragment, Text.trim_trim]

theorem parseFragment_word {fragment : Text} {word : Word} (valid : word.Valid)
    (spelled : Text.trim fragment = word.text) : parseFragment fragment = .ok word.type := by
  have shape := form_word valid
  rw [← spelled] at shape
  rw [parseFragment]
  split <;> simp_all

theorem parseFragment_array {fragment item : Text} {type : TypeExpr}
    (spelled : Text.trim fragment = item ++ ['[', ']']) (read : parseFragment item = .ok type) :
    parseFragment fragment = .ok (.array (Text.trim fragment) type) := by
  have shape := form_arrayOf item
  rw [← spelled] at shape
  rw [parseFragment]
  split <;> simp_all

theorem parseFragment_applied {fragment name inner : Text} {args : List Text}
    {types : List TypeExpr} (spelled : Text.trim fragment = name ++ '<' :: inner ++ ['>'])
    (word : isTypeName name = true) (parts : splitArguments inner = some args)
    (read : parseAll args = .ok types) :
    parseFragment fragment = .ok (.object (Text.trim fragment) name types) := by
  have shape := form_applied word parts
  rw [← spelled] at shape
  rw [parseFragment]
  split <;> simp_all

/-- A part that can be read is a word, an array or a name with arguments. -/
theorem parseFragment_cases {fragment : Text} {type : TypeExpr}
    (read : parseFragment fragment = .ok type) :
    (∃ word : Word, word.Valid ∧ Text.trim fragment = word.text ∧ type = word.type) ∨
      (∃ item inner, Text.trim fragment = item ++ ['[', ']'] ∧ parseFragment item = .ok inner ∧
        type = .array (Text.trim fragment) inner) ∨
      ∃ name inner args types, Text.trim fragment = name ++ '<' :: inner ++ ['>'] ∧
        isTypeName name = true ∧ splitArguments inner = some args ∧ parseAll args = .ok types ∧
        type = .object (Text.trim fragment) name types := by
  rw [parseFragment] at read
  split at read
  · cases read
  · next leaf shape =>
    rcases form_eq_ok shape with ⟨item, same, -⟩ | ⟨name, inner, args, same, -⟩ |
      ⟨word, same, valid, spelled⟩
    · cases same
    · cases same
    · cases same
      exact Or.inl ⟨word, valid, spelled, (Except.ok.inj read).symm⟩
  · next item shape =>
    rcases form_eq_ok shape with ⟨found, same, spelled⟩ | ⟨name, inner, args, same, -⟩ |
      ⟨word, same, -⟩
    · cases same
      split at read
      · cases read
      · next inner inside =>
        exact Or.inr (Or.inl ⟨item, inner, spelled, inside, (Except.ok.inj read).symm⟩)
    · cases same
    · cases same
  · next name args shape =>
    rcases form_eq_ok shape with ⟨found, same, -⟩ | ⟨head, inner, parts, same, spelled, word, cut⟩ |
      ⟨word, same, -⟩
    · cases same
    · cases same
      split at read
      · cases read
      · next types inside =>
        exact Or.inr (Or.inr ⟨name, inner, args, types, spelled, word, cut, inside,
          (Except.ok.inj read).symm⟩)
    · cases same

/-- The reader goes down to words: what holds of words, of arrays whose items it holds of, and of
names with arguments that it holds of, holds of all that is read. -/
theorem parseFragment_induction {motive : Text → TypeExpr → Prop}
    (word : ∀ (fragment : Text) (word : Word), word.Valid → Text.trim fragment = word.text →
      motive fragment word.type)
    (array : ∀ (fragment item : Text) (type : TypeExpr), Text.trim fragment = item ++ ['[', ']'] →
      parseFragment item = .ok type → motive item type →
        motive fragment (.array (Text.trim fragment) type))
    (applied : ∀ (fragment name inner : Text) (args : List Text) (types : List TypeExpr),
      Text.trim fragment = name ++ '<' :: inner ++ ['>'] → isTypeName name = true →
      splitArguments inner = some args → parseAll args = .ok types →
      (∀ arg ∈ args, ∀ type, parseFragment arg = .ok type → motive arg type) →
        motive fragment (.object (Text.trim fragment) name types))
    {fragment : Text} {type : TypeExpr} (read : parseFragment fragment = .ok type) :
    motive fragment type := by
  induction length : fragment.length using Nat.strongRecOn generalizing fragment type with
  | ind size ih =>
      have trimmed := Text.trim_length_le fragment
      rcases parseFragment_cases read with ⟨found, valid, spelled, rfl⟩ |
        ⟨item, inner, spelled, inside, rfl⟩ |
        ⟨name, inner, args, types, spelled, named, cut, inside, rfl⟩
      · exact word fragment found valid spelled
      · rw [spelled, List.length_append] at trimmed
        have shorter : item.length < size := by
          simp only [List.length_cons, List.length_nil] at trimmed
          omega
        exact array fragment item inner spelled inside (ih item.length shorter inside rfl)
      · rw [spelled] at trimmed
        simp only [List.length_append, List.length_cons, List.length_nil] at trimmed
        apply applied fragment name inner args types spelled named cut inside
        intro arg member argType argRead
        have below := splitArguments_length_le cut member
        exact ih arg.length (by omega) argRead rfl

theorem parseAll_eq_ok_iff {fragments : List Text} {types : List TypeExpr} :
    parseAll fragments = .ok types ↔ fragments.map parseFragment = types.map .ok := by
  induction fragments generalizing types with
  | nil =>
      rw [parseAll]
      cases types <;> simp
  | cons first rest ih =>
      rw [parseAll]
      cases types with
      | nil => cases parseFragment first <;> cases parseAll rest <;> simp
      | cons type types =>
          simp only [List.map_cons, List.cons.injEq, ← ih]
          cases parseFragment first with
          | error flaw => simp
          | ok read => cases parseAll rest <;> simp

theorem exists_read_arg {fragments : List Text} {types : List TypeExpr}
    (read : parseAll fragments = .ok types) {type : TypeExpr} (member : type ∈ types) :
    ∃ fragment ∈ fragments, parseFragment fragment = .ok type := by
  have given : Except.ok type ∈ types.map (Except.ok : TypeExpr → Except Flaw TypeExpr) :=
    List.mem_map_of_mem member
  rw [← parseAll_eq_ok_iff.mp read] at given
  exact List.mem_map.mp given

theorem parse_eq_ok_iff {text : Text} {type : TypeExpr} :
    parse text = .ok type ↔ parseFragment text = .ok type := by
  rw [parse]
  cases found : parseFragment text with
  | error flaw =>
      show Except.error (SchemaError.invalidType text flaw) = .ok type ↔ _
      simp
  | ok read =>
      show Except.ok read = .ok type ↔ _
      simp

theorem parse_eq_error {text : Text} {flaw : Flaw} (found : parseFragment text = .error flaw) :
    parse text = .error (.invalidType text flaw) := by
  rw [parse, found]
  rfl

theorem parse_error {text : Text} {error : SchemaError} (failed : parse text = .error error) :
    ∃ flaw, error = .invalidType text flaw := by
  cases found : parseFragment text with
  | error flaw =>
      rw [parse_eq_error found] at failed
      exact ⟨flaw, (Except.error.inj failed).symm⟩
  | ok expr =>
      rw [parse_eq_ok_iff.mpr found] at failed
      cases failed

end ApiSchema.TypeExpr
