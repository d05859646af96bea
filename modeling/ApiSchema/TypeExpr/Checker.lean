import ApiSchema.TypeExpr.Lexical
import ApiSchema.SchemaError

set_option autoImplicit false

namespace ApiSchema.TypeExpr

/-- The text without its `[]` suffixes and the blanks around them. -/
def withoutSuffixes (text : Text) : Text :=
  match _suffix : Text.stripEnd? "[]" (Text.trim text) with
  | some rest => withoutSuffixes rest
  | none => Text.trim text
termination_by text.length
decreasing_by
  have shorter := Text.trim_length_le text
  rw [Text.stripEnd?_eq_some_iff.mp _suffix] at shorter
  simp at shorter
  omega

theorem withoutSuffixes_length_le (text : Text) :
    (withoutSuffixes text).length ≤ text.length := by
  fun_induction withoutSuffixes text with
  | case1 text rest suffix ih =>
    have shorter := Text.trim_length_le text
    rw [Text.stripEnd?_eq_some_iff.mp suffix] at shorter
    simp at shorter
    omega
  | case2 text suffix => exact Text.trim_length_le text

/-- The three shapes of a type without suffixes. -/
inductive Shape
  | bare (name : Text)
  | tagged (name format : Text)
  | applied (name inner : Text)
deriving DecidableEq, Repr

/-- What may follow the identifier `name`. -/
def Shape.ofTail? (name : Text) : Text → Option Shape
  | [] => some (.bare name)
  | c :: rest =>
    if c = '#' then
      if isFormat rest then some (.tagged name rest) else none
    else if c = '<' then (Text.stripEnd? ">" rest).map (.applied name)
    else none

/-- An identifier, then nothing, a `#` with a format, or something between angle brackets. -/
def Shape.ofText? (text : Text) : Option Shape :=
  let name := text.takeWhile isIdentifierPart
  if isIdentifier name then Shape.ofTail? name (text.dropWhile isIdentifierPart) else none

/-- Checks the outermost shape of a text without suffixes and gives the parts left to check. -/
def checkShape (text : Text) : Except Flaw (List Text) :=
  if text = [] then .error .empty
  else
    match Shape.ofText? text with
    | none => .error (.noShape text)
    | some (.tagged name _) =>
      if (Primitive.ofName? name).isNone then .error (.formatOnObject name) else .ok []
    | some (.bare name) => if isKeyword name then .error (.reserved name) else .ok []
    | some (.applied name inner) =>
      if isKeyword name then .error (.reserved name)
      else if (Primitive.ofName? name).isSome then .error (.argumentsOnPrimitive name)
      else
        match splitArguments inner with
        | none => .error (.unbalanced text)
        | some parts => .ok parts

theorem Shape.ofText?_applied_lt {text name inner : Text}
    (shape : Shape.ofText? text = some (.applied name inner)) : inner.length + 1 < text.length := by
  unfold Shape.ofText? at shape
  simp only at shape
  split at shape
  · have whole := List.takeWhile_append_dropWhile (p := isIdentifierPart) (l := text)
    generalize text.dropWhile isIdentifierPart = tail at shape whole
    generalize text.takeWhile isIdentifierPart = head at shape whole
    subst whole
    cases tail with
    | nil => simp [Shape.ofTail?] at shape
    | cons c rest =>
      simp only [Shape.ofTail?] at shape
      split at shape
      · split at shape <;> simp at shape
      · split at shape
        · obtain ⟨found, closed, same⟩ := Option.map_eq_some_iff.mp shape
          simp only [Shape.applied.injEq] at same
          rw [← same.2, Text.stripEnd?_eq_some_iff.mp closed]
          have bracket : (">" : Text).length = 1 := rfl
          simp only [List.length_append, List.length_cons]
          omega
        · simp at shape
  · simp at shape

theorem checkShape_spread {text : Text} {parts : List Text} (shape : checkShape text = .ok parts) :
    spread parts < text.length := by
  unfold checkShape at shape
  split at shape
  · simp at shape
  · next not_empty =>
    have positive := List.length_pos_iff.mpr not_empty
    have no_parts : ∀ {rest : List Text}, (Except.ok [] : Except Flaw (List Text)) = .ok rest →
        spread rest < text.length := by
      intro rest same
      rw [← Except.ok.inj same]
      exact positive
    split at shape
    · simp at shape
    · split at shape
      · simp at shape
      · exact no_parts shape
    · split at shape
      · simp at shape
      · exact no_parts shape
    · next name inner found =>
      split at shape
      · simp at shape
      · split at shape
        · simp at shape
        · split at shape
          · simp at shape
          · next split_parts =>
            rw [← Except.ok.inj shape, spread_splitAtDepth split_parts]
            exact Shape.ofText?_applied_lt found

mutual

/-- Checks a part of an expression. -/
def checkFragment (fragment : Text) : Except Flaw Unit :=
  match _shape : checkShape (withoutSuffixes fragment) with
  | .error flaw => .error flaw
  | .ok parts => checkAll parts
termination_by fragment.length
decreasing_by
  exact Nat.lt_of_lt_of_le (checkShape_spread _shape) (withoutSuffixes_length_le fragment)

def checkAll (fragments : List Text) : Except Flaw Unit :=
  match fragments with
  | [] => .ok ()
  | first :: rest =>
    match checkFragment first with
    | .error flaw => .error flaw
    | .ok () => checkAll rest
termination_by spread fragments
decreasing_by
  · simp only [spread_cons]
    omega
  · simp only [spread_cons]
    omega

end

/-- Checks that a text is a type expression; whether its names are defined is left open. An error
names the whole text as it was given. -/
def check (text : Text) : Except SchemaError Unit :=
  (checkFragment text).mapError (.invalidType text)

/-- What keeps a name from being a parameter: it must be a bare identifier and not reserved. -/
def parameterFlaw? (name : Text) : Option ParameterFlaw :=
  if !isIdentifier name then some .notIdentifier
  else if isReserved name then some .reservedName
  else none

def checkParameter (definition name : Text) : Except SchemaError Unit :=
  match parameterFlaw? name with
  | some flaw => .error (.invalidParameter definition name flaw)
  | none => .ok ()

end ApiSchema.TypeExpr
