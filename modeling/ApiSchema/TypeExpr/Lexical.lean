import ApiSchema.TypeExpr.Basic
import ApiSchema.Text.Blank

set_option autoImplicit false

namespace ApiSchema.TypeExpr

def isIdentifierStart (c : Char) : Bool := c.isAlpha || c = '_'

def isIdentifierPart (c : Char) : Bool := c.isAlphanum || c = '_'

/-- A letter or underscore, then letters, digits and underscores. -/
def isIdentifier : Text → Bool
  | [] => false
  | c :: rest => isIdentifierStart c && rest.all isIdentifierPart

/-- A character that a format tag may hold: no blank and no punctuation of the grammar. -/
def isFormatPart (c : Char) : Bool :=
  !Text.isBlank c && !List.contains ['#', '<', '>', ',', '[', ']'] c

def isFormat (text : Text) : Bool := text.all isFormatPart

def keywords : List Text := ["array", "object"]

def isKeyword (text : Text) : Bool := keywords.contains text

/-- The names that neither an object type nor a parameter may have. -/
def isReserved (text : Text) : Bool := isKeyword text || (Primitive.ofName? text).isSome

/-- Puts a character in front of the first piece. -/
def extendFirst (c : Char) : List Text → List Text
  | [] => [[c]]
  | piece :: rest => (c :: piece) :: rest

/-- Cuts at the commas outside all angle brackets, `depth` of which are open. -/
def splitAtDepth : Nat → Text → Option (List Text)
  | depth, [] => if depth = 0 then some [[]] else none
  | depth, c :: rest =>
    if c = '<' then (splitAtDepth (depth + 1) rest).map (extendFirst c)
    else if c = '>' then
      if depth = 0 then none else (splitAtDepth (depth - 1) rest).map (extendFirst c)
    else if c = ',' ∧ depth = 0 then (splitAtDepth 0 rest).map ([] :: ·)
    else (splitAtDepth depth rest).map (extendFirst c)

/-- The arguments between the outermost brackets, as written; `none` if brackets do not match. -/
def splitArguments (text : Text) : Option (List Text) := splitAtDepth 0 text

/-- The room that pieces take with one separator each. -/
def spread : List Text → Nat
  | [] => 0
  | piece :: rest => piece.length + 1 + spread rest

@[simp] theorem spread_nil : spread [] = 0 := rfl

@[simp] theorem spread_cons (piece : Text) (rest : List Text) :
    spread (piece :: rest) = piece.length + 1 + spread rest := rfl

theorem spread_extendFirst {c : Char} {pieces : List Text} (some_piece : pieces ≠ []) :
    spread (extendFirst c pieces) = spread pieces + 1 := by
  cases pieces with
  | nil => exact absurd rfl some_piece
  | cons piece rest =>
    simp only [extendFirst, spread_cons, List.length_cons]
    omega

theorem splitAtDepth_ne_nil {depth : Nat} {text : Text} {parts : List Text}
    (split : splitAtDepth depth text = some parts) : parts ≠ [] := by
  induction text generalizing depth parts with
  | nil =>
    unfold splitAtDepth at split
    split at split
    · simp only [Option.some.injEq] at split
      simp [← split]
    · simp at split
  | cons c rest ih =>
    have extended : ∀ inner : Option (List Text), inner.map (extendFirst c) = some parts →
        parts ≠ [] := by
      intro inner h
      obtain ⟨more, -, rfl⟩ := Option.map_eq_some_iff.mp h
      cases more <;> simp [extendFirst]
    unfold splitAtDepth at split
    split at split
    · exact extended _ split
    · split at split
      · split at split
        · simp at split
        · exact extended _ split
      · split at split
        · obtain ⟨more, -, rfl⟩ := Option.map_eq_some_iff.mp split
          simp
        · exact extended _ split

/-- The pieces and their separators take exactly the room of the text and one separator more. -/
theorem spread_splitAtDepth {depth : Nat} {text : Text} {parts : List Text}
    (split : splitAtDepth depth text = some parts) : spread parts = text.length + 1 := by
  induction text generalizing depth parts with
  | nil =>
    unfold splitAtDepth at split
    split at split
    · simp only [Option.some.injEq] at split
      subst split
      rfl
    · simp at split
  | cons c rest ih =>
    have extended : ∀ inner : Nat,
        (splitAtDepth inner rest).map (extendFirst c) = some parts →
          spread parts = rest.length + 1 + 1 := by
      intro inner h
      obtain ⟨more, found, rfl⟩ := Option.map_eq_some_iff.mp h
      rw [spread_extendFirst (splitAtDepth_ne_nil found), ih found]
    unfold splitAtDepth at split
    simp only [List.length_cons]
    split at split
    · exact extended _ split
    · split at split
      · split at split
        · simp at split
        · exact extended _ split
      · split at split
        · obtain ⟨more, found, rfl⟩ := Option.map_eq_some_iff.mp split
          simp only [spread_cons, List.length_nil, ih found]
          omega
        · exact extended _ split

end ApiSchema.TypeExpr
