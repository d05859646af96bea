import ApiSchema.Text.Basic

set_option autoImplicit false

namespace ApiSchema.Yaml

/-- A character and where it stands. `index` counts the bytes before it, `column` the characters. -/
structure Spot where
  char : Char
  index : Nat
  line : Nat
  column : Nat
deriving DecidableEq, Repr

def isBreak (c : Char) : Bool :=
  c = '\n' || c = '\r' || c = '\u0085' || c = '\u2028' || c = '\u2029'

def isSpace (c : Char) : Bool := c = ' ' || c = '\t'

def isAllowed (c : Char) : Bool :=
  let n := c.toNat
  n = 0x09 || n = 0x0A || n = 0x0D || (0x20 ≤ n && n ≤ 0x7E) || n = 0x85
    || (0xA0 ≤ n && n ≤ 0xD7FF) || (0xE000 ≤ n && n ≤ 0xFFFD) || 0x10000 ≤ n

/-- The characters of a text with their places, from a given place on. -/
def spotsFrom (index line column : Nat) : Text → List Spot
  | [] => []
  | '\r' :: '\n' :: rest =>
    ⟨'\n', index, line, column⟩ :: spotsFrom (index + 2) (line + 1) 0 rest
  | c :: rest =>
    if c = '\u2028' ∨ c = '\u2029' then
      ⟨c, index, line, column⟩ :: spotsFrom (index + c.utf8Size) (line + 1) 0 rest
    else if isBreak c then
      ⟨'\n', index, line, column⟩ :: spotsFrom (index + c.utf8Size) (line + 1) 0 rest
    else ⟨c, index, line, column⟩ :: spotsFrom (index + c.utf8Size) line (column + 1) rest

def spots (text : Text) : List Spot := spotsFrom 0 0 0 text

/-- The text ends here, or a space, tab or line break follows. -/
def atGap : List Spot → Bool
  | [] => true
  | spot :: _ => isSpace spot.char || isBreak spot.char

/-- A line that begins with three times the same character and a gap: `---` or `...`. -/
def isMarker (c : Char) : List Spot → Bool
  | first :: second :: third :: rest =>
    first.column = 0 && first.char = c && second.char = c && third.char = c && atGap rest
  | _ => false

/-- A line that begins or ends a document. -/
def isDocumentMarker (spots : List Spot) : Bool := isMarker '-' spots || isMarker '.' spots

end ApiSchema.Yaml
