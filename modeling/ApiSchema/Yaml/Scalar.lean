import ApiSchema.Yaml.Spot
import ApiSchema.Text.Hex

set_option autoImplicit false

namespace ApiSchema.Yaml

/-- What stands between two words of a scalar: nothing, spaces, or line breaks, of which the first
is kept apart. A line break that is escaped leaves no character behind. -/
inductive Gap
  | none
  | spaces (text : Text)
  | breaks (first : Option Char) (more : Text)
deriving DecidableEq, Repr

namespace Gap

/-- The gap with one more space in it; on a new line spaces do not count. -/
def addSpace (c : Char) : Gap → Gap
  | none => spaces [c]
  | spaces text => spaces (text ++ [c])
  | breaks first more => breaks first more

def addBreak (c : Char) : Gap → Gap
  | breaks first more => breaks first (more ++ [c])
  | _ => breaks (some c) []

/-- The gap as text, folded. -/
def folded : Gap → Text
  | none => []
  | spaces text => text
  | breaks first more =>
    if first = some '\n' then (if more = [] then [' '] else more) else first.toList ++ more

def isBroken : Gap → Bool
  | breaks .. => true
  | _ => false

end Gap

/-- A scalar that was read: its text, whether a line break follows, and what stands behind. -/
structure Scanned where
  text : Text
  broken : Bool
  rest : List Spot

/-- Characters that end a plain scalar between flow brackets. -/
def isFlowMark (c : Char) : Bool := [',', '[', ']', '{', '}'].contains c

/-- Reads a plain scalar. `inFlow` says that flow brackets are open, `least` is the least column at
which a further line continues the scalar outside them, and `done` holds the text so far
backwards. -/
def plainFrom (inFlow : Bool) (least : Int) (gap : Gap) (done : Text) :
    List Spot → Option Scanned
  | [] => some ⟨done.reverse, gap.isBroken, []⟩
  | spot :: rest =>
    if isBreak spot.char then plainFrom inFlow least (gap.addBreak spot.char) done rest
    else if isSpace spot.char then
      if gap.isBroken && spot.char = '\t' && decide ((spot.column : Int) < least) then Option.none
      else plainFrom inFlow least (gap.addSpace spot.char) done rest
    else
      let ended : Option Scanned := some ⟨done.reverse, gap.isBroken, spot :: rest⟩
      if gap ≠ .none ∧ ((!inFlow ∧ (spot.column : Int) < least) ∨ spot.char = '#'
          ∨ isDocumentMarker (spot :: rest)) then ended
      else if inFlow ∧ spot.char = ':'
          ∧ (rest.head?.any fun next => isFlowMark next.char || next.char = '?') then Option.none
      else if (spot.char = ':' ∧ atGap rest) ∨ (inFlow ∧ isFlowMark spot.char) then ended
      else plainFrom inFlow least .none (spot.char :: (gap.folded.reverse ++ done)) rest

/-- Reads a scalar behind its opening apostrophe. An apostrophe in it is written twice. -/
def singleFrom (gap : Gap) (done : Text) : List Spot → Option Scanned
  | [] => Option.none
  | spot :: rest =>
    if isDocumentMarker (spot :: rest) then Option.none
    else if isBreak spot.char then singleFrom (gap.addBreak spot.char) done rest
    else if isSpace spot.char then singleFrom (gap.addSpace spot.char) done rest
    else
      let text := gap.folded.reverse ++ done
      if spot.char = '\'' then
        match rest with
        | next :: after =>
          if next.char = '\'' then singleFrom .none ('\'' :: text) after
          else some ⟨text.reverse, false, rest⟩
        | [] => some ⟨text.reverse, false, []⟩
      else singleFrom .none (spot.char :: text) rest

/-- The characters with an escape of one letter. -/
def letterEscapes : List (Char × Char) :=
  [('0', '\x00'), ('a', '\x07'), ('b', '\x08'), ('t', '\t'), ('\t', '\t'), ('n', '\n'),
    ('v', '\x0b'), ('f', '\x0c'), ('r', '\r'), ('e', '\x1b'), (' ', ' '), ('"', '"'), ('/', '/'),
    ('\\', '\\'), ('N', '\u0085'), ('_', '\u00a0'), ('L', '\u2028'), ('P', '\u2029')]

/-- How many hexadecimal digits follow the letter of an escape. -/
def hexLength? (c : Char) : Option Nat :=
  if c = 'x' then some 2 else if c = 'u' then some 4 else if c = 'U' then some 8 else Option.none

def scalarValue? (n : Nat) : Option Char :=
  if n < 0xD800 ∨ (0xDFFF < n ∧ n < 0x110000) then some (Char.ofNat n) else Option.none

/-- Reads a scalar behind its opening quotation mark. `fuel` is at least the number of spots. -/
def doubleFrom : Nat → Gap → Text → List Spot → Option Scanned
  | 0, _, _, _ => Option.none
  | _, _, _, [] => Option.none
  | fuel + 1, gap, done, spot :: rest =>
    if isDocumentMarker (spot :: rest) then Option.none
    else if isBreak spot.char then doubleFrom fuel (gap.addBreak spot.char) done rest
    else if isSpace spot.char then doubleFrom fuel (gap.addSpace spot.char) done rest
    else
      let text := gap.folded.reverse ++ done
      if spot.char = '"' then some ⟨text.reverse, false, rest⟩
      else if spot.char = '\\' then
        match rest with
        | [] => Option.none
        | next :: after =>
          if isBreak next.char then doubleFrom fuel (.breaks Option.none []) text after
          else
            match hexLength? next.char with
            | some length =>
              if after.length < length then Option.none
              else
                match (Text.hexNumber? ((after.take length).map (·.char))).bind scalarValue? with
                | some c => doubleFrom fuel .none (c :: text) (after.drop length)
                | Option.none => Option.none
            | Option.none =>
              match letterEscapes.lookup next.char with
              | some c => doubleFrom fuel .none (c :: text) after
              | Option.none => Option.none
      else doubleFrom fuel .none (spot.char :: text) rest

end ApiSchema.Yaml
