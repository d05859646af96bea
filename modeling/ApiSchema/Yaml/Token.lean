import ApiSchema.Yaml.Scalar

set_option autoImplicit false

namespace ApiSchema.Yaml

inductive Token
  | documentStart
  | documentEnd
  | sequenceStart
  | mappingStart
  | blockEnd
  | entry
  | key
  | value
  | flowSequenceStart
  | flowSequenceEnd
  | flowMappingStart
  | flowMappingEnd
  | flowEntry
  | scalar (text : Text) (plain : Bool)
deriving DecidableEq, Repr

/-- A place where a key may have begun: the number of tokens before it, and whether the block it
stands in allows nothing but a key. -/
structure KeyPlace where
  before : Nat
  required : Bool
  line : Nat
  index : Nat
  column : Nat
deriving DecidableEq, Repr

/-- A scan under way. `indent` is the column of the innermost block collection, `outer` are those
around it, `keys` has a possible key for every flow level, the innermost first, and `tokens` are the
tokens found, the last first. -/
structure Scan where
  spots : List Spot
  indent : Int := -1
  outer : List Int := []
  keys : List (Option KeyPlace) := [none]
  keyAllowed : Bool := true
  tokens : List Token := []

namespace Scan

def inFlow (scan : Scan) : Bool := 1 < scan.keys.length

def emit (token : Token) (scan : Scan) : Scan := { scan with tokens := token :: scan.tokens }

/-- Puts a token where `before` tokens stand before it. -/
def insert (before : Nat) (token : Token) (scan : Scan) : Scan :=
  { scan with tokens := scan.tokens.insertIdx (scan.tokens.length - before) token }

/-- Closes the block collections whose column is greater than `column`. -/
def closeBlocks (column : Int) (scan : Scan) : Scan :=
  if scan.inFlow then scan else go scan.outer scan
where
  go : List Int → Scan → Scan
    | [], scan => scan
    | before :: more, scan =>
      if scan.indent > column then
        go more (emit .blockEnd { scan with indent := before, outer := more })
      else scan

/-- Opens a block collection at `column` unless one is open there. -/
def openBlock (column : Nat) (before : Nat) (token : Token) (scan : Scan) : Scan :=
  if scan.inFlow || decide ((column : Int) ≤ scan.indent) then scan
  else insert before token { scan with indent := column, outer := scan.indent :: scan.outer }

/-- Gives up the possible key of the innermost level. -/
def dropKey (scan : Scan) : Option Scan :=
  match scan.keys with
  | some place :: rest => if place.required then none else some { scan with keys := none :: rest }
  | _ => some scan

/-- Notes that a key may begin at `spot`. -/
def noteKey (spot : Spot) (scan : Scan) : Option Scan :=
  if scan.keyAllowed then do
    let scan ← scan.dropKey
    let required := !scan.inFlow && scan.indent = (spot.column : Int)
    let place : KeyPlace := ⟨scan.tokens.length, required, spot.line, spot.index, spot.column⟩
    return { scan with keys := some place :: scan.keys.tail }
  else some scan

/-- Gives up the possible keys that began on an earlier line or too far back. -/
def dropStaleKeys (line index : Nat) (scan : Scan) : Option Scan := do
  let keys ← scan.keys.mapM fun
    | some place =>
      if place.line < line ∨ place.index + 1024 < index then
        if place.required then none else some none
      else some (some place)
    | none => some none
  return { scan with keys }

/-- Skips what stands between tokens: spaces, comments, line breaks, and a byte-order mark at the
start of a line. Outside flow brackets a line break allows a key, and where a key is allowed a tab
is no space. -/
def skipGaps (scan : Scan) : Scan :=
  go false scan.spots scan.keyAllowed
where
  go (comment : Bool) : List Spot → Bool → Scan
    | [], allowed => { scan with spots := [], keyAllowed := allowed }
    | spot :: rest, allowed =>
      if isBreak spot.char then go false rest (allowed || !scan.inFlow)
      else if comment then go true rest allowed
      else if spot.char = '#' then go true rest allowed
      else if spot.char = ' ' ∨ (spot.char = '\t' ∧ (scan.inFlow ∨ !allowed))
          ∨ (spot.char = '\ufeff' ∧ spot.column = 0) then go false rest allowed
      else { scan with spots := spot :: rest, keyAllowed := allowed }

def documentMarker (token : Token) (rest : List Spot) (scan : Scan) : Option Scan := do
  let scan ← (scan.closeBlocks (-1)).dropKey
  return emit token { scan with spots := rest.drop 2, keyAllowed := false }

def openFlow (token : Token) (spot : Spot) (rest : List Spot) (scan : Scan) : Option Scan := do
  let scan ← scan.noteKey spot
  return emit token { scan with spots := rest, keys := none :: scan.keys, keyAllowed := true }

def closeFlow (token : Token) (rest : List Spot) (scan : Scan) : Option Scan := do
  let scan ← scan.dropKey
  let keys := if scan.inFlow then scan.keys.tail else scan.keys
  return emit token { scan with spots := rest, keys, keyAllowed := false }

def nextFlowEntry (rest : List Spot) (scan : Scan) : Option Scan := do
  let scan ← scan.dropKey
  return emit .flowEntry { scan with spots := rest, keyAllowed := true }

def nextBlockEntry (spot : Spot) (rest : List Spot) (scan : Scan) : Option Scan := do
  if !scan.inFlow && !scan.keyAllowed then none
  let scan ← (scan.openBlock spot.column scan.tokens.length .sequenceStart).dropKey
  return emit .entry { scan with spots := rest, keyAllowed := true }

def explicitKey (spot : Spot) (rest : List Spot) (scan : Scan) : Option Scan := do
  if !scan.inFlow && !scan.keyAllowed then none
  let scan ← (scan.openBlock spot.column scan.tokens.length .mappingStart).dropKey
  return emit .key { scan with spots := rest, keyAllowed := !scan.inFlow }

def nextValue (spot : Spot) (rest : List Spot) (scan : Scan) : Option Scan :=
  match scan.keys with
  | some place :: others =>
    let scan := insert place.before .key { scan with keys := none :: others }
    let scan := scan.openBlock place.column place.before .mappingStart
    some (emit .value { scan with spots := rest, keyAllowed := false })
  | _ =>
    if !scan.inFlow && !scan.keyAllowed then none
    else
      let scan := scan.openBlock spot.column scan.tokens.length .mappingStart
      some (emit .value { scan with spots := rest, keyAllowed := !scan.inFlow })

/-- Takes a scalar that was read; behind a line break a key may begin. -/
def takeScalar (plain : Bool) (spot : Spot) (scanned : Option Scanned) (scan : Scan) :
    Option Scan := do
  let scan ← scan.noteKey spot
  let scanned ← scanned
  return emit (.scalar scanned.text plain)
    { scan with spots := scanned.rest, keyAllowed := scanned.broken }

/-- Characters that have a meaning at the start of a token. -/
def isIndicator (c : Char) : Bool :=
  ['-', '?', ':', ',', '[', ']', '{', '}', '#', '&', '*', '!', '|', '>', '\'', '"', '%', '@',
    '\u0060'].contains c

/-- Whether a plain scalar can begin here. -/
def startsPlain (inFlow : Bool) (c : Char) (rest : List Spot) : Bool :=
  !(isSpace c || isBreak c || isIndicator c)
    || (c = '-' && !(rest.head?.any fun next => isSpace next.char))
    || (!inFlow && (c = '?' || c = ':') && !atGap rest)

/-- The scan after the token that begins with `spot`. -/
def fetch (spot : Spot) (rest : List Spot) (scan : Scan) : Option Scan :=
  let c := spot.char
  if isMarker '-' (spot :: rest) then scan.documentMarker .documentStart rest
  else if isMarker '.' (spot :: rest) then scan.documentMarker .documentEnd rest
  else if c = '[' then scan.openFlow .flowSequenceStart spot rest
  else if c = '{' then scan.openFlow .flowMappingStart spot rest
  else if c = ']' then scan.closeFlow .flowSequenceEnd rest
  else if c = '}' then scan.closeFlow .flowMappingEnd rest
  else if c = ',' then scan.nextFlowEntry rest
  else if c = '-' ∧ atGap rest then scan.nextBlockEntry spot rest
  else if c = '?' ∧ (scan.inFlow ∨ atGap rest) then scan.explicitKey spot rest
  else if c = ':' ∧ (scan.inFlow ∨ atGap rest) then scan.nextValue spot rest
  else if c = '\'' then scan.takeScalar false spot (singleFrom .none [] rest)
  else if c = '"' then scan.takeScalar false spot (doubleFrom (rest.length + 1) .none [] rest)
  else if startsPlain scan.inFlow c rest then
    scan.takeScalar true spot (plainFrom scan.inFlow (scan.indent + 1) .none [] (spot :: rest))
  else none

/-- All tokens, in order. `fuel` is greater than the number of spots. -/
def run : Nat → Scan → Option (List Token)
  | 0, _ => none
  | fuel + 1, scan =>
    let scan := scan.skipGaps
    match scan.spots with
    | [] => do
      let scan ← (scan.closeBlocks (-1)).dropKey
      return scan.tokens.reverse
    | spot :: rest => do
      let scan ← scan.dropStaleKeys spot.line spot.index
      let scan ← (scan.closeBlocks spot.column).fetch spot rest
      run fuel scan

end Scan

def tokens? (text : Text) : Option (List Token) :=
  if text.all isAllowed then
    let spots := spots text
    Scan.run (spots.length + 1) { spots }
  else none

end ApiSchema.Yaml
