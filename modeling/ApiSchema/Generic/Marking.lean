import ApiSchema.TypeExpr.Checker
import ApiSchema.Definition.Basic

set_option autoImplicit false

namespace ApiSchema.Generic

open TypeExpr

def markOpen : Char := '«'

def markClose : Char := '»'

/-- The marked token of a parameter. -/
def mark (name : Text) : Text := markOpen :: name ++ [markClose]

/-- The name inside a marked token. -/
def unmark? (token : Text) : Option Text :=
  (Text.stripStart? [markOpen] token).bind (Text.stripEnd? [markClose])

theorem unmark?_mark (name : Text) : unmark? (mark name) = some name := by
  have opened : Text.stripStart? [markOpen] (mark name) = some (name ++ [markClose]) :=
    Text.stripStart?_eq_some_iff.mpr rfl
  simp only [unmark?, opened, Option.bind_some]
  exact Text.stripEnd?_eq_some_iff.mpr rfl

/-- A character that may stand before a token. -/
def endsLeft (c : Char) : Bool := c = ',' || c = '<' || Text.isBlank c

/-- A character that may stand behind a token. -/
def endsRight (c : Char) : Bool :=
  c = ',' || c = '<' || c = '>' || c = '[' || Text.isBlank c

/-- The text behind `name`, if `text` begins with `name` as a whole token. -/
def tokenTail? (name text : Text) : Option Text :=
  match Text.stripStart? name text with
  | none => none
  | some rest => if rest.head?.all endsRight then some rest else none

theorem tokenTail?_eq {name text rest : Text} (tail : tokenTail? name text = some rest) :
    text = name ++ rest := by
  unfold tokenTail? at tail
  split at tail
  · simp at tail
  · next found stripped =>
    split at tail
    · simp only [Option.some.injEq] at tail
      subst tail
      exact Text.stripStart?_eq_some_iff.mp stripped
    · simp at tail

/-- Marks tokens `name` from left to right in one sweep. A token uses up the character on each side,
so of two tokens with one character between them only the first is marked. `atStart` says that
nothing stands before the text. -/
def sweep (name : Text) (atStart : Bool) (text : Text) : Text :=
  match _found : if atStart then tokenTail? name text else none with
  | some rest => mark name ++ rest.take 1 ++ sweep name false (rest.drop 1)
  | none =>
    match text with
    | [] => []
    | c :: tail =>
      match _inner : if endsLeft c then tokenTail? name tail else none with
      | some rest => c :: mark name ++ rest.take 1 ++ sweep name false (rest.drop 1)
      | none => c :: sweep name false tail
termination_by text.length + atStart.toNat
decreasing_by
  · split at _found
    · next start =>
      rw [tokenTail?_eq _found, start]
      simp only [List.length_drop, List.length_append, Bool.toNat_false, Bool.toNat_true]
      omega
    · simp at _found
  · split at _inner
    · rw [tokenTail?_eq _inner]
      simp only [List.length_drop, List.length_append, List.length_cons, Bool.toNat_false]
      omega
    · simp at _inner
  · simp only [List.length_cons, Bool.toNat_false]
    omega

/-- Sweeps until nothing changes, `rounds` times at most. -/
def sweepRounds (name : Text) : Nat → Text → Text
  | 0, text => text
  | rounds + 1, text =>
    let swept := sweep name true text
    if swept = text then text else sweepRounds name rounds swept

/-- Marks every token `name`. A sweep that changes the text marks a token at least, so that there
are no more such sweeps than characters. -/
def markTokens (name text : Text) : Text := sweepRounds name (text.length + 1) text

/-- Trims a type text and writes every comma with no blank before it and one after it. -/
def spaceCommas (text : Text) : Text :=
  Text.joinWith ", " ((Text.pieces ',' text).map Text.trim)

/-- The bare name of a declared parameter, which may be written as its marked token. -/
def bareName (declared : Text) : Text := (unmark? declared).getD declared

/-- The bare names of the declared parameters, each at its first place. The first that is no fit
name is an error, which shows it as declared. -/
def distinctParams (definition : Text) (seen : List Text) :
    List Text → Except SchemaError (List Text)
  | [] => .ok []
  | declared :: rest =>
    let bare := bareName declared
    if bare ∈ seen then distinctParams definition seen rest
    else
      match parameterFlaw? bare with
      | some flaw => .error (.invalidParameter definition declared flaw)
      | none => (distinctParams definition (bare :: seen) rest).map (bare :: ·)

/-- The type text with every marked token of a parameter made bare. -/
def bareType (params : List Text) (type : Text) : Text :=
  params.foldl (fun text param => Text.replace (mark param) param text) type

/-- The first property type that is no type expression once its marks are taken away. -/
def checkTypes (params : List Text) : List Property → Except SchemaError Unit
  | [] => .ok ()
  | property :: rest =>
    match checkFragment (bareType params property.type) with
    | .error flaw => .error (.invalidType property.type flaw)
    | .ok () => checkTypes params rest

/-- The bytes that an automaton which finds a token may take. -/
def finderLimit : Nat := 10 * 1024 * 1024

/-- A state of 32 bytes for each letter of the name, beside those for the two sides of a token. -/
def finderSize (name : Text) : Nat := 32 * name.length + 1928

/-- Why there is no automaton that finds this token, if there is none. -/
def finderRefusal? (name : Text) : Option Text :=
  if finderLimit < finderSize name then
    some ("Compiled regex exceeds size limit of " ++ Text.ofNat finderLimit ++ " bytes.")
  else none

/-- The first parameter whose token cannot be looked for is an error, which shows it bare. -/
def checkFinders (refusal? : Text → Option Text) (definition : Text) :
    List Text → Except SchemaError Unit
  | [] => .ok ()
  | param :: rest =>
    match refusal? param with
    | some reason => .error (.invalidParameter definition param (.unfindable reason))
    | none => checkFinders refusal? definition rest

/-- The type text with all parameters marked and its commas spaced. -/
def markedType (params : List Text) (type : Text) : Text :=
  spaceCommas (params.foldl (fun text param => markTokens param text) type)

end ApiSchema.Generic

namespace ApiSchema

open Generic

/-- Makes a definition ready for instantiation: distinct parameters, marked in their declaration and
in all property types. Every property type is checked, whether or not an instance is ever made.
`refusal?` tells which tokens cannot be looked for, and why. -/
def Definition.prepareWith (refusal? : Text → Option Text) (definition : Definition) :
    Except SchemaError Definition :=
  match distinctParams definition.name [] definition.params with
  | .error error => .error error
  | .ok params =>
    match checkTypes params definition.properties with
    | .error error => .error error
    | .ok () =>
      match checkFinders refusal? definition.name params with
      | .error error => .error error
      | .ok () => .ok { definition.mapTypes (markedType params) with params := params.map mark }

def Definition.prepare (definition : Definition) : Except SchemaError Definition :=
  definition.prepareWith finderRefusal?

end ApiSchema
