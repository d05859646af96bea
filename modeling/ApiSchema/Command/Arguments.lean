import ApiSchema.Text.Basic

set_option autoImplicit false

namespace ApiSchema.Command

/-- What is asked for. -/
inductive Request
  | version
  | help
  | resolve (file : Text) (json : Bool)
  | parse (expr : Text)
  | check (exprs : List Text)
deriving DecidableEq, Repr

inductive Verb
  | resolve
  | parse
  | check
deriving DecidableEq, Repr

def Verb.ofWord? (word : Text) : Option Verb :=
  if word = "resolve" then some .resolve
  else if word = "parse" then some .parse
  else if word = "check" then some .check
  else none

/-- What a word does that is no value. -/
inductive Effect
  | nothing
  | help
  | version
  | json
  | logJson
deriving DecidableEq, Repr

/-- The effect of letters behind a hyphen. `atTop` says that no verb has come yet. -/
def lettersEffect? (atTop : Bool) : Text → Option Effect
  | [] => some .nothing
  | 'v' :: rest => lettersEffect? atTop rest
  | 'h' :: _ => some .help
  | 'V' :: _ => if atTop then some .version else none
  | _ => none

def wordEffect? (verb : Option Verb) (word : Text) : Option Effect :=
  if word = "--verbose" then some .nothing
  else if word = "--help" then some .help
  else if word = "--log-json" then some .logJson
  else if word = "--version" ∧ verb = none then some .version
  else if word = "--json" ∧ verb = some .resolve then some .json
  else none

/-- A word as a flag: none if it is a value, and otherwise its effect, if it has one here. -/
def flag? (verb : Option Verb) (word : Text) : Option (Option Effect) :=
  match word with
  | '-' :: '-' :: _ => some (wordEffect? verb word)
  | '-' :: c :: rest => some (lettersEffect? verb.isNone (c :: rest))
  | _ => none

/-- The words behind a verb, as far as they are read. -/
structure Given where
  values : List Text := []
  json : Bool := false
  logJson : Bool := false

/-- Whether `word` can be one more value for a verb that has `values` of them. Only a check takes
several, and a file has a name. -/
def Verb.takes (verb : Verb) (values : Nat) (word : Text) : Bool :=
  (verb = .check || values = 0) && !(verb = .resolve && word.isEmpty)

def Verb.request? (verb : Verb) (given : Given) : Option Request :=
  match verb, given.values with
  | .resolve, [file] => some (.resolve file given.json)
  | .parse, [expr] => some (.parse expr)
  | .check, first :: rest => some (.check (first :: rest))
  | _, _ => none

def Given.addValue? (verb : Verb) (word : Text) (given : Given) : Option Given :=
  if verb.takes given.values.length word then
    some { given with values := given.values ++ [word] }
  else none

/-- Reads the words behind `--`. -/
def readValues (verb : Verb) (given : Given) : List Text → Option Request
  | [] => verb.request? given
  | word :: rest =>
    match given.addValue? verb word with
    | some given => readValues verb given rest
    | none => none

/-- Reads the words behind a verb. -/
def readWords (verb : Verb) (given : Given) : List Text → Option Request
  | [] => verb.request? given
  | word :: rest =>
    if word = "--" then readValues verb given rest
    else
      match flag? (some verb) word with
      | some (some .nothing) => readWords verb given rest
      | some (some .help) => some .help
      | some (some .json) =>
        if given.json then none else readWords verb { given with json := true } rest
      | some (some .logJson) =>
        if given.logJson then none else readWords verb { given with logJson := true } rest
      | some _ => none
      | none =>
        match given.addValue? verb word with
        | some given => readWords verb given rest
        | none => none

/-- Whether words behind `help` name something there is help for. -/
def isHelpTopic : List Text → Bool
  | [] => true
  | [word] => (Verb.ofWord? word).isSome || word = "help"
  | _ => false

def readTop (logJson : Bool) : List Text → Option Request
  | [] => none
  | word :: rest =>
    if word = "--" then none
    else
      match flag? none word with
      | some (some .nothing) => readTop logJson rest
      | some (some .help) => some .help
      | some (some .version) => some .version
      | some (some .logJson) => if logJson then none else readTop true rest
      | some _ => none
      | none =>
        match Verb.ofWord? word with
        | some verb => readWords verb {} rest
        | none => if word = "help" ∧ isHelpTopic rest then some .help else none

/-- The request that the arguments make; none for wrong usage. -/
def readArguments (arguments : List Text) : Option Request := readTop false arguments

end ApiSchema.Command
