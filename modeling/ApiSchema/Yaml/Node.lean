import ApiSchema.Yaml.Token

set_option autoImplicit false

namespace ApiSchema

inductive Yaml
  | scalar (text : Text) (plain : Bool)
  | sequence (items : List Yaml)
  | mapping (pairs : List (Yaml × Yaml))
deriving Repr, Inhabited

namespace Yaml

def empty : Yaml := scalar [] true

/-- Whether the first token is one of `stops`, or none is left. -/
def stopsAt (stops : List Token) (tokens : List Token) : Bool :=
  match tokens with
  | [] => true
  | token :: _ => token ∈ stops

/-- What follows the comma that must stand before every item but the first. -/
def nextItem? (first : Bool) (tokens : List Token) : Option (List Token) :=
  match first, tokens with
  | true, tokens => some tokens
  | false, .flowEntry :: rest => some rest
  | false, _ => none

mutual

/-- Reads a value. `block` allows block collections, and `bare` a list with entries at the column of
its key. -/
def node? (fuel : Nat) (block bare : Bool) (tokens : List Token) :
    Option (Yaml × List Token) :=
  match fuel, tokens with
  | fuel + 1, .entry :: rest =>
    if bare then
      (bareEntries? fuel (.entry :: rest)).map fun (items, rest) => (sequence items, rest)
    else none
  | _ + 1, .scalar text plain :: rest => some (scalar text plain, rest)
  | fuel + 1, .flowSequenceStart :: rest =>
    (flowItems? fuel true rest).map fun (items, rest) => (sequence items, rest)
  | fuel + 1, .flowMappingStart :: rest =>
    (flowPairs? fuel true rest).map fun (pairs, rest) => (mapping pairs, rest)
  | fuel + 1, .sequenceStart :: rest =>
    if block then (blockEntries? fuel rest).map fun (items, rest) => (sequence items, rest)
    else none
  | fuel + 1, .mappingStart :: rest =>
    if block then (blockPairs? fuel rest).map fun (pairs, rest) => (mapping pairs, rest)
    else none
  | _, _ => none

/-- Reads a value, or nothing if one of `stops` follows. -/
def nodeBefore? (fuel : Nat) (block bare : Bool) (stops : List Token) (tokens : List Token) :
    Option (Yaml × List Token) :=
  match fuel with
  | 0 => none
  | fuel + 1 => if stopsAt stops tokens then some (empty, tokens) else node? fuel block bare tokens

/-- The entries of a list up to the end of its block. -/
def blockEntries? (fuel : Nat) (tokens : List Token) : Option (List Yaml × List Token) :=
  match fuel, tokens with
  | _ + 1, .blockEnd :: rest => some ([], rest)
  | fuel + 1, .entry :: rest => do
    let (item, rest) ← nodeBefore? fuel true false [.entry, .blockEnd] rest
    let (items, rest) ← blockEntries? fuel rest
    return (item :: items, rest)
  | _, _ => none

/-- The entries of a list that has no block of its own. -/
def bareEntries? (fuel : Nat) (tokens : List Token) : Option (List Yaml × List Token) :=
  match fuel, tokens with
  | 0, _ => none
  | fuel + 1, .entry :: rest => do
    let (item, rest) ← nodeBefore? fuel true false [.entry, .key, .value, .blockEnd] rest
    let (items, rest) ← bareEntries? fuel rest
    return (item :: items, rest)
  | _ + 1, tokens => some ([], tokens)

/-- The pairs of a mapping up to the end of its block. -/
def blockPairs? (fuel : Nat) (tokens : List Token) : Option (List (Yaml × Yaml) × List Token) :=
  match fuel, tokens with
  | _ + 1, .blockEnd :: rest => some ([], rest)
  | fuel + 1, .key :: rest => do
    let (name, rest) ← nodeBefore? fuel true true [.key, .value, .blockEnd] rest
    let (value, rest) ← blockValue? fuel rest
    let (pairs, rest) ← blockPairs? fuel rest
    return ((name, value) :: pairs, rest)
  | _, _ => none

/-- The value of a pair in a block. -/
def blockValue? (fuel : Nat) (tokens : List Token) : Option (Yaml × List Token) :=
  match fuel, tokens with
  | 0, _ => none
  | fuel + 1, .value :: rest => nodeBefore? fuel true true [.key, .value, .blockEnd] rest
  | _ + 1, tokens => some (empty, tokens)

/-- The items of a list in brackets. A key among them makes a mapping of one pair; a key that is
left out takes the token behind it along. -/
def flowItems? (fuel : Nat) (first : Bool) (tokens : List Token) :
    Option (List Yaml × List Token) :=
  match fuel, tokens with
  | _ + 1, .flowSequenceEnd :: rest => some ([], rest)
  | fuel + 1, tokens => do
    let tokens ← nextItem? first tokens
    match tokens with
    | .flowSequenceEnd :: rest => return ([], rest)
    | .key :: rest =>
      let (name, rest) ←
        if stopsAt [.value, .flowEntry, .flowSequenceEnd] rest then some (empty, rest.drop 1)
        else node? fuel false false rest
      let (value, rest) ← flowValue? fuel .flowSequenceEnd rest
      let (items, rest) ← flowItems? fuel false rest
      return (mapping [(name, value)] :: items, rest)
    | tokens =>
      let (item, rest) ← node? fuel false false tokens
      let (items, rest) ← flowItems? fuel false rest
      return (item :: items, rest)
  | _, _ => none

/-- The pairs of a mapping in braces. A value alone is a key with nothing behind it. -/
def flowPairs? (fuel : Nat) (first : Bool) (tokens : List Token) :
    Option (List (Yaml × Yaml) × List Token) :=
  match fuel, tokens with
  | _ + 1, .flowMappingEnd :: rest => some ([], rest)
  | fuel + 1, tokens => do
    let tokens ← nextItem? first tokens
    match tokens with
    | .flowMappingEnd :: rest => return ([], rest)
    | .key :: rest =>
      let (name, rest) ← nodeBefore? fuel false false [.value, .flowEntry, .flowMappingEnd] rest
      let (value, rest) ← flowValue? fuel .flowMappingEnd rest
      let (pairs, rest) ← flowPairs? fuel false rest
      return ((name, value) :: pairs, rest)
    | tokens =>
      let (name, rest) ← node? fuel false false tokens
      let (pairs, rest) ← flowPairs? fuel false rest
      return ((name, empty) :: pairs, rest)
  | _, _ => none

/-- The value of a pair between flow brackets that `close` ends. -/
def flowValue? (fuel : Nat) (close : Token) (tokens : List Token) : Option (Yaml × List Token) :=
  match fuel, tokens with
  | 0, _ => none
  | fuel + 1, .value :: rest => nodeBefore? fuel false false [.flowEntry, close] rest
  | _ + 1, tokens => some (empty, tokens)

end

def read? (text : Text) : Option Yaml := do
  let tokens ← tokens? text
  let fuel := 4 * tokens.length + 4
  let (value, rest) ←
    match tokens with
    | [] => none
    | .documentStart :: rest =>
      nodeBefore? fuel true false [.documentStart, .documentEnd] rest
    | tokens => node? fuel true false tokens
  if (rest.dropWhile fun token => token = .documentEnd).isEmpty then some value else none

end Yaml

end ApiSchema
