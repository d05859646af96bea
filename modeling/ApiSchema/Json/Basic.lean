import ApiSchema.Decimal.Numeral
import ApiSchema.Decode.Datum

set_option autoImplicit false

namespace ApiSchema

/-- A JSON value, as far as it could be read. -/
inductive Json
  | null
  | flag (value : Bool)
  | number (numeral : Numeral)
  | string (value : Text)
  /-- a string with half of a surrogate pair in it, which stands for no text -/
  | unpaired
  | array (items : List Json) (closed : Bool)
  /-- a name that stands for no text is left out -/
  | object (members : List (Option Text × Json)) (closed : Bool)
  /-- what is left where the text stops being JSON -/
  | broken
deriving Repr, Inhabited

namespace Json

def list (items : List Json) : Json := .array items true

def record (members : List (Text × Json)) : Json :=
  .object (members.map fun (name, value) => (some name, value)) true

/-- The members up to the first whose name is no text. -/
def namedMembers : List (Option Text × Json) → List (Text × Json)
  | (some name, value) :: rest => (name, value) :: namedMembers rest
  | _ => []

mutual

/-- Every container in the value is closed and nothing in it is broken. -/
def isWhole : Json → Bool
  | array items closed => closed && allWhole items
  | object members closed => closed && allMembersWhole members
  | broken => false
  | _ => true

def allWhole : List Json → Bool
  | [] => true
  | item :: rest => item.isWhole && allWhole rest

def allMembersWhole : List (Option Text × Json) → Bool
  | [] => true
  | (_, value) :: rest => value.isWhole && allMembersWhole rest

end

/-- A numeral as an integer of 64 bits, with or without sign, or else as a double. None if it is too
large for that. Minus zero is a double. -/
def numberDatum? (numeral : Numeral) : Option Datum :=
  let n := numeral.wholeValue
  if numeral.isWhole && !numeral.negative && decide (n < UInt64.size) then some (.integer n)
  else if numeral.isWhole && numeral.negative && decide (0 < n ∧ n ≤ Nat.pow 2 63) then
    some (.integer (-n))
  else numeral.scaled?.map .real

/-- What the value is, without looking into containers. -/
def outline : Json → Except Fault Datum
  | null => .ok .null
  | flag value => .ok (.flag value)
  | number numeral =>
    match numberDatum? numeral with
    | some datum => .ok datum
    | none => .error .malformed
  | string value => .ok (.text value)
  | array .. => .ok (.sequence [])
  | object .. => .ok .mapping
  | unpaired => .error .malformed
  | broken => .error .malformed

/-- The number of containers that may stand in one another. -/
def deepest : Nat := 127

mutual

/-- The value with all that it holds, `depth` containers being open around it. -/
def datum (depth : Nat) : Json → Except Fault Datum
  | array items closed =>
    if depth < deepest then
      match data (depth + 1) items with
      | .error fault => .error fault
      | .ok values => if closed then .ok (.sequence values) else .error .malformed
    else .error .malformed
  | object members closed =>
    if depth < deepest then
      match checkMembers (depth + 1) members with
      | .error fault => .error fault
      | .ok () => if closed then .ok .mapping else .error .malformed
    else .error .malformed
  | leaf => leaf.outline

def data (depth : Nat) : List Json → Except Fault (List Datum)
  | [] => .ok []
  | item :: rest =>
    match item.datum depth with
    | .error fault => .error fault
    | .ok value =>
      match data depth rest with
      | .error fault => .error fault
      | .ok values => .ok (value :: values)

def checkMembers (depth : Nat) : List (Option Text × Json) → Except Fault Unit
  | [] => .ok ()
  | (none, _) :: _ => .error .malformed
  | (some _, value) :: rest =>
    match value.datum depth with
    | .error fault => .error fault
    | .ok _ => checkMembers depth rest

end

end Json

end ApiSchema
