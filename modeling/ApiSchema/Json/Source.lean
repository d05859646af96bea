import ApiSchema.Json.Reader
import ApiSchema.Decode.Source

set_option autoImplicit false

namespace ApiSchema.Json

/-- A scalar, read by what it is. -/
def scalar {α : Type} (read : Datum → Except Fault α) (value : Json) : Except Fault α :=
  match value.outline with
  | .error fault => .error fault
  | .ok datum => read datum

/-- The fault of a value in the place of something else. -/
def misplaced {α : Type} (expected : Text) : Json → Except Fault α :=
  scalar fun datum => .error (.wrongType datum expected)

def items : Json → Except Fault (List Json × Bool)
  | array parts closed => .ok (parts, closed)
  | other => misplaced "a sequence" other

/-- Passes over a value that is not used. -/
def skip (value : Json) : Except Fault Unit := if value.isWhole then .ok () else .error .malformed

def knownVariant (names : List Text) (name : Text) : Except Fault Text :=
  if name ∈ names then .ok name else .error (.unknownVariant name names)

def variant (names : List Text) : Json → Except Fault Text
  | string name => knownVariant names name
  | object ((some name, value) :: rest) closed =>
    match knownVariant names name with
    | .error fault => .error fault
    | .ok known =>
      match value with
      | null => if rest.isEmpty && closed then .ok known else .error .malformed
      | other => misplaced "unit" other
  | _ => .error .malformed

def members (shape : Shape Json) : Json → Except Fault (List (Text × Json))
  | object parts closed =>
    let named := namedMembers parts
    match shape.scan [] named with
    | .error fault => .error fault
    | .ok () => if closed && named.length = parts.length then .ok named else .error .malformed
  | array parts closed =>
    if shape.positional then shape.scanItems closed 0 shape.fields parts
    else .error (.wrongType (.sequence []) shape.expected)
  | other => misplaced shape.expected other

instance : RecordSource Json where
  text := scalar Datum.asText
  flag := scalar Datum.asFlag
  status := scalar Datum.asStatus
  length := scalar Datum.asLength
  real := scalar Datum.asReal
  items := items
  isNull
    | null => true
    | _ => false
  variant := variant
  members := members
  datum := datum
  skip := skip

/-- Reads a whole text by `decode`. -/
def decodeText {α : Type} (decode : Json → Except Fault α) (text : Text) : Except Fault α :=
  let reading := read text
  match decode reading.value with
  | .error fault => .error fault
  | .ok value => if reading.complete then .ok value else .error .malformed

end ApiSchema.Json
