import ApiSchema.Json.Token

set_option autoImplicit false

namespace ApiSchema.Json

/-- A container that is open, with what it holds so far, the last part first. A member is one whose
name is read and whose value is not. -/
inductive Frame
  | array (items : List Json)
  | object (members : List (Option Text × Json))
  | member (members : List (Option Text × Json)) (name : Option Text)

inductive Expectation
  | value
  /-- a value, or the end of an array that was just opened -/
  | firstItem
  /-- a member name, or the end of an object that was just opened -/
  | firstName
  | name
  | colon
  /-- a comma or the end of the container -/
  | separator

inductive State
  | expecting (what : Expectation) (frames : List Frame)
  | finished (value : Json)
  | failed (value : Json)

/-- The whole value when `value` is the last part of the innermost container and no container is
closed. -/
def breakOff (value : Json) : List Frame → Json
  | [] => value
  | .array items :: outer => breakOff (.array (items.reverse ++ [value]) false) outer
  | .object members :: outer => breakOff (.object members.reverse false) outer
  | .member members name :: outer =>
    breakOff (.object (members.reverse ++ [(name, value)]) false) outer

/-- The whole value when nothing more comes. -/
def giveUp (what : Expectation) (frames : List Frame) : Json :=
  match what, frames with
  | .value, _ => breakOff .broken frames
  | _, .array items :: outer => breakOff (.array items.reverse false) outer
  | _, _ => breakOff .broken frames

/-- The state after a value that is complete. -/
def place (value : Json) : List Frame → State
  | [] => .finished value
  | .array items :: outer => .expecting .separator (.array (value :: items) :: outer)
  | .member members name :: outer =>
    .expecting .separator (.object ((name, value) :: members) :: outer)
  | .object members :: outer => .failed (breakOff .broken (.object members :: outer))

/-- The state after a value begins or stands where one may. -/
def startValue (what : Expectation) (frames : List Frame) : Token → State
  | .leaf value => place value frames
  | .openArray => .expecting .firstItem (.array [] :: frames)
  | .openObject => .expecting .firstName (.object [] :: frames)
  | _ => .failed (giveUp what frames)

/-- The state after a token in the place of a member name, which only a string can be. -/
def startMember (members : List (Option Text × Json)) (outer : List Frame) : Token → State
  | .leaf (.string name) => .expecting .colon (.member members (some name) :: outer)
  | .leaf .unpaired => .expecting .colon (.member members none :: outer)
  | _ => .failed (breakOff .broken (.object members :: outer))

def advance (state : State) (token : Token) : State :=
  match state with
  | .finished value => .failed value
  | .failed value => .failed value
  | .expecting what frames =>
    match what, frames, token with
    | .firstItem, .array _ :: outer, .closeArray => place (.array [] true) outer
    | .firstItem, _, _ => startValue what frames token
    | .value, _, _ => startValue what frames token
    | .firstName, .object _ :: outer, .closeObject => place (.object [] true) outer
    | .firstName, .object members :: outer, _ => startMember members outer token
    | .name, .object members :: outer, _ => startMember members outer token
    | .colon, _, .colon => .expecting .value frames
    | .separator, .array _ :: _, .comma => .expecting .value frames
    | .separator, .object _ :: _, .comma => .expecting .name frames
    | .separator, .array items :: outer, .closeArray => place (.array items.reverse true) outer
    | .separator, .object members :: outer, .closeObject =>
      place (.object members.reverse true) outer
    | _, _, _ => .failed (giveUp what frames)

structure Reading where
  value : Json
  complete : Bool

def State.reading : State → Reading
  | finished value => ⟨value, true⟩
  | failed value => ⟨value, false⟩
  | expecting what frames => ⟨giveUp what frames, false⟩

def read (text : Text) : Reading :=
  ((tokens text).foldl advance (.expecting .value [])).reading

end ApiSchema.Json
