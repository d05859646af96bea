import ApiSchema.Decode.Datum

set_option autoImplicit false

namespace ApiSchema

/-- The readings of scalars and lists. `items` tells with the items whether the list is closed. -/
class Source (V : Type) where
  text : V → Except Fault Text
  flag : V → Except Fault Bool
  status : V → Except Fault UInt16
  length : V → Except Fault UInt64
  real : V → Except Fault Binary64
  items : V → Except Fault (List V × Bool)
  isNull : V → Bool

/-- A field of a record. A required one has no value to fall back on. -/
structure FieldShape (V : Type) where
  name : Text
  required : Bool
  check : V → Except Fault Unit

/-- A kind of record. `other` checks the values of members that are no fields; `positional` says
that a list of the fields in order will do for the record. -/
structure Shape (V : Type) where
  name : Text
  fields : List (FieldShape V)
  other : V → Except Fault Unit
  positional : Bool

/-- The readings of records: names of a choice, members of a record, and any value at all with
`depth` containers around it. `skip` checks a value that is not used. -/
class RecordSource (V : Type) extends Source V where
  variant : List Text → V → Except Fault Text
  members : Shape V → V → Except Fault (List (Text × V))
  datum : Nat → V → Except Fault Datum
  skip : V → Except Fault Unit

namespace FieldShape

/-- A reading of which only its success is kept. -/
def checkOf {V α : Type} (read : V → Except Fault α) (value : V) : Except Fault Unit :=
  (read value).map fun _ => ()

def needed {V α : Type} (name : Text) (read : V → Except Fault α) : FieldShape V :=
  ⟨name, true, checkOf read⟩

def spare {V α : Type} (name : Text) (read : V → Except Fault α) : FieldShape V :=
  ⟨name, false, checkOf read⟩

end FieldShape

namespace Shape

/-- What a value of another kind is told to be in place of. -/
def expected {V : Type} (shape : Shape V) : Text := "struct " ++ shape.name

/-- Checks named members in order. A field may stand only once. -/
def scan {V : Type} (shape : Shape V) (seen : List Text) : List (Text × V) → Except Fault Unit
  | [] => .ok ()
  | (name, value) :: rest =>
    match shape.fields.find? fun field => field.name = name with
    | none =>
      match shape.other value with
      | .error fault => .error fault
      | .ok () => scan shape seen rest
    | some field =>
      if name ∈ seen then .error (.duplicateField name)
      else
        match field.check value with
        | .error fault => .error fault
        | .ok () => scan shape (name :: seen) rest

/-- Checks the items of a list that stands for a record and gives them the names of the fields.
`index` fields are dealt with. Fields at the end may be left out if they are not required. -/
def scanItems {V : Type} (shape : Shape V) (closed : Bool) (index : Nat) :
    List (FieldShape V) → List V → Except Fault (List (Text × V))
  | [], items => if items.isEmpty && closed then .ok [] else .error .malformed
  | field :: fields, [] =>
    if !closed then .error .malformed
    else if field.required then .error (.wrongLength index shape.name shape.fields.length)
    else scanItems shape closed (index + 1) fields []
  | field :: fields, item :: items =>
    match field.check item with
    | .error fault => .error fault
    | .ok () => (scanItems shape closed (index + 1) fields items).map ((field.name, item) :: ·)

end Shape

namespace Source

variable {V α : Type} [Source V]

/-- A value or null. -/
def optional (read : V → Except Fault α) (value : V) : Except Fault (Option α) :=
  if isNull value then .ok none else (read value).map some

/-- A list whose items are read one after another. -/
def listOf (read : V → Except Fault α) (value : V) : Except Fault (List α) :=
  match items value with
  | .error fault => .error fault
  | .ok (parts, closed) =>
    match parts.mapM read with
    | .error fault => .error fault
    | .ok values => if closed then .ok values else .error .malformed

end Source

namespace Member

variable {V α : Type}

/-- The value of a field that has to be there. -/
def get (members : List (Text × V)) (name : Text) (read : V → Except Fault α) :
    Except Fault α :=
  match members.lookup name with
  | none => .error (.missingField name)
  | some value => read value

/-- The value of a field, or `fallback` if it is left out. -/
def getD (members : List (Text × V)) (name : Text) (read : V → Except Fault α) (fallback : α) :
    Except Fault α :=
  match members.lookup name with
  | none => .ok fallback
  | some value => read value

end Member

instance : Source Datum where
  text := Datum.asText
  flag := Datum.asFlag
  status := Datum.asStatus
  length := Datum.asLength
  real := Datum.asReal
  items
    | .sequence parts => .ok (parts, true)
    | other => .error (.wrongType other "a sequence")
  isNull
    | .null => true
    | _ => false

end ApiSchema
