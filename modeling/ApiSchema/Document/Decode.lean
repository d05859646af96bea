import ApiSchema.Document.Basic
import ApiSchema.Decode.Source

set_option autoImplicit false

namespace ApiSchema

open Source FieldShape

section Parts

variable {V : Type} [Source V]

def Facets.fields : List (FieldShape V) :=
  [spare "minimum" (optional real), spare "maximum" (optional real),
    spare "min_length" (optional length), spare "max_length" (optional length),
    spare "pattern" (optional text), spare "enum" (listOf text),
    spare "default" (optional text), spare "example" (optional text)]

def Facets.ofMembers (members : List (Text × V)) : Except Fault Facets := do
  let minimum ← Member.getD members "minimum" (optional real) none
  let maximum ← Member.getD members "maximum" (optional real) none
  let minLength ← Member.getD members "min_length" (optional length) none
  let maxLength ← Member.getD members "max_length" (optional length) none
  let pattern ← Member.getD members "pattern" (optional text) none
  let choices ← Member.getD members "enum" (listOf text) []
  let defaultValue ← Member.getD members "default" (optional text) none
  let sample ← Member.getD members "example" (optional text) none
  return { minimum, maximum, minLength, maxLength, pattern, choices, defaultValue, sample }

end Parts

/-- The facets among values that are read whole. -/
def Facets.ofData (data : List (Text × Datum)) : Except Fault Facets := do
  let shape : Shape Datum := ⟨"PropertyFacets", Facets.fields, fun _ => .ok (), false⟩
  shape.scan [] data
  Facets.ofMembers data

section Records

variable {V : Type} [RecordSource V]

open RecordSource

/-- The shape of a record whose other members are passed over. -/
def recordShape (name : Text) (fields : List (FieldShape V)) : Shape V := ⟨name, fields, skip, true⟩

def Facets.decode (value : V) : Except Fault Facets := do
  let members ← members (recordShape "PropertyFacets" Facets.fields) value
  Facets.ofMembers members

/-- The fields of a property apart from its facets. -/
def Property.fields : List (FieldShape V) :=
  [needed "name" text, needed "type" text, spare "required" flag, spare "description" text]

def Property.shape (around : Nat) : Shape V :=
  ⟨"Property", Property.fields, checkOf (datum (around + 1)), false⟩

/-- The values of the members that are no fields of `shape`. -/
def otherData (around : Nat) (shape : Shape V) (members : List (Text × V)) :
    Except Fault (List (Text × Datum)) :=
  (members.filter fun (name, _) => !(shape.fields.any fun field => field.name = name)).mapM
    fun (name, value) => (datum (around + 1) value).map (name, ·)

def Property.decode (around : Nat) (value : V) : Except Fault Property := do
  let shape : Shape V := Property.shape around
  let members ← members shape value
  let name ← Member.get members "name" text
  let type ← Member.get members "type" text
  let required ← Member.getD members "required" flag false
  let description ← Member.getD members "description" text []
  let data ← otherData around shape members
  let facets ← Facets.ofData data
  return { name, type, required, description, facets }

def Definition.shape (around : Nat) : Shape V :=
  recordShape "Definition"
    [needed "name" text, spare "description" text, spare "generic_params" (listOf text),
      spare "properties" (listOf (Property.decode (around + 2)))]

def Definition.decode (around : Nat) (value : V) : Except Fault Definition := do
  let members ← members (Definition.shape around) value
  let name ← Member.get members "name" text
  let description ← Member.getD members "description" text []
  let params ← Member.getD members "generic_params" (listOf text) []
  let properties ←
    Member.getD members "properties" (listOf (Property.decode (around + 2))) []
  return { name, description, params, properties }

def HttpMethod.decode (value : V) : Except Fault HttpMethod :=
  match variant (HttpMethod.all.map HttpMethod.name) value with
  | .error fault => .error fault
  | .ok name =>
    match HttpMethod.ofName? name with
    | some method => .ok method
    | none => .error .malformed

def ParamPlace.decode (value : V) : Except Fault ParamPlace :=
  match variant (ParamPlace.all.map ParamPlace.name) value with
  | .error fault => .error fault
  | .ok name =>
    match ParamPlace.ofName? name with
    | some place => .ok place
    | none => .error .malformed

def Param.shape : Shape V :=
  recordShape "Param"
    [needed "name" text, needed "in" ParamPlace.decode, needed "type" text,
      spare "required" flag, spare "description" text]

def Param.decode (value : V) : Except Fault Param := do
  let members ← members Param.shape value
  let name ← Member.get members "name" text
  let place ← Member.get members "in" ParamPlace.decode
  let type ← Member.get members "type" text
  let required ← Member.getD members "required" flag false
  let description ← Member.getD members "description" text []
  return { name, place, type, required, description }

def Response.shape : Shape V :=
  recordShape "Response"
    [needed "status" Source.status, spare "description" text, spare "type" (optional text)]

def Response.decode (value : V) : Except Fault Response := do
  let members ← members Response.shape value
  let status ← Member.get members "status" Source.status
  let description ← Member.getD members "description" text []
  let type ← Member.getD members "type" (optional text) none
  return { status, description, type }

def Tag.shape : Shape V :=
  recordShape "Tag" [needed "name" text, spare "description" text]

def Tag.decode (value : V) : Except Fault Tag := do
  let members ← members Tag.shape value
  let name ← Member.get members "name" text
  let description ← Member.getD members "description" text []
  return { name, description }

def Operation.shape : Shape V :=
  recordShape "Operation"
    [needed "id" text, needed "method" HttpMethod.decode, needed "path" text,
      spare "summary" text, spare "tags" (listOf text), spare "params" (listOf Param.decode),
      spare "responses" (listOf Response.decode)]

def Operation.decode (value : V) : Except Fault Operation := do
  let members ← members Operation.shape value
  let id ← Member.get members "id" text
  let method ← Member.get members "method" HttpMethod.decode
  let path ← Member.get members "path" text
  let summary ← Member.getD members "summary" text []
  let tags ← Member.getD members "tags" (listOf text) []
  let params ← Member.getD members "params" (listOf Param.decode) []
  let responses ← Member.getD members "responses" (listOf Response.decode) []
  return { id, method, path, summary, tags, params, responses }

def Document.shape : Shape V :=
  recordShape "ApiDocument"
    [needed "title" text, needed "version" text, spare "description" text,
      spare "base_path" text, spare "tags" (listOf Tag.decode),
      spare "operations" (listOf Operation.decode),
      spare "definitions" (listOf (Definition.decode 2))]

def Document.decode (value : V) : Except Fault Document := do
  let members ← members Document.shape value
  let title ← Member.get members "title" text
  let version ← Member.get members "version" text
  let description ← Member.getD members "description" text []
  let basePath ← Member.getD members "base_path" text []
  let tags ← Member.getD members "tags" (listOf Tag.decode) []
  let operations ← Member.getD members "operations" (listOf Operation.decode) []
  let definitions ← Member.getD members "definitions" (listOf (Definition.decode 2)) []
  return { title, version, description, basePath, tags, operations, definitions }

end Records

end ApiSchema
