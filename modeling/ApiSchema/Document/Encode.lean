import ApiSchema.Document.Basic
import ApiSchema.Json.Basic

set_option autoImplicit false

namespace ApiSchema

open Json (list record)

namespace Json

def ofText (text : Text) : Json := .string text

def ofTexts (texts : List Text) : Json := list (texts.map .string)

def ofNat (n : Nat) : Json := .number (.ofInt n)

/-- A double; those that no numeral stands for are null. -/
def ofReal (value : Binary64) : Json :=
  match realLayout.ofBinary64? value with
  | some numeral => .number numeral
  | none => .null

def member (name : Text) (value : Json) : Text × Json := (name, value)

/-- A member that is left out if there is no value. -/
def optionalMember {α : Type} (name : Text) (encode : α → Json) :
    Option α → List (Text × Json)
  | none => []
  | some value => [member name (encode value)]

end Json

open Json

/-- The members of the facets that are set. -/
def Facets.members (facets : Facets) : List (Text × Json) :=
  optionalMember "minimum" ofReal facets.minimum
    ++ optionalMember "maximum" ofReal facets.maximum
    ++ optionalMember "min_length" (fun n => ofNat n.toNat) facets.minLength
    ++ optionalMember "max_length" (fun n => ofNat n.toNat) facets.maxLength
    ++ optionalMember "pattern" ofText facets.pattern
    ++ (if facets.choices = [] then [] else [member "enum" (ofTexts facets.choices)])
    ++ optionalMember "default" ofText facets.defaultValue
    ++ optionalMember "example" ofText facets.sample

def Facets.encode (facets : Facets) : Json := record facets.members

def Property.encode (property : Property) : Json :=
  record
    ([member "name" (ofText property.name),
        member "type" (ofText property.type),
        member "required" (.flag property.required),
        member "description" (ofText property.description)]
      ++ property.facets.members)

def Definition.encode (definition : Definition) : Json :=
  record
    ([member "name" (ofText definition.name),
        member "description" (ofText definition.description)]
      ++ (if definition.params = [] then []
        else [member "generic_params" (ofTexts definition.params)])
      ++ [member "properties" (list (definition.properties.map Property.encode))])

def HttpMethod.encode (method : HttpMethod) : Json := ofText method.name

def ParamPlace.encode (place : ParamPlace) : Json := ofText place.name

def Param.encode (param : Param) : Json :=
  record
    [member "name" (ofText param.name),
      member "in" param.place.encode,
      member "type" (ofText param.type),
      member "required" (.flag param.required),
      member "description" (ofText param.description)]

def Response.encode (response : Response) : Json :=
  record
    ([member "status" (ofNat response.status.toNat),
        member "description" (ofText response.description)]
      ++ optionalMember "type" ofText response.type)

def Tag.encode (tag : Tag) : Json :=
  record [member "name" (ofText tag.name), member "description" (ofText tag.description)]

def Operation.encode (operation : Operation) : Json :=
  record
    [member "id" (ofText operation.id),
      member "method" operation.method.encode,
      member "path" (ofText operation.path),
      member "summary" (ofText operation.summary),
      member "tags" (ofTexts operation.tags),
      member "params" (list (operation.params.map Param.encode)),
      member "responses" (list (operation.responses.map Response.encode))]

def Document.encode (document : Document) : Json :=
  record
    [member "title" (ofText document.title),
      member "version" (ofText document.version),
      member "description" (ofText document.description),
      member "base_path" (ofText document.basePath),
      member "tags" (list (document.tags.map Tag.encode)),
      member "operations" (list (document.operations.map Operation.encode)),
      member "definitions" (list (document.definitions.map Definition.encode))]

end ApiSchema
