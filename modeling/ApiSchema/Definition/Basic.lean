import ApiSchema.Text.Basic
import ApiSchema.Decimal.Binary64

set_option autoImplicit false

namespace ApiSchema

/-- Limits and samples of a property. They are carried along and never looked into. -/
structure Facets where
  minimum : Option Binary64 := none
  maximum : Option Binary64 := none
  minLength : Option UInt64 := none
  maxLength : Option UInt64 := none
  pattern : Option Text := none
  choices : List Text := []
  defaultValue : Option Text := none
  sample : Option Text := none
deriving DecidableEq, Repr

/-- A field of a definition. `type` is a type expression as authored. -/
structure Property where
  name : Text
  type : Text
  required : Bool := false
  description : Text := []
  facets : Facets := {}
deriving DecidableEq, Repr

/-- A named record type; `params` are its parameters in the order of their declaration. -/
structure Definition where
  name : Text
  description : Text := []
  params : List Text := []
  properties : List Property := []
deriving DecidableEq, Repr

namespace Definition

def isGeneric (definition : Definition) : Bool := !definition.params.isEmpty

def property? (definition : Definition) (name : Text) : Option Property :=
  definition.properties.find? fun property => property.name = name

def addProperty (definition : Definition) (property : Property) : Definition :=
  { definition with properties := definition.properties ++ [property] }

/-- The definition with the type of every property rewritten and all else as it is. -/
def mapTypes (rewrite : Text → Text) (definition : Definition) : Definition :=
  { definition with
    properties := definition.properties.map fun property =>
      { property with type := rewrite property.type } }

end Definition

end ApiSchema
