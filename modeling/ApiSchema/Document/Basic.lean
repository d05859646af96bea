import ApiSchema.Definition.Basic

set_option autoImplicit false

namespace ApiSchema

inductive HttpMethod
  | get
  | post
  | put
  | patch
  | delete
  | head
  | options
deriving DecidableEq, Repr

namespace HttpMethod

def all : List HttpMethod := [.get, .post, .put, .patch, .delete, .head, .options]

def name : HttpMethod → Text
  | .get => "GET"
  | .post => "POST"
  | .put => "PUT"
  | .patch => "PATCH"
  | .delete => "DELETE"
  | .head => "HEAD"
  | .options => "OPTIONS"

def ofName? (text : Text) : Option HttpMethod := all.find? fun method => method.name = text

theorem ofName?_name (method : HttpMethod) : ofName? method.name = some method := by
  cases method <;> decide

end HttpMethod

/-- Where a request carries a parameter. -/
inductive ParamPlace
  | path
  | query
  | header
  | body
  | formData
deriving DecidableEq, Repr

namespace ParamPlace

def all : List ParamPlace := [.path, .query, .header, .body, .formData]

def name : ParamPlace → Text
  | .path => "path"
  | .query => "query"
  | .header => "header"
  | .body => "body"
  | .formData => "formData"

def ofName? (text : Text) : Option ParamPlace := all.find? fun place => place.name = text

theorem ofName?_name (place : ParamPlace) : ofName? place.name = some place := by
  cases place <;> decide

end ParamPlace

structure Param where
  name : Text
  place : ParamPlace
  type : Text
  required : Bool := false
  description : Text := []
deriving DecidableEq, Repr

/-- A parameter as first declared: those in the path are required, all others are not. -/
def Param.declare (name : Text) (place : ParamPlace) (type : Text) : Param :=
  { name, place, type, required := place = .path }

/-- A response of an operation. One without a body has no type. -/
structure Response where
  status : UInt16
  description : Text := []
  type : Option Text := none
deriving DecidableEq, Repr

def Response.hasBody (response : Response) : Bool := response.type.isSome

structure Tag where
  name : Text
  description : Text := []
deriving DecidableEq, Repr

structure Operation where
  id : Text
  method : HttpMethod
  path : Text
  summary : Text := []
  tags : List Text := []
  params : List Param := []
  responses : List Response := []
deriving DecidableEq, Repr

namespace Operation

def addTag (operation : Operation) (tag : Text) : Operation :=
  { operation with tags := operation.tags ++ [tag] }

def addParam (operation : Operation) (param : Param) : Operation :=
  { operation with params := operation.params ++ [param] }

def addResponse (operation : Operation) (response : Response) : Operation :=
  { operation with responses := operation.responses ++ [response] }

/-- The type texts of an operation: its parameters first, then the bodies of its responses. -/
def types (operation : Operation) : List Text :=
  operation.params.map (·.type) ++ operation.responses.filterMap (·.type)

end Operation

structure Document where
  title : Text
  version : Text
  description : Text := []
  basePath : Text := []
  tags : List Tag := []
  operations : List Operation := []
  definitions : List Definition := []
deriving DecidableEq, Repr

namespace Document

def addTag (document : Document) (name description : Text) : Document :=
  { document with tags := document.tags ++ [{ name, description }] }

def addOperation (document : Document) (operation : Operation) : Document :=
  { document with operations := document.operations ++ [operation] }

def addDefinition (document : Document) (definition : Definition) : Document :=
  { document with definitions := document.definitions ++ [definition] }

end Document

end ApiSchema
