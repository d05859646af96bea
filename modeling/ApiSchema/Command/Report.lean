import ApiSchema.Command.Style
import ApiSchema.Document.Load
import ApiSchema.SchemaError
import ApiSchema.TypeExpr.Basic

set_option autoImplicit false

namespace ApiSchema.Command

def line (text : Text) : Text := text ++ ['\n']

def indent (depth : Nat) : Text := List.replicate (2 * depth) ' '

/-- The format of a primitive behind its name; an empty one is not shown. -/
def formatNote (format : Text) : Text :=
  if format = [] then [] else " (".toList ++ format ++ ")"

mutual

/-- A type as a tree, one node a line. -/
def treeLines (colours : Bool) (depth : Nat) : TypeExpr → Text
  | .primitive _ base format =>
    line (indent depth ++ Style.apply colours .yellow "primitive" ++ ' ' :: base.name
      ++ formatNote format)
  | .array _ item =>
    line (indent depth ++ Style.apply colours .yellow "array of")
      ++ treeLines colours (depth + 1) item
  | .object _ name args =>
    line (indent depth ++ Style.apply colours .yellow "object" ++ ' ' ::
        Style.apply colours .bold name)
      ++ treesLines colours (depth + 1) args

def treesLines (colours : Bool) (depth : Nat) : List TypeExpr → Text
  | [] => []
  | type :: rest => treeLines colours depth type ++ treesLines colours depth rest

end

/-- A property on its line; a star marks a required one. -/
def propertyLine (colours : Bool) (property : Property) : Text :=
  line ("  " ++ property.name
    ++ Style.apply colours .red (if property.required then "*" else " ")
    ++ ": " ++ Style.apply colours .cyan property.type)

def definitionLines (colours : Bool) (definition : Definition) : Text :=
  line (Style.apply colours .bold definition.name)
    ++ (if definition.description = [] then []
      else line ("  " ++ Style.apply colours .dimmed definition.description))
    ++ definition.properties.flatMap (propertyLine colours)

def kindOf : SchemaError → Text
  | .invalidType .. => "InvalidType"
  | .invalidParameter .. => "InvalidGenericName"
  | .duplicateDefinition .. => "DuplicateDefinition"
  | .unknownType .. => "UnknownType"
  | .arityMismatch .. => "GenericArity"

/-- A name with fields between braces. -/
def withFields (name : Text) (fields : List (Text × Text)) : Text :=
  name ++ " \x7b " ++ Text.joinWith ", " (fields.map fun (field, value) => field ++ ": " ++ value)
    ++ " \x7d"

def errorFields : SchemaError → List (Text × Text)
  | .invalidType type flaw =>
    [("type_expr", Text.quote type), ("reason", Text.quote flaw.message)]
  | .invalidParameter definition name flaw =>
    [("definition", Text.quote definition), ("name", Text.quote name),
      ("reason", Text.quote flaw.message)]
  | .duplicateDefinition name => [("name", Text.quote name)]
  | .unknownType type name => [("type_expr", Text.quote type), ("type_name", Text.quote name)]
  | .arityMismatch type name expected found =>
    [("type_expr", Text.quote type), ("type_name", Text.quote name),
      ("expected", Text.ofNat expected), ("found", Text.ofNat found)]

/-- Why the program fails. -/
inductive Failure
  | schema (error : SchemaError)
  | load (error : LoadError)
  /-- The discovery of instances went past its limit. -/
  | unfinished
deriving Repr

/-- The source of a failed read. -/
def readSource : ReadFault → Text
  | .system code kind message =>
    withFields "Os" [("code", Text.ofNat code), ("kind", kind), ("message", Text.quote message)]
  | .unfit kind message => withFields "Error" [("kind", kind), ("message", Text.quote message)]

/-- The line about a failure. Of a file that does not decode it tells only the name. -/
def Failure.headline : Failure → Text
  | schema error =>
    "Error: TypeGraph(" ++ withFields (kindOf error) (errorFields error) ++ ")"
  | load (.unreadable file fault) =>
    "Error: " ++ withFields "ReadError" [("path", Text.quote file), ("source", readSource fault)]
  | load (.undecodable file _) => "Error: DecodeError \x7b path: " ++ Text.quote file
  | unfinished => "Error: Unfinished"

/-- What follows the headline: the reason why a file does not decode. -/
def Failure.detail : Failure → Text
  | load (.undecodable _ fault) =>
    ", reason: " ++ Text.quote (fault.message?.getD "malformed text") ++ " \x7d"
  | _ => []

end ApiSchema.Command
