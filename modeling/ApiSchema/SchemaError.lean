import ApiSchema.TypeExpr.Flaw

set_option autoImplicit false

namespace ApiSchema

open TypeExpr (Flaw quoted)

/-- Why a name cannot be a parameter of a definition. -/
inductive ParameterFlaw
  | notIdentifier
  | reservedName
  /-- Its token cannot be looked for. -/
  | unfindable (reason : Text)
deriving DecidableEq, Repr

def ParameterFlaw.message : ParameterFlaw → Text
  | notIdentifier => "generic parameters must be bare identifiers (letters, digits, '_')"
  | reservedName => "generic parameters cannot use reserved type names"
  | unfindable reason => reason

/-- Every error ends the work on a document; it holds the text or the name at fault. -/
inductive SchemaError
  /-- A type expression violates the grammar. -/
  | invalidType (type : Text) (flaw : Flaw)
  /-- A declared parameter cannot have this name. -/
  | invalidParameter (definition name : Text) (flaw : ParameterFlaw)
  /-- Two definitions share a name. -/
  | duplicateDefinition (name : Text)
  /-- An object type has no definition. -/
  | unknownType (type name : Text)
  /-- An instantiation has more or fewer arguments than its definition has parameters. -/
  | arityMismatch (type name : Text) (expected found : Nat)
deriving DecidableEq, Repr

def SchemaError.message : SchemaError → Text
  | invalidType type flaw => "Invalid type expression " ++ quoted type ++ ": " ++ flaw.message
  | invalidParameter definition name flaw =>
    "Invalid generic parameter " ++ quoted name ++ " on definition " ++ quoted definition ++ ": "
      ++ flaw.message
  | duplicateDefinition name =>
    "Duplicate definition " ++ quoted name ++ ": definition names must be unique"
  | unknownType type name =>
    "Unknown type " ++ quoted name ++ " in " ++ quoted type ++ ": no definition with that name"
  | arityMismatch type name expected found =>
    "Generic arity mismatch in " ++ quoted type ++ ": " ++ quoted name ++ " expects "
      ++ Text.ofNat expected ++ " argument(s), found " ++ Text.ofNat found

end ApiSchema
