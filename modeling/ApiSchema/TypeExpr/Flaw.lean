import ApiSchema.Text.Basic

set_option autoImplicit false

namespace ApiSchema.TypeExpr

/-- What part of the grammar a text violates. -/
inductive Flaw
  /-- nothing but blanks where a type should stand -/
  | empty
  /-- an argument list that does not end with its bracket -/
  | unclosedArguments (name : Text)
  /-- arguments after something that is no identifier -/
  | notGenericName (name : Text)
  /-- a keyword in the place of a type name -/
  | reserved (word : Text)
  /-- arguments after the name of a primitive -/
  | argumentsOnPrimitive (name : Text)
  /-- angle brackets that do not match -/
  | unbalanced (text : Text)
  /-- a format tag after a name that is no primitive -/
  | formatOnObject (name : Text)
  /-- a format tag with blanks or punctuation -/
  | malformedFormat (format : Text)
  /-- neither an identifier nor any other form -/
  | notTypeName (text : Text)
  /-- none of the shapes that the checker knows -/
  | noShape (text : Text)
deriving DecidableEq, Repr

def quoted (text : Text) : Text := '\'' :: text ++ ['\'']

def Flaw.message : Flaw → Text
  | empty => "empty type"
  | unclosedArguments name =>
    "generic argument list of " ++ quoted name ++ " is not closed by '>'"
  | notGenericName name => quoted name ++ " is not a valid generic type name"
  | reserved word => quoted word ++ " is a reserved word"
  | argumentsOnPrimitive name =>
    "primitive " ++ quoted name ++ " cannot take generic arguments"
  | unbalanced text => "unbalanced angle brackets in " ++ quoted text
  | formatOnObject name =>
    "format tags are only allowed on primitives, found " ++ quoted (name ++ ['#'])
  | malformedFormat format => "malformed format tag " ++ quoted format
  | notTypeName text => quoted text ++ " is not a valid type name"
  | noShape text => quoted text ++ " does not match the type grammar"

end ApiSchema.TypeExpr
