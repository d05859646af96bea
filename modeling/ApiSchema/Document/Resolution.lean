import ApiSchema.Document.Basic
import ApiSchema.Generic.Marking
import ApiSchema.Generic.Discovery

set_option autoImplicit false

namespace ApiSchema.Document

/-- All type texts that count as used, trimmed: those of the operations in order, then those of the
properties of definitions without parameters. -/
def typeTexts (document : Document) : List Text :=
  (document.operations.flatMap (·.types)
    ++ (document.definitions.filter fun definition => !definition.isGeneric).flatMap
        fun definition => definition.properties.map (·.type)).map Text.trim

def usedTypes (document : Document) : List Text := document.typeTexts.eraseDups

/-- Resolves a document: checks the types in use, prepares the definitions and discovers the
instances. None if the discovery takes more than `limit` steps. -/
def resolve (limit : Nat) (document : Document) : Option (Except SchemaError (List Definition)) :=
  match document.usedTypes.forM TypeExpr.check with
  | .error error => some (.error error)
  | .ok () =>
    match document.definitions.mapM Definition.prepare with
    | .error error => some (.error error)
    | .ok prepared => discover limit prepared document.usedTypes

end ApiSchema.Document
