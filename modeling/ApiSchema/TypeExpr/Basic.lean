import ApiSchema.Text.Basic

set_option autoImplicit false

namespace ApiSchema

/-- The types that need no definition. -/
inductive Primitive
  | integer
  | number
  | string
  | boolean
  | file
deriving DecidableEq, Repr

namespace Primitive

def all : List Primitive := [.integer, .number, .string, .boolean, .file]

def name : Primitive → Text
  | .integer => "integer"
  | .number => "number"
  | .string => "string"
  | .boolean => "boolean"
  | .file => "file"

/-- The primitive written as `text`, letter case included. -/
def ofName? (text : Text) : Option Primitive :=
  all.find? fun primitive => primitive.name = text

/-- The format of a primitive written without a `#`. -/
def defaultFormat : Primitive → Text
  | .integer => "int32"
  | .number => "double"
  | _ => []

theorem mem_all (primitive : Primitive) : primitive ∈ all := by
  cases primitive <;> decide

theorem ofName?_name (primitive : Primitive) : ofName? primitive.name = some primitive := by
  cases primitive <;> decide

end Primitive

/-- A type expression. `source` is the text of the node without blanks at its ends. -/
inductive TypeExpr
  | primitive (source : Text) (base : Primitive) (format : Text)
  | array (source : Text) (item : TypeExpr)
  | object (source : Text) (name : Text) (args : List TypeExpr)
deriving Repr

namespace TypeExpr

def source : TypeExpr → Text
  | primitive source _ _ => source
  | array source _ => source
  | object source _ _ => source

def isPrimitive : TypeExpr → Bool
  | primitive .. => true
  | _ => false

def isArray : TypeExpr → Bool
  | array .. => true
  | _ => false

def isObject : TypeExpr → Bool
  | object .. => true
  | _ => false

/-- The type inside all array layers. -/
def innermost : TypeExpr → TypeExpr
  | array _ item => item.innermost
  | leaf => leaf

def depth : TypeExpr → Nat
  | array _ item => item.depth + 1
  | _ => 0

/-- Argument texts in angle brackets, a comma and a blank between neighbours; no arguments need no
brackets. -/
def bracketed : List Text → Text
  | [] => []
  | args => '<' :: Text.joinWith ", " args ++ ['>']

mutual

/-- The normal spelling: no blanks but the one after each comma, and a format only where the
source writes a `#`. -/
def canonical : TypeExpr → Text
  | primitive source base format =>
    if '#' ∈ source then base.name ++ '#' :: format else base.name
  | array _ item => item.canonical ++ ['[', ']']
  | object _ name args => name ++ bracketed (canonicalAll args)

def canonicalAll : List TypeExpr → List Text
  | [] => []
  | first :: rest => first.canonical :: canonicalAll rest

end

theorem canonicalAll_eq_map (args : List TypeExpr) : canonicalAll args = args.map canonical := by
  induction args with
  | nil => simp [canonicalAll]
  | cons first rest ih => simp [canonicalAll, ih]

/-- The name of the definition that stands for this type inside its array layers; a primitive
has none. -/
def reference? (type : TypeExpr) : Option Text :=
  match type.innermost with
  | object source name args => some (object source name args).canonical
  | _ => none

end TypeExpr

end ApiSchema
