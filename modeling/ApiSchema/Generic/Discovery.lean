import ApiSchema.TypeExpr.Parser
import ApiSchema.Definition.Basic

set_option autoImplicit false

namespace ApiSchema

namespace Generic

/-- The type text with every parameter replaced by its argument, one parameter after another. -/
def substitute (params args : List Text) (type : Text) : Text :=
  (params.zip args).foldl (fun text (param, arg) => Text.replace param arg text) type

end Generic

/-- The definition of an instance: the template's properties with arguments for parameters. -/
def Definition.instantiate (template : Definition) (name : Text) (args : List Text) : Definition :=
  { template.mapTypes (Generic.substitute template.params args) with name, params := [] }

/-- An instance to be written out, with the canonical texts of its arguments. -/
structure Instance where
  definition : Definition
  args : List Text
deriving DecidableEq, Repr

/-- The type texts that an instance makes it necessary to look at. -/
def Instance.needs (inst : Instance) : List Text :=
  inst.definition.properties.map (·.type) ++ inst.args

/-- The instance that the type text `type` asks for beyond the definitions in `emitted`. -/
def demand (definitions emitted : List Definition) (type : Text) :
    Except SchemaError (Option Instance) :=
  match TypeExpr.parse type with
  | .error error => .error error
  | .ok expr =>
    match expr.innermost with
    | .object source name args =>
      let full := (TypeExpr.object source name args).canonical
      if emitted.any fun definition => definition.name = full then .ok none
      else
        match definitions.find? fun definition => definition.name = name with
        | none => .error (.unknownType type name)
        | some template =>
          if args.length ≠ template.params.length then
            .error (.arityMismatch type name template.params.length args.length)
          else if args.isEmpty then .ok none
          else
            let texts := args.map TypeExpr.canonical
            .ok (some ⟨template.instantiate full texts, texts⟩)
    | _ => .ok none

/-- A discovery under way. -/
structure Discovery where
  emitted : List Definition
  pending : List Text
deriving DecidableEq, Repr

namespace Discovery

/-- At the start the definitions without parameters are written out. -/
def start (definitions : List Definition) (used : List Text) : Discovery :=
  ⟨definitions.filter fun definition => !definition.isGeneric, used⟩

/-- Looks at `type`, the first of the pending texts; `rest` are the others. -/
def step (definitions emitted : List Definition) (type : Text) (rest : List Text) :
    Except SchemaError Discovery :=
  match demand definitions emitted type with
  | .error error => .error error
  | .ok none => .ok ⟨emitted, rest⟩
  | .ok (some inst) => .ok ⟨emitted ++ [inst.definition], inst.needs ++ rest⟩

/-- Goes on until no text is pending or an error is met; none if more than `limit` steps are
needed. -/
def run (definitions : List Definition) :
    Nat → Discovery → Option (Except SchemaError (List Definition))
  | _, ⟨emitted, []⟩ => some (.ok emitted)
  | 0, ⟨_, _ :: _⟩ => none
  | limit + 1, ⟨emitted, type :: rest⟩ =>
    match step definitions emitted type rest with
    | .error error => some (.error error)
    | .ok next => run definitions limit next

end Discovery

/-- The first name that an earlier one equals. -/
def firstRepeated? (seen : List Text) : List Text → Option Text
  | [] => none
  | name :: rest => if name ∈ seen then some name else firstRepeated? (name :: seen) rest

/-- The definitions to write out for the types in use: those without parameters, then the instances
in the order of their discovery. None if the discovery takes more than `limit` steps. -/
def discover (limit : Nat) (definitions : List Definition) (used : List Text) :
    Option (Except SchemaError (List Definition)) :=
  match firstRepeated? [] (definitions.map (·.name)) with
  | some name => some (.error (.duplicateDefinition name))
  | none => Discovery.run definitions limit (.start definitions used)

end ApiSchema
