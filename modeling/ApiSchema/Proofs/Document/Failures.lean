import ApiSchema.Proofs.Document.Substitution
import ApiSchema.Proofs.Generic.Acceptance
import ApiSchema.Proofs.Generic.Demand

set_option autoImplicit false

namespace ApiSchema

open TypeExpr (parse parseFragment check canonical isTypeName argumentFor?)
open Generic (mark substitute markedType bareName bareType)

/-- The error is about a name: it is declared twice, or not at all, or for another number of
arguments. -/
def SchemaError.isAboutNames : SchemaError → Bool
  | duplicateDefinition _ => true
  | unknownType _ _ => true
  | arityMismatch _ _ _ _ => true
  | _ => false

/-- A text that can be read asks for nothing that is an error of syntax. -/
theorem demand_error {definitions emitted : List Definition} {type : Text} {error : SchemaError}
    (failed : demand definitions emitted type = .error error) :
    error.isAboutNames = true ∨ ∃ flaw, error = .invalidType type flaw ∧
      parse type = .error error := by
  cases demand_eq_error failed with
  | @unread flaw unread => exact Or.inr ⟨flaw, rfl, unread⟩
  | unknown applies absent => exact Or.inl rfl
  | arity applies declared other => exact Or.inl rfl

/-- What may be given for a parameter: a type that can be read and whose normal spelling, which is
what is put in, holds no mark. -/
structure TypeExpr.IsArgument (type : TypeExpr) : Prop where
  readable : ∃ text, parse text = .ok type
  unmarked : Unmarked type.canonical

namespace Definition

/-- The distinct parameters without marks. -/
def bareParams (definition : Definition) : List Text := (definition.params.map bareName).eraseDups

/-- Marks stand only where preparation would put them, so that it makes the same of the property
types with the marks and without. -/
structure MarkedInPlace (definition : Definition) : Prop where
  bare : ∀ property ∈ definition.properties,
    ApiSchema.Unmarked (bareType definition.bareParams property.type)
  placed : ∀ property ∈ definition.properties,
    markedType definition.bareParams (bareType definition.bareParams property.type) =
      markedType definition.bareParams property.type

instance (definition : Definition) : Decidable definition.MarkedInPlace :=
  decidable_of_iff
    ((∀ property ∈ definition.properties,
        ApiSchema.Unmarked (bareType definition.bareParams property.type)) ∧
      ∀ property ∈ definition.properties,
        markedType definition.bareParams (bareType definition.bareParams property.type) =
          markedType definition.bareParams property.type)
    ⟨fun both => ⟨both.1, both.2⟩, fun marked => ⟨marked.bare, marked.placed⟩⟩

/-- Where no property type holds a mark, none is out of place. -/
theorem markedInPlace_of_types {definition : Definition}
    (plain : ∀ property ∈ definition.properties, ApiSchema.Unmarked property.type) :
    definition.MarkedInPlace where
  bare := by
    intro property field
    rw [Generic.bareType_unmarked (plain property field)]
    exact plain property field
  placed := by
    intro property field
    rw [Generic.bareType_unmarked (plain property field)]

/-- The type of a property in an instance with these arguments. -/
def writtenType (definition : Definition) (args : List TypeExpr) (type : Text) : Text :=
  substitute (definition.bareParams.map mark) (args.map canonical)
    (markedType definition.bareParams type)

/-- The type applies a parameter to arguments, and what `args` has for it is no name. -/
def Misapplies (definition : Definition) (args : List TypeExpr) (type : Text) : Prop :=
  ∃ expr, parse (bareType definition.bareParams type) = .ok expr ∧
    ∃ source name given, TypeExpr.object source name given ∈ expr.nodes ∧ given ≠ [] ∧
      ∃ arg, argumentFor? definition.bareParams args name = some arg ∧ arg.isName = false

section Prepared

variable {definition ready : Definition} {args : List TypeExpr}

theorem prepare_params (done : definition.prepare = .ok ready) :
    ready.params = definition.bareParams.map mark ∧
      ∀ param ∈ definition.bareParams, isTypeName param = true := by
  obtain ⟨params, rfl, words, -, -, rfl⟩ := prepareWith_eq_ok done
  exact ⟨rfl, words⟩

theorem prepare_arity (done : definition.prepare = .ok ready)
    (arity : args.length = ready.params.length) :
    args.length = definition.bareParams.length := by
  rw [arity, (prepare_params done).1, List.length_map]

/-- The property types of an instance are the written types of those authored. -/
theorem instantiate_properties (done : definition.prepare = .ok ready) (name : Text) :
    (ready.instantiate name (args.map canonical)).properties =
      definition.properties.map fun property =>
        { property with type := definition.writtenType args property.type } := by
  obtain ⟨params, rfl, -, -, -, rfl⟩ := prepareWith_eq_ok done
  simp only [instantiate, mapTypes, List.map_map]
  rfl

theorem prepare_readable (done : definition.prepare = .ok ready) {property : Property}
    (field : property ∈ definition.properties) :
    ∃ expr, parse (bareType definition.bareParams property.type) = .ok expr := by
  obtain ⟨params, rfl, -, checked, -, -⟩ := prepareWith_eq_ok done
  obtain ⟨expr, read⟩ := TypeExpr.parse_of_checkFragment (checked property field)
  exact ⟨expr, TypeExpr.parse_eq_ok_iff.mpr read⟩

variable (done : definition.prepare = .ok ready) (marked : definition.MarkedInPlace)
  (arity : args.length = ready.params.length) (given : ∀ arg ∈ args, arg.IsArgument)
  {property : Property} (field : property ∈ definition.properties)
include done marked arity given field

/-- A property type of an instance can be read, or else a parameter is applied in it for which there
is no name. -/
theorem written_readable :
    definition.Misapplies args property.type ∨
      ∃ expr, parse (definition.writtenType args property.type) = .ok expr := by
  obtain ⟨expr, read⟩ := prepare_readable done field
  have readable : ∀ arg ∈ args, ∃ fragment, parseFragment fragment = .ok arg := by
    intro arg member
    obtain ⟨text, read⟩ := (given arg member).readable
    exact ⟨text, TypeExpr.parse_eq_ok_iff.mp read⟩
  by_cases names : ∀ source name inner, TypeExpr.object source name inner ∈ expr.nodes →
      inner ≠ [] → ∀ arg, argumentFor? definition.bareParams args name = some arg →
        arg.isName = true
  · obtain ⟨after, read_after⟩ := Generic.substituted_accepted (prepare_params done).2
      (prepare_arity done arity) readable (fun arg member => (given arg member).unmarked)
      (marked.bare property field) (TypeExpr.parse_eq_ok_iff.mp read) names
    rw [marked.placed property field] at read_after
    exact Or.inr ⟨after, TypeExpr.parse_eq_ok_iff.mpr read_after⟩
  · push Not at names
    obtain ⟨source, name, inner, node, filled, arg, found, no_name⟩ := names
    exact Or.inl
      ⟨expr, read, source, name, inner, node, filled, arg, found, by simpa using no_name⟩

theorem written_unmarked :
    ApiSchema.Unmarked (definition.writtenType args property.type) := by
  obtain ⟨expr, read⟩ := prepare_readable done field
  have plain := Generic.substituted_unmarked (prepare_params done).2 (prepare_arity done arity)
    (fun arg member => (given arg member).unmarked) (marked.bare property field)
    (TypeExpr.parse_eq_ok_iff.mp read)
  rwa [marked.placed property field] at plain

end Prepared

end Definition

/-- The type is written for a property of an instance, and a parameter is misapplied in it. -/
def Misfit (definitions : List Definition) (type : Text) : Prop :=
  ∃ definition ∈ definitions, ∃ property ∈ definition.properties, ∃ args : List TypeExpr,
    args.length = definition.bareParams.length ∧ (∀ arg ∈ args, arg.IsArgument) ∧
      definition.Misapplies args property.type ∧ type = definition.writtenType args property.type

/-- What a discovery may come to look at: a type without marks that can be read unless a parameter
is misapplied. -/
structure Sound (definitions : List Definition) (type : Text) : Prop where
  unmarked : Unmarked type
  readable : Misfit definitions type ∨ ∃ expr, parse type = .ok expr

section Run

variable {definitions prepared : List Definition}
  (done : definitions.map Definition.prepare = prepared.map .ok)
  (marked : ∀ definition ∈ definitions, definition.MarkedInPlace)
include done marked

/-- What an instance needs is sound if the type that asks for the instance is. -/
theorem sound_needs {emitted : List Definition} {type : Text} {inst : Instance}
    (sound : Sound definitions type)
    (asks : demand prepared emitted type = .ok (some inst)) :
    ∀ need ∈ inst.needs, Sound definitions need := by
  obtain ⟨⟨ready, declared, args, reread, -, -, arity, texts, instantiated⟩,
    ⟨expr, read, refers⟩, -⟩ := demand_some asks
  have plain_name := unmarked_reference sound.unmarked read refers
  have given : ∀ arg ∈ args, arg.IsArgument := by
    intro arg member
    obtain ⟨fragment, known⟩ :=
      TypeExpr.argument_read (TypeExpr.parse_eq_ok_iff.mp reread) member
    exact ⟨⟨fragment, TypeExpr.parse_eq_ok_iff.mpr known⟩,
      unmarked_argument plain_name reread arg member⟩
  obtain ⟨definition, authored, prepares⟩ := Definition.exists_authored done declared
  intro need needed
  rcases List.mem_append.mp needed with property | argument
  · rw [instantiated, texts, Definition.instantiate_properties prepares, List.map_map] at property
    obtain ⟨field, inside, rfl⟩ := List.mem_map.mp property
    have place := marked definition authored
    refine ⟨definition.written_unmarked prepares place arity given inside, ?_⟩
    rcases definition.written_readable prepares place arity given inside with
      misapplied | accepted
    · exact Or.inl ⟨definition, authored, field, inside, args,
        Definition.prepare_arity prepares arity, given, misapplied, rfl⟩
    · exact Or.inr accepted
  · rw [texts] at argument
    obtain ⟨arg, inside, rfl⟩ := List.mem_map.mp argument
    obtain ⟨⟨text, known⟩, unmarked⟩ := given arg inside
    obtain ⟨again, accepted, -⟩ := TypeExpr.canonical_read (TypeExpr.parse_eq_ok_iff.mp known)
    exact ⟨unmarked, Or.inr ⟨again, TypeExpr.parse_eq_ok_iff.mpr accepted⟩⟩

/-- A discovery that has only sound types to look at fails with an error about names, or at a type
in which a parameter is misapplied. -/
theorem run_failure {limit : Nat} {emitted : List Definition} {pending : List Text}
    {error : SchemaError} (sound : ∀ type ∈ pending, Sound definitions type)
    (failed : Discovery.run prepared limit ⟨emitted, pending⟩ = some (.error error)) :
    error.isAboutNames = true ∨
      ∃ type flaw, error = .invalidType type flaw ∧ Misfit definitions type := by
  rcases Discovery.run_invariant
      (I := fun state => ∀ type ∈ state.pending, Sound definitions type)
      (fun _ _ _ sound _ => (List.forall_mem_cons.mp sound).2)
      (fun _ _ _ _ sound asked => List.forall_mem_append.mpr
        ⟨sound_needs done marked (List.forall_mem_cons.mp sound).1 asked,
          (List.forall_mem_cons.mp sound).2⟩)
      sound failed with ⟨_, finished, -⟩ | ⟨_, _, type, rest, same, sound, asked⟩
  · cases finished
  · cases same
    rcases demand_error asked with about_names | ⟨flaw, same, unread⟩
    · exact Or.inl about_names
    · rcases (sound type (by simp)).readable with misfit | ⟨expr, read⟩
      · exact Or.inr ⟨type, flaw, same, misfit⟩
      · rw [read] at unread
        cases unread

end Run

namespace Generic

theorem exists_mapM {α β ε : Type} {f : α → Except ε β} {items : List α}
    (each : ∀ item ∈ items, ∃ result, f item = .ok result) :
    ∃ results, items.mapM f = .ok results := by
  simp only [mapM_eq_ok_iff]
  induction items with
  | nil => exact ⟨[], rfl⟩
  | cons item items ih =>
      obtain ⟨result, first⟩ := each item (by simp)
      obtain ⟨results, rest⟩ := ih fun other member => each other (by simp [member])
      exact ⟨result :: results, by rw [List.map_cons, List.map_cons, first, rest]⟩

theorem forM_eq_ok {α ε : Type} {f : α → Except ε Unit} {items : List α}
    (each : ∀ item ∈ items, f item = .ok ()) : items.forM f = .ok () := by
  induction items with
  | nil => rfl
  | cons item items ih =>
      change (f item >>= fun _ => items.forM f) = _
      rw [each item (by simp)]
      exact ih fun other member => each other (by simp [member])

end Generic

namespace Document

/-- All types in use are type expressions, and all definitions can be prepared. -/
structure Gated (document : Document) : Prop where
  checked : ∀ type ∈ document.usedTypes, check type = .ok ()
  prepares : ∀ definition ∈ document.definitions, ∃ ready, definition.prepare = .ok ready

instance (document : Document) : Decidable document.Gated :=
  decidable_of_iff
    ((∀ type ∈ document.usedTypes, check type = .ok ()) ∧
      ∀ definition ∈ document.definitions, definition.prepare.isOk = true) <| by
    have accepts : ∀ definition : Definition,
        definition.prepare.isOk = true ↔ ∃ ready, definition.prepare = .ok ready := by
      intro definition
      cases definition.prepare <;> simp [Except.isOk, Except.toBool]
    simp only [accepts]
    exact ⟨fun both => ⟨both.1, both.2⟩, fun gated => ⟨gated.checked, gated.prepares⟩⟩

/-- No type in use holds a mark, and definitions hold them only in their places. -/
structure MarkedInPlace (document : Document) : Prop where
  used : ∀ type ∈ document.usedTypes, ApiSchema.Unmarked type
  definitions : ∀ definition ∈ document.definitions, definition.MarkedInPlace

/-- Behind the gates there is only the discovery. -/
theorem Gated.resolve {document : Document} (gated : document.Gated) (limit : Nat) :
    ∃ prepared, document.definitions.map Definition.prepare = prepared.map .ok ∧
      document.resolve limit = discover limit prepared document.usedTypes := by
  obtain ⟨prepared, done⟩ := Generic.exists_mapM gated.prepares
  refine ⟨prepared, Generic.mapM_eq_ok_iff.mp done, ?_⟩
  rw [Document.resolve, Generic.forM_eq_ok gated.checked, done]

theorem Gated.sound {document : Document} (gated : document.Gated)
    (marked : document.MarkedInPlace) :
    ∀ type ∈ document.usedTypes, Sound document.definitions type := by
  intro type member
  obtain ⟨expr, read⟩ :=
    TypeExpr.parse_of_checkFragment (TypeExpr.check_eq_ok_iff.mp (gated.checked type member))
  exact ⟨marked.used type member, Or.inr ⟨expr, TypeExpr.parse_eq_ok_iff.mpr read⟩⟩

theorem Gated.failure {limit : Nat} {document : Document} (gated : document.Gated)
    (marked : document.MarkedInPlace) {error : SchemaError}
    (failed : document.resolve limit = some (.error error)) :
    error.isAboutNames = true ∨
      ∃ type flaw, error = .invalidType type flaw ∧ Misfit document.definitions type := by
  obtain ⟨prepared, done, discovers⟩ := gated.resolve limit
  rw [discovers, discover] at failed
  split at failed
  · cases failed
    exact Or.inl rfl
  · exact run_failure done marked.definitions (gated.sound marked) failed

def oneUse (type : Text) (definitions : List Definition) : Document :=
  { title := "Use", version := "1", definitions,
    operations :=
      [{ id := "get", method := .get, path := "/",
         responses := [{ status := 200, type := some type }] }] }

end Document

end ApiSchema
