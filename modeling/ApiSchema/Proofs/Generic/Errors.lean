import ApiSchema.Proofs.Document.Failures
import Mathlib.Control.Monad.Basic

set_option autoImplicit false

namespace ApiSchema

open TypeExpr (parse canonical)
open Generic (substitute)

/-- `name` is the first of the names that repeats one before it. -/
def EarliestRepeat (names : List Text) (name : Text) : Prop :=
  ∃ front back, names = front ++ name :: back ∧ front.Nodup ∧ name ∈ front

/-- The type asks for the instance of `template` with these arguments, which are as many as it has
parameters, and no definition without parameters has the name of that instance. -/
structure AsksFor (definitions : List Definition) (type : Text) (template : Definition)
    (args : List TypeExpr) : Prop where
  applies : Applies type template.name args
  declared : template ∈ definitions
  some_arg : args ≠ []
  arity : args.length = template.params.length
  unowned : ∀ plain ∈ definitions, plain.isGeneric = false →
    plain.name ≠ template.name ++ TypeExpr.bracketed (args.map canonical)

/-- The texts that the types in use lead to: these themselves and, of every instance that one of the
texts asks for, the property types with the arguments put in and the arguments. A template that is
given too many or too few arguments leads nowhere. -/
inductive Reached (definitions : List Definition) (used : List Text) : Text → Prop
  | used {type : Text} (inUse : type ∈ used) : Reached definitions used type
  | property {type : Text} {template : Definition} {args : List TypeExpr} {property : Property}
    (reached : Reached definitions used type) (asks : AsksFor definitions type template args)
    (field : property ∈ template.properties) :
    Reached definitions used (substitute template.params (args.map canonical) property.type)
  | argument {type : Text} {template : Definition} {args : List TypeExpr} {arg : TypeExpr}
    (reached : Reached definitions used type) (asks : AsksFor definitions type template args)
    (given : arg ∈ args) : Reached definitions used arg.canonical

/-- What an error tells is so of definitions that were authored and then prepared. That a parameter
cannot have its name is no error of a discovery. -/
def SchemaError.IsTrue (authored prepared : List Definition) (used : List Text) : SchemaError → Prop
  | duplicateDefinition name => EarliestRepeat (authored.map (·.name)) name
  | unknownType type name =>
      Reached prepared used type ∧ (∃ args, Applies type name args) ∧
        ∀ definition ∈ authored, definition.name ≠ name
  | arityMismatch type name expected found =>
      Reached prepared used type ∧ expected ≠ found ∧
        (∃ args, Applies type name args ∧ args.length = found) ∧
        ∃ definition ∈ authored, definition.name = name ∧ definition.bareParams.length = expected
  | invalidType type flaw =>
      Reached prepared used type ∧ parse type = .error (.invalidType type flaw)
  | invalidParameter _ _ _ => False

/-- The repeated name is one of those seen or stands earlier itself, and before it nothing
repeats. -/
theorem firstRepeated?_eq_some {seen names : List Text} {name : Text}
    (repeated : firstRepeated? seen names = some name) :
    ∃ front back, names = front ++ name :: back ∧ front.Nodup ∧ (∀ other ∈ front, other ∉ seen) ∧
      (name ∈ seen ∨ name ∈ front) := by
  induction names generalizing seen with
  | nil => cases repeated
  | cons first rest ih =>
      rw [firstRepeated?] at repeated
      split at repeated
      · next old =>
        cases repeated
        exact ⟨[], rest, rfl, List.nodup_nil, by simp, Or.inl old⟩
      · next fresh =>
        obtain ⟨front, back, rfl, distinct, apart, before⟩ := ih repeated
        simp only [List.mem_cons, not_or] at apart before
        refine ⟨first :: front, back, rfl, ?_, ?_, ?_⟩
        · exact List.nodup_cons.mpr ⟨fun again => (apart first again).1 rfl, distinct⟩
        · exact List.forall_mem_cons.mpr ⟨fresh, fun other member => (apart other member).2⟩
        · rw [List.mem_cons]
          tauto

theorem earliestRepeat {names : List Text} {name : Text}
    (repeated : firstRepeated? [] names = some name) : EarliestRepeat names name := by
  obtain ⟨front, back, whole, distinct, -, before⟩ := firstRepeated?_eq_some repeated
  exact ⟨front, back, whole, distinct, before.resolve_left List.not_mem_nil⟩

/-- If names repeat, that is the error, whatever is in use and however few steps are allowed. -/
theorem discover_repeated {definitions : List Definition}
    (repeats : ¬ (definitions.map (·.name)).Nodup) :
    ∃ name, EarliestRepeat (definitions.map (·.name)) name ∧ ∀ limit used,
      discover limit definitions used = some (.error (.duplicateDefinition name)) := by
  cases repeated : firstRepeated? [] (definitions.map (·.name)) with
  | none => exact absurd (firstRepeated?_eq_none repeated).1 repeats
  | some name =>
      refine ⟨name, earliestRepeat repeated, fun limit used => ?_⟩
      rw [discover, repeated]

section Run

variable {definitions emitted : List Definition} {used rest : List Text} {type : Text}

/-- A discovery under way has written out the definitions without parameters, and what is pending is
reached. -/
structure OnCourse (definitions : List Definition) (used : List Text) (state : Discovery) :
    Prop where
  plain : plainDefinitions definitions ⊆ state.emitted
  reached : ∀ type ∈ state.pending, Reached definitions used type

theorem OnCourse.start : OnCourse definitions used (.start definitions used) where
  plain := List.Subset.refl _
  reached := fun _ inUse => .used inUse

theorem OnCourse.skip (course : OnCourse definitions used ⟨emitted, type :: rest⟩) :
    OnCourse definitions used ⟨emitted, rest⟩ where
  plain := course.plain
  reached := (List.forall_mem_cons.mp course.reached).2

/-- The instance that a text makes the discovery write out is one that it asks for. -/
theorem exists_asksFor (plain : plainDefinitions definitions ⊆ emitted) {inst : Instance}
    (asked : demand definitions emitted type = .ok (some inst)) :
    ∃ template args full, AsksFor definitions type template args ∧
      inst = ⟨template.instantiate full (args.map canonical), args.map canonical⟩ := by
  obtain ⟨expr, read, demanded⟩ := demand_eq_ok asked
  cases demanded with
  | @inst source args template inner fresh declared arity some_arg =>
      refine ⟨template, args, _, ⟨⟨expr, source, read, inner⟩, declared, some_arg, arity, ?_⟩, rfl⟩
      intro owner given notGeneric
      rw [← TypeExpr.canonical_object source]
      exact fresh owner (plain (mem_plainDefinitions.mpr ⟨given, notGeneric⟩))

theorem OnCourse.emit (course : OnCourse definitions used ⟨emitted, type :: rest⟩)
    {inst : Instance} (asked : demand definitions emitted type = .ok (some inst)) :
    OnCourse definitions used ⟨emitted ++ [inst.definition], inst.needs ++ rest⟩ where
  plain := fun _ member => List.mem_append_left _ (course.plain member)
  reached := by
    obtain ⟨first, others⟩ := List.forall_mem_cons.mp course.reached
    obtain ⟨template, args, full, asks, rfl⟩ := exists_asksFor course.plain asked
    intro other member
    rcases List.mem_append.mp member with needed | waiting
    · rcases List.mem_append.mp needed with property | argument
      · simp only [Definition.instantiate, Definition.mapTypes, List.map_map] at property
        obtain ⟨field, declared, rfl⟩ := List.mem_map.mp property
        exact .property first asks declared
      · obtain ⟨arg, given, rfl⟩ := List.mem_map.mp argument
        exact .argument first asks given
    · exact others other waiting

/-- A discovery fails at a text that is reached, and for a reason that lies in this text and the
definitions alone. -/
theorem OnCourse.failure {limit : Nat} {state : Discovery} {error : SchemaError}
    (course : OnCourse definitions used state)
    (failed : Discovery.run definitions limit state = some (.error error)) :
    ∃ type, Reached definitions used type ∧ Refused definitions type error := by
  rcases Discovery.run_invariant (I := OnCourse definitions used)
      (fun _ _ _ course _ => course.skip) (fun _ _ _ _ course asked => course.emit asked)
      course failed with ⟨_, done, -⟩ | ⟨_, emitted, type, rest, same, course, asked⟩
  · cases done
  · cases same
    exact ⟨type, course.reached type (by simp), demand_eq_error asked⟩

end Run

section Prepared

variable {authored prepared : List Definition} {used : List Text}
  (done : authored.map Definition.prepare = prepared.map .ok)
include done

/-- What is told of the prepared definitions is so of those authored: they have the same names, and
as many parameters as distinct names declared. -/
theorem Refused.isTrue {type : Text} {error : SchemaError} (reached : Reached prepared used type)
    (refused : Refused prepared type error) : error.IsTrue authored prepared used := by
  cases refused with
  | unread failed => exact ⟨reached, failed⟩
  | @unknown name args applies absent =>
      refine ⟨reached, ⟨args, applies⟩, fun definition given => ?_⟩
      obtain ⟨ready, member, prepares⟩ := Definition.exists_prepared done given
      rw [← Definition.prepare_name prepares]
      exact absent ready member
  | @arity template args applies declared other =>
      obtain ⟨definition, given, prepares⟩ := Definition.exists_authored done declared
      refine ⟨reached, other, ⟨args, applies, rfl⟩, definition, given,
        (Definition.prepare_name prepares).symm, ?_⟩
      rw [(Definition.prepare_params prepares).1, List.length_map]

/-- Every error of a discovery is true, and a repeated name is always told: it is the error whatever
is in use. -/
theorem discover_error_isTrue :
    (∀ limit error, discover limit prepared used = some (.error error) →
      error.IsTrue authored prepared used) ∧
    (¬ (authored.map (·.name)).Nodup →
      ∃ name, EarliestRepeat (authored.map (·.name)) name ∧ ∀ limit types,
        discover limit prepared types = some (.error (.duplicateDefinition name))) := by
  have names := Definition.names_prepared done
  constructor
  · intro limit error failed
    rw [discover] at failed
    split at failed
    · next name repeated =>
      cases failed
      rw [names] at repeated
      exact earliestRepeat repeated
    · obtain ⟨type, reached, refused⟩ := OnCourse.start.failure failed
      exact refused.isTrue done reached
  · rw [← names]
    exact discover_repeated

end Prepared

/-- A lid takes one argument, which is declared twice, and boxes give it two. -/
def misfitLids : List Definition :=
  [{ name := "User" },
    { name := "Crate", params := ["T"], properties := [{ name := "boxes", type := "Box<T>[]" }] },
    { name := "Box", params := ["T"], properties := [{ name := "lid", type := "Lid<T,T>" }] },
    { name := "Lid", params := ["T", "«T»"], properties := [{ name := "side", type := "T" }] }]

def preparedMisfitLids : List Definition :=
  [{ name := "User" },
    { name := "Crate", params := ["«T»"],
      properties := [{ name := "boxes", type := "Box<«T»>[]" }] },
    { name := "Box", params := ["«T»"],
      properties := [{ name := "lid", type := "Lid<«T», «T»>" }] },
    { name := "Lid", params := ["«T»"], properties := [{ name := "side", type := "«T»" }] }]

/-- A crate of users leads to a box of users, and that to a lid with two arguments. -/
theorem discover_error_isTrue_lids :
    misfitLids.map Definition.prepare = preparedMisfitLids.map .ok ∧
      discover 10 preparedMisfitLids ["integer", "Crate<User>"] =
        some (.error (.arityMismatch "Lid<User, User>" "Lid" 1 2)) ∧
      Reached preparedMisfitLids ["integer", "Crate<User>"] "Lid<User, User>" ∧
      ∃ args, Applies "Lid<User, User>" "Lid" args ∧ args.length = 2 := by
  have done : misfitLids.map Definition.prepare = preparedMisfitLids.map .ok := by decide +kernel
  have failed : discover 10 preparedMisfitLids ["integer", "Crate<User>"] =
      some (.error (.arityMismatch "Lid<User, User>" "Lid" 1 2)) := by decide +kernel
  obtain ⟨reached, -, applies, -⟩ := (discover_error_isTrue done).1 10 _ failed
  exact ⟨done, failed, reached, applies⟩

end ApiSchema
