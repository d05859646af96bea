import ApiSchema.Proofs.Generic.Progress
import Mathlib.Control.Monad.Basic

set_option autoImplicit false

namespace ApiSchema

open TypeExpr (parse canonical)

/-- What is written out is exact: first the definitions without parameters, unchanged and in their
order, then instances with distinct names, none of them the name of a definition before, whose names
are just the required ones. Each is named for a definition and its arguments and is that definition
with the arguments in the place of its parameters. The definitions need not be prepared. -/
theorem discover_exact {limit : Nat} {definitions out : List Definition} {used : List Text}
    (finished : discover limit definitions used = some (.ok out)) :
    ∃ instances : List Definition,
      out = (definitions.filter fun definition => !definition.isGeneric) ++ instances ∧
      (instances.map (·.name)).Nodup ∧
      (∀ inst ∈ instances, ∀ definition ∈ definitions,
        definition.isGeneric = false → inst.name ≠ definition.name) ∧
      (∀ name, name ∈ instances.map (·.name) ↔ Required definitions used name) ∧
      ∀ inst ∈ instances, ∃ template ∈ definitions, ∃ args : List TypeExpr,
        parse inst.name = .ok (.object inst.name template.name args) ∧
        inst.name = template.name ++ TypeExpr.bracketed (args.map canonical) ∧
        args ≠ [] ∧ args.length = template.params.length ∧
        inst.description = template.description ∧ inst.params = [] ∧
        inst.properties = template.properties.map fun property =>
          { property with
            type := Generic.substitute template.params (args.map canonical) property.type } := by
  obtain ⟨distinct, instances, progress⟩ := discover_progress finished
  have written : out = plainDefinitions definitions ++ instances.map (·.definition) :=
    progress.emitted
  have names := progress.distinct
  rw [progress.emitted, List.map_append, List.nodup_append'] at names
  refine ⟨instances.map Instance.definition, written, names.2.1, ?_, ?_, ?_⟩
  · intro inst member definition declared notGeneric same
    have plain := mem_plainDefinitions.mpr ⟨declared, notGeneric⟩
    have old := List.mem_map_of_mem (f := Definition.name) plain
    have new := List.mem_map_of_mem (f := Definition.name) member
    rw [same] at new
    exact names.2.2 old new
  · intro name
    constructor
    · intro member
      obtain ⟨definition, inside, rfl⟩ := List.mem_map.mp member
      obtain ⟨inst, made, rfl⟩ := List.mem_map.mp inside
      exact progress.required inst made
    · intro required
      obtain ⟨inst, made, rfl⟩ := progress.complete distinct required
      exact List.mem_map_of_mem (List.mem_map_of_mem made)
  · intro definition member
    obtain ⟨inst, made, rfl⟩ := List.mem_map.mp member
    obtain ⟨template, declared, args, read, named, some_arg, arity, texts, instantiated⟩ :=
      progress.made inst made
    refine ⟨template, declared, args, read, named, some_arg, arity, ?_, ?_, ?_⟩
    · rw [instantiated]
      rfl
    · rw [instantiated]
      rfl
    · rw [instantiated, texts]
      rfl

/-- A user, and boxes that hold something and lead to the next box. -/
def boxDefinitions : List Definition :=
  [{ name := "User" },
    { name := "Box", params := ["«T»"],
      properties := [{ name := "value", type := "«T»" }, { name := "next", type := "Box<«T»>" }] }]

def boxesOut : List Definition :=
  [{ name := "User" },
    { name := "Box<Box<User>[]>",
      properties := [{ name := "value", type := "Box<User>[]" },
        { name := "next", type := "Box<Box<User>[]>" }] },
    { name := "Box<User>",
      properties :=
        [{ name := "value", type := "User" }, { name := "next", type := "Box<User>" }] }]

/-- The box of a user is required when only a box of such boxes is in use. -/
theorem discover_exact_boxes :
    discover 20 boxDefinitions ["Box< Box<User>[] >"] = some (.ok boxesOut) ∧
      Required boxDefinitions ["Box< Box<User>[] >"] "Box<User>" := by
  have finished : discover 20 boxDefinitions ["Box< Box<User>[] >"] = some (.ok boxesOut) := by
    decide +kernel
  obtain ⟨instances, written, -, -, exactly, -⟩ := discover_exact finished
  refine ⟨finished, (exactly _).mp ?_⟩
  have tail := congrArg (List.drop 1) written
  change boxesOut.drop 1 = instances at tail
  rw [← tail]
  decide

end ApiSchema
