import ApiSchema.Proofs.Document.References
import ApiSchema.Proofs.Document.Failures
import ApiSchema.Proofs.Generic.Respacing

set_option autoImplicit false

namespace ApiSchema

open TypeExpr (parse check canonical)
open Generic (Spaced Firm spaceCommas)

section Out

variable {definitions prepared : List Definition} {used : List Text} {instances : List Instance}
  {out : List Definition} (done : definitions.map Definition.prepare = prepared.map .ok)
  (progress : Progress prepared used instances ⟨out, []⟩)
include progress

theorem Progress.out_params : ∀ definition ∈ out, definition.params = [] := by
  intro definition member
  rw [show out = _ from progress.emitted] at member
  rcases List.mem_append.mp member with plain | made
  · have notGeneric := (mem_plainDefinitions.mp plain).2
    simpa [Definition.isGeneric] using notGeneric
  · obtain ⟨inst, inside, rfl⟩ := List.mem_map.mp made
    obtain ⟨template, -, args, -, -, -, -, -, instantiated⟩ := progress.made inst inside
    rw [instantiated]
    rfl

include done

/-- All commas in the types written out are spaced. -/
theorem Progress.out_spaced :
    ∀ definition ∈ out, ∀ property ∈ definition.properties, Spaced property.type := by
  intro definition member property field
  rw [show out = _ from progress.emitted] at member
  rcases List.mem_append.mp member with plain | made
  · rw [Definition.plainDefinitions_prepared done] at plain
    obtain ⟨authored, -, rfl⟩ := List.mem_map.mp plain
    obtain ⟨source, -, rfl⟩ := List.mem_map.mp field
    exact Generic.spaced_spaceCommas source.type
  · obtain ⟨inst, inside, rfl⟩ := List.mem_map.mp made
    obtain ⟨ready, declared, args, read, -, -, -, texts, instantiated⟩ :=
      progress.made inst inside
    obtain ⟨authored, -, prepares⟩ := Definition.exists_authored done declared
    have words := (Definition.prepare_params prepares).2
    have spaced : ∀ arg ∈ args.map canonical, Spaced arg ∧ Firm arg := by
      intro arg member
      obtain ⟨type, given, rfl⟩ := List.mem_map.mp member
      obtain ⟨fragment, known⟩ := TypeExpr.argument_read (TypeExpr.parse_eq_ok_iff.mp read) given
      exact TypeExpr.canonical_spaced known
    rw [instantiated, texts, Definition.instantiate_properties prepares] at field
    obtain ⟨source, -, rfl⟩ := List.mem_map.mp field
    have identifiers := fun param inside => (TypeExpr.isTypeName_iff.mp (words param inside)).1
    change spaceCommas _ = _
    rw [Definition.writtenType, Generic.spaceCommas_substitute identifiers spaced,
      Generic.markedType, Generic.spaced_spaceCommas]

end Out

theorem Definition.mapTypes_of_fixed {rewrite : Text → Text} {definition : Definition}
    (fixed : ∀ property ∈ definition.properties, rewrite property.type = property.type) :
    definition.mapTypes rewrite = definition := by
  have same : definition.properties.map (fun property =>
      { property with type := rewrite property.type }) = definition.properties := by
    conv_rhs => rw [← List.map_id definition.properties]
    refine List.map_congr_left fun property field => ?_
    rw [fixed property field]
    rfl
  rw [mapTypes, same]

/-- Preparing changes nothing in a definition without parameters whose types are spaced and can be
read. -/
theorem Definition.prepare_fixed {definition : Definition} (plain : definition.params = [])
    (spaced : ∀ property ∈ definition.properties, Spaced property.type)
    (readable : ∀ property ∈ definition.properties, ∃ expr, parse property.type = .ok expr) :
    definition.prepare = .ok definition := by
  have checked : Generic.checkTypes [] definition.properties = .ok () := by
    refine Generic.checkTypes_ok fun property field => ?_
    obtain ⟨expr, read⟩ := readable property field
    exact TypeExpr.checkFragment_of_parse (TypeExpr.parse_eq_ok_iff.mp read)
  have same : definition.mapTypes (Generic.markedType []) = definition := mapTypes_of_fixed spaced
  simp only [prepare, prepareWith, plain, Generic.distinctParams, checked, Generic.checkFinders,
    same, List.map_nil]
  rw [← plain]

theorem Settled.check {emitted : List Definition} {type : Text} (settled : Settled emitted type) :
    check type = .ok () := by
  obtain ⟨expr, read, -⟩ := settled
  exact TypeExpr.check_eq_ok_iff.mpr
    (TypeExpr.checkFragment_of_parse (TypeExpr.parse_eq_ok_iff.mp read))

/-- Where every text refers to what is written out, the discovery goes through them and adds
nothing. -/
theorem run_settled {definitions emitted : List Definition} {pending : List Text}
    (settled : ∀ type ∈ pending, Settled emitted type) {limit : Nat}
    (enough : pending.length ≤ limit) :
    Discovery.run definitions limit ⟨emitted, pending⟩ = some (.ok emitted) := by
  induction pending generalizing limit with
  | nil => exact Discovery.run_nil
  | cons type rest ih =>
      obtain ⟨limit, rfl⟩ : ∃ less, limit = less + 1 := ⟨limit - 1, by simp at enough; omega⟩
      rw [Discovery.run_none (demand_settled (settled type (by simp)))]
      refine ih (fun other member => settled other (by simp [member])) ?_
      simpa using enough

namespace Document

/-- A document that resolves has definitions written out that stand on their own. No two share a
name; what an operation or one of their properties refers to is among them; their property types
are type expressions; preparing them changes nothing; and with them in the place of its definitions
the document resolves to just them again, as soon as all types in use have been looked at. -/
theorem resolve_idempotent {limit : Nat} {document : Document} {out : List Definition}
    (resolved : document.resolve limit = some (.ok out)) :
    (out.map (·.name)).Nodup ∧
      (∀ operation ∈ document.operations, ∀ type ∈ operation.types, Settled out type) ∧
      (∀ definition ∈ out, ∀ property ∈ definition.properties,
        Settled out property.type ∧ check property.type = .ok ()) ∧
      out.mapM Definition.prepare = .ok out ∧
      ∀ enough, { document with definitions := out }.usedTypes.length ≤ enough →
        { document with definitions := out }.resolve enough = some (.ok out) := by
  obtain ⟨prepared, done, finished⟩ := resolve_eq_ok resolved
  obtain ⟨-, instances, progress⟩ := discover_progress finished
  have plain := progress.out_params
  have operations := operations_settled progress
  have properties := properties_settled done progress
  have prepares : out.mapM Definition.prepare = .ok out := by
    refine Generic.mapM_eq_ok_iff.mpr (List.map_congr_left fun definition member => ?_)
    refine Definition.prepare_fixed (plain definition member)
      (progress.out_spaced done definition member) fun property field => ?_
    obtain ⟨expr, read, -⟩ := properties definition member property field
    exact ⟨expr, read⟩
  have in_use : ∀ type ∈ { document with definitions := out }.usedTypes, Settled out type := by
    intro type member
    obtain ⟨source, used, rfl⟩ := List.mem_map.mp (List.mem_eraseDups.mp member)
    refine settled_trim.mpr ?_
    rcases List.mem_append.mp used with operation | property
    · obtain ⟨operation, declared, inside⟩ := List.mem_flatMap.mp operation
      exact operations operation declared source inside
    · obtain ⟨definition, declared, inside⟩ := List.mem_flatMap.mp property
      obtain ⟨field, given, rfl⟩ := List.mem_map.mp inside
      exact properties definition (List.mem_filter.mp declared).1 field given
  have unchanged : plainDefinitions out = out := by
    refine List.filter_eq_self.mpr fun definition member => ?_
    simp [Definition.isGeneric, plain definition member]
  refine ⟨progress.distinct, operations, fun definition member property field =>
    ⟨properties definition member property field,
      (properties definition member property field).check⟩, prepares, ?_⟩
  intro enough bound
  have start : written out [] = out := by rw [written, unchanged, List.map_nil, List.append_nil]
  rw [resolve, Generic.forM_eq_ok fun type member => (in_use type member).check]
  dsimp only
  rw [prepares]
  dsimp only
  rw [discover_eq_run progress.distinct, start]
  exact run_settled in_use bound

/-- Swaps that swap back, with blanks about the commas. -/
def untidySwaps : Document :=
  oneUse " Swap< User[] ,Role>"
    [{ name := "User", properties := [{ name := "roles", type := "Map<string ,Role>" }] },
      { name := "Role" }, { name := "Map", params := ["K", "V"] },
      { name := "Swap", params := ["A", "B"],
        properties := [{ name := "back", type := "Swap<B ,A>" }] }]

def untidySwapsOut : List Definition :=
  [{ name := "User", properties := [{ name := "roles", type := "Map<string, Role>" }] },
    { name := "Role" },
    { name := "Swap<User[], Role>",
      properties := [{ name := "back", type := "Swap<Role, User[]>" }] },
    { name := "Swap<Role, User[]>",
      properties := [{ name := "back", type := "Swap<User[], Role>" }] },
    { name := "Map<string, Role>" }]

theorem resolve_idempotent_swaps :
    untidySwaps.resolve 20 = some (.ok untidySwapsOut) ∧
      { untidySwaps with definitions := untidySwapsOut }.resolve 20 =
        some (.ok untidySwapsOut) := by
  have resolved : untidySwaps.resolve 20 = some (.ok untidySwapsOut) := by decide +kernel
  obtain ⟨-, -, -, -, again⟩ := resolve_idempotent resolved
  exact ⟨resolved, again 20 (by decide +kernel)⟩

end Document

end ApiSchema
