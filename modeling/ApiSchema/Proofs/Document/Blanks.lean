import ApiSchema.Proofs.Document.Failures
import ApiSchema.Proofs.Generic.Lockstep
import ApiSchema.Proofs.Generic.Repetition

set_option autoImplicit false

namespace ApiSchema

open Text (squeeze trim)
open TypeExpr (check Readable Respaced)

def Operation.mapTypes (rewrite : Text → Text) (operation : Operation) : Operation :=
  { operation with
    params := operation.params.map fun param => { param with type := rewrite param.type }
    responses := operation.responses.map fun response =>
      { response with type := response.type.map rewrite } }

namespace Document

def mapTypes (rewrite : Text → Text) (document : Document) : Document :=
  { document with
    operations := document.operations.map (·.mapTypes rewrite)
    definitions := document.definitions.map (·.mapTypes rewrite) }

def allTypes (document : Document) : List Text :=
  document.operations.flatMap (·.types) ++
    document.definitions.flatMap fun definition => definition.properties.map (·.type)

/-- The document comes to this result, if it may take steps enough. -/
def ResolvesTo (document : Document) (result : Except SchemaError (List Definition)) : Prop :=
  ∃ limit, ∀ more ≥ limit, document.resolve more = some result

end Document

theorem Operation.types_mapTypes (rewrite : Text → Text) (operation : Operation) :
    (operation.mapTypes rewrite).types = operation.types.map rewrite := by
  have responses : (operation.responses.map fun response =>
      { response with type := response.type.map rewrite }).filterMap (·.type) =
        (operation.responses.filterMap (·.type)).map rewrite := by
    rw [List.filterMap_map, List.map_filterMap]
    rfl
  rw [types, types, List.map_append, ← responses, mapTypes, List.map_map, List.map_map]
  rfl

/-- The definitions are the same but for blanks in their types. -/
abbrev Definition.SameButBlanks : Definition → Definition → Prop :=
  Definition.Alike fun text other => squeeze text = squeeze other

theorem squeezed_eq_iff {definitions others : List Definition} :
    definitions.map (Definition.mapTypes squeeze) = others.map (Definition.mapTypes squeeze) ↔
      List.Forall₂ Definition.SameButBlanks definitions others := by
  simp only [map_eq_map_iff, Definition.mapTypes_eq_iff]

theorem readable_of_check {type : Text} (checked : check type = .ok ()) : Readable type :=
  TypeExpr.readable_iff.mpr (TypeExpr.check_eq_ok_iff.mp checked)

namespace Document

theorem resolve_mono {limit : Nat} {document : Document}
    {result : Except SchemaError (List Definition)}
    (ended : document.resolve limit = some result) {more : Nat} (enough : limit ≤ more) :
    document.resolve more = some result := by
  rw [resolve] at ended ⊢
  split at ended
  · exact ended
  · split at ended
    · exact ended
    · exact discover_mono ended enough

theorem resolvesTo_iff {document : Document} {result : Except SchemaError (List Definition)} :
    document.ResolvesTo result ↔ ∃ limit, document.resolve limit = some result :=
  ⟨fun ⟨limit, ended⟩ => ⟨limit, ended limit (Nat.le_refl limit)⟩,
    fun ⟨limit, ended⟩ => ⟨limit, fun _ enough => resolve_mono ended enough⟩⟩

/-- A document comes to one result at most. -/
theorem ResolvesTo.unique {document : Document}
    {result other : Except SchemaError (List Definition)} (ends : document.ResolvesTo result)
    (ends_too : document.ResolvesTo other) :
    result = other := by
  obtain ⟨limit, here⟩ := ends
  obtain ⟨least, there⟩ := ends_too
  have same := (here _ (Nat.le_max_left limit least)).symm.trans
    (there _ (Nat.le_max_right limit least))
  simpa using same

theorem inUse_subset (document : Document) :
    (document.operations.flatMap (·.types) ++
      (plainDefinitions document.definitions).flatMap fun definition =>
        definition.properties.map (·.type)) ⊆ document.allTypes := by
  refine List.append_subset.mpr ⟨List.subset_append_left _ _, fun type member => ?_⟩
  obtain ⟨definition, plain, field⟩ := List.mem_flatMap.mp member
  refine List.mem_append_right _ (List.mem_flatMap.mpr ⟨definition, ?_, field⟩)
  exact (mem_plainDefinitions.mp plain).1

theorem usedTypes_checked {document : Document}
    (readable : ∀ type ∈ document.allTypes, Readable type) :
    document.usedTypes.forM check = .ok () := by
  refine Generic.forM_eq_ok fun type member => ?_
  obtain ⟨text, used, rfl⟩ := List.mem_map.mp (List.mem_eraseDups.mp member)
  rw [TypeExpr.check_eq_ok_iff, ← TypeExpr.readable_iff, TypeExpr.readable_trim]
  exact readable text (inUse_subset document used)

section Readable

variable {document : Document} (readable : ∀ type ∈ document.allTypes, Readable type)
include readable

theorem resolvesTo_refused {error : SchemaError}
    (failed : document.definitions.mapM Definition.prepare = .error error) :
    document.ResolvesTo (.error error) :=
  ⟨0, fun more _ => by rw [resolve, usedTypes_checked readable, failed]⟩

/-- What a document comes to is what is discovered from all uses of types in it. -/
theorem resolvesTo_prepared {prepared : List Definition}
    (done : document.definitions.mapM Definition.prepare = .ok prepared)
    (result : Except SchemaError (List Definition)) :
    document.ResolvesTo result ↔
      ∃ limit, discover limit prepared document.typeTexts = some result := by
  have resolves : ∀ limit,
      document.resolve limit = discover limit prepared document.usedTypes := by
    intro limit
    rw [resolve, usedTypes_checked readable, done]
  rw [resolvesTo_iff]
  simp only [resolves]
  exact discover_eraseDups

end Readable

theorem resolve_never {document : Document} (never : ∀ result, ¬ document.ResolvesTo result)
    (limit : Nat) : document.resolve limit = none := by
  cases ended : document.resolve limit with
  | none => rfl
  | some result => exact absurd (resolvesTo_iff.mpr ⟨limit, ended⟩) (never result)

section Respaced

variable {first second : Document} (same : first.mapTypes squeeze = second.mapTypes squeeze)
include same

theorem definitions_alike :
    List.Forall₂ Definition.SameButBlanks first.definitions second.definitions :=
  squeezed_eq_iff.mp (congrArg Document.definitions same)

theorem operation_types_alike :
    List.Forall₂ (fun text other => squeeze text = squeeze other)
      (first.operations.flatMap (·.types)) (second.operations.flatMap (·.types)) := by
  have squeezed : ∀ document : Document, (document.operations.flatMap (·.types)).map squeeze =
      (document.mapTypes squeeze).operations.flatMap (·.types) := by
    intro document
    rw [mapTypes, List.flatMap_map, List.map_flatMap]
    simp only [Operation.types_mapTypes]
  rw [← map_eq_map_iff, squeezed first, squeezed second, same]

variable (readable : ∀ type ∈ first.allTypes, Readable type)
  (readable_too : ∀ type ∈ second.allTypes, Readable type)
include readable readable_too

theorem typeTexts_respaced : List.Forall₂ Respaced first.typeTexts second.typeTexts := by
  have plain := plainDefinitions_related (definitions_alike same) fun _ _ pair => pair.isGeneric
  have whole := List.rel_append (operation_types_alike same)
    (List.rel_flatMap plain fun _ _ pair => pair.types)
  rw [typeTexts, typeTexts, List.forall₂_map_left_iff, List.forall₂_map_right_iff]
  refine (forall₂_restrict whole (fun type member => readable type (inUse_subset first member))
    fun type member => readable_too type (inUse_subset second member)).imp ?_
  rintro text other ⟨read, read_too, squeezed⟩
  exact Respaced.trim ⟨squeezed, iff_of_true read read_too⟩

theorem prepared_outcome : SameOutcome (List.Forall₂ Definition.Parallel)
    (first.definitions.mapM Definition.prepare) (second.definitions.mapM Definition.prepare) := by
  have fields : ∀ document : Document, (∀ type ∈ document.allTypes, Readable type) →
      ∀ definition ∈ document.definitions, ∀ property ∈ definition.properties,
        Readable property.type := by
    intro document readable definition given property field
    refine readable _ (List.mem_append_right _ (List.mem_flatMap.mpr ⟨definition, given, ?_⟩))
    exact List.mem_map_of_mem field
  refine mapM_outcome ((forall₂_restrict (definitions_alike same) (fields first readable)
    (fields second readable_too)).imp ?_)
  rintro definition other ⟨read, read_too, alike⟩
  exact prepare_parallel alike read read_too

end Respaced

/-- Documents whose types are type expressions and the same but for blanks either resolve to
definitions that are the same but for blanks in their types, or fail with errors that are the same
but for the types in them, or both are never done. -/
theorem resolve_respaced {first second : Document}
    (same : first.mapTypes squeeze = second.mapTypes squeeze)
    (checked : ∀ type ∈ first.allTypes, check type = .ok ())
    (checked_too : ∀ type ∈ second.allTypes, check type = .ok ()) :
    (∃ out others, first.ResolvesTo (.ok out) ∧ second.ResolvesTo (.ok others) ∧
        out.map (Definition.mapTypes squeeze) = others.map (Definition.mapTypes squeeze)) ∨
      (∃ error other, first.ResolvesTo (.error error) ∧ second.ResolvesTo (.error other) ∧
        error.untyped = other.untyped) ∨
      ∀ limit, first.resolve limit = none ∧ second.resolve limit = none := by
  have readable : ∀ type ∈ first.allTypes, Readable type :=
    fun type member => readable_of_check (checked type member)
  have readable_too : ∀ type ∈ second.allTypes, Readable type :=
    fun type member => readable_of_check (checked_too type member)
  have outcome := prepared_outcome same readable readable_too
  cases here : first.definitions.mapM Definition.prepare with
  | error error =>
      rw [here] at outcome
      generalize there : second.definitions.mapM Definition.prepare = result at outcome
      obtain untyped | - := outcome
      exact Or.inr (Or.inl ⟨_, _, resolvesTo_refused readable here,
        resolvesTo_refused readable_too there, untyped⟩)
  | ok prepared =>
      rw [here] at outcome
      generalize there : second.definitions.mapM Definition.prepare = result at outcome
      obtain - | parallel := outcome
      have ends := resolvesTo_prepared readable here
      have ends_too := resolvesTo_prepared readable_too there
      -- with no text dropped the two discoveries go side by side
      rcases ends_either (discover_alike parallel (typeTexts_respaced same readable readable_too))
        with ⟨limit, _, _, ended, ended_too, untyped | alike⟩ | never
      · exact Or.inr (Or.inl ⟨_, _, (ends _).mpr ⟨limit, ended⟩,
          (ends_too _).mpr ⟨limit, ended_too⟩, untyped⟩)
      · refine Or.inl ⟨_, _, (ends _).mpr ⟨limit, ended⟩, (ends_too _).mpr ⟨limit, ended_too⟩,
          squeezed_eq_iff.mpr ?_⟩
        exact alike.imp fun _ _ pair => pair.imp fun _ _ types => types.squeezed
      · refine Or.inr (Or.inr fun limit => ⟨resolve_never (fun result comes => ?_) limit,
          resolve_never (fun result comes => ?_) limit⟩)
        · obtain ⟨steps, ended⟩ := (ends result).mp comes
          simp [(never steps).1] at ended
        · obtain ⟨steps, ended⟩ := (ends_too result).mp comes
          simp [(never steps).2] at ended

/-- Boxes of users, with hardly a blank in the types. -/
def crampedBoxes : Document :=
  { title := "Boxes", version := "1",
    operations :=
      [{ id := "boxes", method := .get, path := "/boxes",
         params := [.declare "filter" .query "Map<User,Box<User>[]>"],
         responses := [{ status := 200, type := some ("Box<User>" : String) },
           { status := 206, type := some ("Box<User>" : String) }] }],
    definitions :=
      [{ name := "User", properties := [{ name := "id", type := "integer#int64" }] },
       { name := "Box", params := ["T"], properties := [{ name := "items", type := "T[]" }] },
       { name := "Map", params := ["K", "V"],
         properties := [{ name := "entries", type := "Map<K,V>[]" },
           { name := "first", type := "Box<V>" }] }] }

/-- The same with other blanks, by which no two types in use have the same text. -/
def airyBoxes : Document :=
  { title := "Boxes", version := "1",
    operations :=
      [{ id := "boxes", method := .get, path := "/boxes",
         params := [.declare "filter" .query " Map< User ,\tBox<User> [] >"],
         responses := [{ status := 200, type := some ("Box< User>" : String) },
           { status := 206, type := some ("Box<User >" : String) }] }],
    definitions :=
      [{ name := "User", properties := [{ name := "id", type := "integer#int64 " }] },
       { name := "Box", params := ["T"], properties := [{ name := "items", type := "\nT []" }] },
       { name := "Map", params := ["K", "V"],
         properties := [{ name := "entries", type := "Map< K , V > []" },
           { name := "first", type := "Box< V>" }] }] }

def crampedBoxesOut : List Definition :=
  [{ name := "User", properties := [{ name := "id", type := "integer#int64" }] },
    { name := "Map<User, Box<User>[]>",
      properties := [{ name := "entries", type := "Map<User, Box<User>[]>[]" },
        { name := "first", type := "Box<Box<User>[]>" }] },
    { name := "Box<Box<User>[]>", properties := [{ name := "items", type := "Box<User>[][]" }] },
    { name := "Box<User>", properties := [{ name := "items", type := "User[]" }] }]

theorem resolve_respaced_boxes :
    crampedBoxes.ResolvesTo (.ok crampedBoxesOut) ∧ ∃ others, airyBoxes.ResolvesTo (.ok others) ∧
      crampedBoxesOut.map (Definition.mapTypes squeeze) =
        others.map (Definition.mapTypes squeeze) := by
  have same : crampedBoxes.mapTypes squeeze = airyBoxes.mapTypes squeeze := by decide +kernel
  have resolved : crampedBoxes.resolve 20 = some (.ok crampedBoxesOut) := by decide +kernel
  have ends : crampedBoxes.ResolvesTo (.ok crampedBoxesOut) := resolvesTo_iff.mpr ⟨20, resolved⟩
  refine ⟨ends, ?_⟩
  rcases resolve_respaced same (by decide +kernel) (by decide +kernel) with
    ⟨out, others, built, built_too, alike⟩ | ⟨error, -, failed, -⟩ | never
  · cases ends.unique built
    exact ⟨others, built_too, alike⟩
  · cases ends.unique failed
  · rw [(never 20).1] at resolved
    cases resolved

end Document

end ApiSchema
