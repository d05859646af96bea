import ApiSchema.Proofs.Decode.Parts
import ApiSchema.Proofs.Document.Encoding

set_option autoImplicit false

namespace ApiSchema

open Source Member Json

section Records

variable {members : List (Text × Json)}

def Tag.table : List (Field Json Tag) :=
  [.needed "name" text (·.name), .spare "description" text [] (·.description)]

theorem Tag.decode_record_iff {tag : Tag} :
    Tag.decode (record members) = .ok tag ↔
      Decodes Tag.table (Tag.shape : Shape Json).other members tag := by
  have same : (Tag.shape : Shape Json).fields = Tag.table.map Field.shape := rfl
  rw [← scanned_iff same (by decide)]
  simp only [Tag.decode, bind_eq_ok, members_record_iff, get_eq_ok_iff, getD_eq_ok_iff]
  constructor
  · rintro ⟨_, ⟨scanned, rfl⟩, _, name, _, description, same⟩
    cases same
    refine ⟨scanned, ?_⟩
    simp only [Tag.table, List.forall_mem_cons]
    exact ⟨name, description, by simp⟩
  · rintro ⟨scanned, holds⟩
    simp only [Tag.table, List.forall_mem_cons] at holds
    obtain ⟨name, description, -⟩ := holds
    exact ⟨_, ⟨scanned, rfl⟩, _, name, _, description, rfl⟩

def Response.table : List (Field Json Response) :=
  [.needed "status" Source.status (·.status), .spare "description" text [] (·.description),
    .spare "type" (Source.optional text) none (·.type)]

theorem Response.decode_record_iff {response : Response} :
    Response.decode (record members) = .ok response ↔
      Decodes Response.table (Response.shape : Shape Json).other members response := by
  have same : (Response.shape : Shape Json).fields = Response.table.map Field.shape := rfl
  rw [← scanned_iff same (by decide)]
  simp only [Response.decode, bind_eq_ok, members_record_iff, get_eq_ok_iff, getD_eq_ok_iff]
  constructor
  · rintro ⟨_, ⟨scanned, rfl⟩, _, status, _, description, _, type, same⟩
    cases same
    refine ⟨scanned, ?_⟩
    simp only [Response.table, List.forall_mem_cons]
    exact ⟨status, description, type, by simp⟩
  · rintro ⟨scanned, holds⟩
    simp only [Response.table, List.forall_mem_cons] at holds
    obtain ⟨status, description, type, -⟩ := holds
    exact ⟨_, ⟨scanned, rfl⟩, _, status, _, description, _, type, rfl⟩

def Param.table : List (Field Json Param) :=
  [.needed "name" text (·.name), .needed "in" ParamPlace.decode (·.place),
    .needed "type" text (·.type), .spare "required" flag false (·.required),
    .spare "description" text [] (·.description)]

theorem Param.decode_record_iff {param : Param} :
    Param.decode (record members) = .ok param ↔
      Decodes Param.table (Param.shape : Shape Json).other members param := by
  have same : (Param.shape : Shape Json).fields = Param.table.map Field.shape := rfl
  rw [← scanned_iff same (by decide)]
  simp only [Param.decode, bind_eq_ok, members_record_iff, get_eq_ok_iff, getD_eq_ok_iff]
  constructor
  · rintro ⟨_, ⟨scanned, rfl⟩, _, name, _, place, _, type, _, required, _, description, same⟩
    cases same
    refine ⟨scanned, ?_⟩
    simp only [Param.table, List.forall_mem_cons]
    exact ⟨name, place, type, required, description, by simp⟩
  · rintro ⟨scanned, holds⟩
    simp only [Param.table, List.forall_mem_cons] at holds
    obtain ⟨name, place, type, required, description, -⟩ := holds
    exact ⟨_, ⟨scanned, rfl⟩, _, name, _, place, _, type, _, required, _, description, rfl⟩

def Operation.table : List (Field Json Operation) :=
  [.needed "id" text (·.id), .needed "method" HttpMethod.decode (·.method),
    .needed "path" text (·.path), .spare "summary" text [] (·.summary),
    .spare "tags" (listOf text) [] (·.tags), .spare "params" (listOf Param.decode) [] (·.params),
    .spare "responses" (listOf Response.decode) [] (·.responses)]

theorem Operation.decode_record_iff {operation : Operation} :
    Operation.decode (record members) = .ok operation ↔
      Decodes Operation.table (Operation.shape : Shape Json).other members operation := by
  have same : (Operation.shape : Shape Json).fields = Operation.table.map Field.shape := rfl
  rw [← scanned_iff same (by decide)]
  simp only [Operation.decode, bind_eq_ok, members_record_iff, get_eq_ok_iff, getD_eq_ok_iff]
  constructor
  · rintro ⟨_, ⟨scanned, rfl⟩, _, id, _, method, _, path, _, summary, _, tags, _, params, _,
      responses, same⟩
    cases same
    refine ⟨scanned, ?_⟩
    simp only [Operation.table, List.forall_mem_cons]
    exact ⟨id, method, path, summary, tags, params, responses, by simp⟩
  · rintro ⟨scanned, holds⟩
    simp only [Operation.table, List.forall_mem_cons] at holds
    obtain ⟨id, method, path, summary, tags, params, responses, -⟩ := holds
    exact ⟨_, ⟨scanned, rfl⟩, _, id, _, method, _, path, _, summary, _, tags, _, params, _,
      responses, rfl⟩

def Facets.table {V : Type} [Source V] : List (Field V Facets) :=
  [.spare "minimum" (Source.optional real) none (·.minimum),
    .spare "maximum" (Source.optional real) none (·.maximum),
    .spare "min_length" (Source.optional Source.length) none (·.minLength),
    .spare "max_length" (Source.optional Source.length) none (·.maxLength),
    .spare "pattern" (Source.optional text) none (·.pattern),
    .spare "enum" (listOf text) [] (·.choices),
    .spare "default" (Source.optional text) none (·.defaultValue),
    .spare "example" (Source.optional text) none (·.sample)]

theorem Facets.ofData_iff {data : List (Text × Datum)} {facets : Facets} :
    Facets.ofData data = .ok facets ↔
      Decodes Facets.table (fun _ => .ok ()) data facets := by
  have same : (⟨"PropertyFacets", Facets.fields, fun _ => .ok (), false⟩ : Shape Datum).fields =
      Facets.table.map Field.shape := rfl
  rw [← scanned_iff same (by decide)]
  simp only [Facets.ofData, Facets.ofMembers, bind_eq_ok, getD_eq_ok_iff]
  constructor
  · rintro ⟨_, scanned, _, minimum, _, maximum, _, min_length, _, max_length, _, pattern, _,
      choices, _, default, _, sample, same⟩
    cases same
    refine ⟨scanned, ?_⟩
    simp only [Facets.table, List.forall_mem_cons]
    exact ⟨minimum, maximum, min_length, max_length, pattern, choices, default, sample, by simp⟩
  · rintro ⟨scanned, holds⟩
    simp only [Facets.table, List.forall_mem_cons] at holds
    obtain ⟨minimum, maximum, min_length, max_length, pattern, choices, default, sample, -⟩ := holds
    exact ⟨_, scanned, _, minimum, _, maximum, _, min_length, _, max_length, _, pattern, _,
      choices, _, default, _, sample, rfl⟩

namespace Property

/-- The fields of a property apart from its facets. -/
def ownTable : List (Field Json Property) :=
  [.needed "name" text (·.name), .needed "type" text (·.type),
    .spare "required" flag false (·.required), .spare "description" text [] (·.description)]

def table (around : Nat) : List (Field Json Property) :=
  ownTable ++ Facets.table.map (Field.within (Json.datum (around + 1)) (·.facets))

/-- A field of a property that is no facet. -/
def isOwn (around : Nat) (name : Text) : Bool :=
  (Property.shape around : Shape Json).fields.any fun field => field.name = name

theorem isOwn_iff (around : Nat) (name : Text) :
    isOwn around name = true ↔ name ∈ ownTable.map (·.name) := by
  rw [isOwn, List.any_eq_true, List.mem_map]
  change (∃ field ∈ ownTable.map Field.shape, decide (field.name = name) = true) ↔ _
  simp only [List.mem_map, exists_exists_and_eq_and, decide_eq_true_eq]
  exact Iff.rfl

theorem facet_not_own (around : Nat) :
    ∀ field ∈ (Facets.table : List (Field Datum Facets)), isOwn around field.name = false := by
  intro field member
  rw [← Bool.not_eq_true, isOwn_iff]
  have apart : ∀ name ∈ (Facets.table : List (Field Datum Facets)).map (·.name),
      name ∉ ownTable.map (·.name) := by decide
  exact apart field.name (List.mem_map_of_mem member)

theorem decode_record_iff {around : Nat} {property : Property} :
    Property.decode around (record members) = .ok property ↔
      Decodes (Property.table around) (Property.shape around : Shape Json).other members
        property := by
  have same : (Property.shape around : Shape Json).fields = ownTable.map Field.shape := rfl
  have own : Scanned (Property.shape around) ownTable members property ↔
      Decodes ownTable (FieldShape.checkOf (Json.datum (around + 1))) members property :=
    scanned_iff same (by decide)
  change _ ↔ Decodes (ownTable ++ _) (FieldShape.checkOf (Json.datum (around + 1))) _ _
  rw [decodes_within (isOwn_iff around) (facet_not_own around), ← own]
  simp only [← Facets.ofData_iff]
  simp only [Property.decode, bind_eq_ok, members_record_iff, get_eq_ok_iff, getD_eq_ok_iff]
  constructor
  · rintro ⟨_, ⟨scanned, rfl⟩, _, name, _, type, _, required, _, description, data, others, _,
      facets, same⟩
    cases same
    refine ⟨⟨scanned, ?_⟩, data, others, facets⟩
    simp only [ownTable, List.forall_mem_cons]
    exact ⟨name, type, required, description, by simp⟩
  · rintro ⟨⟨scanned, holds⟩, data, others, facets⟩
    simp only [ownTable, List.forall_mem_cons] at holds
    obtain ⟨name, type, required, description, -⟩ := holds
    exact ⟨_, ⟨scanned, rfl⟩, _, name, _, type, _, required, _, description, data, others, _,
      facets, rfl⟩

end Property

def Definition.table (around : Nat) : List (Field Json Definition) :=
  [.needed "name" text (·.name), .spare "description" text [] (·.description),
    .spare "generic_params" (listOf text) [] (·.params),
    .spare "properties" (listOf (Property.decode (around + 2))) [] (·.properties)]

theorem Definition.decode_record_iff {around : Nat} {definition : Definition} :
    Definition.decode around (record members) = .ok definition ↔
      Decodes (Definition.table around) (Definition.shape around : Shape Json).other members
        definition := by
  have same : (Definition.shape around : Shape Json).fields =
      (Definition.table around).map Field.shape := rfl
  have distinct : ((Definition.table around).map (·.name)).Nodup := by
    change [("name" : Text), "description", "generic_params", "properties"].Nodup
    decide
  rw [← scanned_iff same distinct]
  simp only [Definition.decode, bind_eq_ok, members_record_iff, get_eq_ok_iff, getD_eq_ok_iff]
  constructor
  · rintro ⟨_, ⟨scanned, rfl⟩, _, name, _, description, _, params, _, properties, same⟩
    cases same
    refine ⟨scanned, ?_⟩
    simp only [Definition.table, List.forall_mem_cons]
    exact ⟨name, description, params, properties, by simp⟩
  · rintro ⟨scanned, holds⟩
    simp only [Definition.table, List.forall_mem_cons] at holds
    obtain ⟨name, description, params, properties, -⟩ := holds
    exact ⟨_, ⟨scanned, rfl⟩, _, name, _, description, _, params, _, properties, rfl⟩

def Document.table : List (Field Json Document) :=
  [.needed "title" text (·.title), .needed "version" text (·.version),
    .spare "description" text [] (·.description), .spare "base_path" text [] (·.basePath),
    .spare "tags" (listOf Tag.decode) [] (·.tags),
    .spare "operations" (listOf Operation.decode) [] (·.operations),
    .spare "definitions" (listOf (Definition.decode 2)) [] (·.definitions)]

theorem Document.decode_record_iff {document : Document} :
    Document.decode (record members) = .ok document ↔
      Decodes Document.table (Document.shape : Shape Json).other members document := by
  have same : (Document.shape : Shape Json).fields = Document.table.map Field.shape := rfl
  rw [← scanned_iff same (by decide)]
  simp only [Document.decode, bind_eq_ok, members_record_iff, get_eq_ok_iff, getD_eq_ok_iff]
  constructor
  · rintro ⟨_, ⟨scanned, rfl⟩, _, title, _, version, _, description, _, base_path, _, tags, _,
      operations, _, definitions, same⟩
    cases same
    refine ⟨scanned, ?_⟩
    simp only [Document.table, List.forall_mem_cons]
    exact ⟨title, version, description, base_path, tags, operations, definitions, by simp⟩
  · rintro ⟨scanned, holds⟩
    simp only [Document.table, List.forall_mem_cons] at holds
    obtain ⟨title, version, description, base_path, tags, operations, definitions, -⟩ := holds
    exact ⟨_, ⟨scanned, rfl⟩, _, title, _, version, _, description, _, base_path, _, tags, _,
      operations, _, definitions, rfl⟩

end Records

end ApiSchema
