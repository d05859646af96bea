import ApiSchema.Command.Run
import ApiSchema.Proofs.Document.Facets
import ApiSchema.Proofs.Generic.Progress

set_option autoImplicit false

namespace ApiSchema

open Source Member Json

namespace Definition

def slots (definition : Definition) : List (Text × Option Json) :=
  [("name", some (ofText definition.name)), ("description", some (ofText definition.description)),
    ("generic_params", unlessEmpty definition.params),
    ("properties", some (Json.list (definition.properties.map Property.encode)))]

theorem encode_eq (definition : Definition) :
    definition.encode = record (ofSlots definition.slots) := by
  rw [Definition.encode, Definition.slots, unlessEmpty]
  split <;> rfl

theorem decode_encode {around : Nat} (room : around + 3 < deepest) {definition : Definition}
    (back : ∀ x ∈ definition.reals, x.ReadsBack) :
    Definition.decode around definition.encode = .ok definition := by
  have name := holds_text none definition.name
  have description := holds_text (some []) definition.description
  have params := holds_unlessEmpty definition.params
  have properties : Holds (listOf (Property.decode (around + 2))) (some [])
      (some (Json.list (definition.properties.map Property.encode))) definition.properties := by
    refine holds_list fun property member => Property.decode_encode room ?_
    exact fun x inside => back x (List.mem_flatMap.mpr ⟨property, member, inside⟩)
  have fits : Fits (Definition.shape around : Shape Json).fields definition.slots :=
    ⟨rfl, name.check, rfl, description.check, rfl, params.check, rfl, properties.check, trivial⟩
  have names : ((Definition.shape around : Shape Json).fields.map (·.name)).Nodup := by
    change [("name" : Text), "description", "generic_params", "properties"].Nodup
    decide
  obtain ⟨members, distinct⟩ := fits.record names
  rw [encode_eq]
  simp only [Definition.decode, members, ok_bind, name.get distinct 0 rfl,
    description.getD distinct 1 rfl, params.getD distinct 2 rfl, properties.getD distinct 3 rfl]
  rfl

theorem proper_encode (definition : Definition) : definition.encode.Proper := by
  have each : ∀ slot ∈ definition.slots, ProperSlot slot.2 := by
    simp only [Definition.slots, List.forall_mem_cons]
    exact ⟨.of_value (.string _), .of_value (.string _), .unlessEmpty _,
      .of_value (proper_list Property.proper_encode _), by simp⟩
  rw [encode_eq]
  exact proper_ofSlots each

end Definition

namespace Document

def slots (document : Document) : List (Text × Option Json) :=
  [("title", some (Json.ofText document.title)), ("version", some (Json.ofText document.version)),
    ("description", some (Json.ofText document.description)),
    ("base_path", some (Json.ofText document.basePath)),
    ("tags", some (Json.list (document.tags.map Tag.encode))),
    ("operations", some (Json.list (document.operations.map Operation.encode))),
    ("definitions", some (Json.list (document.definitions.map Definition.encode)))]

theorem decode_encode {document : Document} (back : ∀ x ∈ document.reals, x.ReadsBack) :
    Document.decode document.encode = .ok document := by
  have title := holds_text none document.title
  have version := holds_text none document.version
  have description := holds_text (some []) document.description
  have basePath := holds_text (some []) document.basePath
  have tags := holds_list fun tag (_ : tag ∈ document.tags) => tag.decode_encode
  have operations := holds_list fun operation (_ : operation ∈ document.operations) =>
    operation.decode_encode
  have definitions : Holds (listOf (Definition.decode 2)) (some [])
      (some (Json.list (document.definitions.map Definition.encode))) document.definitions := by
    refine holds_list fun definition member => Definition.decode_encode (by decide) ?_
    exact fun x inside => back x (List.mem_flatMap.mpr ⟨definition, member, inside⟩)
  have fits : Fits (Document.shape : Shape Json).fields document.slots :=
    ⟨rfl, title.check, rfl, version.check, rfl, description.check, rfl, basePath.check, rfl,
      tags.check, rfl, operations.check, rfl, definitions.check, trivial⟩
  obtain ⟨members, distinct⟩ := fits.record (by decide)
  change Document.decode (record (ofSlots document.slots)) = _
  simp only [Document.decode, members, ok_bind, title.get distinct 0 rfl,
    version.get distinct 1 rfl, description.getD distinct 2 rfl, basePath.getD distinct 3 rfl,
    tags.getD distinct 4 rfl, operations.getD distinct 5 rfl, definitions.getD distinct 6 rfl]
  rfl

theorem proper_encode (document : Document) : document.encode.Proper := by
  have each : ∀ slot ∈ document.slots, ProperSlot slot.2 := by
    simp only [Document.slots, List.forall_mem_cons]
    exact ⟨.of_value (.string _), .of_value (.string _), .of_value (.string _),
      .of_value (.string _), .of_value (proper_list Tag.proper_encode _),
      .of_value (proper_list Operation.proper_encode _),
      .of_value (proper_list Definition.proper_encode _), by simp⟩
  exact proper_ofSlots each

end Document

theorem Definition.reals_mapTypes (rewrite : Text → Text) (definition : Definition) :
    (definition.mapTypes rewrite).reals = definition.reals := by
  simp only [Definition.reals, Definition.mapTypes, List.flatMap_map]

/-- No double comes up in an instance or by preparation. -/
theorem Document.reals_resolved {limit : Nat} {document : Document} {out : List Definition}
    (resolved : document.resolve limit = some (.ok out)) :
    ∀ definition ∈ out, ∀ x ∈ definition.reals, x ∈ document.reals := by
  obtain ⟨prepared, done, finished⟩ := Document.resolve_eq_ok resolved
  obtain ⟨-, instances, progress⟩ := discover_progress finished
  have written : out = plainDefinitions prepared ++ instances.map (·.definition) :=
    progress.emitted
  have ready : ∀ definition ∈ prepared, ∀ x ∈ definition.reals, x ∈ document.reals := by
    intro definition member x inside
    obtain ⟨authored, declared, prepares⟩ := Definition.exists_authored done member
    obtain ⟨params, -, -, -, -, rfl⟩ := Definition.prepareWith_eq_ok prepares
    refine List.mem_flatMap.mpr ⟨authored, declared, ?_⟩
    rw [← Definition.reals_mapTypes (Generic.markedType params)]
    exact inside
  intro definition member x inside
  rw [written] at member
  rcases List.mem_append.mp member with plain | made
  · exact ready definition (mem_plainDefinitions.mp plain).1 x inside
  · obtain ⟨inst, here, rfl⟩ := List.mem_map.mp made
    obtain ⟨template, declared, args, -, -, -, -, -, instantiated⟩ := progress.made inst here
    refine ready template declared x ?_
    rw [instantiated] at inside
    rw [← Definition.reals_mapTypes (Generic.substitute template.params inst.args)]
    exact inside

inductive RecordKind
  | document
  | operation
  | param
  | response
  | tag
  | definition
  | property
  | facets
  | method
  | place

namespace RecordKind

abbrev Value : RecordKind → Type
  | document => Document
  | operation => Operation
  | param => Param
  | response => Response
  | tag => Tag
  | definition => Definition
  | property => Property
  | facets => Facets
  | method => HttpMethod
  | place => ParamPlace

def decode : (kind : RecordKind) → Json → Except Fault kind.Value
  | document => Document.decode
  | operation => Operation.decode
  | param => Param.decode
  | response => Response.decode
  | tag => Tag.decode
  | definition => Definition.decode 0
  | property => Property.decode 0
  | facets => Facets.decode
  | method => HttpMethod.decode
  | place => ParamPlace.decode

def encode : (kind : RecordKind) → kind.Value → Json
  | document => Document.encode
  | operation => Operation.encode
  | param => Param.encode
  | response => Response.encode
  | tag => Tag.encode
  | definition => Definition.encode
  | property => Property.encode
  | facets => Facets.encode
  | method => HttpMethod.encode
  | place => ParamPlace.encode

def reals : (kind : RecordKind) → kind.Value → List Binary64
  | document => Document.reals
  | definition => Definition.reals
  | property => fun property => property.facets.reals
  | facets => Facets.reals
  | _ => fun _ => []

theorem decode_encode (kind : RecordKind) {value : kind.Value}
    (back : ∀ x ∈ kind.reals value, x.ReadsBack) : kind.decode (kind.encode value) = .ok value := by
  cases kind with
  | document => exact Document.decode_encode back
  | operation => exact Operation.decode_encode value
  | param => exact Param.decode_encode value
  | response => exact Response.decode_encode value
  | tag => exact Tag.decode_encode value
  | definition => exact Definition.decode_encode (by decide) back
  | property => exact Property.decode_encode (by decide) back
  | facets => exact Facets.decode_encode back
  | method => exact HttpMethod.decode_encode value
  | place => exact ParamPlace.decode_encode value

theorem proper_encode (kind : RecordKind) (value : kind.Value) : (kind.encode value).Proper := by
  cases kind with
  | document => exact Document.proper_encode value
  | operation => exact Operation.proper_encode value
  | param => exact Param.proper_encode value
  | response => exact Response.proper_encode value
  | tag => exact Tag.proper_encode value
  | definition => exact Definition.proper_encode value
  | property => exact Property.proper_encode value
  | facets => exact Facets.proper_encode value
  | method => exact .string _
  | place => exact .string _

theorem decode_finite (kind : RecordKind) {json : Json} {value : kind.Value}
    (found : kind.decode json = .ok value) : ∀ x ∈ kind.reals value, x.isFinite = true := by
  cases kind with
  | document => exact Document.decode_finite found
  | definition => exact Definition.decode_finite found
  | property => exact Property.decode_finite found
  | facets => exact Facets.decode_finite found
  | _ => exact fun _ absent => nomatch absent

end RecordKind

/-- JSON is read back. Whatever text a record was decoded from, the record is decoded again from
the text that is written for it without gaps, and that text is written for it again. And what a
document from JSON resolves to is decoded from what is printed for it, with one part a line. Of the
finite doubles in the record or document it is assumed that each is read back from its own text. -/
theorem decodeText_encode :
    (∀ (kind : RecordKind) (text : Text) (value : kind.Value),
      decodeText kind.decode text = .ok value →
      (∀ x ∈ kind.reals value, x.isFinite = true → x.ReadsBack) →
        decodeText kind.decode (kind.encode value).compact = .ok value ∧
        (decodeText kind.decode (kind.encode value).compact).map
            (fun again => (kind.encode again).compact) =
          .ok (kind.encode value).compact) ∧
    ∀ (text : Text) (document : Document) (limit : Nat) (definitions : List Definition)
      (colours : Bool), decodeText Document.decode text = .ok document →
      document.resolve limit = some (.ok definitions) →
      (∀ x ∈ document.reals, x.isFinite = true → x.ReadsBack) →
        decodeText (listOf (Definition.decode 1))
          (Command.definitionsText colours true definitions) = .ok definitions := by
  constructor
  · intro kind text value found back
    have finite := kind.decode_finite (Json.decode_of_decodeText _ found)
    have again : decodeText kind.decode (kind.encode value).compact = .ok value := by
      rw [(kind.proper_encode value).decodeText_compact]
      exact kind.decode_encode fun x member => back x member (finite x member)
    exact ⟨again, by rw [again]; rfl⟩
  · intro text document limit definitions colours found resolved back
    have finite := Document.decode_finite (Json.decode_of_decodeText _ found)
    have proper := proper_list Definition.proper_encode definitions
    have blank : Gap ['\n'] := by simp [Gap, isGap]
    change decodeText _ ((Json.list (definitions.map Definition.encode)).pretty 0 ++ ['\n']) = _
    rw [(proper.reads_pretty 0).decodeText _ blank]
    refine listOf_list fun definition member => Definition.decode_encode (by decide) ?_
    intro x inside
    have known := Document.reals_resolved resolved definition member x inside
    exact back x known (finite x known)

/-- A store with a box as it may be written: with gaps, an exponent, escapes and a member that is
null, and without the members that have defaults. -/
def storeText : Text :=
  "\x7b \"title\": \"Store\", \"version\": \"1\", \"operations\": [\x7b \"id\": \"get\"," ++
    "\"method\": \"GET\", \"path\": \"/\", \"responses\": [" ++
    "\x7b \"status\": 200, \"type\": \"Box<number>\" \x7d] \x7d]," ++
    "\"definitions\": [\x7b \"name\": \"Box\", \"generic_params\": [\"T\"]," ++
    "\"properties\": [\x7b \"name\": \"value\", \"type\": \"T\", \"minimum\": 5e-1," ++
    "\"max_length\": 3, \"default\": null, \"enum\": [\"a\\u0007\\\"b\"] \x7d] \x7d] \x7d"

/-- The value of a box: one half or more. -/
def storeValue (type : Text) : Property :=
  { name := "value", type,
    facets :=
      { minimum := some (.ofCode false 4602678819172646912), maxLength := some 3,
        choices := ["a\x07\"b"] } }

def store : Document :=
  { title := "Store", version := "1",
    operations :=
      [{ id := "get", method := .get, path := "/",
         responses := [{ status := 200, type := some "Box<number>" }] }],
    definitions := [{ name := "Box", params := ["T"], properties := [storeValue "T"] }] }

def storeOut : List Definition :=
  [{ name := "Box<number>", properties := [storeValue "number"] }]

theorem decodeText_encode_store :
    decodeText Document.decode storeText = .ok store ∧
      (∀ x ∈ store.reals, x.isFinite = true → x.ReadsBack) ∧
      decodeText Document.decode store.encode.compact = .ok store ∧
      store.resolve 20 = some (.ok storeOut) ∧
      decodeText (listOf (Definition.decode 1)) (Command.definitionsText true true storeOut) =
        .ok storeOut := by
  have found : decodeText Document.decode storeText = .ok store :=
    ok_of_toOption (by decide +kernel)
  have back : ∀ x ∈ store.reals, x.isFinite = true → x.ReadsBack := by decide +kernel
  have resolved : store.resolve 20 = some (.ok storeOut) := by decide +kernel
  obtain ⟨records, definitions⟩ := decodeText_encode
  exact ⟨found, back, (records .document storeText store found back).1, resolved,
    definitions storeText store 20 storeOut true found resolved back⟩

end ApiSchema
