import ApiSchema.Document.Decode
import ApiSchema.Document.Encode
import ApiSchema.Json.Source
import ApiSchema.Proofs.Decode.Slots
import ApiSchema.Proofs.Generic.Preparation
import ApiSchema.Proofs.Json.Printing

set_option autoImplicit false

namespace ApiSchema

open Source Member Json

section Values

variable {α : Type}

theorem outline_ofNat {n : Nat} (small : n < UInt64.size) :
    (Json.ofNat n).outline = .ok (.integer n) := by
  have value : (Numeral.ofInt n).wholeValue = n := Numeral.appendDigits_ofNat n
  have whole : (Numeral.ofInt n).isWhole = true := rfl
  have sign : (Numeral.ofInt n).negative = false := by simp [Numeral.ofInt]
  rw [Json.ofNat, outline, numberDatum?]
  simp only [value, whole, sign, small]
  rfl

theorem status_ofNat (status : UInt16) :
    Source.status (Json.ofNat status.toNat) = .ok status := by
  have small : status.toNat < UInt64.size := Nat.lt_trans status.toNat_lt (by decide)
  have fits : (0 : Int) ≤ status.toNat ∧ (status.toNat : Int) < UInt16.size := by
    have := status.toNat_lt
    constructor <;> simp [UInt16.size]; omega
  change scalar Datum.asStatus _ = _
  rw [scalar, outline_ofNat small]
  simp only [Datum.asStatus, Datum.asNat, if_pos fits, Int.toNat_natCast]
  exact congrArg Except.ok (UInt16.ofNat_toNat)

theorem length_ofNat (length : UInt64) :
    Source.length (Json.ofNat length.toNat) = .ok length := by
  have small : length.toNat < UInt64.size := length.toNat_lt
  have fits : (0 : Int) ≤ length.toNat ∧ (length.toNat : Int) < UInt64.size := by
    constructor
    · exact Int.natCast_nonneg _
    · exact Int.ofNat_lt.mpr small
  change scalar Datum.asLength _ = _
  rw [scalar, outline_ofNat small]
  simp only [Datum.asLength, Datum.asNat, if_pos fits, Int.toNat_natCast]
  exact congrArg Except.ok (UInt64.ofNat_toNat)

theorem listOf_list {read : Json → Except Fault α} {encode : α → Json} {values : List α}
    (each : ∀ value ∈ values, read (encode value) = .ok value) :
    listOf read (Json.list (values.map encode)) = .ok values := by
  have all : (values.map encode).mapM read = .ok values := by
    rw [Generic.mapM_eq_ok_iff, List.map_map]
    exact List.map_congr_left each
  have items : Source.items (Json.list (values.map encode)) = .ok (values.map encode, true) := rfl
  rw [listOf, items]
  simp only [all, ↓reduceIte]

theorem holds_text (fallback : Option Text) (text : Text) :
    Holds (Source.text : Json → Except Fault Text) fallback (some (ofText text)) text :=
  .of_read rfl

theorem holds_flag (fallback : Option Bool) (value : Bool) :
    Holds (Source.flag : Json → Except Fault Bool) fallback (some (.flag value)) value :=
  .of_read rfl

theorem holds_list {read : Json → Except Fault α} {encode : α → Json} {values : List α}
    (each : ∀ value ∈ values, read (encode value) = .ok value) :
    Holds (listOf read) (some []) (some (Json.list (values.map encode))) values :=
  .of_read (listOf_list each)

theorem listOf_texts (texts : List Text) : listOf Source.text (ofTexts texts) = .ok texts :=
  listOf_list fun _ _ => rfl

theorem holds_optional {read : Json → Except Fault α} {encode : α → Json} {value : Option α}
    (reads : ∀ x, value = some x → isNull (encode x) = false ∧ read (encode x) = .ok x) :
    Holds (Source.optional read) (some none) (value.map encode) value := by
  cases value with
  | none => exact ⟨fun _ absent => (nomatch absent), fun _ => rfl⟩
  | some x =>
      obtain ⟨not_null, reads⟩ := reads x rfl
      refine Holds.of_read ?_
      rw [Source.optional, not_null, reads]
      rfl

/-- A list that is left out if it is empty. -/
def unlessEmpty (texts : List Text) : Option Json :=
  if texts = [] then none else some (ofTexts texts)

theorem holds_unlessEmpty (texts : List Text) :
    Holds (listOf Source.text) (some []) (unlessEmpty texts) texts := by
  rw [unlessEmpty]
  split
  · next empty => exact ⟨fun _ absent => (nomatch absent), fun _ => congrArg some empty.symm⟩
  · exact Holds.of_read (listOf_texts texts)

end Values

theorem namedMembers_record (members : List (Text × Json)) :
    namedMembers (members.map fun (name, value) => (some name, value)) = members := by
  induction members with
  | nil => rfl
  | cons member rest ih => rw [List.map_cons, namedMembers, ih]

/-- The members of a record are found as they were written, if they pass the scan. -/
theorem members_record_iff {shape : Shape Json} {members found : List (Text × Json)} :
    RecordSource.members shape (record members) = .ok found ↔
      shape.scan [] members = .ok () ∧ members = found := by
  change Json.members shape (.object _ true) = _ ↔ _
  rw [Json.members]
  simp only [namedMembers_record, List.length_map, decide_true, Bool.and_self, ↓reduceIte]
  cases shape.scan [] members with
  | error fault => simp
  | ok done => simp

theorem members_record {shape : Shape Json} {members : List (Text × Json)}
    (scanned : shape.scan [] members = .ok ()) :
    RecordSource.members shape (record members) = .ok members :=
  members_record_iff.mpr ⟨scanned, rfl⟩

/-- A record of slots that fit the fields of a shape. -/
theorem Member.Fits.record {shape : Shape Json} {slots : List (Text × Option Json)}
    (fits : Fits shape.fields slots) (distinct : (shape.fields.map (·.name)).Nodup) :
    RecordSource.members shape (record (ofSlots slots)) = .ok (ofSlots slots) ∧
      (slots.map (·.1)).Nodup :=
  ⟨members_record (fits.scan distinct), fits.names ▸ distinct⟩

/-- The slot holds a value that is printed as it is, or none. -/
def ProperSlot (slot : Option Json) : Prop := ∀ value, slot = some value → value.Proper

theorem ProperSlot.of_value {value : Json} (proper : value.Proper) : ProperSlot (some value) :=
  fun _ same => Option.some.inj same ▸ proper

theorem ProperSlot.of_map {α : Type} {encode : α → Json} (proper : ∀ x, (encode x).Proper)
    (value : Option α) : ProperSlot (value.map encode) := by
  intro encoded here
  obtain ⟨x, -, rfl⟩ := Option.map_eq_some_iff.mp here
  exact proper x

theorem proper_list {α : Type} {encode : α → Json} (proper : ∀ x, (encode x).Proper)
    (values : List α) : (Json.list (values.map encode)).Proper :=
  .list fun _ member => by
    obtain ⟨x, -, rfl⟩ := List.mem_map.mp member
    exact proper x

theorem proper_ofTexts (texts : List Text) : (ofTexts texts).Proper := proper_list .string texts

theorem proper_ofNat (n : Nat) : (Json.ofNat n).Proper := .number (Numeral.proper_ofInt n)

theorem ProperSlot.unlessEmpty (texts : List Text) : ProperSlot (unlessEmpty texts) := by
  rw [ApiSchema.unlessEmpty]
  split
  · exact fun _ absent => nomatch absent
  · exact .of_value (proper_ofTexts texts)

theorem proper_ofSlots {slots : List (Text × Option Json)}
    (each : ∀ slot ∈ slots, ProperSlot slot.2) : (record (ofSlots slots)).Proper :=
  .record fun member inside => each (member.1, some member.2) (mem_ofSlots.mp inside) member.2 rfl

def Tag.slots (tag : Tag) : List (Text × Option Json) :=
  [("name", some (ofText tag.name)), ("description", some (ofText tag.description))]

theorem Tag.decode_encode (tag : Tag) : Tag.decode tag.encode = .ok tag := by
  have name := holds_text none tag.name
  have description := holds_text (some []) tag.description
  have fits : Fits (Tag.shape : Shape Json).fields tag.slots :=
    ⟨rfl, name.check, rfl, description.check, trivial⟩
  obtain ⟨members, distinct⟩ := fits.record (by decide)
  change Tag.decode (record (ofSlots tag.slots)) = _
  simp only [Tag.decode, members, ok_bind, name.get distinct 0 rfl,
    description.getD distinct 1 rfl]
  rfl

theorem Tag.proper_encode (tag : Tag) : tag.encode.Proper := by
  have each : ∀ slot ∈ tag.slots, ProperSlot slot.2 := by
    simp only [Tag.slots, List.forall_mem_cons]
    exact ⟨.of_value (.string _), .of_value (.string _), by simp⟩
  exact proper_ofSlots each

theorem HttpMethod.decode_encode (method : HttpMethod) :
    HttpMethod.decode method.encode = .ok method := by
  have known : RecordSource.variant (HttpMethod.all.map HttpMethod.name) method.encode =
      .ok method.name := by
    cases method <;> rfl
  rw [HttpMethod.decode, known]
  simp only [HttpMethod.ofName?_name]

theorem ParamPlace.decode_encode (place : ParamPlace) :
    ParamPlace.decode place.encode = .ok place := by
  have known : RecordSource.variant (ParamPlace.all.map ParamPlace.name) place.encode =
      .ok place.name := by
    cases place <;> rfl
  rw [ParamPlace.decode, known]
  simp only [ParamPlace.ofName?_name]

def Param.slots (param : Param) : List (Text × Option Json) :=
  [("name", some (ofText param.name)), ("in", some param.place.encode),
    ("type", some (ofText param.type)), ("required", some (.flag param.required)),
    ("description", some (ofText param.description))]

theorem Param.decode_encode (param : Param) : Param.decode param.encode = .ok param := by
  have name := holds_text none param.name
  have place : Holds ParamPlace.decode none (some param.place.encode) param.place :=
    .of_read param.place.decode_encode
  have type := holds_text none param.type
  have required := holds_flag (some false) param.required
  have description := holds_text (some []) param.description
  have fits : Fits (Param.shape : Shape Json).fields param.slots :=
    ⟨rfl, name.check, rfl, place.check, rfl, type.check, rfl, required.check, rfl,
      description.check, trivial⟩
  obtain ⟨members, distinct⟩ := fits.record (by decide)
  change Param.decode (record (ofSlots param.slots)) = _
  simp only [Param.decode, members, ok_bind, name.get distinct 0 rfl, place.get distinct 1 rfl,
    type.get distinct 2 rfl, required.getD distinct 3 rfl, description.getD distinct 4 rfl]
  rfl

theorem Param.proper_encode (param : Param) : param.encode.Proper := by
  have each : ∀ slot ∈ param.slots, ProperSlot slot.2 := by
    simp only [Param.slots, List.forall_mem_cons]
    exact ⟨.of_value (.string _), .of_value (.string _), .of_value (.string _),
      .of_value (.flag _), .of_value (.string _), by simp⟩
  exact proper_ofSlots each

def Response.slots (response : Response) : List (Text × Option Json) :=
  [("status", some (Json.ofNat response.status.toNat)),
    ("description", some (ofText response.description)), ("type", response.type.map ofText)]

theorem Response.encode_eq (response : Response) :
    response.encode = record (ofSlots response.slots) := by
  rw [Response.encode, Response.slots]
  cases response.type <;> rfl

theorem Response.decode_encode (response : Response) :
    Response.decode response.encode = .ok response := by
  have status :
      Holds Source.status none (some (Json.ofNat response.status.toNat)) response.status :=
    .of_read (status_ofNat response.status)
  have description := holds_text (some []) response.description
  have type : Holds (Source.optional Source.text) (some none) (response.type.map ofText)
      response.type := holds_optional fun _ _ => ⟨rfl, rfl⟩
  have fits : Fits (Response.shape : Shape Json).fields response.slots :=
    ⟨rfl, status.check, rfl, description.check, rfl, type.check, trivial⟩
  obtain ⟨members, distinct⟩ := fits.record (by decide)
  rw [Response.encode_eq]
  simp only [Response.decode, members, ok_bind, status.get distinct 0 rfl,
    description.getD distinct 1 rfl, type.getD distinct 2 rfl]
  rfl

theorem Response.proper_encode (response : Response) : response.encode.Proper := by
  have each : ∀ slot ∈ response.slots, ProperSlot slot.2 := by
    simp only [Response.slots, List.forall_mem_cons]
    exact ⟨.of_value (proper_ofNat _), .of_value (.string _), .of_map .string _, by simp⟩
  rw [Response.encode_eq]
  exact proper_ofSlots each

def Operation.slots (operation : Operation) : List (Text × Option Json) :=
  [("id", some (ofText operation.id)), ("method", some operation.method.encode),
    ("path", some (ofText operation.path)), ("summary", some (ofText operation.summary)),
    ("tags", some (ofTexts operation.tags)),
    ("params", some (Json.list (operation.params.map Param.encode))),
    ("responses", some (Json.list (operation.responses.map Response.encode)))]

theorem Operation.decode_encode (operation : Operation) :
    Operation.decode operation.encode = .ok operation := by
  have id := holds_text none operation.id
  have method : Holds HttpMethod.decode none (some operation.method.encode) operation.method :=
    .of_read operation.method.decode_encode
  have path := holds_text none operation.path
  have summary := holds_text (some []) operation.summary
  have tags : Holds (listOf Source.text) (some []) (some (ofTexts operation.tags))
      operation.tags := .of_read (listOf_texts operation.tags)
  have params := holds_list fun param (_ : param ∈ operation.params) => param.decode_encode
  have responses := holds_list fun response (_ : response ∈ operation.responses) =>
    response.decode_encode
  have fits : Fits (Operation.shape : Shape Json).fields operation.slots :=
    ⟨rfl, id.check, rfl, method.check, rfl, path.check, rfl, summary.check, rfl, tags.check, rfl,
      params.check, rfl, responses.check, trivial⟩
  obtain ⟨members, distinct⟩ := fits.record (by decide)
  change Operation.decode (record (ofSlots operation.slots)) = _
  simp only [Operation.decode, members, ok_bind, id.get distinct 0 rfl, method.get distinct 1 rfl,
    path.get distinct 2 rfl, summary.getD distinct 3 rfl, tags.getD distinct 4 rfl,
    params.getD distinct 5 rfl, responses.getD distinct 6 rfl]
  rfl

theorem Operation.proper_encode (operation : Operation) : operation.encode.Proper := by
  have each : ∀ slot ∈ operation.slots, ProperSlot slot.2 := by
    simp only [Operation.slots, List.forall_mem_cons]
    exact ⟨.of_value (.string _), .of_value (.string _), .of_value (.string _),
      .of_value (.string _), .of_value (proper_ofTexts _),
      .of_value (proper_list Param.proper_encode _),
      .of_value (proper_list Response.proper_encode _), by simp⟩
  exact proper_ofSlots each

end ApiSchema
