import ApiSchema.Proofs.Decode.Slots
import ApiSchema.Proofs.Text.Lookup

set_option autoImplicit false

namespace ApiSchema.Member

/-- A field of a record: the reading of its value, what is taken if it is left out, if it may be,
and what the record holds there. -/
structure Field (V Record : Type) where
  Content : Type
  name : Text
  read : V → Except Fault Content
  fallback : Option Content
  content : Record → Content

namespace Field

variable {V Record : Type}

/-- A field that has to be there. -/
def needed {α : Type} (name : Text) (read : V → Except Fault α) (content : Record → α) :
    Field V Record :=
  ⟨α, name, read, none, content⟩

/-- A field that may be left out. -/
def spare {α : Type} (name : Text) (read : V → Except Fault α) (fallback : α)
    (content : Record → α) : Field V Record :=
  ⟨α, name, read, some fallback, content⟩

/-- The field of a part, whose values are converted before they are read. -/
def within {W Part : Type} (convert : V → Except Fault W) (part : Record → Part)
    (field : Field W Part) : Field V Record :=
  ⟨field.Content, field.name, fun value => convert value >>= field.read, field.fallback,
    fun record => field.content (part record)⟩

def shape (field : Field V Record) : FieldShape V :=
  ⟨field.name, field.fallback.isNone, FieldShape.checkOf field.read⟩

/-- The value is a written form of what is taken if the field is left out. -/
def Defaults (field : Field V Record) (value : V) : Prop :=
  ∃ x, field.fallback = some x ∧ field.read value = .ok x

/-- The field stands once at most, and the record holds what is read there. -/
structure Found (field : Field V Record) (members : List (Text × V)) (record : Record) : Prop where
  once : (members.map (·.1)).count field.name ≤ 1
  holds : Holds field.read field.fallback (members.lookup field.name) (field.content record)

variable {field : Field V Record} {members : List (Text × V)} {record : Record}

theorem Found.perm {others : List (Text × V)} (found : field.Found members record)
    (perm : members.Perm others) : field.Found others record := by
  refine ⟨?_, ?_⟩
  · rw [← (perm.map (·.1)).count_eq field.name]
    exact found.once
  · rw [← lookup_perm_of_once perm found.once]
    exact found.holds

/-- Other members in front do not matter. -/
theorem found_cons_of_ne {name : Text} {value : V} (apart : field.name ≠ name) :
    field.Found ((name, value) :: members) record ↔ field.Found members record := by
  have count : (((name, value) :: members).map (·.1)).count field.name =
      (members.map (·.1)).count field.name := List.count_cons_of_ne (Ne.symm apart)
  have lookup : ((name, value) :: members).lookup field.name = members.lookup field.name :=
    lookup_cons_of_ne apart
  constructor
  · intro found
    exact ⟨count ▸ found.once, lookup ▸ found.holds⟩
  · intro found
    exact ⟨count ▸ found.once, lookup ▸ found.holds⟩

/-- A field in front is found there and nowhere else. -/
theorem found_cons_self {value : V} :
    field.Found ((field.name, value) :: members) record ↔
      field.name ∉ members.map (·.1) ∧ field.read value = .ok (field.content record) := by
  have count : (((field.name, value) :: members).map (·.1)).count field.name =
      (members.map (·.1)).count field.name + 1 := List.count_cons_self
  have lookup : ((field.name, value) :: members).lookup field.name = some value :=
    List.lookup_cons_self
  constructor
  · intro found
    have once := found.once
    rw [count] at once
    exact ⟨List.count_eq_zero.mp (by omega), found.holds.present value lookup⟩
  · intro here
    refine ⟨?_, ?_⟩
    · have none_behind := List.count_eq_zero.mpr here.1
      omega
    · rw [lookup]
      exact Holds.of_read here.2

/-- Without the field the record holds what is taken for it. -/
theorem found_absent (absent : field.name ∉ members.map (·.1)) :
    field.Found members record ↔ field.fallback = some (field.content record) := by
  have lookup := lookup_eq_none absent
  constructor
  · intro found
    exact found.holds.absent lookup
  · intro same
    refine ⟨?_, ?_⟩
    · rw [List.count_eq_zero.mpr absent]
      omega
    · rw [lookup]
      exact ⟨fun _ here => (nomatch here), fun _ => same⟩

end Field

section Decodes

variable {V Record : Type} {fields : List (Field V Record)} {other : V → Except Fault Unit}
  {members : List (Text × V)} {record : Record}

/-- The members are those of the record: each field is found, and each other member passes. -/
structure Decodes (fields : List (Field V Record)) (other : V → Except Fault Unit)
    (members : List (Text × V)) (record : Record) : Prop where
  found : ∀ field ∈ fields, field.Found members record
  others : ∀ member ∈ members, member.1 ∉ fields.map (·.name) → other member.2 = .ok ()

/-- The same with one field left open. -/
structure DecodesBut (name : Text) (fields : List (Field V Record))
    (other : V → Except Fault Unit) (members : List (Text × V)) (record : Record) : Prop where
  found : ∀ field ∈ fields, field.name ≠ name → field.Found members record
  others : ∀ member ∈ members, member.1 ∉ fields.map (·.name) → other member.2 = .ok ()

theorem shape_names (fields : List (Field V Record)) :
    (fields.map Field.shape).map (·.name) = fields.map (·.name) := by
  rw [List.map_map]
  rfl

/-- The members pass the scan of the shape, and each field of the record is found under its name. -/
structure Scanned (shape : Shape V) (fields : List (Field V Record)) (members : List (Text × V))
    (record : Record) : Prop where
  scanned : shape.scan [] members = .ok ()
  holds : ∀ field ∈ fields,
    Holds field.read field.fallback (members.lookup field.name) (field.content record)

/-- To scan the members and then to find each field under its name is the same as to ask of each
field and of each other member by itself. -/
theorem scanned_iff {shape : Shape V} (same : shape.fields = fields.map Field.shape)
    (distinct : (fields.map (·.name)).Nodup) :
    Scanned shape fields members record ↔ Decodes fields shape.other members record := by
  have names : shape.fields.map (·.name) = fields.map (·.name) := by
    rw [same, shape_names]
  constructor
  · rintro ⟨scanned, holds⟩
    obtain ⟨once, takes⟩ := scan_eq_ok_iff.mp scanned
    refine ⟨?_, ?_⟩
    · intro field member
      refine ⟨?_, holds field member⟩
      have once_here := once field.shape (same ▸ List.mem_map_of_mem member)
      exact Nat.le_of_add_right_le once_here
    · intro member inside foreign
      have takes_here := takes member inside
      have none_found : (shape.fields.find? fun field => field.name = member.1) = none := by
        apply List.find?_eq_none.mpr
        intro field known named
        apply foreign
        rw [← names]
        exact List.mem_map.mpr ⟨field, known, by simpa using named⟩
      rw [Takes, none_found] at takes_here
      exact takes_here
  · intro decodes
    refine ⟨scan_eq_ok_iff.mpr ⟨?_, ?_⟩, fun field member => (decodes.found field member).holds⟩
    · intro field known
      rw [same] at known
      obtain ⟨field, member, rfl⟩ := List.mem_map.mp known
      exact (decodes.found field member).once
    · intro member inside
      obtain ⟨name, value⟩ := member
      by_cases known : name ∈ fields.map (·.name)
      · -- the name stands once, so that this member is the one that was looked up
        obtain ⟨field, member, rfl⟩ := List.mem_map.mp known
        have found := decodes.found field member
        have reads := found.holds.present value (lookup_of_mem found.once inside)
        have here : field.shape ∈ shape.fields := same ▸ List.mem_map_of_mem member
        have looked_up : (shape.fields.find? fun other => other.name = field.name) =
            some field.shape := find?_field (names ▸ distinct) here rfl
        simp only [Takes, looked_up]
        change (field.read value).map (fun _ => ()) = _
        rw [reads]
        rfl
      · exact takes_other (names ▸ known) (decodes.others (name, value) inside known)

theorem Decodes.perm {edited : List (Text × V)} (decodes : Decodes fields other members record)
    (perm : members.Perm edited) : Decodes fields other edited record where
  found field member := (decodes.found field member).perm perm
  others member inside := decodes.others member (perm.mem_iff.mpr inside)

section Front

variable {name : Text} {value : V}

/-- A member in front that is no field. -/
theorem decodes_cons_other (foreign : name ∉ fields.map (·.name)) :
    Decodes fields other ((name, value) :: members) record ↔
      other value = .ok () ∧ Decodes fields other members record := by
  have apart : ∀ field ∈ fields, field.name ≠ name := by
    intro field member same
    exact foreign (same ▸ List.mem_map_of_mem member)
  constructor
  · intro decodes
    refine ⟨decodes.others _ List.mem_cons_self foreign, ?_, ?_⟩
    · intro field member
      exact (Field.found_cons_of_ne (apart field member)).mp (decodes.found field member)
    · intro member inside
      exact decodes.others member (List.mem_cons_of_mem _ inside)
  · rintro ⟨passes, decodes⟩
    refine ⟨?_, ?_⟩
    · intro field member
      exact (Field.found_cons_of_ne (apart field member)).mpr (decodes.found field member)
    · intro member inside apart
      rcases List.mem_cons.mp inside with rfl | behind
      · exact passes
      · exact decodes.others member behind apart

/-- A field in front does not stand behind, and all else is as it is behind. -/
theorem decodes_cons_field (distinct : (fields.map (·.name)).Nodup) {field : Field V Record}
    (known : field ∈ fields) :
    Decodes fields other ((field.name, value) :: members) record ↔
      (field.name ∉ members.map (·.1) ∧ field.read value = .ok (field.content record)) ∧
        DecodesBut field.name fields other members record := by
  constructor
  · intro decodes
    refine ⟨Field.found_cons_self.mp (decodes.found field known), ?_, ?_⟩
    · intro next member apart
      exact (Field.found_cons_of_ne apart).mp (decodes.found next member)
    · intro member inside
      exact decodes.others member (List.mem_cons_of_mem _ inside)
  · rintro ⟨here, rest⟩
    refine ⟨?_, ?_⟩
    · intro next member
      by_cases same : next.name = field.name
      · rw [List.inj_on_of_nodup_map distinct member known same]
        exact Field.found_cons_self.mpr here
      · exact (Field.found_cons_of_ne same).mpr (rest.found next member same)
    · intro member inside foreign
      rcases List.mem_cons.mp inside with rfl | behind
      · exact absurd (List.mem_map_of_mem known) foreign
      · exact rest.others member behind foreign

/-- In the place of a field that is left out the record holds what is then taken. -/
theorem decodes_absent (distinct : (fields.map (·.name)).Nodup) {field : Field V Record}
    (known : field ∈ fields) (absent : field.name ∉ members.map (·.1)) :
    Decodes fields other members record ↔
      field.fallback = some (field.content record) ∧
        DecodesBut field.name fields other members record := by
  constructor
  · intro decodes
    exact ⟨(Field.found_absent absent).mp (decodes.found field known),
      fun next member _ => decodes.found next member, decodes.others⟩
  · rintro ⟨here, rest⟩
    refine ⟨?_, rest.others⟩
    intro next member
    by_cases same : next.name = field.name
    · rw [List.inj_on_of_nodup_map distinct member known same]
      exact (Field.found_absent absent).mpr here
    · exact rest.found next member same

/-- It is all the same whether a field is left out or what is then taken for it is written. -/
theorem decodes_cons_default (distinct : (fields.map (·.name)).Nodup) {field : Field V Record}
    (known : field ∈ fields) (absent : field.name ∉ members.map (·.1))
    (default : field.Defaults value) :
    Decodes fields other ((field.name, value) :: members) record ↔
      Decodes fields other members record := by
  obtain ⟨x, fallback, reads⟩ := default
  have same : field.read value = .ok (field.content record) ↔
      field.fallback = some (field.content record) := by
    rw [reads, fallback, Except.ok.injEq, Option.some.injEq]
  rw [decodes_cons_field distinct known, decodes_absent distinct known absent, same]
  simp only [absent, not_false_eq_true, true_and]

/-- A value may stand for another that is read as the same. -/
theorem Decodes.replace (distinct : (fields.map (·.name)).Nodup) {field : Field V Record}
    (known : field ∈ fields) {edited : V}
    (alike : ∀ x, field.read value = .ok x → field.read edited = .ok x)
    (decodes : Decodes fields other ((field.name, value) :: members) record) :
    Decodes fields other ((field.name, edited) :: members) record := by
  obtain ⟨⟨absent, reads⟩, rest⟩ := (decodes_cons_field distinct known).mp decodes
  exact (decodes_cons_field distinct known).mpr ⟨⟨absent, alike _ reads⟩, rest⟩

end Front

end Decodes

end ApiSchema.Member
