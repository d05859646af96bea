import ApiSchema.Proofs.Decimal.Digits
import ApiSchema.Proofs.Document.Doubles
import ApiSchema.Proofs.Document.Encoding

set_option autoImplicit false

namespace ApiSchema

open Source Member Json

structure FacetSlots (V : Type) where
  minimum : Option V
  maximum : Option V
  minLength : Option V
  maxLength : Option V
  pattern : Option V
  choices : Option V
  defaultValue : Option V
  sample : Option V

namespace FacetSlots

def list {V : Type} (slots : FacetSlots V) : List (Text × Option V) :=
  [("minimum", slots.minimum), ("maximum", slots.maximum), ("min_length", slots.minLength),
    ("max_length", slots.maxLength), ("pattern", slots.pattern), ("enum", slots.choices),
    ("default", slots.defaultValue), ("example", slots.sample)]

def map {V W : Type} (f : V → W) (slots : FacetSlots V) : FacetSlots W :=
  ⟨slots.minimum.map f, slots.maximum.map f, slots.minLength.map f, slots.maxLength.map f,
    slots.pattern.map f, slots.choices.map f, slots.defaultValue.map f, slots.sample.map f⟩

/-- Each slot holds its facet. -/
structure Hold {V : Type} [Source V] (slots : FacetSlots V) (facets : Facets) : Prop where
  minimum : Holds (Source.optional real) (some none) slots.minimum facets.minimum
  maximum : Holds (Source.optional real) (some none) slots.maximum facets.maximum
  minLength : Holds (Source.optional Source.length) (some none) slots.minLength facets.minLength
  maxLength : Holds (Source.optional Source.length) (some none) slots.maxLength facets.maxLength
  pattern : Holds (Source.optional text) (some none) slots.pattern facets.pattern
  choices : Holds (listOf text) (some []) slots.choices facets.choices
  defaultValue : Holds (Source.optional text) (some none) slots.defaultValue facets.defaultValue
  sample : Holds (Source.optional text) (some none) slots.sample facets.sample

variable {V : Type} [Source V] {slots : FacetSlots V} {facets : Facets}

theorem Hold.fits (hold : slots.Hold facets) :
    Fits (Facets.fields : List (FieldShape V)) slots.list :=
  ⟨rfl, hold.minimum.check, rfl, hold.maximum.check, rfl, hold.minLength.check, rfl,
    hold.maxLength.check, rfl, hold.pattern.check, rfl, hold.choices.check, rfl,
    hold.defaultValue.check, rfl, hold.sample.check, trivial⟩

def names : List Text :=
  ["minimum", "maximum", "min_length", "max_length", "pattern", "enum", "default", "example"]

theorem names_nodup : names.Nodup := by decide

theorem Hold.ofMembers (hold : slots.Hold facets) :
    Facets.ofMembers (ofSlots slots.list) = .ok facets := by
  have distinct : (slots.list.map (·.1)).Nodup := names_nodup
  simp only [Facets.ofMembers, ok_bind, hold.minimum.getD distinct 0 rfl,
    hold.maximum.getD distinct 1 rfl, hold.minLength.getD distinct 2 rfl,
    hold.maxLength.getD distinct 3 rfl, hold.pattern.getD distinct 4 rfl,
    hold.choices.getD distinct 5 rfl, hold.defaultValue.getD distinct 6 rfl,
    hold.sample.getD distinct 7 rfl]
  rfl

end FacetSlots

def Facets.slots (facets : Facets) : FacetSlots Json where
  minimum := facets.minimum.map ofReal
  maximum := facets.maximum.map ofReal
  minLength := facets.minLength.map fun n => Json.ofNat n.toNat
  maxLength := facets.maxLength.map fun n => Json.ofNat n.toNat
  pattern := facets.pattern.map ofText
  choices := unlessEmpty facets.choices
  defaultValue := facets.defaultValue.map ofText
  sample := facets.sample.map ofText

theorem optionalMember_eq {α : Type} (name : Text) (encode : α → Json) (value : Option α) :
    optionalMember name encode value = ofSlots [(name, value.map encode)] := by
  cases value <;> rfl

theorem Facets.members_eq (facets : Facets) : facets.members = ofSlots facets.slots.list := by
  have choices : (if facets.choices = [] then [] else [member "enum" (ofTexts facets.choices)]) =
      ofSlots [("enum", unlessEmpty facets.choices)] := by
    rw [unlessEmpty]
    split <;> rfl
  simp only [Facets.members, optionalMember_eq, choices, ← ofSlots_append]
  rfl

theorem proper_ofReal (value : Binary64) : (ofReal value).Proper := by
  rw [ofReal]
  split
  · next spelled => exact .number (Decimal.Layout.ofBinary64?_proper spelled)
  · exact .null

/-- The text printed for the double is read as that double. -/
def Binary64.ReadsBack (value : Binary64) : Prop :=
  Json.decodeText Source.real (realText value) = .ok value

theorem ok_of_toOption {ε α : Type} {found : Except ε α} {value : α}
    (here : found.toOption = some value) : found = .ok value := by
  cases found with
  | error fault => cases here
  | ok other => exact congrArg Except.ok (Option.some.inj here)

instance (value : Binary64) : Decidable value.ReadsBack :=
  decidable_of_iff ((Json.decodeText Source.real (realText value)).toOption = some value)
    ⟨ok_of_toOption, fun back => by rw [back]; rfl⟩

-- The reader rounds twice, so there are doubles that it misses by one: 31.245270191439438 is one.
example : ¬ (Binary64.ofCode false 4629487979381582466).ReadsBack := by decide +kernel

theorem Binary64.ReadsBack.reread {value : Binary64} (back : value.ReadsBack) :
    isNull (ofReal value) = false ∧ Source.real (ofReal value) = .ok value := by
  rw [ReadsBack, realText] at back
  rw [ofReal]
  cases spelled : realLayout.ofBinary64? value with
  | none =>
      rw [spelled] at back
      have nothing : Json.decodeText (Source.real : Json → Except Fault Binary64) "null" =
          .error (.wrongType .null "f64") := Proper.decodeText_compact Source.real .null
      simp only [nothing] at back
      cases back
  | some numeral =>
      rw [spelled] at back
      have proper := Decimal.Layout.ofBinary64?_proper spelled
      refine ⟨rfl, ?_⟩
      rw [← back]
      exact (Proper.decodeText_compact Source.real (.number proper)).symm

theorem Facets.hold {facets : Facets} (back : ∀ x ∈ facets.reals, x.ReadsBack) :
    facets.slots.Hold facets where
  minimum := holds_optional fun x here => (back x (by simp [reals, here])).reread
  maximum := holds_optional fun x here => (back x (by simp [reals, here])).reread
  minLength := holds_optional fun n _ => ⟨rfl, length_ofNat n⟩
  maxLength := holds_optional fun n _ => ⟨rfl, length_ofNat n⟩
  pattern := holds_optional fun _ _ => ⟨rfl, rfl⟩
  choices := holds_unlessEmpty facets.choices
  defaultValue := holds_optional fun _ _ => ⟨rfl, rfl⟩
  sample := holds_optional fun _ _ => ⟨rfl, rfl⟩

theorem Facets.decode_encode {facets : Facets} (back : ∀ x ∈ facets.reals, x.ReadsBack) :
    Facets.decode facets.encode = .ok facets := by
  have hold := Facets.hold back
  have fits : Fits (recordShape "PropertyFacets" Facets.fields : Shape Json).fields
      facets.slots.list := hold.fits
  obtain ⟨members, -⟩ := fits.record FacetSlots.names_nodup
  rw [Facets.encode, Facets.members_eq]
  simp only [Facets.decode, members, ok_bind, hold.ofMembers]

theorem Facets.proper_slots (facets : Facets) :
    ∀ slot ∈ facets.slots.list, ProperSlot slot.2 := by
  simp only [Facets.slots, FacetSlots.list, List.forall_mem_cons]
  exact ⟨.of_map proper_ofReal _, .of_map proper_ofReal _, .of_map (fun _ => proper_ofNat _) _,
    .of_map (fun _ => proper_ofNat _) _, .of_map .string _, .unlessEmpty _, .of_map .string _,
    .of_map .string _, by simp⟩

theorem Facets.proper_encode (facets : Facets) : facets.encode.Proper := by
  rw [Facets.encode, Facets.members_eq]
  exact proper_ofSlots facets.proper_slots

/-- The datum of a value with `depth` containers around it. -/
def datumOf (depth : Nat) (value : Json) : Datum :=
  match value.datum depth with
  | .ok datum => datum
  | .error _ => .null

/-- What a value is read as, its datum is read as too. -/
def Transfers {α : Type} (depth : Nat) (read : Json → Except Fault α)
    (readData : Datum → Except Fault α) : Prop :=
  ∀ value x, read value = .ok x →
    value.datum depth = .ok (datumOf depth value) ∧ readData (datumOf depth value) = .ok x

theorem datumOf_eq {depth : Nat} {value : Json} {datum : Datum}
    (here : value.datum depth = .ok datum) : datumOf depth value = datum := by
  rw [datumOf, here]

section Transfers

variable {α : Type} {depth : Nat}

/-- A reading that takes no containers. -/
theorem transfers_scalar {read : Datum → Except Fault α}
    (no_items : ∀ x, read (.sequence []) ≠ .ok x) (no_members : ∀ x, read .mapping ≠ .ok x) :
    Transfers depth (scalar read) read := by
  have leaf : ∀ value : Json, value.datum depth = value.outline → ∀ x,
      scalar read value = .ok x →
        value.datum depth = .ok (datumOf depth value) ∧ read (datumOf depth value) = .ok x := by
    intro value same x reads
    rw [scalar] at reads
    cases outlined : value.outline with
    | error fault => rw [outlined] at reads; cases reads
    | ok datum =>
        rw [outlined] at reads same
        rw [datumOf_eq same]
        exact ⟨same, reads⟩
  intro value x reads
  cases value with
  | array items closed => exact absurd reads (no_items x)
  | object members closed => exact absurd reads (no_members x)
  | _ => exact leaf _ rfl x reads

theorem isNull_number {numeral : Numeral} {datum : Datum}
    (found : numberDatum? numeral = some datum) : isNull datum = false := by
  simp only [numberDatum?] at found
  split at found
  · rw [← Option.some.inj found]
    rfl
  split at found
  · rw [← Option.some.inj found]
    rfl
  · obtain ⟨value, -, rfl⟩ := Option.map_eq_some_iff.mp found
    rfl

/-- Only null has the datum null. -/
theorem isNull_datum {value : Json} {datum : Datum} (here : value.datum depth = .ok datum) :
    isNull datum = isNull value := by
  rcases datum_cases here with outlined | ⟨⟨_, _, rfl⟩, data, rfl⟩ | ⟨⟨_, _, rfl⟩, rfl⟩
  · cases value with
    | number numeral =>
        rw [outline] at outlined
        split at outlined
        · next found => cases outlined; exact isNull_number found
        · cases outlined
    | unpaired => cases outlined
    | broken => cases outlined
    | _ => cases outlined; rfl
  · rfl
  · rfl

theorem transfers_optional {read : Json → Except Fault α} {readData : Datum → Except Fault α}
    (transfers : Transfers depth read readData) :
    Transfers depth (Source.optional read) (Source.optional readData) := by
  intro value x reads
  rw [Source.optional] at reads
  split at reads
  · next null =>
      have is_null : value = .null := by
        cases value <;> first | rfl | cases null
      subst is_null
      exact ⟨rfl, reads⟩
  · next not_null =>
      cases inner : read value with
      | error fault => rw [inner] at reads; cases reads
      | ok y =>
          obtain ⟨here, reads_data⟩ := transfers value y inner
          rw [inner] at reads
          refine ⟨here, ?_⟩
          rw [Source.optional, isNull_datum here, if_neg not_null, reads_data]
          exact reads

theorem data_of_mapM {read : Json → Except Fault α} {readData : Datum → Except Fault α}
    (transfers : Transfers depth read readData) {items : List Json} {values : List α}
    (all : items.mapM read = .ok values) :
    Json.data depth items = .ok (items.map (datumOf depth)) ∧
      (items.map (datumOf depth)).mapM readData = .ok values := by
  rw [Generic.mapM_eq_ok_iff] at all ⊢
  induction items generalizing values with
  | nil => exact ⟨rfl, all⟩
  | cons item items ih =>
      cases values with
      | nil => cases all
      | cons value values =>
          rw [List.map_cons, List.map_cons, List.cons.injEq] at all
          obtain ⟨here, reads⟩ := transfers item value all.1
          obtain ⟨rest, read_rest⟩ := ih all.2
          refine ⟨?_, ?_⟩
          · rw [Json.data, here, rest]
            rfl
          · rw [List.map_cons, List.map_cons, List.map_cons, reads, read_rest]

theorem misplaced_eq (expected : Text) (value : Json) :
    ∃ fault, (misplaced expected value : Except Fault (List Json × Bool)) = .error fault := by
  rw [misplaced, scalar]
  split <;> exact ⟨_, rfl⟩

theorem transfers_listOf {read : Json → Except Fault α} {readData : Datum → Except Fault α}
    (transfers : Transfers (depth + 1) read readData) (room : depth < deepest) :
    Transfers depth (listOf read) (listOf readData) := by
  intro value values reads
  cases value with
  | array items closed =>
      have parts : Source.items (Json.array items closed) = .ok (items, closed) := rfl
      rw [listOf, parts] at reads
      simp only at reads
      split at reads
      · cases reads
      · next found all =>
          split at reads
          · next is_closed =>
              obtain ⟨data, read_data⟩ := data_of_mapM transfers all
              have here : (Json.array items closed).datum depth =
                  .ok (.sequence (items.map (datumOf (depth + 1)))) := by
                rw [Json.datum, if_pos room, data]
                simp only [is_closed, ↓reduceIte]
              rw [datumOf_eq here]
              refine ⟨here, ?_⟩
              have parts : Source.items (Datum.sequence (items.map (datumOf (depth + 1)))) =
                  .ok (items.map (datumOf (depth + 1)), true) := rfl
              rw [listOf, parts]
              simp only [read_data, ↓reduceIte]
              exact reads
          · cases reads
  | number numeral =>
      obtain ⟨fault, wrong⟩ := misplaced_eq "a sequence" (.number numeral)
      have parts : Source.items (Json.number numeral) = .error fault := wrong
      rw [listOf, parts] at reads
      cases reads
  | _ => cases reads

section Slot

variable {read : Json → Except Fault α} {readData : Datum → Except Fault α}
  {fallback : Option α} {slot : Option Json} {x : α}

theorem Transfers.holds (transfers : Transfers depth read readData)
    (holds : Holds read fallback slot x) :
    Holds readData fallback (slot.map (datumOf depth)) x where
  present datum here := by
    obtain ⟨value, same, rfl⟩ := Option.map_eq_some_iff.mp here
    exact (transfers value x (holds.present value same)).2
  absent empty := holds.absent (Option.map_eq_none_iff.mp empty)

theorem Transfers.check (transfers : Transfers depth read readData)
    (holds : Holds read fallback slot x) :
    ∀ value, slot = some value → FieldShape.checkOf (Json.datum depth) value = .ok () := by
  intro value here
  rw [FieldShape.checkOf, (transfers value x (holds.present value here)).1]
  rfl

end Slot

/-- The readings of facets transfer, as long as a list of choices may stand at this depth. -/
theorem transfers_facets (depth : Nat) :
    Transfers depth (Source.optional real : Json → _) (Source.optional real) ∧
      Transfers depth (Source.optional Source.length : Json → _) (Source.optional Source.length) ∧
      Transfers depth (Source.optional text : Json → _) (Source.optional text) ∧
      (depth < deepest → Transfers depth (listOf text : Json → _) (listOf text)) := by
  have reals : ∀ depth, Transfers depth (Source.real : Json → _) Source.real :=
    fun _ => transfers_scalar (fun _ same => nomatch same) fun _ same => nomatch same
  have lengths : ∀ depth, Transfers depth (Source.length : Json → _) Source.length :=
    fun _ => transfers_scalar (fun _ same => nomatch same) fun _ same => nomatch same
  have texts : ∀ depth, Transfers depth (Source.text : Json → _) Source.text :=
    fun _ => transfers_scalar (fun _ same => nomatch same) fun _ same => nomatch same
  exact ⟨transfers_optional (reals depth), transfers_optional (lengths depth),
    transfers_optional (texts depth), transfers_listOf (texts (depth + 1))⟩

end Transfers

section Data

variable {slots : FacetSlots Json} {facets : Facets} {depth : Nat}

/-- What is held as values is held as data. -/
theorem FacetSlots.Hold.data (hold : slots.Hold facets) (room : depth < deepest) :
    (slots.map (datumOf depth)).Hold facets := by
  obtain ⟨reals, lengths, texts, lists⟩ := transfers_facets depth
  exact ⟨reals.holds hold.minimum, reals.holds hold.maximum, lengths.holds hold.minLength,
    lengths.holds hold.maxLength, texts.holds hold.pattern, (lists room).holds hold.choices,
    texts.holds hold.defaultValue, texts.holds hold.sample⟩

/-- Every facet that is written has a datum. -/
theorem FacetSlots.Hold.whole (hold : slots.Hold facets) (room : depth < deepest)
    {name : Text} {value : Json} (member : (name, value) ∈ ofSlots slots.list) :
    name ∈ FacetSlots.names ∧ FieldShape.checkOf (Json.datum depth) value = .ok () := by
  obtain ⟨reals, lengths, texts, lists⟩ := transfers_facets depth
  have fits : Fits (FacetSlots.names.map fun name =>
      (⟨name, false, FieldShape.checkOf (Json.datum depth)⟩ : FieldShape Json)) slots.list :=
    ⟨rfl, reals.check hold.minimum, rfl, reals.check hold.maximum, rfl,
      lengths.check hold.minLength, rfl, lengths.check hold.maxLength, rfl,
      texts.check hold.pattern, rfl, (lists room).check hold.choices, rfl,
      texts.check hold.defaultValue, rfl, texts.check hold.sample, trivial⟩
  obtain ⟨field, inside, named, passes⟩ := fits.field member
  obtain ⟨known, listed, rfl⟩ := List.mem_map.mp inside
  exact ⟨named ▸ listed, passes⟩

end Data

theorem datum_of_check {depth : Nat} {value : Json}
    (passes : FieldShape.checkOf (Json.datum depth) value = .ok ()) :
    value.datum depth = .ok (datumOf depth value) := by
  rw [FieldShape.checkOf] at passes
  cases here : value.datum depth with
  | error fault => rw [here] at passes; cases passes
  | ok datum => rw [datumOf_eq here]

theorem ofSlots_map {V W : Type} (f : V → W) (slots : List (Text × Option V)) :
    ofSlots (slots.map fun slot => (slot.1, slot.2.map f)) =
      (ofSlots slots).map fun member => (member.1, f member.2) := by
  induction slots with
  | nil => rfl
  | cons slot slots ih =>
      obtain ⟨name, value⟩ := slot
      rw [List.map_cons, ofSlots_cons, ofSlots_cons, ih]
      cases value <;> rfl

namespace Property

def ownSlots (property : Property) : List (Text × Option Json) :=
  [("name", some (ofText property.name)), ("type", some (ofText property.type)),
    ("required", some (.flag property.required)),
    ("description", some (ofText property.description))]

theorem encode_eq (property : Property) :
    property.encode = record (ofSlots (property.ownSlots ++ property.facets.slots.list)) := by
  rw [Property.encode, Facets.members_eq, ofSlots_append]
  rfl

theorem fields_nodup (around : Nat) :
    ((Property.shape around : Shape Json).fields.map (·.name)).Nodup := by
  change [("name" : Text), "type", "required", "description"].Nodup
  decide

theorem facet_no_field (around : Nat) {name : Text} (facet : name ∈ FacetSlots.names) :
    name ∉ (Property.shape around : Shape Json).fields.map (·.name) := by
  have apart : ∀ name ∈ FacetSlots.names,
      name ∉ [("name" : Text), "type", "required", "description"] := by decide
  exact apart name facet

theorem otherData_eq (around : Nat) (shape : Shape Json) (members : List (Text × Json)) :
    otherData around shape members =
      (members.filter fun member => !(shape.fields.any fun field => field.name = member.1)).mapM
        fun member => (Json.datum (around + 1) member.2).map (member.1, ·) :=
  rfl

/-- The members that are no fields of a property are its facets. -/
theorem otherData_ofSlots {property : Property} {around : Nat} (room : around + 1 < deepest)
    (own : Fits (Property.shape around : Shape Json).fields property.ownSlots)
    (hold : property.facets.slots.Hold property.facets) :
    otherData around (Property.shape around : Shape Json)
        (ofSlots (property.ownSlots ++ property.facets.slots.list)) =
      .ok (ofSlots (property.facets.slots.map (datumOf (around + 1))).list) := by
  have none_own : (ofSlots property.ownSlots).filter (fun member =>
      !((Property.shape around : Shape Json).fields.any fun field =>
        field.name = member.1)) = [] := by
    refine List.filter_eq_nil_iff.mpr fun member inside => ?_
    obtain ⟨field, known, named, -⟩ := own.field inside
    simpa using ⟨field, known, named⟩
  have all_facets : (ofSlots property.facets.slots.list).filter (fun member =>
      !((Property.shape around : Shape Json).fields.any fun field =>
        field.name = member.1)) = ofSlots property.facets.slots.list := by
    refine List.filter_eq_self.mpr fun member inside => ?_
    simpa using facet_no_field around (hold.whole room inside).1
  change _ = Except.ok (ofSlots (property.facets.slots.list.map fun slot =>
    (slot.1, slot.2.map (datumOf (around + 1)))))
  rw [otherData_eq, ofSlots_append, List.filter_append, none_own, all_facets, List.nil_append,
    ofSlots_map, Generic.mapM_eq_ok_iff, List.map_map]
  refine List.map_congr_left fun member inside => ?_
  rw [datum_of_check (hold.whole room inside).2]
  rfl

theorem decode_encode {around : Nat} (room : around + 1 < deepest) {property : Property}
    (back : ∀ x ∈ property.facets.reals, x.ReadsBack) :
    Property.decode around property.encode = .ok property := by
  have name := holds_text none property.name
  have type := holds_text none property.type
  have required := holds_flag (some false) property.required
  have description := holds_text (some []) property.description
  have own : Fits (Property.shape around : Shape Json).fields property.ownSlots :=
    ⟨rfl, name.check, rfl, type.check, rfl, required.check, rfl, description.check, trivial⟩
  have hold := Facets.hold back
  have distinct : ((property.ownSlots ++ property.facets.slots.list).map (·.1)).Nodup := by
    change (("name" : Text) :: "type" :: "required" :: "description" :: FacetSlots.names).Nodup
    decide
  have takes : ∀ member ∈ ofSlots (property.ownSlots ++ property.facets.slots.list),
      Takes (Property.shape around) member.1 member.2 := by
    intro member inside
    rw [ofSlots_append] at inside
    rcases List.mem_append.mp inside with inside | inside
    · exact own.takes (fields_nodup around) inside
    · obtain ⟨facet, passes⟩ := hold.whole room inside
      exact takes_other (facet_no_field around facet) passes
  have members := members_record (scan_ok (distinct.sublist names_ofSlots) takes)
  have data := otherData_ofSlots room own hold
  have facets : Facets.ofData
      (ofSlots (property.facets.slots.map (datumOf (around + 1))).list) = .ok property.facets := by
    have hold_data := hold.data room
    have fits :
        Fits (⟨"PropertyFacets", Facets.fields, fun _ => .ok (), false⟩ : Shape Datum).fields
          (property.facets.slots.map (datumOf (around + 1))).list := hold_data.fits
    simp only [Facets.ofData, fits.scan FacetSlots.names_nodup, ok_bind, hold_data.ofMembers]
  rw [encode_eq]
  simp only [Property.decode, members, ok_bind, name.get distinct 0 rfl, type.get distinct 1 rfl,
    required.getD distinct 2 rfl, description.getD distinct 3 rfl, data, facets]
  rfl

theorem proper_encode (property : Property) : property.encode.Proper := by
  have own : ∀ slot ∈ property.ownSlots, ProperSlot slot.2 := by
    simp only [ownSlots, List.forall_mem_cons]
    exact ⟨.of_value (.string _), .of_value (.string _), .of_value (.flag _),
      .of_value (.string _), by simp⟩
  rw [encode_eq]
  refine proper_ofSlots fun slot inside => ?_
  rcases List.mem_append.mp inside with inside | inside
  · exact own slot inside
  · exact property.facets.proper_slots slot inside

end Property

end ApiSchema
