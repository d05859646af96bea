import ApiSchema.Document.Decode
import ApiSchema.Json.Source
import ApiSchema.Proofs.Decimal.Finite
import ApiSchema.Proofs.Decode.Slots
import ApiSchema.Proofs.Generic.Preparation

set_option autoImplicit false

namespace ApiSchema

open Source Member

/-- A number as JSON has it: an integer that a word of 64 bits holds, with or without sign, or a
finite double. -/
def Datum.IsBounded : Datum → Prop
  | .integer n => n.natAbs ≤ 2 ^ 64
  | .real value => value.isFinite = true
  | _ => True

theorem Datum.IsBounded.isFinite {datum : Datum} (bounded : datum.IsBounded) {value : Binary64}
    (reads : datum.asReal = .ok value) : value.isFinite = true := by
  cases datum with
  | integer n =>
      rw [← Except.ok.inj reads]
      exact Binary64.ofNat_isFinite _ bounded
  | real other => exact Except.ok.inj reads ▸ bounded
  | _ => cases reads

namespace Json

theorem numberDatum?_bounded {numeral : Numeral} {datum : Datum}
    (found : numberDatum? numeral = some datum) : datum.IsBounded := by
  simp only [numberDatum?] at found
  split at found
  · next small =>
      rw [← Option.some.inj found]
      simp only [Bool.and_eq_true, decide_eq_true_eq] at small
      exact Nat.le_of_lt small.2
  split at found
  · next small =>
      rw [← Option.some.inj found]
      simp only [Bool.and_eq_true, decide_eq_true_eq] at small
      have bound : Nat.pow 2 63 ≤ 2 ^ 64 := by decide
      simp only [Datum.IsBounded, Int.natAbs_neg, Int.natAbs_natCast]
      exact Nat.le_trans small.2.2 bound
  · obtain ⟨value, read, rfl⟩ := Option.map_eq_some_iff.mp found
    exact Numeral.scaled?_isFinite read

theorem outline_bounded {value : Json} {datum : Datum} (here : value.outline = .ok datum) :
    datum.IsBounded := by
  cases value with
  | number numeral =>
      rw [outline] at here
      split at here
      · next found => cases here; exact numberDatum?_bounded found
      · cases here
  | unpaired => cases here
  | broken => cases here
  | _ => cases here; trivial

/-- A value has the datum that it has from outside, but for what is in a container. -/
theorem datum_cases {depth : Nat} {value : Json} {datum : Datum}
    (here : value.datum depth = .ok datum) :
    value.outline = .ok datum ∨
      (∃ items closed, value = .array items closed) ∧ (∃ data, datum = .sequence data) ∨
      (∃ members closed, value = .object members closed) ∧ datum = .mapping := by
  cases value with
  | array items closed =>
      rw [Json.datum] at here
      split at here
      · split at here
        · cases here
        split at here
        · cases here; exact Or.inr (Or.inl ⟨⟨_, _, rfl⟩, _, rfl⟩)
        · cases here
      · cases here
  | object members closed =>
      rw [Json.datum] at here
      split at here
      · split at here
        · cases here
        split at here
        · cases here; exact Or.inr (Or.inr ⟨⟨_, _, rfl⟩, rfl⟩)
        · cases here
      · cases here
  | _ => exact Or.inl here

theorem datum_bounded {depth : Nat} {value : Json} {datum : Datum}
    (here : value.datum depth = .ok datum) : datum.IsBounded := by
  rcases datum_cases here with outlined | ⟨-, data, rfl⟩ | ⟨-, rfl⟩
  · exact outline_bounded outlined
  · trivial
  · trivial

/-- A double that is read from a value is finite. -/
theorem real_isFinite {value : Json} {x : Binary64} (reads : Source.real value = .ok x) :
    x.isFinite = true := by
  change scalar Datum.asReal value = _ at reads
  rw [scalar] at reads
  split at reads
  · cases reads
  · next here => exact (outline_bounded here).isFinite reads

end Json

theorem mem_of_lookup {V : Type} {members : List (Text × V)} {name : Text} {value : V}
    (found : members.lookup name = some value) : (name, value) ∈ members := by
  obtain ⟨before, after, same, -⟩ := List.lookup_eq_some_iff.mp found
  simp [same]

section Fields

variable {V α : Type} [Source V] {members : List (Text × V)} {name : Text}
  {read : V → Except Fault α}

/-- A facet that is set was read from a member. -/
theorem read_of_optional {x : α}
    (found : Member.getD members name (Source.optional read) none = .ok (some x)) :
    ∃ value, (name, value) ∈ members ∧ read value = .ok x := by
  rw [Member.getD] at found
  split at found
  · cases found
  · next value here =>
      refine ⟨value, mem_of_lookup here, ?_⟩
      rw [Source.optional] at found
      split at found
      · cases found
      · cases reads : read value with
        | error fault => rw [reads] at found; cases found
        | ok y => rw [reads] at found; cases found; rfl

theorem read_of_listOf {value : V} {values : List α} (found : listOf read value = .ok values) :
    ∀ x ∈ values, ∃ item, read item = .ok x := by
  rw [listOf] at found
  split at found
  · cases found
  · next parts closed here =>
      split at found
      · cases found
      · next all =>
          split at found
          · cases found
            intro x member
            obtain ⟨item, -, reads⟩ :=
              Generic.exists_of_map_eq_ok (Generic.mapM_eq_ok_iff.mp all) member
            exact ⟨item, reads⟩
          · cases found

/-- What is in a list among the members was read from an item. -/
theorem read_of_items {values : List α}
    (found : Member.getD members name (listOf read) [] = .ok values) :
    ∀ x ∈ values, ∃ item, read item = .ok x := by
  rw [Member.getD] at found
  split at found
  · cases found
    simp
  · exact read_of_listOf found

def Facets.reals (facets : Facets) : List Binary64 :=
  facets.minimum.toList ++ facets.maximum.toList

theorem Facets.read_of_ofMembers {facets : Facets} (found : Facets.ofMembers members = .ok facets) :
    ∀ x ∈ facets.reals, ∃ name value, (name, value) ∈ members ∧ Source.real value = .ok x := by
  simp only [Facets.ofMembers, bind_eq_ok] at found
  obtain ⟨minimum, least, maximum, greatest, _, _, _, _, _, _, _, _, _, _, _, _, same⟩ := found
  cases same
  intro x member
  simp only [Facets.reals, List.mem_append, Option.mem_toList] at member
  rcases member with rfl | rfl
  · exact ⟨_, read_of_optional least⟩
  · exact ⟨_, read_of_optional greatest⟩

end Fields

def Definition.reals (definition : Definition) : List Binary64 :=
  definition.properties.flatMap (·.facets.reals)

def Document.reals (document : Document) : List Binary64 := document.definitions.flatMap (·.reals)

section Decoded

variable {value : Json}

theorem Facets.decode_finite {facets : Facets} (found : Facets.decode value = .ok facets) :
    ∀ x ∈ facets.reals, x.isFinite = true := by
  simp only [Facets.decode, bind_eq_ok] at found
  obtain ⟨members, -, found⟩ := found
  intro x member
  obtain ⟨_, _, -, reads⟩ := Facets.read_of_ofMembers found x member
  exact Json.real_isFinite reads

theorem Property.decode_finite {around : Nat} {property : Property}
    (found : Property.decode around value = .ok property) :
    ∀ x ∈ property.facets.reals, x.isFinite = true := by
  simp only [Property.decode, bind_eq_ok] at found
  obtain ⟨members, -, _, -, _, -, _, -, _, -, data, others, facets, read, same⟩ := found
  cases same
  simp only [Facets.ofData, bind_eq_ok] at read
  obtain ⟨-, -, read⟩ := read
  rw [otherData, Generic.mapM_eq_ok_iff] at others
  intro x member
  obtain ⟨name, datum, inside, reads⟩ := Facets.read_of_ofMembers read x member
  obtain ⟨⟨name, value⟩, -, here⟩ := Generic.exists_of_map_eq_ok others inside
  change (Json.datum (around + 1) value).map (name, ·) = _ at here
  cases known : value.datum (around + 1) with
  | error fault => rw [known] at here; cases here
  | ok found =>
      rw [known] at here
      cases here
      exact (Json.datum_bounded known).isFinite reads

theorem Definition.decode_finite {around : Nat} {definition : Definition}
    (found : Definition.decode around value = .ok definition) :
    ∀ x ∈ definition.reals, x.isFinite = true := by
  simp only [Definition.decode, bind_eq_ok] at found
  obtain ⟨members, -, _, -, _, -, _, -, properties, read, same⟩ := found
  cases same
  intro x member
  obtain ⟨property, inside, here⟩ := List.mem_flatMap.mp member
  obtain ⟨item, decoded⟩ := read_of_items read property inside
  exact Property.decode_finite decoded x here

theorem Document.decode_finite {document : Document}
    (found : Document.decode value = .ok document) :
    ∀ x ∈ document.reals, x.isFinite = true := by
  simp only [Document.decode, bind_eq_ok] at found
  obtain ⟨members, -, _, -, _, -, _, -, _, -, _, -, _, -, definitions, read, same⟩ := found
  cases same
  intro x member
  obtain ⟨definition, inside, here⟩ := List.mem_flatMap.mp member
  obtain ⟨item, decoded⟩ := read_of_items read definition inside
  exact Definition.decode_finite decoded x here

end Decoded

end ApiSchema
