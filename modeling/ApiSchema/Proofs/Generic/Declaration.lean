import ApiSchema.Proofs.Generic.Simultaneous

set_option autoImplicit false

namespace ApiSchema

open TypeExpr (isIdentifier isTypeName)

namespace Generic

variable {params others : List Text}

theorem zip_self_perm (perm : others.Perm params) :
    (others.zip others).Perm (params.zip params) := by
  have self : ∀ names : List Text, names.zip names = names.map fun name => (name, name) := by
    intro names
    induction names with
    | nil => rfl
    | cons name names ih => rw [List.zip_cons_cons, ih, List.map_cons]
  rw [self, self]
  exact perm.map _

theorem nodup_marks (distinct : params.Nodup) : (params.map mark).Nodup := by
  refine (List.nodup_map_iff_inj_on distinct).mpr fun name _ other _ same => ?_
  rw [← bareName_mark name, same, bareName_mark]

theorem markedType_congr (words : ∀ param ∈ params, isIdentifier param = true)
    (members : ∀ name, name ∈ others ↔ name ∈ params) (type : Text) :
    markedType others type = markedType params type := by
  have other_words : ∀ param ∈ others, isIdentifier param = true :=
    fun param declared => words param ((members param).mp declared)
  have same : ∀ free span, Unbroken span → markSpan others free span = markSpan params free span :=
    fun free span _ => by simp only [markSpan, members]
  rw [markedType_eq other_words, markedType_eq words, mapSpans_congr same]

/-- Outside of open pairs marks may be taken away in any order. -/
theorem bareType_perm (words : ∀ param ∈ params, isIdentifier param = true)
    (distinct : params.Nodup) (perm : others.Perm params) {type : Text}
    (unnested : Unnested params false type) : bareType others type = bareType params type := by
  have inert : ∀ arg ∈ params, Inert params arg := fun arg declared =>
    Inert.of_plain (TypeExpr.isIdentifier_not_mem (words arg declared) (by decide))
      (TypeExpr.isIdentifier_not_mem (words arg declared) (by decide))
  have swapped := substitute_eq_of_perm words distinct rfl inert unnested rfl (zip_self_perm perm)
  have straight := substitute_eq_fillTokens words rfl inert unnested
  rw [TypeExpr.bareType_eq, TypeExpr.bareType_eq, swapped, straight]

end Generic

namespace Definition

open Generic

theorem prepare_eq_ok_iff {definition prepared : Definition} {params : List Text}
    (distinct : params = (definition.params.map bareName).eraseDups) :
    definition.prepare = .ok prepared ↔
      (∀ param ∈ params, isTypeName param = true) ∧
        (∀ property ∈ definition.properties,
          TypeExpr.checkFragment (bareType params property.type) = .ok ()) ∧
        (∀ param ∈ params, finderRefusal? param = none) ∧
        prepared = { definition.mapTypes (markedType params) with params := params.map mark } := by
  constructor
  · intro done
    obtain ⟨names, same, words, checked, findable, result⟩ := prepareWith_eq_ok done
    rw [← distinct] at same
    subst same
    exact ⟨words, checked, findable, result⟩
  · rintro ⟨words, checked, findable, rfl⟩
    exact prepareWith_ok distinct words checked findable

section Reordered

variable {definition other : Definition}

theorem mem_bareNames_iff (members : ∀ name, name ∈ other.params ↔ name ∈ definition.params)
    (name : Text) : name ∈ (other.params.map bareName).eraseDups ↔
      name ∈ (definition.params.map bareName).eraseDups := by
  simp only [List.mem_eraseDups, List.mem_map, members]

theorem bareNames_perm (members : ∀ name, name ∈ other.params ↔ name ∈ definition.params) :
    (other.params.map bareName).eraseDups.Perm (definition.params.map bareName).eraseDups :=
  (List.perm_ext_iff_of_nodup (nodup_eraseDups _) (nodup_eraseDups _)).mpr
    (mem_bareNames_iff members)

/-- What can be prepared with its parameters declared in one way can be in another, if no marked
token of a parameter stands in an open pair. -/
theorem exists_prepare_reordered (same : other = { definition with params := other.params })
    (members : ∀ name, name ∈ other.params ↔ name ∈ definition.params)
    (unnested : ∀ property ∈ definition.properties,
      Unnested (definition.params.map bareName) false property.type) {prepared : Definition}
    (done : definition.prepare = .ok prepared) : ∃ ready, other.prepare = .ok ready := by
  obtain ⟨words, checked, findable, -⟩ := (prepare_eq_ok_iff rfl).mp done
  have identifiers : ∀ param ∈ (definition.params.map bareName).eraseDups,
      isIdentifier param = true :=
    fun param declared => (TypeExpr.isTypeName_iff.mp (words param declared)).1
  refine ⟨_, (prepare_eq_ok_iff rfl).mpr ⟨?_, ?_, ?_, rfl⟩⟩
  · intro param declared
    exact words param ((mem_bareNames_iff members param).mp declared)
  · intro property field
    rw [same] at field
    have outside : Unnested (definition.params.map bareName).eraseDups false property.type :=
      (unnested property field).mono fun name => List.mem_eraseDups.mp
    rw [bareType_perm identifiers (nodup_eraseDups _) (bareNames_perm members) outside]
    exact checked property field
  · intro param declared
    exact findable param ((mem_bareNames_iff members param).mp declared)

/-- Parameters in another order, or declared repeatedly, make no difference to a prepared definition
but for the order in which it lists them, which is that of their first places. Whether it can be
prepared does not depend on their order if no marked token of a parameter stands in an open pair. -/
theorem prepare_reordered (same : other = { definition with params := other.params })
    (members : ∀ name, name ∈ other.params ↔ name ∈ definition.params) :
    (∀ prepared ready, definition.prepare = .ok prepared → other.prepare = .ok ready →
      ready = { prepared with params := ready.params } ∧
        prepared.params = (definition.params.map bareName).eraseDups.map mark ∧
        ready.params = (other.params.map bareName).eraseDups.map mark ∧
        prepared.params.Nodup ∧ ready.params.Nodup ∧ ready.params.Perm prepared.params) ∧
      ((∀ property ∈ definition.properties,
          Unnested (definition.params.map bareName) false property.type) →
        ((∃ prepared, definition.prepare = .ok prepared) ↔
          ∃ ready, other.prepare = .ok ready)) := by
  constructor
  · intro prepared ready done also
    obtain ⟨words, -, -, rfl⟩ := (prepare_eq_ok_iff rfl).mp done
    obtain ⟨-, -, -, rfl⟩ := (prepare_eq_ok_iff rfl).mp also
    have identifiers : ∀ param ∈ (definition.params.map bareName).eraseDups,
        isIdentifier param = true :=
      fun param declared => (TypeExpr.isTypeName_iff.mp (words param declared)).1
    have types : markedType (other.params.map bareName).eraseDups =
        markedType (definition.params.map bareName).eraseDups :=
      funext (markedType_congr identifiers (mem_bareNames_iff members))
    refine ⟨?_, rfl, rfl, nodup_marks (nodup_eraseDups _), nodup_marks (nodup_eraseDups _),
      (bareNames_perm members).map mark⟩
    rw [types, same]
    rfl
  · intro unnested
    constructor
    · rintro ⟨prepared, done⟩
      exact exists_prepare_reordered same members unnested done
    · rintro ⟨ready, done⟩
      have back : definition = { other with params := definition.params } := by rw [same]
      refine exists_prepare_reordered back (fun name => (members name).symm) ?_ done
      intro property field
      rw [same] at field
      refine (unnested property field).mono fun name declared => ?_
      obtain ⟨raw, inside, rfl⟩ := List.mem_map.mp declared
      exact List.mem_map_of_mem ((members raw).mp inside)

end Reordered

/-- Parameters that are used bare, marked and in a format tag. -/
def entriesDefinition : Definition :=
  { name := "Entries", params := ["K", "«V»", "K"],
    properties := [{ name := "all", type := "Entry<K,«V»>[]" },
      { name := "tag", type := "string#«K»" }] }

def reorderedEntries : Definition := { entriesDefinition with params := ["«V»", "K", "«V»"] }

def preparedEntries : Definition :=
  { name := "Entries", params := ["«K»", "«V»"],
    properties := [{ name := "all", type := "Entry<«K», «V»>[]" },
      { name := "tag", type := "string#«K»" }] }

theorem prepare_reordered_entries :
    entriesDefinition.prepare = .ok preparedEntries ∧
      ∃ ready, reorderedEntries.prepare = .ok ready ∧
        ready = { preparedEntries with params := ["«V»", "«K»"] } := by
  have done : entriesDefinition.prepare = .ok preparedEntries := by decide +kernel
  have inside : reorderedEntries.params ⊆ entriesDefinition.params := by decide +kernel
  have back : entriesDefinition.params ⊆ reorderedEntries.params := by decide +kernel
  have members : ∀ name, name ∈ reorderedEntries.params ↔ name ∈ entriesDefinition.params :=
    fun name => ⟨fun member => inside member, fun member => back member⟩
  have unnested : ∀ property ∈ entriesDefinition.properties,
      Unnested (entriesDefinition.params.map bareName) false property.type := by decide +kernel
  have params : (reorderedEntries.params.map bareName).eraseDups.map mark = ["«V»", "«K»"] := by
    decide +kernel
  have reordered := @prepare_reordered entriesDefinition reorderedEntries rfl members
  obtain ⟨ready, also⟩ := (reordered.2 unnested).mp ⟨preparedEntries, done⟩
  obtain ⟨same, -, listed, -⟩ := reordered.1 preparedEntries ready done also
  rw [listed, params] at same
  exact ⟨done, ready, also, same⟩

def nestedDefinition (params : List Text) : Definition :=
  { name := "Nested", params, properties := [{ name := "inner", type := "«A«B»»" }] }

/-- Taking away the marks of one parameter first completes the marked token of the other. -/
theorem prepare_nested_order :
    (∃ prepared, (nestedDefinition ["B", "AB"]).prepare = .ok prepared) ∧
      (nestedDefinition ["AB", "B"]).prepare =
        .error (.invalidType "«A«B»»" (.noShape "«AB»")) := by
  constructor
  · exact ⟨nestedDefinition ["«B»", "«AB»"], by decide +kernel⟩
  · decide +kernel

end Definition

end ApiSchema
