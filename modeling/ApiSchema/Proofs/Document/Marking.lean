import ApiSchema.Proofs.Document.Substitution
import ApiSchema.Proofs.Generic.Rewriting
import ApiSchema.Proofs.TypeExpr.Grammar

set_option autoImplicit false

namespace ApiSchema

open TypeExpr (parse isIdentifier isTypeName markNames argumentFor? Layout)
open Generic (mark markOpen markClose markedType bareType spaceCommas)

namespace TypeExpr

theorem markNames_eraseDups (params : List Text) :
    markNames params.eraseDups = markNames params := by
  funext name
  simp only [markNames, List.mem_eraseDups]

/-- A parameter paired with itself stands for itself, and every other name too. -/
theorem argumentFor?_self (params : List Text) (name : Text) :
    (argumentFor? params params name).getD name = name := by
  rw [argumentFor?]
  induction params with
  | nil => rfl
  | cons param params ih =>
      by_cases same : name = param
      · simp [same]
      · have other : (name == param) = false := by simpa using same
        simpa [List.lookup_cons, other] using ih

/-- Without its marks a marked type text is the text with spaced commas. -/
theorem Layout.Valid.bareType_markedType {params : List Text}
    (words : ∀ param ∈ params, isTypeName param = true) {layout : Layout} (valid : layout.Valid)
    (free : markOpen ∉ layout.text) :
    bareType params (markedType params layout.text) = spaceCommas layout.text := by
  have unmarked : ∀ param ∈ params, markOpen ∉ param := fun param member =>
    isIdentifier_not_mem (isTypeName_iff.mp (words param member)).1 (by decide)
  have spaced : spaceCommas layout.text = layout.spaced.text :=
    valid.spaceCommas_render legible_id
  rw [bareType_eq, valid.substitute_markedType words rfl unmarked free, spaced, text]
  congr 1
  funext name
  exact argumentFor?_self params name

end TypeExpr

/-- A property as prepared for a property as authored. Only the type differs. Without the marks of
parameters it is the authored text with spaced commas; and that text has a derivation for its tree,
in whose text the names of parameters are marked, and no other letter is changed. -/
structure MarksParams (params : List Text) (authored marked : Property) : Prop where
  rest : { marked with type := authored.type } = authored
  bare : bareType params marked.type = spaceCommas authored.type
  names : ∃ layout : Layout, layout.Derives (spaceCommas authored.type) ∧
    parse (spaceCommas authored.type) = .ok layout.type ∧
    marked.type = layout.render fun name => if name ∈ params then mark name else name

/-- Marking touches just the parameters of a definition in which nothing was marked before. The
names of a derivation are the names of the object types in its tree, so that no primitive, no format
and no longer name is touched; a text has one derivation at most. -/
theorem Definition.prepare_marks {definition prepared : Definition} (plain : definition.Unmarked)
    (done : definition.prepare = .ok prepared) :
    List.Forall₂ (MarksParams definition.params) definition.properties prepared.properties := by
  obtain ⟨distinct_words, readable, rfl⟩ := plain.prepare done
  have words : ∀ param ∈ definition.params, isTypeName param = true :=
    fun param member => distinct_words param (List.mem_eraseDups.mpr member)
  simp only [Definition.mapTypes]
  rw [List.forall₂_map_right_iff, List.forall₂_same]
  intro property field
  obtain ⟨expr, read⟩ := readable property field
  obtain ⟨layout, valid, spells, -⟩ := TypeExpr.exists_layout (TypeExpr.parse_eq_ok_iff.mp read)
  have free : markOpen ∉ layout.text := by
    rw [spells]
    exact (plain.types property field).1
  have marked : markedType definition.params.eraseDups property.type =
      markedType definition.params property.type := by
    rw [← spells, valid.markedType_render distinct_words, valid.markedType_render words,
      TypeExpr.markNames_eraseDups]
  have spaced : layout.spaced.text = spaceCommas property.type := by
    rw [← spells]
    exact (valid.spaceCommas_render TypeExpr.legible_id).symm
  refine ⟨rfl, ?_, layout.spaced, ⟨valid.spaced, spaced⟩, ?_, ?_⟩
  · change bareType definition.params (markedType definition.params.eraseDups property.type) = _
    rw [marked, ← spells]
    exact valid.bareType_markedType words free
  · rw [← spaced]
    exact TypeExpr.parse_eq_ok_iff.mpr valid.spaced.parse
  · change markedType definition.params.eraseDups property.type = _
    rw [marked, ← spells]
    exact valid.markedType_render words

/-- Parameters next to each other, inside arguments, repeated, and inside other words; one of them
begins like another. -/
def entryDefinition : Definition :=
  { name := "Entry", params := ["T", "Tag", "T"],
    properties := [{ name := "all", type := " Map< T,T ,Tag[], Tags<T,Box<T>>,string#T>[] " },
      { name := "count", type := "integer" }] }

def markedEntry : Definition :=
  { name := "Entry", params := ["«T»", "«Tag»"],
    properties :=
      [{ name := "all", type := "Map< «T», «T», «Tag»[], Tags<«T», Box<«T»>>, string#T>[]" },
        { name := "count", type := "integer" }] }

theorem Definition.prepare_marks_entry :
    entryDefinition.prepare = .ok markedEntry ∧
      List.Forall₂ (MarksParams ["T", "Tag", "T"]) entryDefinition.properties
        markedEntry.properties := by
  have done : entryDefinition.prepare = .ok markedEntry := by decide +kernel
  have plain : entryDefinition.Unmarked := by decide
  exact ⟨done, Definition.prepare_marks plain done⟩

end ApiSchema
