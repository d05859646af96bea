import ApiSchema.Proofs.TypeExpr.Squeezed
import ApiSchema.Proofs.TypeExpr.Spelling
import Mathlib.Control.Monad.Basic

set_option autoImplicit false

namespace ApiSchema.TypeExpr

open Text (Blank squeeze)

theorem mem_arrayText_bare {c : Char} {core : Text} {gaps : List Text}
    (member : c ∈ arrayText core (gaps.map fun _ => [])) : c ∈ core ∨ c ∈ ['[', ']'] := by
  induction gaps with
  | nil => exact Or.inl member
  | cons gap gaps ih =>
      rw [List.map_cons, arrayText, List.append_nil, List.mem_append] at member
      exact member.elim ih Or.inr

namespace Layout

/-- The only blank in a normal spelling is the space behind a comma. -/
theorem Valid.blank_canonical {layout : Layout} (valid : layout.Valid) :
    ∀ c ∈ layout.type.canonical, Text.isBlank c = true → c = ' ' := by
  have solid : ∀ {d : Char}, Text.isBlank d = false → Text.isBlank d = true → d = ' ' :=
    fun firm blank => absurd (firm.symm.trans blank) (by decide)
  have brackets : ∀ c ∈ ['[', ']'], Text.isBlank c = false :=
    List.forall_mem_cons.mpr ⟨by decide, List.forall_mem_singleton.mpr (by decide)⟩
  induction valid with
  | @leaf margins word _ valid =>
      intro c member blank
      rw [canonical_type, item, canonical_word] at member
      rcases mem_arrayText_bare member with inner | bracket
      · rcases Word.text_part valid c inner with part | rfl | part
        · exact solid (identifierPart_solid part) blank
        · exact solid (by decide) blank
        · exact solid (formatPart_solid part) blank
      · exact solid (brackets c bracket) blank
  | @applied margins name args _ word some_arg _ ih =>
      intro c member blank
      obtain ⟨first, rest, rfl⟩ := List.exists_cons_of_ne_nil some_arg
      rw [canonical_type, item, List.map_cons, canonical_object_cons] at member
      rcases mem_arrayText_bare member with inner | bracket
      · rcases mem_appliedText.mp inner with head | rfl | (⟨arg, given, part⟩ | ⟨-, comma⟩) | rfl
        · have identifier := isIdentifier_part (isTypeName_iff.mp word).1 c head
          exact solid (identifierPart_solid identifier) blank
        · exact solid (by decide) blank
        · rcases List.mem_cons.mp given with rfl | later
          · exact ih first (by simp) c part blank
          · rw [List.map_map] at later
            obtain ⟨next, inside, rfl⟩ := List.mem_map.mp later
            rcases List.mem_cons.mp part with rfl | part
            · rfl
            · exact ih next (by simp [inside]) c part blank
        · rw [List.mem_singleton.mp comma] at blank ⊢
          exact solid (by decide) blank
        · exact solid (by decide) blank
      · exact solid (brackets c bracket) blank

/-- Without blanks a normal spelling is the text that was read, without blanks. -/
theorem Valid.squeeze_canonical {layout : Layout} (valid : layout.Valid) :
    squeeze layout.type.canonical = squeeze layout.text := by
  have spelled := valid.text_plainAfter []
  rw [List.nil_append] at spelled
  rw [← spelled, (valid.plainAfter Blank.nil).squeeze_text, solid_plainAfter valid,
    valid.squeeze_text]

end Layout

/-- Two type expressions have one normal spelling just if they are equal without blanks. The text
without blanks is itself a type expression of the same normal spelling, and it is what is left of
that spelling without the spaces. -/
theorem canonical_variants {text : Text} {type : TypeExpr} (read : parse text = .ok type) :
    (∀ other another, parse other = .ok another →
      (type.canonical = another.canonical ↔ squeeze text = squeeze other)) ∧
    (∃ bare, parse (squeeze text) = .ok bare ∧ bare.canonical = type.canonical) ∧
    type.canonical.filter (fun c => c ≠ ' ') = squeeze text := by
  obtain ⟨layout, valid, rfl, rfl⟩ := exists_layout (parse_eq_ok_iff.mp read)
  refine ⟨?_, ?_, ?_⟩
  · intro other another read_too
    obtain ⟨second, also_valid, rfl, rfl⟩ := exists_layout (parse_eq_ok_iff.mp read_too)
    constructor
    · intro same
      rw [← valid.squeeze_canonical, same, also_valid.squeeze_canonical]
    · intro same
      exact Layout.canonical_eq_of_solid valid also_valid
        (Layout.solid_eq_of_squeeze valid also_valid same)
  · rw [valid.squeeze_text]
    exact ⟨layout.solid.type, parse_eq_ok_iff.mpr valid.solid.parse, valid.canonical_solid⟩
  · rw [← valid.squeeze_canonical, squeeze]
    refine List.filter_congr fun c member => ?_
    by_cases blank : Text.isBlank c = true
    · rw [valid.blank_canonical c member blank]
      decide
    · have other : c ≠ ' ' := fun same => blank (by rw [same]; decide)
      simp [blank, other]

/-- A map to arrays of boxes, with a tab, a no-break space and spaces in it. -/
def airyMap : Text := " Map<\tstring ,Box< User >\u00a0[]>"

def crampedMap : Text := "Map<string,Box<User> []>"

theorem canonical_variants_map :
    ∃ first second, parse airyMap = .ok first ∧ parse crampedMap = .ok second ∧
      first.canonical = second.canonical ∧
      (∃ bare, parse "Map<string,Box<User>[]>" = .ok bare ∧ bare.canonical = first.canonical) ∧
      first.canonical.filter (fun c => c ≠ ' ') = "Map<string,Box<User>[]>" := by
  obtain ⟨first, read⟩ := readable_iff.mpr (show checkFragment airyMap = .ok () by decide +kernel)
  obtain ⟨second, read_too⟩ :=
    readable_iff.mpr (show checkFragment crampedMap = .ok () by decide +kernel)
  have squeezed : squeeze airyMap = "Map<string,Box<User>[]>" := by decide +kernel
  have squeezed_too : squeeze crampedMap = "Map<string,Box<User>[]>" := by decide +kernel
  obtain ⟨variants, bare, left⟩ := canonical_variants read
  rw [squeezed] at bare left
  exact ⟨first, second, read, read_too,
    (variants crampedMap second read_too).mpr (squeezed.trans squeezed_too.symm), bare, left⟩

end ApiSchema.TypeExpr
