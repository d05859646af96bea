import ApiSchema.Proofs.TypeExpr.Writing

set_option autoImplicit false

namespace ApiSchema

namespace Text

def squeeze (text : Text) : Text := text.filter fun c => !isBlank c

@[simp] theorem squeeze_append (front back : Text) :
    squeeze (front ++ back) = squeeze front ++ squeeze back :=
  List.filter_append ..

theorem Blank.squeeze {text : Text} (blank : Blank text) : squeeze text = [] := by
  rw [Text.squeeze, List.filter_eq_nil_iff]
  intro c member
  simp [blank c member]

theorem squeeze_solid {text : Text} (solid : ∀ c ∈ text, isBlank c = false) :
    squeeze text = text := by
  rw [squeeze, List.filter_eq_self]
  intro c member
  simp [solid c member]

theorem squeeze_trim (text : Text) : squeeze (trim text) = squeeze text := by
  obtain ⟨before, after, front, back, whole⟩ := exists_margins text
  have squeezed := congrArg squeeze whole
  rw [squeeze_append, squeeze_append, front.squeeze, back.squeeze] at squeezed
  simpa using squeezed.symm

theorem squeeze_joinWith (texts : List Text) :
    squeeze (joinWith [','] texts) = joinWith [','] (texts.map squeeze) := by
  have comma : squeeze [','] = [','] := by decide
  induction texts with
  | nil => rfl
  | cons text rest ih =>
      cases rest with
      | nil => rfl
      | cons next more =>
          simp only [List.map_cons, joinWith_cons_cons, squeeze_append, comma] at ih ⊢
          rw [ih]

end Text

namespace TypeExpr

open Text (Blank Tight trim squeeze)

theorem squeeze_arrayText (core : Text) {gaps : List Text} (blank : ∀ gap ∈ gaps, Blank gap) :
    squeeze (arrayText core gaps) = arrayText (squeeze core) (gaps.map fun _ => []) := by
  have brackets : squeeze ['[', ']'] = ['[', ']'] := by decide
  induction gaps with
  | nil => rfl
  | cons gap gaps ih =>
      have inner := ih fun other member => blank other (by simp [member])
      simp only [arrayText, List.map_cons, Text.squeeze_append, inner, brackets,
        (blank gap (by simp)).squeeze]

theorem squeeze_around {margins : Margins} (valid : margins.Valid) (core : Text) :
    squeeze (margins.around core) = (margins.plain []).around (squeeze core) := by
  simp only [Margins.around, Margins.plain, Text.squeeze_append, valid.before.squeeze,
    valid.after.squeeze, squeeze_arrayText core valid.gaps]

theorem squeeze_appliedText (head : Text) (args : List Text) :
    squeeze (appliedText head args) = appliedText (squeeze head) (args.map squeeze) := by
  have opening : ∀ text : Text, squeeze ('<' :: text) = '<' :: squeeze text := fun _ => rfl
  have closing : squeeze ['>'] = ['>'] := by decide
  rw [appliedText, Text.squeeze_append, Text.squeeze_append, opening, closing,
    Text.squeeze_joinWith]
  rfl

namespace Layout

theorem Valid.solid {layout : Layout} (valid : layout.Valid) : layout.solid.Valid := by
  induction valid with
  | @leaf margins word _ word_valid =>
      rw [Layout.solid]
      exact .leaf (margins.plain_valid Blank.nil) word_valid
  | @applied margins name args _ word some_arg _ ih =>
      rw [Layout.solid, solidAll_eq_map]
      refine .applied (margins.plain_valid Blank.nil) word (by simpa using some_arg) ?_
      intro layout member
      obtain ⟨arg, given, rfl⟩ := List.mem_map.mp member
      exact ih arg given

section Write

variable {words : Word → Text} {heads : Text → Text}

/-- Squeezing what is written is writing squeezed texts without blanks. -/
theorem Valid.squeeze_write {layout : Layout} (valid : layout.Valid) :
    squeeze (layout.write words heads) =
      layout.solid.write (fun word => squeeze (words word)) fun name => squeeze (heads name) := by
  induction valid with
  | leaf blank =>
      rw [Layout.solid, write, write, squeeze_around blank]
  | @applied margins name args blank _ _ _ ih =>
      rw [Layout.solid, write, write, squeeze_around blank, squeeze_appliedText, writeAll_eq_map,
        writeAll_eq_map, solidAll_eq_map, List.map_map, List.map_map]
      exact congrArg (fun texts => (margins.plain []).around (appliedText _ texts))
        (List.map_congr_left ih)

theorem Valid.write_congr {others : Word → Text} {names : Text → Text}
    (word : ∀ word : Word, word.Valid → words word = others word)
    (head : ∀ name, isTypeName name = true → heads name = names name) {layout : Layout}
    (valid : layout.Valid) : layout.write words heads = layout.write others names := by
  induction valid with
  | leaf _ word_valid => rw [write, write, word _ word_valid]
  | applied _ name_word _ _ ih =>
      rw [write, write, writeAll_eq_map, writeAll_eq_map, List.map_congr_left ih, head _ name_word]

end Write

/-- The text of a layout without blanks is its text, squeezed. -/
theorem Valid.squeeze_text {layout : Layout} (valid : layout.Valid) :
    squeeze layout.text = layout.solid.text := by
  rw [text, text, ← valid.write_render, valid.squeeze_write, ← valid.solid.write_render]
  refine valid.solid.write_congr (fun word word_valid => Text.squeeze_solid fun c member => ?_)
    fun name word => Text.squeeze_solid fun c member =>
      identifierPart_solid (isIdentifier_part (isTypeName_iff.mp word).1 c member)
  have spelled : word.render id = word.text := by cases word <;> rfl
  rw [spelled] at member
  rcases Word.text_part word_valid c member with part | rfl | part
  · exact identifierPart_solid part
  · decide
  · exact formatPart_solid part

/-- Layouts of texts that are equal when squeezed differ in blanks only. -/
theorem solid_eq_of_squeeze {first second : Layout} (valid : first.Valid) (other : second.Valid)
    (same : squeeze first.text = squeeze second.text) : first.solid = second.solid := by
  rw [valid.squeeze_text, other.squeeze_text] at same
  exact valid.solid.eq_of_text other.solid same

end Layout

/-- Two texts that differ in blanks only and are type expressions both or neither. -/
structure Respaced (first second : Text) : Prop where
  squeezed : squeeze first = squeeze second
  readable : Readable first ↔ Readable second

namespace Respaced

theorem refl (text : Text) : Respaced text text := ⟨rfl, Iff.rfl⟩

theorem trim {first second : Text} (respaced : Respaced first second) :
    Respaced (trim first) (trim second) :=
  ⟨by rw [Text.squeeze_trim, Text.squeeze_trim, respaced.squeezed],
    by rw [readable_trim, readable_trim, respaced.readable]⟩

/-- They refer to the same definition. -/
theorem reference {first second : Text} (respaced : Respaced first second) {type : TypeExpr}
    (read : parse first = .ok type) :
    ∃ other, parse second = .ok other ∧ other.reference? = type.reference? := by
  obtain ⟨other, read_too⟩ := respaced.readable.mp ⟨type, read⟩
  refine ⟨other, read_too, ?_⟩
  obtain ⟨layout, valid, rfl, rfl⟩ := exists_layout (parse_eq_ok_iff.mp read)
  obtain ⟨another, also_valid, rfl, rfl⟩ := exists_layout (parse_eq_ok_iff.mp read_too)
  exact Layout.reference?_eq_of_solid also_valid valid
    (Layout.solid_eq_of_squeeze also_valid valid respaced.squeezed.symm)

end Respaced

/-- The same put into layouts that differ in blanks gives texts that differ in blanks, and both can
be read or neither. -/
theorem Layout.Valid.respaced_write {words : Word → Text} {heads : Text → Text}
    (apt : Apt words heads) {first second : Layout} (valid : first.Valid) (other : second.Valid)
    (same : first.solid = second.solid) :
    Respaced (first.write words heads) (second.write words heads) where
  squeezed := by rw [valid.squeeze_write, other.squeeze_write, same]
  readable := by
    rw [valid.readable_write apt, other.readable_write apt, ← valid.fit_solid,
      ← other.fit_solid, same]

end TypeExpr

end ApiSchema
