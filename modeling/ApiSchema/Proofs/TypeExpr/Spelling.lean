import ApiSchema.Proofs.TypeExpr.Canonical

set_option autoImplicit false

namespace ApiSchema

namespace Text

theorem mem_joinWith {separator : Text} {texts : List Text} {c : Char} :
    c ∈ joinWith separator texts ↔
      (∃ text ∈ texts, c ∈ text) ∨ (2 ≤ texts.length ∧ c ∈ separator) := by
  induction texts with
  | nil => simp [joinWith]
  | cons text rest ih =>
      cases rest with
      | nil => simp [joinWith]
      | cons next more =>
          rw [joinWith_cons_cons, List.mem_append, List.mem_append, ih]
          simp only [List.mem_cons, exists_eq_or_imp, List.length_cons]
          constructor
          · rintro ((own | between) | (later | ⟨-, between⟩))
            · exact Or.inl (Or.inl own)
            · exact Or.inr ⟨by omega, between⟩
            · exact Or.inl (Or.inr later)
            · exact Or.inr ⟨by omega, between⟩
          · rintro ((own | later) | ⟨-, between⟩)
            · exact Or.inl (Or.inl own)
            · exact Or.inr (Or.inl later)
            · exact Or.inl (Or.inr between)

end Text

namespace TypeExpr

open Text (Blank)

theorem core_subset_arrayText (core : Text) (gaps : List Text) : core ⊆ arrayText core gaps := by
  intro c member
  induction gaps with
  | nil => exact member
  | cons gap gaps ih => simp [arrayText, ih]

theorem core_subset_around (margins : Margins) (core : Text) : core ⊆ margins.around core := by
  intro c member
  have inner := core_subset_arrayText core margins.gaps member
  simp [Margins.around, inner]

theorem arg_subset_appliedText (name : Text) {args : List Text} {arg : Text} (given : arg ∈ args) :
    arg ⊆ appliedText name args := by
  intro c member
  have joined : c ∈ Text.joinWith [','] args :=
    Text.mem_joinWith.mpr (Or.inl ⟨arg, given, member⟩)
  simp [appliedText, joined]

section Related

variable {R : Text → Text → Prop}

theorem arrayText_related (append : ∀ a b c d, R a b → R c d → R (a ++ c) (b ++ d))
    {core first second : Text} (related : R first second) {gaps : List Text}
    (rest : ∀ text, text ⊆ arrayText core gaps → R text text) :
    R (arrayText first gaps) (arrayText second gaps) := by
  induction gaps with
  | nil => exact related
  | cons gap gaps ih =>
      have inner := ih fun text inside => rest text fun c member => by
        simp [arrayText, inside member]
      have blank := rest gap fun c member => by simp [arrayText, member]
      have brackets := rest ['[', ']'] fun c member => by
        rw [arrayText]
        exact List.mem_append_right _ member
      exact append _ _ _ _ (append _ _ _ _ inner blank) brackets

theorem around_related (append : ∀ a b c d, R a b → R c d → R (a ++ c) (b ++ d))
    {core first second : Text} (related : R first second) {margins : Margins}
    (rest : ∀ text, text ⊆ margins.around core → R text text) :
    R (margins.around first) (margins.around second) := by
  have before := rest margins.before fun c member => by simp [Margins.around, member]
  have after := rest margins.after fun c member => by simp [Margins.around, member]
  have array : ∀ text, text ⊆ arrayText core margins.gaps → R text text :=
    fun text inside => rest text fun c member => by simp [Margins.around, inside member]
  have inner := arrayText_related append related array
  exact append _ _ _ _ (append _ _ _ _ before inner) after

theorem joinWith_related (append : ∀ a b c d, R a b → R c d → R (a ++ c) (b ++ d))
    {first second : Layout → Text} {args : List Layout} (some_arg : args ≠ [])
    (each : ∀ arg ∈ args, R (first arg) (second arg))
    (comma : 2 ≤ args.length → R [','] [',']) :
    R (Text.joinWith [','] (args.map first)) (Text.joinWith [','] (args.map second)) := by
  induction args with
  | nil => exact absurd rfl some_arg
  | cons arg args ih =>
      have own := each arg (by simp)
      cases args with
      | nil => exact own
      | cons next more =>
          have between := comma (by simp)
          have tail := ih (by simp) (fun other member => each other (by simp [member]))
            fun _ => between
          exact append _ _ _ _ (append _ _ _ _ own between) tail

/-- A relation that holds of the names in two spellings, and of all other text with itself, holds of
the two spellings of a layout. -/
theorem Layout.Valid.related (append : ∀ a b c d, R a b → R c d → R (a ++ c) (b ++ d))
    (spell other : Text → Text)
    (names : ∀ name, isTypeName name = true → R (spell name) (other name)) {layout : Layout}
    (valid : layout.Valid) (rest : ∀ text, text ⊆ layout.text → R text text) :
    R (layout.render spell) (layout.render other) := by
  induction valid with
  | @leaf margins word _ valid =>
      rw [text_eq] at rest
      rw [render_leaf, render_leaf]
      refine around_related append ?_ rest
      have own := core_subset_around margins word.text
      cases word with
      | named name => exact names name valid
      | primitive base => exact rest _ own
      | tagged base format => exact rest _ own
  | @applied margins name args _ word some_arg _ ih =>
      rw [text_eq] at rest
      rw [render_applied, render_applied]
      refine around_related append ?_ rest
      have within : ∀ text, text ⊆ appliedText name (args.map Layout.text) → R text text := by
        intro text inside
        exact rest text fun c member => core_subset_around margins _ (inside member)
      have opening := within ['<'] fun c member => by simp_all [appliedText]
      have closing := within ['>'] fun c member => by simp_all [appliedText]
      have inner := joinWith_related append some_arg
        (fun arg inside => ih arg inside fun text part => within text fun c member =>
          arg_subset_appliedText name (List.mem_map_of_mem inside) (part member))
        fun several => within [','] fun c member => by
          have joined : c ∈ Text.joinWith [','] (args.map Layout.text) :=
            Text.mem_joinWith.mpr (Or.inr ⟨by simpa using several, member⟩)
          simp [appliedText, joined]
      have head := append _ _ _ _ (names name word) opening
      have whole := append _ _ _ _ (append _ _ _ _ head inner) closing
      simpa [appliedText] using whole

end Related

/-- A property of the names in a spelling, and of all other text, is one of the whole text. -/
theorem Layout.Valid.render_of_names {P : Text → Prop} (append : ∀ a b, P a → P b → P (a ++ b))
    {spell : Text → Text} (names : ∀ name, isTypeName name = true → P (spell name))
    {layout : Layout} (valid : layout.Valid) (rest : ∀ text, text ⊆ layout.text → P text) :
    P (layout.render spell) := by
  exact Layout.Valid.related (R := fun _ result => P result) (fun _ b _ d => append b d) id spell
    names valid rest

section Letters

variable {c : Char}

theorem mem_arrayText (solid : Text.isBlank c = false) {core : Text} {gaps : List Text}
    (blank : ∀ gap ∈ gaps, Blank gap) :
    c ∈ arrayText core gaps ↔ c ∈ core ∨ (gaps ≠ [] ∧ c ∈ ['[', ']']) := by
  induction gaps with
  | nil => simp [arrayText]
  | cons gap gaps ih =>
      have outside : c ∉ gap := (blank gap (by simp)).not_mem solid
      have inner := ih fun other member => blank other (by simp [member])
      rw [arrayText, List.mem_append, List.mem_append, inner]
      constructor
      · rintro (((core | ⟨-, bracket⟩) | gap) | bracket)
        · exact Or.inl core
        · exact Or.inr ⟨by simp, bracket⟩
        · exact absurd gap outside
        · exact Or.inr ⟨by simp, bracket⟩
      · rintro (core | ⟨-, bracket⟩)
        · exact Or.inl (Or.inl (Or.inl core))
        · exact Or.inr bracket

theorem mem_around (solid : Text.isBlank c = false) {core : Text} {margins : Margins}
    (valid : margins.Valid) :
    c ∈ margins.around core ↔ c ∈ core ∨ (margins.gaps ≠ [] ∧ c ∈ ['[', ']']) := by
  rw [Margins.around, List.mem_append, List.mem_append, mem_arrayText solid valid.gaps]
  simp [valid.before.not_mem solid, valid.after.not_mem solid]

theorem mem_appliedText {name : Text} {args : List Text} :
    c ∈ appliedText name args ↔
      c ∈ name ∨ c = '<' ∨ ((∃ arg ∈ args, c ∈ arg) ∨ (2 ≤ args.length ∧ c ∈ [','])) ∨ c = '>' := by
  rw [appliedText, List.mem_append, List.mem_append, List.mem_cons, Text.mem_joinWith]
  simp only [List.mem_singleton, or_assoc]

/-- Apart from blanks a layout has the letters that it has without blanks. -/
theorem Layout.Valid.mem_solid (solid : Text.isBlank c = false) {layout : Layout}
    (valid : layout.Valid) : c ∈ layout.solid.text ↔ c ∈ layout.text := by
  induction valid with
  | @leaf margins word blank _ =>
      have plain := margins.plain_valid Blank.nil
      rw [Layout.solid, text_eq, text_eq]
      rw [show (Layout.leaf (margins.plain []) word).margins = margins.plain [] from rfl,
        mem_around solid plain, show (Layout.leaf margins word).margins = margins from rfl,
        mem_around solid blank]
      simp [Margins.plain, core]
  | @applied margins name args blank _ _ _ ih =>
      have plain := margins.plain_valid Blank.nil
      have same : (∃ arg ∈ (args.map Layout.solid).map Layout.text, c ∈ arg) ↔
          ∃ arg ∈ args.map Layout.text, c ∈ arg := by
        rw [List.map_map]
        constructor
        · rintro ⟨_, inside, member⟩
          obtain ⟨arg, given, rfl⟩ := List.mem_map.mp inside
          exact ⟨arg.text, List.mem_map_of_mem given, (ih arg given).mp member⟩
        · rintro ⟨_, inside, member⟩
          obtain ⟨arg, given, rfl⟩ := List.mem_map.mp inside
          exact ⟨arg.solid.text, List.mem_map.mpr ⟨arg, given, rfl⟩, (ih arg given).mpr member⟩
      rw [Layout.solid, solidAll_eq_map, text_eq, text_eq]
      rw [show (Layout.applied (margins.plain []) name (args.map Layout.solid)).margins =
          margins.plain [] from rfl, mem_around solid plain,
        show (Layout.applied margins name args).margins = margins from rfl,
        mem_around solid blank, core, core, mem_appliedText, mem_appliedText, same]
      simp [Margins.plain]

theorem Layout.mem_text_of_solid (solid : Text.isBlank c = false) {first second : Layout}
    (valid : first.Valid) (other : second.Valid) (same : first.solid = second.solid) :
    c ∈ first.text ↔ c ∈ second.text := by
  rw [← valid.mem_solid solid, same, other.mem_solid solid]

theorem Layout.Valid.mem_canonical (solid : Text.isBlank c = false) {layout : Layout}
    (valid : layout.Valid) : c ∈ layout.type.canonical ↔ c ∈ layout.text := by
  have text := valid.text_plainAfter []
  rw [List.nil_append] at text
  rw [← text]
  exact mem_text_of_solid solid (valid.plainAfter Blank.nil) valid (solid_plainAfter valid [])

/-- The name of the definition that a type refers to has no letter that the type has not. -/
theorem mem_reference {fragment name : Text} {type : TypeExpr}
    (read : parseFragment fragment = .ok type) (refers : type.reference? = some name)
    (solid : Text.isBlank c = false) (member : c ∈ name) : c ∈ fragment := by
  obtain ⟨layout, valid, rfl, rfl⟩ := exists_layout read
  have inner := valid.inner.mem_canonical solid
  rw [Layout.type_inner] at inner
  have named : c ∈ layout.type.innermost.canonical := by
    rw [reference?] at refers
    split at refers
    · next source base args same =>
      rw [same]
      cases refers
      exact member
    · cases refers
  have part := inner.mp named
  rw [Layout.text_eq, Layout.inner, Layout.margins_within, Layout.core_within] at part
  rw [Layout.text_eq]
  exact core_subset_around _ _ (by simpa [Margins.around, arrayText] using part)

/-- The normal spelling of an argument has no letter that the whole type has not. -/
theorem mem_argument {fragment source name : Text} {args : List TypeExpr}
    (read : parseFragment fragment = .ok (.object source name args)) {arg : TypeExpr}
    (given : arg ∈ args) (solid : Text.isBlank c = false) (member : c ∈ arg.canonical) :
    c ∈ fragment := by
  obtain ⟨margins, ⟨-, -, rfl⟩ | ⟨layouts, valid, rfl, rfl⟩⟩ := exists_object_layout read
  · cases given
  · obtain ⟨part, inside, rfl⟩ := List.mem_map.mp given
    cases valid with
    | applied _ _ _ valid =>
        have own := ((valid part inside).mem_canonical solid).mp member
        rw [Layout.text_eq]
        exact core_subset_around _ _ (arg_subset_appliedText _ (List.mem_map_of_mem inside) own)

end Letters

end TypeExpr

end ApiSchema
