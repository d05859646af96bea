import ApiSchema.Proofs.TypeExpr.Layout

set_option autoImplicit false

namespace ApiSchema.TypeExpr

open Text (Blank)

namespace Margins

def plain (before : Text) (margins : Margins) : Margins :=
  ⟨before, margins.gaps.map fun _ => [], []⟩

theorem plain_valid {before : Text} (blank : Blank before) (margins : Margins) :
    (margins.plain before).Valid := by
  refine ⟨blank, ?_, Blank.nil⟩
  intro gap member
  obtain ⟨-, -, rfl⟩ := List.mem_map.mp member
  exact Blank.nil

@[simp] theorem plain_plain (first second : Text) (margins : Margins) :
    (margins.plain first).plain second = margins.plain second := by
  simp [plain]

end Margins

namespace Layout

mutual

def solid : Layout → Layout
  | leaf margins word => leaf (margins.plain []) word
  | applied margins name args => applied (margins.plain []) name (solidAll args)

def solidAll : List Layout → List Layout
  | [] => []
  | first :: rest => first.solid :: solidAll rest

end

mutual

/-- The layout with no blanks but `before` in front and one behind each comma. -/
def plainAfter (before : Text) : Layout → Layout
  | leaf margins word => leaf (margins.plain before) word
  | applied margins name args => applied (margins.plain before) name (plainAll [] args)

def plainAll (before : Text) : List Layout → List Layout
  | [] => []
  | first :: rest => first.plainAfter before :: plainAll [' '] rest

end

def plain (layout : Layout) : Layout := layout.plainAfter []

@[simp] theorem solidAll_eq_map (args : List Layout) : solidAll args = args.map solid := by
  induction args with
  | nil => rfl
  | cons first rest ih => simp [solidAll, ih]

theorem plainAll_blank (args : List Layout) :
    plainAll [' '] args = args.map (plainAfter [' ']) := by
  induction args with
  | nil => rfl
  | cons first rest ih => simp [plainAll, ih]

@[simp] theorem plainAll_cons (before : Text) (first : Layout) (rest : List Layout) :
    plainAll before (first :: rest) = first.plainAfter before :: rest.map (plainAfter [' ']) := by
  rw [plainAll, plainAll_blank]

theorem mem_plainAll {before : Text} {args : List Layout} {layout : Layout}
    (member : layout ∈ plainAll before args) :
    ∃ arg ∈ args, ∃ space, (space = before ∨ space = [' ']) ∧ layout = arg.plainAfter space := by
  cases args with
  | nil => cases member
  | cons first rest =>
      rw [plainAll_cons] at member
      rcases List.mem_cons.mp member with rfl | member
      · exact ⟨first, by simp, before, Or.inl rfl, rfl⟩
      · obtain ⟨arg, inside, rfl⟩ := List.mem_map.mp member
        exact ⟨arg, by simp [inside], [' '], Or.inr rfl, rfl⟩

theorem blank_space : Blank [' '] := .singleton (by decide)

theorem Valid.plainAfter {layout : Layout} (valid : layout.Valid) {before : Text}
    (blank : Blank before) : (layout.plainAfter before).Valid := by
  induction valid generalizing before with
  | @leaf margins _ _ word =>
      rw [Layout.plainAfter]
      exact .leaf (margins.plain_valid blank) word
  | @applied margins name args _ word some_arg _ ih =>
      rw [Layout.plainAfter]
      refine .applied (margins.plain_valid blank) word ?_ ?_
      · cases args with
        | nil => exact absurd rfl some_arg
        | cons first rest => simp
      · intro layout member
        obtain ⟨arg, inside, space, spaced, rfl⟩ := mem_plainAll member
        rcases spaced with rfl | rfl
        · exact ih arg inside Blank.nil
        · exact ih arg inside blank_space

theorem solid_plainAfter {layout : Layout} (valid : layout.Valid) (before : Text) :
    (layout.plainAfter before).solid = layout.solid := by
  induction valid generalizing before with
  | leaf => simp [plainAfter, solid]
  | @applied margins name args _ _ _ _ ih =>
      have same : (plainAll [] args).map solid = args.map solid := by
        cases args with
        | nil => rfl
        | cons first rest =>
            rw [plainAll_cons, List.map_cons, List.map_cons, ih first (by simp), List.map_map]
            congr 1
            exact List.map_congr_left fun arg inside => ih arg (by simp [inside]) [' ']
      simp [plainAfter, solid, same]

end Layout

theorem canonical_arrayType (core : Text) (item : TypeExpr) (gaps : List Text) :
    (arrayType core item gaps).canonical = arrayText item.canonical (gaps.map fun _ => []) := by
  induction gaps with
  | nil => rfl
  | cons gap gaps ih => simp [arrayType, arrayText, canonical, ih]

theorem canonical_word (word : Word) : word.type.canonical = word.text := by
  cases word with
  | primitive base =>
      have no_tag : '#' ∉ base.name := isIdentifier_not_mem (name_isIdentifier base) (by decide)
      simp [Word.type, Word.text, canonical, no_tag]
  | tagged base format => simp [Word.type, Word.text, canonical]
  | named name => simp [Word.type, Word.text, canonical, canonicalAll, bracketed]

theorem canonical_object (source name : Text) (args : List TypeExpr) :
    (object source name args).canonical = name ++ bracketed (args.map canonical) := by
  rw [canonical, canonicalAll_eq_map]

theorem canonical_object_cons (source name : Text) (first : TypeExpr) (rest : List TypeExpr) :
    (object source name (first :: rest)).canonical =
      appliedText name (first.canonical :: rest.map ([' '] ++ ·.canonical)) := by
  have spaced := Text.joinWith_append [','] [' '] first.canonical (rest.map canonical)
  rw [List.map_map] at spaced
  rw [canonical_object, List.map_cons, appliedText]
  change name ++ ('<' :: Text.joinWith ([','] ++ [' ']) (first.canonical :: rest.map canonical)
    ++ ['>']) = _
  rw [spaced, List.append_assoc]
  rfl

namespace Layout

theorem canonical_type (layout : Layout) :
    layout.type.canonical =
      arrayText layout.item.canonical (layout.margins.gaps.map fun _ => []) := by
  rw [type_eq, canonical_arrayType]

/-- The normal spelling is the text of the layout with normal blanks. -/
theorem Valid.text_plainAfter {layout : Layout} (valid : layout.Valid) (before : Text) :
    (layout.plainAfter before).text = before ++ layout.type.canonical := by
  induction valid generalizing before with
  | @leaf margins word _ _ =>
      rw [Layout.plainAfter, text_eq, canonical_type]
      change before ++ arrayText word.text (margins.gaps.map fun _ => []) ++ [] =
        before ++ arrayText word.type.canonical (margins.gaps.map fun _ => [])
      rw [canonical_word, List.append_nil]
  | @applied margins name args _ _ some_arg _ ih =>
      obtain ⟨first, rest, rfl⟩ := List.exists_cons_of_ne_nil some_arg
      have texts : (plainAll [] (first :: rest)).map text =
          first.type.canonical :: (rest.map type).map ([' '] ++ ·.canonical) := by
        rw [plainAll_cons, List.map_cons, ih first (by simp), List.map_map, List.map_map]
        congr 1
        exact List.map_congr_left fun arg inside => ih arg (by simp [inside]) [' ']
      rw [Layout.plainAfter, text_eq, canonical_type]
      change before ++ arrayText (appliedText name ((plainAll [] (first :: rest)).map text))
          (margins.gaps.map fun _ => []) ++ [] =
        before ++ arrayText (object _ name (first.type :: rest.map type)).canonical
          (margins.gaps.map fun _ => [])
      rw [texts, canonical_object_cons, List.append_nil]

/-- Blanks are no part of the normal spelling. -/
theorem Valid.canonical_solid {layout : Layout} (valid : layout.Valid) :
    layout.solid.type.canonical = layout.type.canonical := by
  induction valid with
  | @leaf margins word _ _ =>
      rw [canonical_type, canonical_type, Layout.solid]
      show arrayText word.type.canonical ((margins.gaps.map fun _ => []).map fun _ => []) = _
      rw [List.map_map]
      rfl
  | @applied margins name args _ _ _ _ ih =>
      have same : args.map (fun arg => arg.solid.type.canonical) =
          args.map fun arg => arg.type.canonical := List.map_congr_left ih
      rw [canonical_type, canonical_type, Layout.solid]
      simp [Layout.margins, item, Margins.plain, canonical_object, same, Function.comp_def]

/-- Layouts that differ in blanks only have the same normal spelling. -/
theorem canonical_eq_of_solid {first second : Layout} (valid : first.Valid) (other : second.Valid)
    (same : first.solid = second.solid) : first.type.canonical = second.type.canonical := by
  rw [← valid.canonical_solid, ← other.canonical_solid, same]

theorem Valid.parse_canonical {layout : Layout} (valid : layout.Valid) :
    parseFragment layout.type.canonical = .ok layout.plain.type := by
  have text := valid.text_plainAfter []
  rw [List.nil_append] at text
  rw [← text]
  exact (valid.plainAfter Blank.nil).parse

theorem Valid.canonical_plainAfter {layout : Layout} (valid : layout.Valid) {before : Text}
    (blank : Blank before) :
    (layout.plainAfter before).type.canonical = layout.type.canonical :=
  canonical_eq_of_solid (valid.plainAfter blank) valid (solid_plainAfter valid before)

theorem innermost_type (layout : Layout) : layout.type.innermost = layout.item := by
  rw [type_eq]
  generalize layout.margins.gaps = gaps
  induction gaps with
  | nil =>
      cases layout with
      | leaf margins word => cases word <;> rfl
      | applied margins name args => rfl
  | cons gap gaps ih => exact ih

def inner (layout : Layout) : Layout := layout.within ⟨[], [], []⟩

theorem Valid.inner {layout : Layout} (valid : layout.Valid) : layout.inner.Valid :=
  valid.within ⟨Blank.nil, by simp, Blank.nil⟩

theorem type_inner (layout : Layout) : layout.inner.type = layout.type.innermost := by
  rw [type_eq, innermost_type, inner, margins_within, item_within]
  rfl

theorem Valid.reference?_solid {layout : Layout} (valid : layout.Valid) :
    layout.solid.type.reference? = layout.type.reference? := by
  have same := valid.inner.canonical_solid
  rw [type_inner, innermost_type] at same
  rw [reference?, reference?, innermost_type, innermost_type]
  cases layout with
  | leaf margins word =>
      rw [Layout.solid]
      rfl
  | applied margins name args =>
      have whole : (Layout.applied margins name args).inner.solid.type =
          (Layout.applied margins name args).solid.item := by
        rw [type_eq]
        simp only [Layout.inner, Layout.solid]
        rfl
      rw [whole] at same
      simp only [Layout.solid, item] at same ⊢
      rw [same]

theorem reference?_eq_of_solid {first second : Layout} (valid : first.Valid)
    (other : second.Valid) (same : first.solid = second.solid) :
    first.type.reference? = second.type.reference? := by
  rw [← valid.reference?_solid, ← other.reference?_solid, same]

theorem canonicals_plainAll {args : List Layout} (valid : ∀ arg ∈ args, arg.Valid) {before : Text}
    (blank : Blank before) :
    (plainAll before args).map (·.type.canonical) = args.map (·.type.canonical) := by
  cases args with
  | nil => rfl
  | cons first rest =>
      have head := (valid first (by simp)).canonical_plainAfter blank
      rw [plainAll_cons, List.map_cons, List.map_cons, head, List.map_map]
      congr 1
      exact List.map_congr_left fun arg inside =>
        (valid arg (by simp [inside])).canonical_plainAfter blank_space

/-- A type in no array is its own normal spelling with normal blanks. -/
theorem Valid.source_plain {layout : Layout} (valid : layout.Valid) :
    layout.inner.plain.type = layout.inner.plain.item ∧
      layout.inner.plain.core = layout.item.canonical := by
  have text := valid.inner.text_plainAfter []
  have shape : layout.inner.plain.margins = ⟨[], [], []⟩ := by
    cases layout <;> rfl
  change layout.inner.plain.text = _ at text
  rw [text_eq, shape, type_inner, innermost_type] at text
  refine ⟨?_, by simpa [Margins.around, arrayText] using text⟩
  rw [type_eq, shape]
  rfl

end Layout

theorem innermost_read {fragment : Text} {type : TypeExpr}
    (read : parseFragment fragment = .ok type) :
    ∃ part, parseFragment part = .ok type.innermost := by
  obtain ⟨layout, valid, -, rfl⟩ := exists_layout read
  exact ⟨layout.inner.text, by rw [valid.inner.parse, Layout.type_inner]⟩

/-- An object type is read from its name, with arguments or alone, and from no array. -/
theorem exists_object_layout {fragment source name : Text} {args : List TypeExpr}
    (read : parseFragment fragment = .ok (.object source name args)) :
    ∃ margins : Margins,
      ((Layout.leaf margins (.named name)).Valid ∧
        (Layout.leaf margins (.named name)).text = fragment ∧ args = []) ∨
      ∃ layouts, (Layout.applied margins name layouts).Valid ∧
        (Layout.applied margins name layouts).text = fragment ∧ args = layouts.map Layout.type := by
  obtain ⟨layout, valid, spelled, same⟩ := exists_layout read
  have shape := congrArg innermost same
  rw [Layout.innermost_type] at shape
  cases layout with
  | leaf margins word =>
      cases word with
      | named other =>
          cases shape
          exact ⟨margins, Or.inl ⟨valid, spelled, rfl⟩⟩
      | primitive base => cases shape
      | tagged base format => cases shape
  | applied margins other layouts =>
      cases shape
      exact ⟨margins, Or.inr ⟨layouts, valid, spelled, rfl⟩⟩

theorem object_name_read {fragment source name : Text} {args : List TypeExpr}
    (read : parseFragment fragment = .ok (.object source name args)) : isTypeName name = true := by
  obtain ⟨margins, ⟨valid, -, -⟩ | ⟨layouts, valid, -, -⟩⟩ := exists_object_layout read
  · cases valid with
    | leaf _ word => exact word
  · cases valid with
    | applied _ word _ _ => exact word

theorem argument_read {fragment source name : Text} {args : List TypeExpr}
    (read : parseFragment fragment = .ok (.object source name args)) {arg : TypeExpr}
    (member : arg ∈ args) : ∃ part, parseFragment part = .ok arg := by
  obtain ⟨margins, ⟨-, -, rfl⟩ | ⟨layouts, valid, -, rfl⟩⟩ := exists_object_layout read
  · cases member
  · obtain ⟨layout, inside, rfl⟩ := List.mem_map.mp member
    cases valid with
    | applied _ _ _ valid => exact ⟨layout.text, (valid layout inside).parse⟩

/-- The normal spelling of a type that was read is read as a type with the same normal spelling,
which refers to the same definition. -/
theorem canonical_read {fragment : Text} {type : TypeExpr}
    (read : parseFragment fragment = .ok type) :
    ∃ again, parseFragment type.canonical = .ok again ∧ again.canonical = type.canonical ∧
      again.reference? = type.reference? := by
  obtain ⟨layout, valid, -, rfl⟩ := exists_layout read
  have plain := valid.plainAfter Blank.nil
  have same := Layout.solid_plainAfter valid []
  exact ⟨layout.plain.type, valid.parse_canonical,
    Layout.canonical_eq_of_solid plain valid same,
    Layout.reference?_eq_of_solid plain valid same⟩

/-- An object type's normal spelling is read as that name with arguments of the same normal
spellings. So it determines the name and them. -/
theorem object_canonical_read {fragment source name : Text} {args : List TypeExpr}
    (read : parseFragment fragment = .ok (.object source name args)) :
    ∃ again, parseFragment (object source name args).canonical =
        .ok (.object (object source name args).canonical name again) ∧
      again.map canonical = args.map canonical := by
  obtain ⟨layout, valid, -, same⟩ := exists_layout read
  have shape := congrArg innermost same
  rw [Layout.innermost_type] at shape
  change layout.item = object source name args at shape
  obtain ⟨whole, core⟩ := valid.source_plain
  have parsed := valid.inner.parse_canonical
  rw [Layout.type_inner, Layout.innermost_type, whole] at parsed
  rw [← shape, parsed, ← core]
  cases valid with
  | @leaf margins word _ _ =>
      cases word with
      | named other =>
          cases shape
          exact ⟨[], rfl, rfl⟩
      | primitive base => cases shape
      | tagged base format => cases shape
  | @applied margins _ layouts _ _ _ valid =>
      cases shape
      refine ⟨(Layout.plainAll [] layouts).map Layout.type, rfl, ?_⟩
      rw [List.map_map, List.map_map]
      exact Layout.canonicals_plainAll valid Blank.nil

/-- The normal spelling of an object type tells its name and the normal spellings of its
arguments. -/
theorem object_canonical_inj {fragment other source name origin another : Text}
    {args others : List TypeExpr} (read : parseFragment fragment = .ok (.object source name args))
    (read_other : parseFragment other = .ok (.object origin another others))
    (same : (object source name args).canonical = (object origin another others).canonical) :
    name = another ∧ args.map canonical = others.map canonical := by
  obtain ⟨again, reread, spelled⟩ := object_canonical_read read
  obtain ⟨once_more, reread_other, spelled_other⟩ := object_canonical_read read_other
  rw [same, reread_other, Except.ok.injEq, object.injEq] at reread
  obtain ⟨-, rfl, rfl⟩ := reread
  exact ⟨rfl, spelled.symm.trans spelled_other⟩

end ApiSchema.TypeExpr
