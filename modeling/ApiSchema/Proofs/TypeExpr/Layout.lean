import ApiSchema.Proofs.TypeExpr.Form
import ApiSchema.Proofs.TypeExpr.Arguments

set_option autoImplicit false

namespace ApiSchema.TypeExpr

open Text (Blank Tight trim)

/-- The blanks around a type: before it, before each of its `[]` from the last to the first, and
behind it. -/
structure Margins where
  before : Text
  gaps : List Text
  after : Text

/-- The text of an array whose items are written `core`; no gaps, no array. -/
def arrayText (core : Text) : List Text → Text
  | [] => core
  | gap :: gaps => arrayText core gaps ++ gap ++ ['[', ']']

def arrayType (core : Text) (item : TypeExpr) : List Text → TypeExpr
  | [] => item
  | gap :: gaps => .array (arrayText core (gap :: gaps)) (arrayType core item gaps)

namespace Margins

def around (margins : Margins) (core : Text) : Text :=
  margins.before ++ arrayText core margins.gaps ++ margins.after

structure Valid (margins : Margins) : Prop where
  before : Blank margins.before
  gaps : ∀ gap ∈ margins.gaps, Blank gap
  after : Blank margins.after

end Margins

/-- A type expression on the page. -/
inductive Layout
  | leaf (margins : Margins) (word : Word)
  | applied (margins : Margins) (name : Text) (args : List Layout)

/-- The word with another spelling of its name; only names of object types are names. -/
def Word.render (spell : Text → Text) : Word → Text
  | named name => spell name
  | primitive base => base.name
  | tagged base format => base.name ++ '#' :: format

def appliedText (name : Text) (args : List Text) : Text :=
  name ++ '<' :: Text.joinWith [','] args ++ ['>']

namespace Layout

def margins : Layout → Margins
  | leaf margins _ => margins
  | applied margins _ _ => margins

/-- The same type with other blanks around it. -/
def within (margins : Margins) : Layout → Layout
  | leaf _ word => leaf margins word
  | applied _ name args => applied margins name args

mutual

/-- The text with every name of an object type spelled as `spell` says. -/
def render (spell : Text → Text) : Layout → Text
  | leaf margins word => margins.around (word.render spell)
  | applied margins name args =>
    margins.around (appliedText (spell name) (renderAll spell args))

def renderAll (spell : Text → Text) : List Layout → List Text
  | [] => []
  | first :: rest => first.render spell :: renderAll spell rest

end

def text (layout : Layout) : Text := layout.render id

def core : Layout → Text
  | leaf _ word => word.text
  | applied _ name args => appliedText name (args.map text)

def renderCore (spell : Text → Text) : Layout → Text
  | leaf _ word => word.render spell
  | applied _ name args => appliedText (spell name) (args.map (render spell))

mutual

def type : Layout → TypeExpr
  | leaf margins word => arrayType word.text word.type margins.gaps
  | applied margins name args =>
    let core := appliedText name (renderAll id args)
    arrayType core (.object core name (typeAll args)) margins.gaps

def typeAll : List Layout → List TypeExpr
  | [] => []
  | first :: rest => first.type :: typeAll rest

end

inductive Valid : Layout → Prop
  | leaf {margins : Margins} {word : Word} (blank : margins.Valid) (valid : word.Valid) :
    Valid (leaf margins word)
  | applied {margins : Margins} {name : Text} {args : List Layout} (blank : margins.Valid)
    (word : isTypeName name = true) (some_arg : args ≠ []) (valid : ∀ arg ∈ args, Valid arg) :
    Valid (applied margins name args)

@[simp] theorem renderAll_eq_map (spell : Text → Text) (args : List Layout) :
    renderAll spell args = args.map (render spell) := by
  induction args with
  | nil => rfl
  | cons first rest ih => simp [renderAll, ih]

@[simp] theorem typeAll_eq_map (args : List Layout) : typeAll args = args.map type := by
  induction args with
  | nil => rfl
  | cons first rest ih => simp [typeAll, ih]

def item : Layout → TypeExpr
  | leaf _ word => word.type
  | applied margins name args => .object (applied margins name args).core name (args.map type)

theorem render_leaf (spell : Text → Text) (margins : Margins) (word : Word) :
    (leaf margins word).render spell = margins.around (word.render spell) := by
  rw [render]

theorem render_applied (spell : Text → Text) (margins : Margins) (name : Text)
    (args : List Layout) : (applied margins name args).render spell =
      margins.around (appliedText (spell name) (args.map (render spell))) := by
  rw [render, renderAll_eq_map]

theorem render_eq (spell : Text → Text) (layout : Layout) :
    layout.render spell = layout.margins.around (layout.renderCore spell) := by
  cases layout with
  | leaf margins word => exact render_leaf spell margins word
  | applied margins name args => exact render_applied spell margins name args

theorem text_eq (layout : Layout) : layout.text = layout.margins.around layout.core := by
  cases layout with
  | leaf margins word =>
      rw [text, render_leaf]
      cases word <;> rfl
  | applied margins name args =>
      rw [text, render_applied]
      rfl

theorem type_eq (layout : Layout) :
    layout.type = arrayType layout.core layout.item layout.margins.gaps := by
  cases layout with
  | leaf margins word =>
      rw [type]
      rfl
  | applied margins name args =>
      simp only [type, renderAll_eq_map, typeAll_eq_map]
      rfl

@[simp] theorem core_within (margins : Margins) (layout : Layout) :
    (layout.within margins).core = layout.core := by
  cases layout <;> rfl

@[simp] theorem item_within (margins : Margins) (layout : Layout) :
    (layout.within margins).item = layout.item := by
  cases layout <;> rfl

@[simp] theorem margins_within (margins : Margins) (layout : Layout) :
    (layout.within margins).margins = margins := by
  cases layout <;> rfl

theorem Valid.margins {layout : Layout} (valid : layout.Valid) : layout.margins.Valid := by
  cases valid with
  | leaf blank => exact blank
  | applied blank => exact blank

theorem Valid.within {layout : Layout} (valid : layout.Valid) {margins : Margins}
    (blank : margins.Valid) : (layout.within margins).Valid := by
  cases valid with
  | leaf _ word => exact .leaf blank word
  | applied _ word some_arg args => exact .applied blank word some_arg args

end Layout

theorem formatPart_solid {c : Char} (part : isFormatPart c = true) : Text.isBlank c = false := by
  simp only [isFormatPart, Bool.and_eq_true] at part
  simpa using part.1

theorem Word.tight {word : Word} (valid : word.Valid) : Tight word.text := by
  apply Tight.of_all (text_ne_nil valid)
  intro c member
  rcases text_part valid c member with part | rfl | part
  · exact identifierPart_solid part
  · decide
  · exact formatPart_solid part

theorem appliedText_tight {name : Text} (word : isTypeName name = true) (args : List Text) :
    Tight (appliedText name args) := by
  have identifier := (isTypeName_iff.mp word).1
  obtain ⟨first, rest, rfl⟩ := List.exists_cons_of_ne_nil (isIdentifier_ne_nil identifier)
  have solid := identifierPart_solid (isIdentifier_part identifier first (by simp))
  exact Tight.of_ends first (rest ++ '<' :: Text.joinWith [','] args) '>' (by simp [appliedText])
    solid (by decide)

theorem Layout.Valid.core_tight {layout : Layout} (valid : layout.Valid) : Tight layout.core := by
  cases valid with
  | leaf _ word => exact Word.tight word
  | applied _ word => exact appliedText_tight word _

theorem arrayText_tight {core : Text} (tight : Tight core) (gaps : List Text) :
    Tight (arrayText core gaps) := by
  cases gaps with
  | nil => exact tight
  | cons gap gaps =>
      have inner : ∀ gaps, ∃ c rest, arrayText core gaps = c :: rest ∧ Text.isBlank c = false := by
        intro gaps
        induction gaps with
        | nil =>
            obtain ⟨c, start, solid⟩ := tight.first
            obtain ⟨rest, same⟩ := List.head?_eq_some_iff.mp start
            exact ⟨c, rest, same, solid⟩
        | cons gap gaps ih =>
            obtain ⟨c, rest, same, solid⟩ := ih
            exact ⟨c, rest ++ gap ++ ['[', ']'], by simp [arrayText, same], solid⟩
      obtain ⟨c, rest, same, solid⟩ := inner gaps
      exact Tight.of_ends c (rest ++ gap ++ ['[']) ']' (by simp [arrayText, same]) solid (by decide)

/-- A core that is read alike wherever it stands is read alike within margins. -/
theorem parseFragment_margins {core : Text} {item : TypeExpr} (tight : Tight core)
    (read : ∀ fragment, trim fragment = core → parseFragment fragment = .ok item)
    {gaps : List Text} (blank : ∀ gap ∈ gaps, Blank gap) {before after : Text}
    (front : Blank before) (back : Blank after) :
    parseFragment (before ++ arrayText core gaps ++ after) = .ok (arrayType core item gaps) := by
  induction gaps generalizing before after with
  | nil => exact read _ (Text.trim_padded front tight back)
  | cons gap gaps ih =>
      have trimmed := Text.trim_padded front (arrayText_tight tight (gap :: gaps)) back
      have inner := ih (fun other member => blank other (by simp [member])) Blank.nil
        (blank gap (by simp))
      have whole := parseFragment_array (trimmed.trans rfl) inner
      rwa [trimmed] at whole

theorem Layout.parseFragment_text {layout : Layout} (valid : layout.Valid)
    (read : ∀ fragment, trim fragment = layout.core → parseFragment fragment = .ok layout.item) :
    parseFragment layout.text = .ok layout.type := by
  rw [text_eq, type_eq]
  exact parseFragment_margins valid.core_tight read valid.margins.gaps valid.margins.before
    valid.margins.after

theorem Blank.uncut {text : Text} (blank : Blank text) : Uncut 0 text := by
  apply Uncut.plain
  intro c member
  have is_blank := blank c member
  refine ⟨?_, ?_, ?_⟩ <;> rintro rfl <;> revert is_blank <;> decide

theorem uncut_arrayText {core : Text} (uncut : Uncut 0 core) {gaps : List Text}
    (blank : ∀ gap ∈ gaps, Blank gap) : Uncut 0 (arrayText core gaps) := by
  induction gaps with
  | nil => exact uncut
  | cons gap gaps ih =>
      have inner := ih fun other member => blank other (by simp [member])
      exact (inner.append (Blank.uncut (blank gap (by simp)))).append
        (Uncut.plain 0 (by simp))

theorem Margins.Valid.uncut {margins : Margins} (valid : margins.Valid) {core : Text}
    (uncut : Uncut 0 core) : Uncut 0 (margins.around core) :=
  ((Blank.uncut valid.before).append (uncut_arrayText uncut valid.gaps)).append
    (Blank.uncut valid.after)

theorem isIdentifier_uncut {name : Text} (identifier : isIdentifier name = true) :
    Uncut 0 name := by
  apply Uncut.plain
  intro c member
  have part := isIdentifier_part identifier c member
  refine ⟨?_, ?_, ?_⟩ <;> rintro rfl <;> revert part <;> decide

theorem Word.uncut {word : Word} (valid : word.Valid) : Uncut 0 word.text := by
  apply Uncut.plain
  intro c member
  refine ⟨?_, ?_, ?_⟩
  · rintro rfl
    exact text_not_mem valid (by decide) member
  · rintro rfl
    exact text_not_mem valid (by decide) member
  · rintro rfl
    exact text_not_mem valid (by decide) member

theorem appliedText_uncut {name : Text} (uncut : Uncut 0 name) {args : List Text}
    (each : ∀ arg ∈ args, Uncut 0 arg) : Uncut 0 (appliedText name args) := by
  rw [appliedText, List.append_assoc]
  exact uncut.append (Uncut.brackets (Uncut.join each))

/-- No cut of an argument list goes through a type. -/
theorem Layout.Valid.uncut {layout : Layout} (valid : layout.Valid) : Uncut 0 layout.text := by
  induction valid with
  | leaf blank word =>
      rw [text_eq]
      exact blank.uncut (Word.uncut word)
  | @applied margins name args blank word _ _ ih =>
      rw [text_eq]
      refine blank.uncut (appliedText_uncut (isIdentifier_uncut (isTypeName_iff.mp word).1) ?_)
      intro arg member
      obtain ⟨layout, inside, rfl⟩ := List.mem_map.mp member
      exact ih layout inside

/-- The text of a valid layout is read as the type of that layout. -/
theorem Layout.Valid.parse {layout : Layout} (valid : layout.Valid) :
    parseFragment layout.text = .ok layout.type := by
  induction valid with
  | leaf blank word =>
      apply parseFragment_text (.leaf blank word)
      intro fragment spelled
      exact parseFragment_word word spelled
  | @applied margins name args blank word some_arg valid ih =>
      apply parseFragment_text (.applied blank word some_arg valid)
      intro fragment spelled
      have parts : splitArguments (Text.joinWith [','] (args.map text)) =
          some (args.map text) := by
        apply splitArguments_join (by simpa using some_arg)
        intro arg member
        obtain ⟨layout, inside, rfl⟩ := List.mem_map.mp member
        exact (valid layout inside).uncut
      have read : parseAll (args.map text) = .ok (args.map type) := by
        rw [parseAll_eq_ok_iff, List.map_map, List.map_map]
        exact List.map_congr_left fun layout inside => ih layout inside
      change parseFragment fragment =
        .ok (.object (Layout.applied margins name args).core name (args.map type))
      rw [← spelled]
      exact parseFragment_applied spelled word parts read

theorem exists_layouts {fragments : List Text} {types : List TypeExpr}
    (read : fragments.map parseFragment = types.map .ok)
    (each : ∀ fragment ∈ fragments, ∀ type, parseFragment fragment = .ok type →
      ∃ layout : Layout, layout.Valid ∧ layout.text = fragment ∧ layout.type = type) :
    ∃ layouts : List Layout, (∀ layout ∈ layouts, layout.Valid) ∧
      layouts.map Layout.text = fragments ∧ layouts.map Layout.type = types := by
  induction fragments generalizing types with
  | nil =>
      cases types with
      | nil => exact ⟨[], by simp, rfl, rfl⟩
      | cons type types => simp at read
  | cons fragment fragments ih =>
      cases types with
      | nil => simp at read
      | cons type types =>
          simp only [List.map_cons, List.cons.injEq] at read
          obtain ⟨layout, valid, text, same⟩ := each fragment (by simp) type read.1
          obtain ⟨layouts, valids, texts, sames⟩ := ih read.2
            fun other member => each other (by simp [member])
          refine ⟨layout :: layouts, ?_, by simp [text, texts], by simp [same, sames]⟩
          intro other member
          rcases List.mem_cons.mp member with rfl | member
          · exact valid
          · exact valids other member

/-- What stands before a suffix begins without blanks if the whole does. -/
theorem before_eq_nil {before : Text} (blank : Blank before) (rest : Text)
    (tight : Tight (before ++ rest)) : before = [] := by
  cases before with
  | nil => rfl
  | cons c before =>
      obtain ⟨d, start, solid⟩ := tight.first
      simp only [List.cons_append, List.head?_cons, Option.mem_some] at start
      rw [← start, blank c (by simp)] at solid
      cases solid

/-- A layout with brackets behind it is that of an array. -/
theorem Layout.Valid.exists_array {layout : Layout} (valid : layout.Valid) {fragment : Text}
    (spelled : trim fragment = layout.text ++ ['[', ']']) :
    ∃ whole : Layout, whole.Valid ∧ whole.text = fragment ∧
      whole.type = .array (trim fragment) layout.type := by
  obtain ⟨before, after, front, back, whole⟩ := Text.exists_margins fragment
  have tight := Text.trim_tight fragment (by simp [spelled])
  have shape := layout.text_eq
  rw [Margins.around] at shape
  have start : layout.margins.before = [] := by
    apply before_eq_nil valid.margins.before (arrayText layout.core layout.margins.gaps ++
      layout.margins.after ++ ['[', ']'])
    rw [spelled, shape] at tight
    simpa only [List.append_assoc] using tight
  rw [start, List.nil_append] at shape
  have outer : (Margins.mk before (layout.margins.after :: layout.margins.gaps) after).Valid := by
    refine ⟨front, ?_, back⟩
    intro gap member
    rcases List.mem_cons.mp member with rfl | member
    · exact valid.margins.after
    · exact valid.margins.gaps gap member
  refine ⟨layout.within _, valid.within outer, ?_, ?_⟩
  · rw [Layout.text_eq, Layout.margins_within, Layout.core_within, whole, spelled, shape]
    rfl
  · rw [Layout.type_eq, Layout.margins_within, Layout.core_within, Layout.item_within,
      layout.type_eq, spelled, shape]
    rfl

theorem exists_layout {fragment : Text} {type : TypeExpr}
    (read : parseFragment fragment = .ok type) :
    ∃ layout : Layout, layout.Valid ∧ layout.text = fragment ∧ layout.type = type := by
  apply parseFragment_induction (motive := fun fragment type =>
    ∃ layout : Layout, layout.Valid ∧ layout.text = fragment ∧ layout.type = type)
    ?word ?array ?applied read
  case word =>
    intro fragment word valid spelled
    obtain ⟨before, after, front, back, whole⟩ := Text.exists_margins fragment
    have blank : (Margins.mk before [] after).Valid := ⟨front, by simp, back⟩
    refine ⟨.leaf ⟨before, [], after⟩ word, .leaf blank valid, ?_, ?_⟩
    · rw [Layout.text_eq, whole, spelled]
      rfl
    · rw [Layout.type_eq]
      rfl
  case array =>
    intro fragment item inner spelled _ found
    obtain ⟨layout, valid, text, type_same⟩ := found
    subst text
    obtain ⟨outer, outer_valid, outer_text, outer_type⟩ := valid.exists_array spelled
    exact ⟨outer, outer_valid, outer_text, by rw [outer_type, type_same]⟩
  case applied =>
    intro fragment name inner args types spelled word cut inside each
    obtain ⟨before, after, front, back, whole⟩ := Text.exists_margins fragment
    have blank : (Margins.mk before [] after).Valid := ⟨front, by simp, back⟩
    have joined := joinWith_splitAtDepth cut
    have some_arg := splitAtDepth_ne_nil cut
    obtain ⟨layouts, valids, texts, sames⟩ := exists_layouts (parseAll_eq_ok_iff.mp inside)
      fun arg member argType argRead => each arg member argType argRead
    have core : appliedText name (layouts.map Layout.text) = trim fragment := by
      rw [appliedText, texts, joined, spelled]
    refine ⟨.applied ⟨before, [], after⟩ name layouts, .applied blank word ?_ valids, ?_, ?_⟩
    · rintro rfl
      exact some_arg texts.symm
    · rw [Layout.text_eq]
      change before ++ appliedText name (layouts.map Layout.text) ++ after = fragment
      rw [core]
      exact whole.symm
    · rw [Layout.type_eq, ← core, ← sames]
      rfl

end ApiSchema.TypeExpr
