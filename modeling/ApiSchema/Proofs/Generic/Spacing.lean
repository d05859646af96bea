import ApiSchema.Generic.Marking
import ApiSchema.Proofs.TypeExpr.Canonical

set_option autoImplicit false

namespace ApiSchema

namespace Text

theorem pieces_ne_nil (mark : Char) (text : Text) : pieces mark text ≠ [] := by
  cases text with
  | nil => simp [pieces]
  | cons c rest =>
      rw [pieces]
      split
      · simp
      · split <;> simp

theorem pieces_of_free {mark : Char} {text : Text} (free : mark ∉ text) :
    pieces mark text = [text] := by
  induction text with
  | nil => rfl
  | cons c rest ih =>
      have other : ¬ c = mark := fun same => free (by simp [same])
      have tail := ih fun member => free (List.mem_cons_of_mem c member)
      rw [pieces, if_neg other, tail]

theorem pieces_append (mark : Char) (front back : Text) :
    pieces mark (front ++ mark :: back) = pieces mark front ++ pieces mark back := by
  induction front with
  | nil => simp [pieces]
  | cons c rest ih =>
      by_cases same : c = mark
      · simp [pieces, same, ih]
      · obtain ⟨piece, more, parts⟩ := List.exists_cons_of_ne_nil (pieces_ne_nil mark rest)
        rw [List.cons_append, pieces, if_neg same, pieces, if_neg same, ih, parts]
        rfl

theorem joinWith_append_of_ne_nil (separator : Text) {front back : List Text}
    (some_front : front ≠ []) (some_back : back ≠ []) :
    joinWith separator (front ++ back) =
      joinWith separator front ++ separator ++ joinWith separator back := by
  induction front with
  | nil => exact absurd rfl some_front
  | cons text rest ih =>
      cases rest with
      | nil => exact joinWith_cons separator text some_back
      | cons next rest =>
          have tail := ih (by simp)
          rw [List.cons_append, joinWith_cons separator text (by simp), tail,
            joinWith_cons_cons]
          simp only [List.append_assoc]

/-- The last character of a text, if it is another than `d`, stands behind every `d`. -/
theorem last_behind {front text : Text} {c d : Char} (ends : c ∈ (front ++ d :: text).getLast?)
    (other : c ≠ d) : c ∈ text.getLast? := by
  rcases List.eq_nil_or_concat text with rfl | ⟨more, e, rfl⟩
  · rw [List.getLast?_concat, Option.mem_some] at ends
    exact absurd ends.symm other
  · rw [List.concat_eq_append, ← List.cons_append, ← List.append_assoc,
      List.getLast?_concat] at ends
    rwa [List.concat_eq_append, List.getLast?_concat]

/-- A text has no comma, or there is a part without one before its first. -/
theorem comma_cases (text : Text) :
    ',' ∉ text ∨ ∃ front back, ',' ∉ front ∧ text = front ++ ',' :: back := by
  cases found : cutAt? ',' text with
  | none => exact Or.inl (cutAt?_eq_none_iff.mp found)
  | some parts =>
      exact Or.inr ⟨parts.1, parts.2, not_mem_of_cutAt? found, eq_append_of_cutAt? found⟩

/-- What holds of texts without commas, and in front of a comma, holds of every text. -/
theorem comma_induction {motive : Text → Prop} (free : ∀ text, ',' ∉ text → motive text)
    (comma : ∀ front back, ',' ∉ front → motive back → motive (front ++ ',' :: back))
    (text : Text) : motive text := by
  induction length : text.length using Nat.strongRecOn generalizing text with
  | ind size ih =>
      rcases comma_cases text with apart | ⟨front, back, apart, rfl⟩
      · exact free text apart
      · refine comma front back apart (ih back.length ?_ back rfl)
        rw [← length]
        simp only [List.length_append, List.length_cons]
        omega

end Text

namespace Generic

open Text (Blank Tight trim)

/-- Neither end of the text is a blank or a comma. -/
structure Firm (text : Text) : Prop where
  first : ∃ c ∈ text.head?, Text.isBlank c = false ∧ c ≠ ','
  last : ∃ c ∈ text.getLast?, Text.isBlank c = false ∧ c ≠ ','

namespace Firm

theorem tight {text : Text} (firm : Firm text) : Tight text := by
  obtain ⟨c, start, solid, -⟩ := firm.first
  obtain ⟨d, finish, firmly, -⟩ := firm.last
  exact ⟨⟨c, start, solid⟩, ⟨d, finish, firmly⟩⟩

theorem of_free {text : Text} (tight : Tight text) (free : ',' ∉ text) : Firm text := by
  obtain ⟨⟨c, start, solid⟩, ⟨d, finish, firmly⟩⟩ := tight
  refine ⟨⟨c, start, solid, ?_⟩, ⟨d, finish, firmly, ?_⟩⟩
  · rintro rfl
    exact free (List.mem_of_mem_head? start)
  · rintro rfl
    exact free (List.mem_of_mem_getLast? finish)

/-- The ends of two firm texts are the ends of what holds them apart. -/
theorem append {front middle back : Text} (first : Firm front) (last : Firm back) :
    Firm (front ++ middle ++ back) := by
  refine ⟨?_, Text.last_append last.last _⟩
  rw [List.append_assoc]
  exact Text.head_append first.first _

end Firm

theorem spaceCommas_of_free {text : Text} (free : ',' ∉ text) : spaceCommas text = trim text := by
  rw [spaceCommas, Text.pieces_of_free free]
  rfl

/-- The two sides of a comma are spaced apart from each other. -/
theorem spaceCommas_comma (front back : Text) :
    spaceCommas (front ++ ',' :: back) = spaceCommas front ++ [',', ' '] ++ spaceCommas back := by
  rw [spaceCommas, Text.pieces_append, List.map_append]
  exact Text.joinWith_append_of_ne_nil _ (by simp [Text.pieces_ne_nil])
    (by simp [Text.pieces_ne_nil])

theorem spaceCommas_front {front text : Text} (blank : Blank front) :
    spaceCommas (front ++ text) = spaceCommas text := by
  have no_comma : ',' ∉ front := blank.not_mem (by decide)
  rcases Text.comma_cases text with free | ⟨piece, rest, free, rfl⟩
  · rw [spaceCommas_of_free free, spaceCommas_of_free (by simp [no_comma, free]),
      Text.trim_append_left blank]
  · rw [← List.append_assoc, spaceCommas_comma, spaceCommas_comma, spaceCommas_of_free free,
      spaceCommas_of_free (by simp [no_comma, free]), Text.trim_append_left blank]

/-- A part without commas in front stays as it is, if neither it nor what follows begins with a
blank. -/
theorem spaceCommas_left {front text : Text} (free : ',' ∉ front)
    (start : ∃ c ∈ front.head?, Text.isBlank c = false)
    (inner : ∃ c ∈ text.head?, Text.isBlank c = false ∧ c ≠ ',') :
    spaceCommas (front ++ text) = front ++ spaceCommas text := by
  obtain ⟨c, begins, solid, other⟩ := inner
  rcases Text.comma_cases text with apart | ⟨first, rest, apart, rfl⟩
  · rw [spaceCommas_of_free apart, spaceCommas_of_free (by simp [free, apart]),
      Text.trim_append_of_head start ⟨c, begins, solid⟩]
  · have first_begins : c ∈ first.head? := by
      cases first with
      | nil =>
          simp only [List.nil_append, List.head?_cons, Option.mem_some] at begins
          exact absurd begins.symm other
      | cons d more => simpa using begins
    rw [← List.append_assoc, spaceCommas_comma, spaceCommas_comma, spaceCommas_of_free apart,
      spaceCommas_of_free (by simp [free, apart]),
      Text.trim_append_of_head start ⟨c, first_begins, solid⟩]
    simp only [List.append_assoc]

theorem spaceCommas_back {text back : Text} (blank : Blank back) :
    spaceCommas (text ++ back) = spaceCommas text := by
  have no_comma : ',' ∉ back := blank.not_mem (by decide)
  induction text using Text.comma_induction with
  | free text free =>
      rw [spaceCommas_of_free free, spaceCommas_of_free (by simp [no_comma, free]),
        Text.trim_append_right blank]
  | comma front text _ ih =>
      rw [List.append_assoc, List.cons_append, spaceCommas_comma, spaceCommas_comma, ih]

/-- A part without commas behind stays as it is, if neither it nor what precedes it ends with a
blank. -/
theorem spaceCommas_right {text back : Text} (free : ',' ∉ back)
    (inner : ∃ c ∈ text.getLast?, Text.isBlank c = false ∧ c ≠ ',')
    (finish : ∃ c ∈ back.getLast?, Text.isBlank c = false) :
    spaceCommas (text ++ back) = spaceCommas text ++ back := by
  induction text using Text.comma_induction with
  | free text apart =>
      obtain ⟨c, ends, solid, -⟩ := inner
      rw [spaceCommas_of_free apart, spaceCommas_of_free (by simp [free, apart]),
        Text.trim_append_of_getLast ⟨c, ends, solid⟩ finish]
  | comma front text _ ih =>
      obtain ⟨c, ends, solid, other⟩ := inner
      have text_ends := Text.last_behind ends other
      rw [List.append_assoc, List.cons_append, spaceCommas_comma, spaceCommas_comma,
        ih ⟨c, text_ends, solid, other⟩]
      simp only [List.append_assoc]

end Generic

namespace TypeExpr

open Text (Blank Tight trim)
open Generic (Firm spaceCommas)

namespace Layout

mutual

/-- The layout with spaced commas, `before` and `after` around it. -/
def spacedWithin (before after : Text) : Layout → Layout
  | leaf margins word => leaf ⟨before, margins.gaps, after⟩ word
  | applied margins name args => applied ⟨before, margins.gaps, after⟩ name (spacedAll true args)

/-- Spaced arguments; the first keeps the blanks before it and the last those behind it. -/
def spacedAll (isFirst : Bool) : List Layout → List Layout
  | [] => []
  | arg :: rest =>
    arg.spacedWithin (if isFirst then arg.margins.before else [' '])
        (if rest.isEmpty then arg.margins.after else [])
      :: spacedAll false rest

end

def spaced (layout : Layout) : Layout := layout.spacedWithin [] []

theorem mem_spacedAll {isFirst : Bool} {args : List Layout} {layout : Layout}
    (valid : ∀ arg ∈ args, arg.Valid) (member : layout ∈ spacedAll isFirst args) :
    ∃ arg ∈ args, ∃ before after, Blank before ∧ Blank after ∧
      layout = arg.spacedWithin before after := by
  induction args generalizing isFirst with
  | nil => cases member
  | cons arg rest ih =>
      rw [spacedAll] at member
      rcases List.mem_cons.mp member with rfl | member
      · have margins := (valid arg (by simp)).margins
        refine ⟨arg, by simp, _, _, ?_, ?_, rfl⟩
        · split
          · exact margins.before
          · exact blank_space
        · split
          · exact margins.after
          · exact Blank.nil
      · obtain ⟨other, inside, before, after, front, back, same⟩ :=
          ih (fun other inside => valid other (by simp [inside])) member
        exact ⟨other, by simp [inside], before, after, front, back, same⟩

theorem Valid.spacedWithin {layout : Layout} (valid : layout.Valid) {before after : Text}
    (front : Blank before) (back : Blank after) : (layout.spacedWithin before after).Valid := by
  induction valid generalizing before after with
  | leaf blank word =>
      rw [Layout.spacedWithin]
      exact .leaf ⟨front, blank.gaps, back⟩ word
  | @applied margins name args blank word some_arg valid ih =>
      rw [Layout.spacedWithin]
      refine .applied ⟨front, blank.gaps, back⟩ word ?_ ?_
      · cases args with
        | nil => exact absurd rfl some_arg
        | cons first rest => simp [spacedAll]
      · intro layout member
        obtain ⟨arg, inside, before, after, first, last, rfl⟩ := mem_spacedAll valid member
        exact ih arg inside first last

theorem Valid.spaced {layout : Layout} (valid : layout.Valid) : layout.spaced.Valid :=
  valid.spacedWithin Blank.nil Blank.nil

theorem solid_spacedAll {args : List Layout}
    (each : ∀ arg ∈ args, ∀ before after, (arg.spacedWithin before after).solid = arg.solid)
    (isFirst : Bool) : (spacedAll isFirst args).map solid = args.map solid := by
  induction args generalizing isFirst with
  | nil => simp [spacedAll]
  | cons first rest ih =>
      have tail := ih fun arg inside => each arg (by simp [inside])
      rw [spacedAll, List.map_cons, List.map_cons, each first (by simp), tail]

theorem solid_spacedWithin {layout : Layout} (valid : layout.Valid) (before after : Text) :
    (layout.spacedWithin before after).solid = layout.solid := by
  induction valid generalizing before after with
  | leaf => simp [spacedWithin, solid, Margins.plain]
  | @applied margins name args _ _ _ _ ih =>
      have same := solid_spacedAll ih true
      simp [spacedWithin, solid, Margins.plain, same]

theorem solid_spaced {layout : Layout} (valid : layout.Valid) :
    layout.spaced.solid = layout.solid :=
  solid_spacedWithin valid [] []

end Layout

/-- A spelling of names under which no name holds a comma or has a blank at its ends. -/
def Legible (spell : Text → Text) : Prop :=
  ∀ name, isTypeName name = true → Tight (spell name) ∧ ',' ∉ spell name

theorem legible_id : Legible id := by
  intro name word
  have identifier := (isTypeName_iff.mp word).1
  have solid : ∀ c ∈ name, Text.isBlank c = false :=
    fun c member => identifierPart_solid (isIdentifier_part identifier c member)
  exact ⟨Tight.of_all (isIdentifier_ne_nil identifier) solid,
    isIdentifier_not_mem identifier (by decide)⟩

section Spelled

variable {spell : Text → Text}

theorem Legible.word (legible : Legible spell) {word : Word} (valid : word.Valid) :
    Tight (word.render spell) ∧ ',' ∉ word.render spell := by
  have plain : Tight word.text ∧ ',' ∉ word.text :=
    ⟨Word.tight valid, Word.text_not_mem valid (by decide)⟩
  cases word with
  | primitive base => exact plain
  | tagged base format => exact plain
  | named name => exact legible name valid

theorem Legible.firm_core (legible : Legible spell) {layout : Layout} (valid : layout.Valid) :
    Firm (layout.renderCore spell) := by
  cases valid with
  | leaf _ word =>
      obtain ⟨tight, free⟩ := legible.word word
      exact Firm.of_free tight free
  | @applied _ name args _ word =>
      obtain ⟨tight, free⟩ := legible name word
      have closing : Firm ['>'] := ⟨⟨'>', rfl, by decide⟩, ⟨'>', rfl, by decide⟩⟩
      exact (Firm.of_free tight free).append closing

theorem firm_arrayText {core : Text} (firm : Firm core) (gaps : List Text) :
    Firm (arrayText core gaps) := by
  induction gaps with
  | nil => exact firm
  | cons gap gaps ih =>
      have closing : Firm ['[', ']'] := ⟨⟨'[', rfl, by decide⟩, ⟨']', rfl, by decide⟩⟩
      exact ih.append closing

theorem spaceCommas_arrayText {core : Text} (firm : Firm core) {gaps : List Text}
    (blank : ∀ gap ∈ gaps, Blank gap) :
    spaceCommas (arrayText core gaps) = arrayText (spaceCommas core) gaps := by
  induction gaps with
  | nil => rfl
  | cons gap gaps ih =>
      have no_comma : ',' ∉ gap ++ ['[', ']'] := by
        intro member
        rcases List.mem_append.mp member with member | member
        · exact (blank gap (by simp)).not_mem (by decide) member
        · revert member
          decide
      have ends : ∃ c ∈ (gap ++ ['[', ']']).getLast?, Text.isBlank c = false :=
        Text.last_append ⟨']', rfl, by decide⟩ gap
      have inner := (firm_arrayText firm gaps).last
      rw [arrayText, List.append_assoc, Generic.spaceCommas_right no_comma inner ends,
        ih fun other member => blank other (by simp [member])]
      simp only [arrayText, List.append_assoc]

/-- The bare text of a type: its core with the array brackets. -/
def Layout.bare (spell : Text → Text) (layout : Layout) : Text :=
  arrayText (layout.renderCore spell) layout.margins.gaps

theorem Layout.render_bare (layout : Layout) : layout.render spell =
    layout.margins.before ++ layout.bare spell ++ layout.margins.after := by
  rw [render_eq]
  rfl

theorem Layout.render_spacedWithin (before after : Text) (layout : Layout) :
    (layout.spacedWithin before after).render spell =
      before ++ layout.spaced.bare spell ++ after := by
  cases layout with
  | leaf margins word => rw [Layout.spacedWithin, spaced, Layout.spacedWithin, render_leaf]; rfl
  | applied margins name args =>
      rw [Layout.spacedWithin, spaced, Layout.spacedWithin, render_applied]; rfl

theorem Layout.spaceCommas_bare (legible : Legible spell) {layout : Layout} (valid : layout.Valid)
    (core : spaceCommas (layout.renderCore spell) = layout.spaced.renderCore spell) :
    spaceCommas (layout.bare spell) = layout.spaced.bare spell := by
  have gaps : layout.spaced.margins.gaps = layout.margins.gaps := by
    cases layout <;> rfl
  rw [bare, spaceCommas_arrayText (legible.firm_core valid) valid.margins.gaps, core, bare, gaps]

/-- A list of arguments is spaced between the blanks at its two ends. -/
theorem Layout.exists_spaced_args (legible : Legible spell) {args : List Layout}
    (some_arg : args ≠ []) (valid : ∀ arg ∈ args, arg.Valid)
    (bare : ∀ arg ∈ args, spaceCommas (arg.bare spell) = arg.spaced.bare spell) :
    ∃ before inner after, Blank before ∧ Blank after ∧ Firm inner ∧
      Text.joinWith [','] (args.map (render spell)) = before ++ inner ++ after ∧
      ∀ isFirst, Text.joinWith [','] ((spacedAll isFirst args).map (render spell)) =
        (if isFirst then before else [' ']) ++ spaceCommas inner ++ after := by
  induction args with
  | nil => exact absurd rfl some_arg
  | cons arg rest ih =>
      have margins := (valid arg (by simp)).margins
      have firm : Firm (arg.bare spell) :=
        firm_arrayText (legible.firm_core (valid arg (by simp))) arg.margins.gaps
      have own := bare arg (by simp)
      by_cases last : rest = []
      · subst last
        refine ⟨arg.margins.before, arg.bare spell, arg.margins.after, margins.before,
          margins.after, firm, render_bare arg, ?_⟩
        intro isFirst
        rw [own]
        exact render_spacedWithin _ _ arg
      · obtain ⟨before, inner, after, front, back, inner_firm, joined, spaced⟩ :=
          ih last (fun other inside => valid other (by simp [inside]))
            (fun other inside => bare other (by simp [inside]))
        refine ⟨arg.margins.before,
          arg.bare spell ++ (arg.margins.after ++ ',' :: before) ++ inner, after, margins.before,
          back, firm.append inner_firm, ?_, ?_⟩
        · rw [List.map_cons, Text.joinWith_cons _ _ (by simpa using last), joined, render_bare]
          simp only [List.append_assoc, List.cons_append, List.nil_append]
        · intro isFirst
          have middle :
              spaceCommas (arg.bare spell ++ (arg.margins.after ++ ',' :: before) ++ inner) =
              arg.spaced.bare spell ++ [',', ' '] ++ spaceCommas inner := by
            rw [← List.append_assoc, List.append_assoc, List.cons_append,
              Generic.spaceCommas_comma, Generic.spaceCommas_back margins.after,
              Generic.spaceCommas_front front, own]
          have more : (spacedAll false rest).map (render spell) ≠ [] := by
            cases rest with
            | nil => exact absurd rfl last
            | cons next rest => simp [spacedAll]
          have inside : rest.isEmpty = false := List.isEmpty_eq_false_iff.mpr last
          have tail := spaced false
          rw [spacedAll, List.map_cons, Text.joinWith_cons _ _ more, tail, middle,
            render_spacedWithin, inside]
          simp

/-- Spacing the commas of a text is spacing those of its layout. -/
theorem Layout.Valid.spaceCommas_core (legible : Legible spell) {layout : Layout}
    (valid : layout.Valid) :
    spaceCommas (layout.renderCore spell) = layout.spaced.renderCore spell := by
  induction valid with
  | leaf _ word =>
      obtain ⟨tight, free⟩ := legible.word word
      change spaceCommas (Word.render spell _) = Word.render spell _
      rw [Generic.spaceCommas_of_free free, tight.trim]
  | @applied margins name args _ word some_arg valid ih =>
      obtain ⟨tight, free⟩ := legible name word
      obtain ⟨before, inner, after, front, back, firm, joined, spaced⟩ :=
        exists_spaced_args legible some_arg valid fun arg inside =>
          spaceCommas_bare legible (valid arg inside) (ih arg inside)
      have no_comma : ∀ text, Blank text → ',' ∉ text :=
        fun text blank => blank.not_mem (by decide)
      have opening : ',' ∉ spell name ++ '<' :: before := by
        simp [free, no_comma before front]
      have closing : ',' ∉ after ++ ['>'] := by
        simp [no_comma after back]
      have start := Text.head_append tight.first ('<' :: before)
      have finish : ∃ c ∈ (after ++ ['>']).getLast?, Text.isBlank c = false :=
        Text.last_append ⟨'>', rfl, by decide⟩ after
      have whole : (Layout.applied margins name args).renderCore spell =
          (spell name ++ '<' :: before) ++ (inner ++ (after ++ ['>'])) := by
        rw [renderCore, appliedText, joined]
        simp only [List.append_assoc, List.cons_append]
      have spaced_whole : (Layout.applied margins name args).spaced.renderCore spell =
          (spell name ++ '<' :: before) ++ (spaceCommas inner ++ (after ++ ['>'])) := by
        change appliedText (spell name) ((spacedAll true args).map (render spell)) = _
        rw [appliedText, spaced true]
        simp
      rw [whole, spaced_whole,
        Generic.spaceCommas_left opening start (Text.head_append firm.first _),
        Generic.spaceCommas_right closing firm.last finish]

theorem Layout.Valid.spaceCommas_render (legible : Legible spell) {layout : Layout}
    (valid : layout.Valid) : spaceCommas (layout.render spell) = layout.spaced.render spell := by
  have margins := valid.margins
  have bare := spaceCommas_bare legible valid (valid.spaceCommas_core legible)
  rw [render_bare, Generic.spaceCommas_back margins.after, Generic.spaceCommas_front margins.before,
    bare]
  have same : layout.spaced.render spell = [] ++ layout.spaced.bare spell ++ [] :=
    render_spacedWithin [] [] layout
  rw [List.nil_append, List.append_nil] at same
  exact same.symm

end Spelled

end TypeExpr

end ApiSchema
