import ApiSchema.Proofs.Generic.Filling

set_option autoImplicit false

namespace ApiSchema

open Text (Blank Tight trim)

namespace Generic

def Spaced (text : Text) : Prop := spaceCommas text = text

theorem trim_free {text : Text} (free : ',' ∉ text) : ',' ∉ trim text := by
  obtain ⟨before, after, -, -, whole⟩ := Text.exists_margins text
  intro member
  rw [whole] at free
  exact free (by simp [member])

theorem spaced_spaceCommas (text : Text) : Spaced (spaceCommas text) := by
  rw [Spaced]
  induction text using Text.comma_induction with
  | free text free =>
      rw [spaceCommas_of_free free, spaceCommas_of_free (trim_free free), Text.trim_trim]
  | comma front back free ih =>
      have tail : spaceCommas ([' '] ++ spaceCommas back) = spaceCommas back := by
        rw [spaceCommas_front TypeExpr.Layout.blank_space, ih]
      rw [spaceCommas_comma, List.append_assoc, List.cons_append, spaceCommas_comma,
        spaceCommas_of_free free, spaceCommas_of_free (trim_free free), Text.trim_trim, tail]
      simp

/-- What stands between a solid end and a solid beginning stays as it is. -/
theorem spaceCommas_between {front between back : Text} (free : ',' ∉ between)
    (finish : ∃ c ∈ front.getLast?, Text.isBlank c = false ∧ c ≠ ',')
    (start : ∃ c ∈ back.head?, Text.isBlank c = false ∧ c ≠ ',') :
    spaceCommas (front ++ between ++ back) =
      spaceCommas front ++ between ++ spaceCommas back := by
  induction front using Text.comma_induction with
  | free front apart =>
      obtain ⟨c, ends, solid, -⟩ := finish
      obtain ⟨before, blank, whole⟩ := Text.exists_lead ⟨c, ends, solid⟩
      have tight := Text.trim_tight front (Text.trim_ne_nil (List.mem_of_mem_getLast? ends) solid)
      have no_comma : ',' ∉ trim front ++ between := by simp [trim_free apart, free]
      rw [spaceCommas_of_free apart]
      have begins := Text.head_append tight.first between
      calc spaceCommas (front ++ between ++ back)
          = spaceCommas (before ++ (trim front ++ between ++ back)) := by
            rw [← List.append_assoc, ← List.append_assoc, ← whole]
        _ = trim front ++ between ++ spaceCommas back := by
            rw [spaceCommas_front blank, spaceCommas_left no_comma begins start]
  | comma other front _ ih =>
      obtain ⟨c, ends, solid, apart⟩ := finish
      have tail := ih ⟨c, Text.last_behind ends apart, solid, apart⟩
      simp only [List.append_assoc, List.cons_append] at tail ⊢
      rw [spaceCommas_comma, spaceCommas_comma, tail]
      simp only [List.append_assoc]

section Put

variable {pattern arg : Text} (some_pattern : pattern ≠ [])
  (apart : ∀ c, Text.isBlank c = true ∨ c = ',' → c ∉ pattern) (spaced : Spaced arg)
  (firm : Firm arg)
include some_pattern spaced firm

/-- Behind a spaced text a part without commas stays as it is, whatever is put into it. -/
theorem spaced_behind {front text : Text} (front_spaced : Spaced front) (front_firm : Firm front)
    (free : ',' ∉ text) (finish : ∀ c ∈ text.getLast?, Text.isBlank c = false) :
    Spaced (front ++ Text.replaceFound pattern arg text) := by
  induction size : text.length using Nat.strongRecOn generalizing front text with
  | ind size ih =>
      rcases Text.replaceFound_cases some_pattern arg text with same | ⟨lead, rest, rfl, replaced⟩
      · rw [same, Spaced]
        cases ends : text.getLast? with
        | none => rw [List.getLast?_eq_none_iff.mp ends, List.append_nil, front_spaced]
        | some c =>
            rw [spaceCommas_right free front_firm.last ⟨c, ends, finish c ends⟩, front_spaced]
      · have positive := List.length_pos_iff.mpr some_pattern
        simp only [List.mem_append, not_or] at free
        simp only [List.length_append] at size
        have joined : Spaced (front ++ lead ++ arg) := by
          rw [Spaced, spaceCommas_between free.1.1 front_firm.last firm.first, front_spaced, spaced]
        have tail := ih rest.length (by omega) joined (front_firm.append firm) free.2 ?_ rfl
        · rw [replaced]
          simpa only [List.append_assoc] using tail
        · intro c ends
          refine finish c ?_
          rw [List.getLast?_append, Option.mem_def.mp ends]
          rfl

theorem spaced_replaceFound_free {text : Text} (free : ',' ∉ text) (tight : Tight text) :
    Spaced (Text.replaceFound pattern arg text) := by
  rcases Text.replaceFound_cases some_pattern arg text with same | ⟨lead, rest, rfl, replaced⟩
  · rw [same, Spaced, spaceCommas_of_free free, tight.trim]
  · simp only [List.mem_append, not_or] at free
    have finish : ∀ c ∈ rest.getLast?, Text.isBlank c = false := by
      intro c ends
      obtain ⟨d, last, solid⟩ := tight.last
      rw [List.getLast?_append, Option.mem_def.mp ends] at last
      cases last
      exact solid
    rw [replaced]
    cases lead with
    | nil => exact spaced_behind some_pattern spaced firm spaced firm free.2 finish
    | cons c more =>
        obtain ⟨d, first, solid⟩ := tight.first
        cases first
        have begins : ∃ d ∈ (c :: more).head?, Text.isBlank d = false := ⟨c, rfl, solid⟩
        have opened : Spaced (c :: more ++ arg) := by
          rw [Spaced, spaceCommas_left free.1.1 begins firm.first, spaced]
        have firm_opened : Firm (c :: more ++ arg) := by
          refine ⟨⟨c, rfl, solid, ?_⟩, Text.last_append firm.last _⟩
          rintro rfl
          exact free.1.1 (by simp)
        exact spaced_behind some_pattern spaced firm opened firm_opened free.2 finish

include apart

/-- Spacing the commas before or after something firm is put in comes to the same. -/
theorem spaceCommas_replaceFound (text : Text) :
    spaceCommas (Text.replaceFound pattern arg text) =
      Text.replaceFound pattern arg (spaceCommas text) := by
  have comma : ',' ∉ pattern := apart ',' (Or.inr rfl)
  have inner : ∀ text, ',' ∉ text → spaceCommas (Text.replaceFound pattern arg text) =
      Text.replaceFound pattern arg (trim text) := by
    intro text free
    obtain ⟨before, after, front, back, whole⟩ := Text.exists_margins text
    have split := congrArg (Text.replaceFound pattern arg) whole
    rw [Text.replaceFound_back some_pattern fun c member => apart c (Or.inl (back c member)),
      Text.replaceFound_front some_pattern fun c member => apart c (Or.inl (front c member))]
      at split
    rw [split, spaceCommas_back back, spaceCommas_front front]
    by_cases empty : trim text = []
    · rw [empty, Text.replaceFound]
      rfl
    · exact spaced_replaceFound_free some_pattern spaced firm (trim_free free)
        (Text.trim_tight text empty)
  induction text using Text.comma_induction with
  | free text free => rw [inner text free, spaceCommas_of_free free]
  | comma front back free ih =>
      have separator : ∀ c ∈ [',', ' '], c ∉ pattern := by
        intro c member
        rcases List.mem_cons.mp member with rfl | member
        · exact comma
        · exact apart c (Or.inl (TypeExpr.Layout.blank_space c member))
      rw [Text.replaceFound_apart some_pattern comma, spaceCommas_comma, spaceCommas_comma,
        inner front free, ih, spaceCommas_of_free free,
        Text.replaceFound_around some_pattern separator (by simp)]

end Put

/-- A character that stands in no identifier, and is no mark, stands in no marked token. -/
theorem mark_not_mem {param : Text} (word : TypeExpr.isIdentifier param = true) {c : Char}
    (outside : TypeExpr.isIdentifierPart c = false ∧ c ≠ markOpen ∧ c ≠ markClose) :
    c ∉ mark param := by
  have absent := TypeExpr.isIdentifier_not_mem word outside.1
  simp [mark, outside.2.1, outside.2.2, absent]

/-- What stands between the words of a type stands in no marked token. -/
theorem separator_not_mem {param : Text} (word : TypeExpr.isIdentifier param = true) {c : Char}
    (separates : Text.isBlank c = true ∨ c ∈ ['<', '>', ',', '[', ']']) : c ∉ mark param := by
  refine mark_not_mem word ?_
  rcases separates with white | punctuation
  · refine ⟨(TypeExpr.blank_outside white).1, ?_, ?_⟩
    · rintro rfl
      revert white
      decide
    · rintro rfl
      revert white
      decide
  · have outside : (['<', '>', ',', '[', ']'].all fun d =>
        !TypeExpr.isIdentifierPart d && d ≠ markOpen && d ≠ markClose) = true := by
      decide
    simpa [and_assoc] using List.all_eq_true.mp outside c punctuation

/-- Spacing the commas before or after arguments are put in comes to the same. -/
theorem spaceCommas_substitute {params args : List Text}
    (words : ∀ param ∈ params, TypeExpr.isIdentifier param = true)
    (spaced : ∀ arg ∈ args, Spaced arg ∧ Firm arg) (type : Text) :
    spaceCommas (substitute (params.map mark) args type) =
      substitute (params.map mark) args (spaceCommas type) := by
  induction params generalizing args type with
  | nil => rfl
  | cons param params ih =>
      cases args with
      | nil => rfl
      | cons arg args =>
          obtain ⟨arg_spaced, firm⟩ := spaced arg (by simp)
          have word := words param (by simp)
          have apart : ∀ c, Text.isBlank c = true ∨ c = ',' → c ∉ mark param := by
            rintro c (white | rfl)
            · exact separator_not_mem word (Or.inl white)
            · exact separator_not_mem word (Or.inr (by simp))
          have first := spaceCommas_replaceFound (by simp [mark]) apart arg_spaced firm type
          rw [← replace_mark, ← replace_mark] at first
          have tail := @ih args (fun other member => words other (by simp [member]))
            (fun other member => spaced other (by simp [member]))
            (Text.replace (mark param) arg type)
          rw [first] at tail
          exact tail

end Generic

namespace TypeExpr

open Generic (Spaced Firm)

namespace Layout

theorem margins_plainAfter (before : Text) (layout : Layout) :
    (layout.plainAfter before).margins = layout.margins.plain before := by
  cases layout <;> rfl

theorem spacedAll_plain {args : List Layout}
    (each : ∀ arg ∈ args, ∀ before, (arg.plainAfter before).spacedWithin before [] =
      arg.plainAfter before) {isFirst : Bool} {before : Text}
    (behind : isFirst = false → before = [' ']) :
    spacedAll isFirst (plainAll before args) = plainAll before args := by
  induction args generalizing isFirst before with
  | nil => rfl
  | cons arg args ih =>
      have tail : spacedAll false (plainAll [' '] args) = plainAll [' '] args :=
        ih (fun other inside => each other (by simp [inside])) fun _ => rfl
      have own := each arg (by simp) before
      have front : (if isFirst then before else [' ']) = before := by
        cases isFirst with
        | true => rfl
        | false => exact (behind rfl).symm
      rw [plainAll, spacedAll, tail, margins_plainAfter]
      simp only [Margins.plain, front, ite_self, own]

/-- Normal blanks are those that spacing leaves. -/
theorem Valid.spacedWithin_plainAfter {layout : Layout} (valid : layout.Valid) (before : Text) :
    (layout.plainAfter before).spacedWithin before [] = layout.plainAfter before := by
  induction valid generalizing before with
  | leaf => rw [Layout.plainAfter, Layout.spacedWithin]; rfl
  | @applied margins name args _ _ _ _ ih =>
      rw [Layout.plainAfter, Layout.spacedWithin, spacedAll_plain ih (by simp)]
      rfl

end Layout

/-- A normal spelling is spaced and has no blank or comma at its ends. -/
theorem canonical_spaced {fragment : Text} {type : TypeExpr}
    (read : parseFragment fragment = .ok type) : Spaced type.canonical ∧ Firm type.canonical := by
  obtain ⟨layout, valid, -, rfl⟩ := exists_layout read
  have plain := valid.plainAfter Text.Blank.nil
  have text := valid.text_plainAfter []
  rw [List.nil_append] at text
  rw [← text]
  constructor
  · rw [Spaced, Layout.text, plain.spaceCommas_render legible_id, Layout.spaced,
      valid.spacedWithin_plainAfter]
  · have firm : Firm ((layout.plainAfter []).bare id) :=
      firm_arrayText (legible_id.firm_core plain) _
    rw [Layout.text, Layout.render_bare, Layout.margins_plainAfter]
    simpa [Margins.plain] using firm

end TypeExpr

end ApiSchema
