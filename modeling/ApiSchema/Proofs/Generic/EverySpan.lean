import ApiSchema.Proofs.Generic.Remarking

set_option autoImplicit false

namespace ApiSchema

open Text (Blank)
open TypeExpr (Layout Word Margins Readable isTypeName)

namespace Generic

/-- Nothing, or a text with a boundary at its end. -/
def Edge (text : Text) : Prop := text.getLast?.all endsRight = true

/-- Whether a token may begin behind the text; if that is empty, `free` says so. -/
def freeBehind (free : Bool) (front : Text) : Bool := (front.getLast?.map endsLeft).getD free

/-- Every span of the text has the property, which may depend on whether a token may begin there. -/
def EverySpan (P : Bool → Text → Prop) (free : Bool) (text : Text) : Prop :=
  ∀ front span back, text = front ++ span ++ back → Unbroken span → Edge front → Closing back →
    P (freeBehind free front) span

theorem Opening.edge {front : Text} (opening : Opening front) : Edge front := by
  rcases opening.cases with rfl | ⟨before, c, left, rfl⟩
  · rfl
  · rw [Edge, List.getLast?_concat, Option.all_some]
    exact endsRight_of_endsLeft left

theorem freeBehind_eq_true {front : Text} : freeBehind true front = true ↔ Opening front := by
  rw [freeBehind, Opening]
  cases front.getLast? <;> simp

theorem freeBehind_cons (free : Bool) (front : Text) (c : Char) (rest : Text) :
    freeBehind free (front ++ c :: rest) = freeBehind (endsLeft c) rest := by
  rw [freeBehind, freeBehind, List.getLast?_append, List.getLast?_cons]
  cases rest.getLast? <;> rfl

theorem edge_cons {front : Text} {c : Char} (broken : endsRight c = true) {rest : Text}
    (edge : Edge rest) : Edge (front ++ c :: rest) := by
  rw [Edge] at edge ⊢
  rw [List.getLast?_append, List.getLast?_cons]
  cases last : rest.getLast? with
  | none => simpa using broken
  | some d => simpa [last] using edge

theorem edge_of_cons {front : Text} {c : Char} {rest : Text} (edge : Edge (front ++ c :: rest)) :
    Edge rest := by
  rw [Edge] at edge ⊢
  rw [List.getLast?_append, List.getLast?_cons] at edge
  cases last : rest.getLast? with
  | none => rfl
  | some d => simpa [last] using edge

namespace Unbroken

theorem subset {text part : Text} (unbroken : Unbroken text) (inside : part ⊆ text) :
    Unbroken part := fun c member => unbroken c (inside member)

theorem eq_nil_of_edge {front span : Text} (unbroken : Unbroken span)
    (edge : Edge (front ++ span)) : span = [] := by
  rcases List.eq_nil_or_concat span with rfl | ⟨init, c, rfl⟩
  · rfl
  · rw [List.concat_eq_append] at unbroken edge
    rw [Edge, ← List.append_assoc, List.getLast?_concat, Option.all_some,
      unbroken c (by simp)] at edge
    cases edge

theorem eq_nil_of_closing {span back : Text} (unbroken : Unbroken span)
    (closing : Closing (span ++ back)) : span = [] := by
  cases span with
  | nil => rfl
  | cons c rest =>
      rw [Closing, List.cons_append, List.head?_cons, Option.all_some,
        unbroken c (by simp)] at closing
      cases closing

/-- The span behind the last boundary is determined. -/
theorem last_unique {front before span other : Text} (unbroken : Unbroken span)
    (also : Unbroken other) (edge : Edge front) (edge' : Edge before)
    (same : front ++ span = before ++ other) : front = before ∧ span = other := by
  rcases List.append_eq_append_iff.mp same with ⟨middle, rfl, rfl⟩ | ⟨middle, rfl, rfl⟩
  · have inner := unbroken.subset (List.subset_append_left middle other)
    rw [inner.eq_nil_of_edge edge']
    simp
  · have inner := also.subset (List.subset_append_left middle span)
    rw [inner.eq_nil_of_edge edge]
    simp

end Unbroken

section Every

variable {P Q : Bool → Text → Prop}

theorem EverySpan.imp {free : Bool} {text : Text} (every : EverySpan P free text)
    (imp : ∀ free span, Unbroken span → P free span → Q free span) : EverySpan Q free text :=
  fun front span back whole unbroken edge closing =>
    imp _ span unbroken (every front span back whole unbroken edge closing)

theorem EverySpan.and {free : Bool} {text : Text} (every : EverySpan P free text)
    (also : EverySpan Q free text) :
    EverySpan (fun free span => P free span ∧ Q free span) free text :=
  fun front span back whole unbroken edge closing =>
    ⟨every front span back whole unbroken edge closing,
      also front span back whole unbroken edge closing⟩

theorem everySpan_span {span : Text} (unbroken : Unbroken span) {free : Bool} :
    EverySpan P free span ↔ P free span := by
  constructor
  · intro every
    exact every [] span [] (by simp) unbroken rfl rfl
  · rintro holds front other back rfl - edge closing
    have first : front = [] :=
      (unbroken.subset fun c member => by simp [member]).eq_nil_of_edge
        (show Edge ([] ++ front) from edge)
    have second : back = [] :=
      (unbroken.subset fun c member => by simp [member]).eq_nil_of_closing
        (show Closing (back ++ []) by rwa [List.append_nil])
    subst first second
    simpa [freeBehind] using holds

theorem everySpan_boundary {span : Text} (unbroken : Unbroken span) {free : Bool} {c : Char}
    (broken : endsRight c = true) {rest : Text} :
    EverySpan P free (span ++ c :: rest) ↔ P free span ∧ EverySpan P (endsLeft c) rest := by
  have stop : ∀ text : Text, Closing (c :: text) := fun text => by simp [Closing, broken]
  constructor
  · intro every
    refine ⟨every [] span (c :: rest) rfl unbroken rfl (stop rest), ?_⟩
    rintro front other back rfl inner edge closing
    have behind := every (span ++ c :: front) other back (by simp) inner (edge_cons broken edge)
      closing
    rwa [freeBehind_cons] at behind
  · rintro ⟨holds, every⟩ front other back whole inner edge closing
    rw [List.append_assoc] at whole
    rcases List.append_eq_append_iff.mp whole.symm with ⟨middle, rfl, tail⟩ | ⟨middle, rfl, tail⟩
    · have first : front = [] :=
        (unbroken.subset (List.subset_append_left front middle)).eq_nil_of_edge
          (show Edge ([] ++ front) from edge)
      subst first
      rw [List.nil_append] at unbroken holds
      have same := inner.takeWhile_append closing
      rw [tail, unbroken.takeWhile_append (stop rest)] at same
      rwa [← same]
    · cases middle with
      | nil =>
          rw [List.append_nil] at edge ⊢
          have first : span = [] := unbroken.eq_nil_of_edge (show Edge ([] ++ span) from edge)
          have second : other = [] := inner.eq_nil_of_closing (tail ▸ stop rest)
          subst first second
          exact holds
      | cons d middle =>
          rw [List.cons_append, List.cons.injEq] at tail
          obtain ⟨rfl, rfl⟩ := tail
          rw [freeBehind_cons]
          exact every middle other back (by simp) inner (edge_of_cons edge) closing

theorem everySpan_append (front : Text) {free : Bool} {c : Char} (broken : endsRight c = true)
    {rest : Text} : EverySpan P free (front ++ c :: rest) ↔
      EverySpan P free front ∧ EverySpan P (endsLeft c) rest := by
  induction front using span_induction generalizing free with
  | span front unbroken => rw [everySpan_boundary unbroken broken, everySpan_span unbroken]
  | boundary span d front unbroken other ih =>
      rw [List.append_assoc, List.cons_append, everySpan_boundary unbroken other, ih,
        everySpan_boundary unbroken other, and_assoc]

/-- What holds of the rewritten spans of a text holds of the spans of the rewritten text. -/
theorem everySpan_mapSpans {rewrite : Bool → Text → Text}
    (keeps : ∀ free span, Unbroken span → Unbroken (rewrite free span)) {free : Bool}
    {text : Text} : EverySpan P free (mapSpans rewrite free text) ↔
      EverySpan (fun free span => P free (rewrite free span)) free text := by
  induction text using span_induction generalizing free with
  | span text unbroken =>
      rw [mapSpans_span unbroken, everySpan_span (keeps free text unbroken),
        everySpan_span unbroken]
  | boundary span c rest unbroken broken ih =>
      rw [mapSpans_boundary unbroken free broken,
        everySpan_boundary (keeps free span unbroken) broken, everySpan_boundary unbroken broken,
        ih]

theorem exists_last_span (front : Text) :
    ∃ before left, front = before ++ left ∧ Unbroken left ∧ Edge before := by
  induction front using span_induction with
  | span front unbroken => exact ⟨[], front, rfl, unbroken, rfl⟩
  | boundary span c rest _ broken ih =>
      obtain ⟨before, left, rfl, unbroken, edge⟩ := ih
      exact ⟨span ++ c :: before, left, by simp, unbroken, edge_cons broken edge⟩

theorem exists_first_span (back : Text) :
    ∃ right after, back = right ++ after ∧ Unbroken right ∧ Closing after := by
  rcases span_cases back with unbroken | ⟨span, c, rest, unbroken, broken, rfl⟩
  · exact ⟨back, [], by simp, unbroken, rfl⟩
  · exact ⟨span, c :: rest, rfl, unbroken, by simp [Closing, broken]⟩

/-- The span around a character that is no boundary. -/
theorem EverySpan.around {front back : Text} {c : Char} {free : Bool}
    (every : EverySpan P free (front ++ c :: back)) (inner : endsRight c = false) :
    ∃ before left right after, front = before ++ left ∧ back = right ++ after ∧
      Unbroken (left ++ c :: right) ∧ Edge before ∧ Closing after ∧
        P (freeBehind free before) (left ++ c :: right) := by
  obtain ⟨before, left, rfl, lefts, edge⟩ := exists_last_span front
  obtain ⟨right, after, rfl, rights, closing⟩ := exists_first_span back
  have unbroken : Unbroken (left ++ c :: right) := by
    intro d member
    rcases List.mem_append.mp member with old | member
    · exact lefts d old
    · rcases List.mem_cons.mp member with rfl | old
      · exact inner
      · exact rights d old
  exact ⟨before, left, right, after, rfl, rfl, unbroken, edge, closing,
    every before (left ++ c :: right) after (by simp) unbroken edge closing⟩

section Blanks

variable (empty : ∀ free, P free [])
include empty

/-- A boundary at the start has an empty span before it. -/
theorem everySpan_cons {free : Bool} {c : Char} (broken : endsRight c = true) {rest : Text} :
    EverySpan P free (c :: rest) ↔ EverySpan P (endsLeft c) rest :=
  (everySpan_boundary Unbroken.nil broken).trans (and_iff_right (empty free))

theorem everySpan_front {blank : Text} (white : Blank blank) {text : Text} :
    EverySpan P true (blank ++ text) ↔ EverySpan P true text := by
  induction blank with
  | nil => rfl
  | cons c blank ih =>
      have left : endsLeft c = true := by simp [endsLeft, white c (by simp)]
      rw [List.cons_append, everySpan_cons empty (endsRight_of_endsLeft left), left,
        ih fun d member => white d (by simp [member])]

theorem everySpan_back {blank : Text} (white : Blank blank) {free : Bool} {text : Text} :
    EverySpan P free (text ++ blank) ↔ EverySpan P free text := by
  cases blank with
  | nil => rw [List.append_nil]
  | cons c blank =>
      have left : endsLeft c = true := by simp [endsLeft, white c (by simp)]
      have behind : EverySpan P true (blank ++ []) ↔ EverySpan P true [] :=
        everySpan_front empty fun d member => white d (List.mem_cons_of_mem c member)
      rw [List.append_nil] at behind
      rw [everySpan_append text (endsRight_of_endsLeft left), left, behind,
        everySpan_span Unbroken.nil]
      exact and_iff_left (empty true)

theorem everySpan_trim {text : Text} :
    EverySpan P true (Text.trim text) ↔ EverySpan P true text := by
  obtain ⟨before, after, front, back, whole⟩ := Text.exists_margins text
  conv_rhs => rw [whole]
  rw [everySpan_back empty back, everySpan_front empty front]

/-- Spacing the commas adds spans and drops spans that are empty only. -/
theorem everySpan_spaceCommas {text : Text} :
    EverySpan P true (spaceCommas text) ↔ EverySpan P true text := by
  induction text using Text.comma_induction with
  | free text free => rw [spaceCommas_of_free free, everySpan_trim empty]
  | comma front back free ih =>
      have comma : endsRight ',' = true := by decide
      have left : endsLeft ',' = true := by decide
      have own : EverySpan P true (spaceCommas front) ↔ EverySpan P true front := by
        rw [spaceCommas_of_free free, everySpan_trim empty]
      have gap : EverySpan P true ([' '] ++ spaceCommas back) ↔ _ :=
        everySpan_front empty TypeExpr.Layout.blank_space
      have split : EverySpan P true (spaceCommas front ++ ',' :: ([' '] ++ spaceCommas back)) ↔ _ :=
        everySpan_append _ comma
      rw [left, gap, ih, own] at split
      rw [spaceCommas_comma, everySpan_append front comma, left, ← split]
      simp

end Blanks

end Every

end Generic

namespace TypeExpr

open Generic

variable {P : Bool → Text → Prop}

/-- What the words of a type expression have, and the other spans as well: those between two
boundaries and the closing brackets of arrays. -/
structure FitsWords (P : Bool → Text → Prop) : Prop where
  empty : ∀ free, P free []
  bracket : P false [']']
  word : ∀ leaf : Word, leaf.Valid → P true leaf.text

/-- In front of whatever may follow a type, all spans of the text have the property. -/
def Leads (P : Bool → Text → Prop) (text : Text) : Prop :=
  ∀ rest, Closing rest → EverySpan P false rest → EverySpan P true (text ++ rest)

theorem everySpan_closing {span rest : Text} (unbroken : Unbroken span) {free : Bool}
    (holds : P free span) (closing : Closing rest) (every : EverySpan P false rest) :
    EverySpan P free (span ++ rest) := by
  rcases closing.cases with rfl | ⟨c, more, broken, rfl⟩
  · rw [List.append_nil]
    exact (everySpan_span unbroken).mpr holds
  · have behind : EverySpan P false ([] ++ c :: more) := every
    exact (everySpan_boundary unbroken broken).mpr
      ⟨holds, ((everySpan_boundary Unbroken.nil broken).mp behind).2⟩

theorem formatPart_endsRight {c : Char} (part : isFormatPart c = true) : endsRight c = false := by
  have solid := formatPart_solid part
  have apart : c ∉ [',', '<', '>', '['] := by
    intro member
    have outside : ([',', '<', '>', '['].all fun d => !isFormatPart d) = true := by decide
    simpa [part] using List.all_eq_true.mp outside c member
  simp only [List.mem_cons, List.not_mem_nil, or_false, not_or] at apart
  simp [endsRight, solid, apart]

theorem tagged_unbroken (base : Primitive) {tag : Text} (fit : isFormat tag = true) :
    Unbroken (base.name ++ '#' :: tag) := by
  intro c member
  rcases List.mem_append.mp member with letter | member
  · exact Unbroken.word (name_isIdentifier base) c letter
  · rcases List.mem_cons.mp member with rfl | part
    · decide
    · exact formatPart_endsRight (isFormat_part fit part)

theorem Word.unbroken {leaf : Word} (valid : leaf.Valid) : Unbroken leaf.text := by
  cases leaf with
  | named name => exact Unbroken.word (isTypeName_iff.mp valid).1
  | primitive base => exact Unbroken.word (name_isIdentifier base)
  | tagged base format => exact tagged_unbroken base valid

section Leads

variable (fits : FitsWords P)
include fits

theorem everySpan_blank {blank rest : Text} (white : Blank blank) (closing : Closing rest)
    (every : EverySpan P false rest) : EverySpan P false (blank ++ rest) := by
  cases blank with
  | nil => exact every
  | cons c blank =>
      have left : endsLeft c = true := by simp [endsLeft, white c (by simp)]
      have behind : EverySpan P true ([] ++ rest) :=
        everySpan_closing Unbroken.nil (fits.empty true) closing every
      have tail := (everySpan_front fits.empty
        (fun d member => white d (List.mem_cons_of_mem c member) : Blank blank)).mpr behind
      rwa [List.cons_append, everySpan_cons fits.empty (endsRight_of_endsLeft left), left]

theorem leads_array {core : Text} (leads : Leads P core) {gaps : List Text}
    (blank : ∀ gap ∈ gaps, Blank gap) : Leads P (arrayText core gaps) := by
  induction gaps with
  | nil => exact leads
  | cons gap gaps ih =>
      intro rest closing every
      have inner := ih fun other member => blank other (by simp [member])
      have white := blank gap (by simp)
      have bracket : Closing ('[' :: ']' :: rest) := by simp [Closing, endsRight]
      have left : endsLeft '[' = false := by decide
      have close : Unbroken [']'] := by
        intro c member
        rw [List.mem_singleton.mp member]
        decide
      have behind : EverySpan P false ('[' :: ([']'] ++ rest)) := by
        rw [everySpan_cons fits.empty (by decide), left]
        exact everySpan_closing close fits.bracket closing every
      have item := inner (gap ++ '[' :: ']' :: rest) (closing_blank white bracket)
        (everySpan_blank fits white bracket behind)
      simpa [arrayText] using item

theorem leads_margins {core : Text} (leads : Leads P core) {margins : Margins}
    (valid : margins.Valid) : Leads P (margins.around core) := by
  intro rest closing every
  have inner := leads_array fits leads valid.gaps (margins.after ++ rest)
    (closing_blank valid.after closing) (everySpan_blank fits valid.after closing every)
  have outer := (everySpan_front fits.empty valid.before).mpr inner
  simpa [Margins.around] using outer

theorem leads_join {texts : List Text} (some_text : texts ≠ [])
    (each : ∀ text ∈ texts, Leads P text) : Leads P (Text.joinWith [','] texts) := by
  induction texts with
  | nil => exact absurd rfl some_text
  | cons text texts ih =>
      have own := each text (by simp)
      cases texts with
      | nil => exact own
      | cons next more =>
          intro rest closing every
          have tail := ih (by simp) (fun other member => each other (by simp [member])) rest closing
            every
          have left : endsLeft ',' = true := by decide
          have comma : EverySpan P false (',' :: (Text.joinWith [','] (next :: more) ++ rest)) := by
            rwa [everySpan_cons fits.empty (by decide), left]
          have whole := own _ (by simp [Closing, endsRight]) comma
          simpa [Text.joinWith_cons_cons] using whole

/-- Every span of a type expression is a word, empty or a closing bracket. -/
theorem Layout.Valid.leads {layout : Layout} (valid : layout.Valid) : Leads P layout.text := by
  induction valid with
  | @leaf margins word blank valid =>
      rw [Layout.text, render_leaf]
      refine leads_margins fits (fun rest closing every => ?_) blank
      have own := everySpan_closing (Word.unbroken valid) (fits.word word valid) closing every
      cases word <;> exact own
  | @applied margins name args blank word some_arg valid ih =>
      rw [Layout.text, render_applied]
      refine leads_margins fits (fun rest closing every => ?_) blank
      have texts : ∀ text ∈ args.map Layout.text, Leads P text := by
        intro text member
        obtain ⟨arg, given, rfl⟩ := List.mem_map.mp member
        exact ih arg given
      have right : endsLeft '>' = false := by decide
      have close : EverySpan P false ('>' :: rest) := by
        rwa [everySpan_cons fits.empty (by decide), right]
      have inner := leads_join fits (by simpa using some_arg) texts ('>' :: rest)
        (by simp [Closing, endsRight]) close
      have left : endsLeft '<' = true := by decide
      have head : EverySpan P true (name ++ '<' ::
          (Text.joinWith [','] (args.map Layout.text) ++ '>' :: rest)) ↔ _ :=
        everySpan_boundary (Unbroken.word (isTypeName_iff.mp word).1) (by decide)
      rw [left] at head
      have whole := head.mpr ⟨fits.word (.named name) word, inner⟩
      change EverySpan P true (appliedText name (args.map Layout.text) ++ rest)
      simpa [appliedText] using whole

theorem everySpan_of_readable {text : Text} (readable : Readable text) : EverySpan P true text := by
  obtain ⟨type, read⟩ := readable
  obtain ⟨layout, valid, rfl, -⟩ := exists_layout (parse_eq_ok_iff.mp read)
  have whole := valid.leads fits [] rfl ((everySpan_span Unbroken.nil).mpr (fits.empty false))
  rwa [List.append_nil] at whole

end Leads

end TypeExpr

end ApiSchema
