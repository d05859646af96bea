import ApiSchema.Proofs.Generic.Sweep
import ApiSchema.Proofs.Generic.Spacing

set_option autoImplicit false

namespace ApiSchema.Generic

open Text (Blank Tight)
open TypeExpr (isIdentifier)

/-- A text without any character that may stand behind a token. -/
def Unbroken (text : Text) : Prop := ∀ c ∈ text, endsRight c = false

theorem endsRight_of_endsLeft {c : Char} (left : endsLeft c = true) : endsRight c = true := by
  simp only [endsLeft, endsRight, Bool.or_eq_true, decide_eq_true_eq] at left ⊢
  rcases left with (comma | opening) | white
  · exact Or.inl (Or.inl (Or.inl (Or.inl comma)))
  · exact Or.inl (Or.inl (Or.inl (Or.inr opening)))
  · exact Or.inr white

namespace Unbroken

theorem nil : Unbroken [] := by
  intro c member
  cases member

theorem word {name : Text} (word : isIdentifier name = true) : Unbroken name :=
  fun c member => identifierPart_endsRight (TypeExpr.isIdentifier_part word c member)

theorem mark {name : Text} (unbroken : Unbroken name) : Unbroken (mark name) := by
  intro c member
  simp only [Generic.mark, List.cons_append, List.mem_cons, List.mem_append, List.not_mem_nil,
    or_false] at member
  rcases member with rfl | member | rfl
  · decide
  · exact unbroken c member
  · decide

theorem solid {text : Text} (unbroken : Unbroken text) {c : Char} (member : c ∈ text) :
    Text.isBlank c = false := by
  have inner := unbroken c member
  simp only [endsRight, Bool.or_eq_false_iff] at inner
  exact inner.2

theorem endsLeft {text : Text} (unbroken : Unbroken text) {c : Char} (member : c ∈ text) :
    endsLeft c = false := by
  cases left : Generic.endsLeft c with
  | false => rfl
  | true =>
      have broken := endsRight_of_endsLeft left
      rw [unbroken c member] at broken
      cases broken

theorem dropWhile {text : Text} (unbroken : Unbroken text) :
    text.dropWhile (fun c => !endsRight c) = [] := by
  have inner : ∀ c ∈ text, (fun c => !endsRight c) c = true := fun c member => by
    simp [unbroken c member]
  have passed : (text ++ []).dropWhile (fun c => !endsRight c) = _ :=
    List.dropWhile_append_of_pos inner
  rwa [List.append_nil, List.dropWhile_nil] at passed

/-- What is passed over in front of a boundary, or of nothing, is the span. -/
theorem takeWhile_append {text rest : Text} (unbroken : Unbroken text) (closing : Closing rest) :
    (text ++ rest).takeWhile (fun c => !endsRight c) = text := by
  have inner : ∀ c ∈ text, (fun c => !endsRight c) c = true := fun c member => by
    simp [unbroken c member]
  rw [List.takeWhile_append_of_pos inner]
  cases rest with
  | nil => simp
  | cons c rest =>
      rw [Closing, List.head?_cons, Option.all_some] at closing
      simp [closing]

end Unbroken

/-- The first span of a text is the whole text, or a boundary stands behind it. -/
theorem span_cases (text : Text) :
    Unbroken text ∨ ∃ span c rest, Unbroken span ∧ endsRight c = true ∧
      text = span ++ c :: rest := by
  have whole := List.takeWhile_append_dropWhile (p := fun c => !endsRight c) (l := text)
  have inner : Unbroken (text.takeWhile fun c => !endsRight c) := by
    intro c member
    simpa using List.all_eq_true.mp List.all_takeWhile c member
  cases behind : text.dropWhile (fun c => !endsRight c) with
  | nil =>
      left
      rw [behind, List.append_nil] at whole
      rwa [whole] at inner
  | cons c rest =>
      right
      have stop := List.head?_dropWhile_not (fun c => !endsRight c) text
      rw [behind] at stop whole
      exact ⟨_, c, rest, inner, by simpa using stop, whole.symm⟩

/-- What holds of spans, and in front of a boundary behind a span, holds of every text. -/
theorem span_induction {motive : Text → Prop} (span : ∀ text, Unbroken text → motive text)
    (boundary : ∀ span c rest, Unbroken span → endsRight c = true → motive rest →
      motive (span ++ c :: rest))
    (text : Text) : motive text := by
  induction size : text.length using Nat.strongRecOn generalizing text with
  | ind size ih =>
      rcases span_cases text with unbroken | ⟨first, c, rest, unbroken, broken, rfl⟩
      · exact span text unbroken
      · refine boundary first c rest unbroken broken (ih rest.length ?_ rest rfl)
        rw [← size]
        simp only [List.length_append, List.length_cons]
        omega

/-- Rewrites every span of a text. A rewriting is told whether a token may begin where the span
does; `free` says that of the first span. -/
def mapSpans (rewrite : Bool → Text → Text) (free : Bool) (text : Text) : Text :=
  match _behind : text.dropWhile fun c => !endsRight c with
  | [] => rewrite free text
  | c :: rest =>
    rewrite free (text.takeWhile fun c => !endsRight c) ++
      c :: mapSpans rewrite (endsLeft c) rest
termination_by text.length
decreasing_by
  have fits := (List.dropWhile_sublist (l := text) fun c => !endsRight c).length_le
  rw [_behind] at fits
  simp only [List.length_cons] at fits
  omega

section Map

variable {rewrite : Bool → Text → Text}

theorem mapSpans_span {text : Text} (unbroken : Unbroken text) (free : Bool) :
    mapSpans rewrite free text = rewrite free text := by
  rw [mapSpans]
  split
  · rfl
  · next behind =>
    rw [unbroken.dropWhile] at behind
    cases behind

theorem mapSpans_boundary {span : Text} (unbroken : Unbroken span) (free : Bool) {c : Char}
    (broken : endsRight c = true) (rest : Text) :
    mapSpans rewrite free (span ++ c :: rest) =
      rewrite free span ++ c :: mapSpans rewrite (endsLeft c) rest := by
  have inner : ∀ d ∈ span, (fun d => !endsRight d) d = true := fun d member => by
    simp [unbroken d member]
  have first : (span ++ c :: rest).takeWhile (fun d => !endsRight d) = span := by
    rw [List.takeWhile_append_of_pos inner]
    simp [broken]
  have second : (span ++ c :: rest).dropWhile (fun d => !endsRight d) = c :: rest := by
    rw [List.dropWhile_append_of_pos inner]
    simp [broken]
  rw [mapSpans]
  split
  · next behind =>
    rw [second] at behind
    cases behind
  · next behind =>
    rw [second] at behind
    cases behind
    rw [first]

/-- The two sides of a boundary are rewritten apart from each other. -/
theorem mapSpans_append (front : Text) (free : Bool) {c : Char} (broken : endsRight c = true)
    (rest : Text) :
    mapSpans rewrite free (front ++ c :: rest) =
      mapSpans rewrite free front ++ c :: mapSpans rewrite (endsLeft c) rest := by
  induction front using span_induction generalizing free with
  | span front unbroken => rw [mapSpans_boundary unbroken free broken, mapSpans_span unbroken]
  | boundary span d front unbroken other ih =>
      rw [List.append_assoc, List.cons_append, mapSpans_boundary unbroken free other,
        mapSpans_boundary unbroken free other, ih, List.append_assoc, List.cons_append]

theorem mapSpans_congr {other : Bool → Text → Text}
    (same : ∀ free span, Unbroken span → rewrite free span = other free span) (free : Bool)
    (text : Text) : mapSpans rewrite free text = mapSpans other free text := by
  induction text using span_induction generalizing free with
  | span text unbroken =>
      rw [mapSpans_span unbroken, mapSpans_span unbroken, same free text unbroken]
  | boundary span c rest unbroken broken ih =>
      rw [mapSpans_boundary unbroken free broken, mapSpans_boundary unbroken free broken,
        same free span unbroken, ih]

theorem mapSpans_id (free : Bool) (text : Text) :
    mapSpans (fun _ span => span) free text = text := by
  induction text using span_induction generalizing free with
  | span text unbroken => exact mapSpans_span unbroken free
  | boundary span c rest unbroken broken ih => rw [mapSpans_boundary unbroken free broken, ih]

/-- Two rewritings in turn are one, if the first makes no boundaries. -/
theorem mapSpans_mapSpans {first : Bool → Text → Text}
    (keeps : ∀ free span, Unbroken span → Unbroken (first free span)) (free : Bool)
    (text : Text) :
    mapSpans rewrite free (mapSpans first free text) =
      mapSpans (fun free span => rewrite free (first free span)) free text := by
  induction text using span_induction generalizing free with
  | span text unbroken =>
      rw [mapSpans_span unbroken, mapSpans_span unbroken, mapSpans_span (keeps free text unbroken)]
  | boundary span c rest unbroken broken ih =>
      rw [mapSpans_boundary unbroken free broken, mapSpans_boundary unbroken free broken,
        mapSpans_boundary (keeps free span unbroken) free broken, ih]

end Map

/-- Nothing, or a character that may stand before a token. -/
def Opening (text : Text) : Prop := text.getLast?.all endsLeft = true

/-- A token may stand between the two texts. -/
structure Bounded (front back : Text) : Prop where
  left : Opening front
  right : Closing back

instance (front back : Text) : Decidable (Bounded front back) :=
  decidable_of_iff
    (front.getLast?.all endsLeft = true ∧ back.head?.all endsRight = true)
    ⟨fun both => ⟨both.1, both.2⟩, fun bounded => ⟨bounded.left, bounded.right⟩⟩

theorem Opening.cases {front : Text} (opening : Opening front) :
    front = [] ∨ ∃ before c, endsLeft c = true ∧ front = before ++ [c] := by
  rcases List.eq_nil_or_concat front with rfl | ⟨before, c, rfl⟩
  · exact Or.inl rfl
  · right
    rw [Opening, List.concat_eq_append, List.getLast?_concat, Option.all_some] at opening
    exact ⟨before, c, opening, List.concat_eq_append⟩

theorem Closing.cases {back : Text} (closing : Closing back) :
    back = [] ∨ ∃ c rest, endsRight c = true ∧ back = c :: rest := by
  cases back with
  | nil => exact Or.inl rfl
  | cons c rest =>
      rw [Closing, List.head?_cons, Option.all_some] at closing
      exact Or.inr ⟨c, rest, closing, rfl⟩

/-- Around a span between boundaries nothing depends on it. -/
theorem mapSpans_bounded {rewrite : Bool → Text → Text} {front back : Text}
    (bounded : Bounded front back) :
    ∃ before after, ∀ span, Unbroken span →
      mapSpans rewrite true (front ++ span ++ back) = before ++ rewrite true span ++ after := by
  have behind : ∃ after, ∀ span, Unbroken span →
      mapSpans rewrite true (span ++ back) = rewrite true span ++ after := by
    rcases bounded.right.cases with rfl | ⟨c, rest, broken, rfl⟩
    · exact ⟨[], fun span unbroken => by simp [mapSpans_span unbroken]⟩
    · exact ⟨_, fun span unbroken => mapSpans_boundary unbroken true broken rest⟩
  obtain ⟨after, tail⟩ := behind
  rcases bounded.left.cases with rfl | ⟨before, c, left, rfl⟩
  · exact ⟨[], after, tail⟩
  · refine ⟨mapSpans rewrite true before ++ [c], after, fun span unbroken => ?_⟩
    have split : mapSpans rewrite true (before ++ c :: (span ++ back)) = _ :=
      mapSpans_append before true (endsRight_of_endsLeft left) (span ++ back)
    rw [left, tail span unbroken] at split
    simpa using split

/-- Spans that are rewritten alike may stand for each other. -/
theorem mapSpans_exchange {rewrite : Bool → Text → Text} {front back one two : Text}
    (bounded : Bounded front back) (first : Unbroken one) (second : Unbroken two)
    (same : rewrite true one = rewrite true two) :
    mapSpans rewrite true (front ++ one ++ back) =
      mapSpans rewrite true (front ++ two ++ back) := by
  obtain ⟨before, after, whole⟩ := @mapSpans_bounded rewrite front back bounded
  rw [whole one first, whole two second, same]

/-- A rewriting under which a span stays one: no boundary comes in, and nothing becomes of nothing
only. -/
structure KeepsSpans (rewrite : Bool → Text → Text) : Prop where
  unbroken : ∀ free span, Unbroken span → Unbroken (rewrite free span)
  empty : ∀ free, rewrite free [] = []
  filled : ∀ free span, span ≠ [] → rewrite free span ≠ []

namespace KeepsSpans

variable {rewrite : Bool → Text → Text} (keeps : KeepsSpans rewrite)
include keeps

theorem mapSpans_nil (free : Bool) : mapSpans rewrite free [] = [] := by
  rw [mapSpans_span Unbroken.nil, keeps.empty]

theorem mapSpans_front {blank : Text} (white : Blank blank) (rest : Text) :
    mapSpans rewrite true (blank ++ rest) = blank ++ mapSpans rewrite true rest := by
  induction blank with
  | nil => rfl
  | cons c blank ih =>
      have left : endsLeft c = true := by simp [endsLeft, white c (by simp)]
      have split : mapSpans rewrite true ([] ++ c :: (blank ++ rest)) = _ :=
        mapSpans_append [] true (endsRight_of_endsLeft left) (blank ++ rest)
      rw [keeps.mapSpans_nil, left, ih fun d member => white d (by simp [member])] at split
      exact split

theorem mapSpans_back {blank : Text} (white : Blank blank) (free : Bool) (text : Text) :
    mapSpans rewrite free (text ++ blank) = mapSpans rewrite free text ++ blank := by
  cases blank with
  | nil => rw [List.append_nil, List.append_nil]
  | cons c blank =>
      have left : endsLeft c = true := by simp [endsLeft, white c (by simp)]
      have behind : Blank blank := fun d member => white d (by simp [member])
      have tail := keeps.mapSpans_front behind []
      rw [keeps.mapSpans_nil, List.append_nil] at tail
      rw [mapSpans_append text free (endsRight_of_endsLeft left), left, tail]

theorem solid_span {free : Bool} {span : Text} (unbroken : Unbroken span)
    (some_span : span ≠ []) : Tight (rewrite free span) :=
  Tight.of_all (keeps.filled free span some_span) fun _ member =>
    (keeps.unbroken free span unbroken).solid member

theorem mapSpans_first {free : Bool} {text : Text}
    (start : ∃ c ∈ text.head?, Text.isBlank c = false) :
    ∃ c ∈ (mapSpans rewrite free text).head?, Text.isBlank c = false := by
  have some_text : text ≠ [] := by
    rintro rfl
    obtain ⟨c, first, -⟩ := start
    cases first
  rcases span_cases text with unbroken | ⟨span, c, rest, unbroken, broken, rfl⟩
  · rw [mapSpans_span unbroken]
    exact (keeps.solid_span unbroken some_text).first
  · rw [mapSpans_boundary unbroken free broken]
    by_cases empty : span = []
    · rw [empty, keeps.empty]
      rw [empty] at start
      simpa using start
    · exact Text.head_append (keeps.solid_span unbroken empty).first _

theorem mapSpans_last {free : Bool} {text : Text}
    (finish : ∃ c ∈ text.getLast?, Text.isBlank c = false) :
    ∃ c ∈ (mapSpans rewrite free text).getLast?, Text.isBlank c = false := by
  induction text using span_induction generalizing free with
  | span text unbroken =>
      have some_text : text ≠ [] := by
        rintro rfl
        obtain ⟨c, last, -⟩ := finish
        cases last
      rw [mapSpans_span unbroken]
      exact (keeps.solid_span unbroken some_text).last
  | boundary span c rest unbroken broken ih =>
      rw [mapSpans_boundary unbroken free broken]
      cases rest with
      | nil =>
          rw [keeps.mapSpans_nil]
          simpa using finish
      | cons d rest =>
          have inner : ∃ e ∈ (d :: rest).getLast?, Text.isBlank e = false := by
            simpa [List.getLast?_append] using finish
          have behind := Text.last_append (@ih (endsLeft c) inner) (rewrite free span ++ [c])
          simpa using behind

theorem comma_free {free : Bool} {text : Text} (apart : ',' ∉ text) :
    ',' ∉ mapSpans rewrite free text := by
  have comma : endsRight ',' = true := by decide
  have outside : ∀ free span, Unbroken span → ',' ∉ rewrite free span := by
    intro free span unbroken member
    have inner := keeps.unbroken free span unbroken ',' member
    rw [comma] at inner
    cases inner
  induction text using span_induction generalizing free with
  | span text unbroken =>
      rw [mapSpans_span unbroken]
      exact outside free text unbroken
  | boundary span c rest unbroken broken ih =>
      simp only [List.mem_append, List.mem_cons, not_or] at apart
      rw [mapSpans_boundary unbroken free broken]
      simp only [List.mem_append, List.mem_cons, not_or]
      exact ⟨outside free span unbroken, apart.2.1, ih apart.2.2⟩

theorem spaceCommas_mapSpans_free {text : Text} (free : ',' ∉ text) :
    spaceCommas (mapSpans rewrite true text) = mapSpans rewrite true (spaceCommas text) := by
  obtain ⟨before, after, front, back, whole⟩ := Text.exists_margins text
  have split := congrArg (mapSpans rewrite true) whole
  rw [keeps.mapSpans_back back, keeps.mapSpans_front front] at split
  rw [spaceCommas_of_free free, spaceCommas_of_free (keeps.comma_free free), split]
  by_cases empty : Text.trim text = []
  · rw [empty, keeps.mapSpans_nil, List.append_nil, Text.trim_blank (front.append back)]
  · have tight := Text.trim_tight text empty
    exact Text.trim_padded front
      ⟨keeps.mapSpans_first tight.first, keeps.mapSpans_last tight.last⟩ back

/-- Spacing the commas before or after the spans are rewritten comes to the same. -/
theorem spaceCommas_mapSpans (text : Text) :
    spaceCommas (mapSpans rewrite true text) = mapSpans rewrite true (spaceCommas text) := by
  induction text using Text.comma_induction with
  | free text free => exact keeps.spaceCommas_mapSpans_free free
  | comma front back free ih =>
      have comma : endsRight ',' = true := by decide
      have left : endsLeft ',' = true := by decide
      have gap : mapSpans rewrite true ([' '] ++ spaceCommas back) = _ :=
        keeps.mapSpans_front TypeExpr.Layout.blank_space (spaceCommas back)
      calc spaceCommas (mapSpans rewrite true (front ++ ',' :: back))
          = spaceCommas (mapSpans rewrite true front) ++ [',', ' '] ++
              spaceCommas (mapSpans rewrite true back) := by
            rw [mapSpans_append front true comma, left, spaceCommas_comma]
        _ = mapSpans rewrite true (spaceCommas front) ++ [',', ' '] ++
              mapSpans rewrite true (spaceCommas back) := by
            rw [keeps.spaceCommas_mapSpans_free free, ih]
        _ = mapSpans rewrite true (spaceCommas front ++ ',' :: ([' '] ++ spaceCommas back)) := by
            rw [mapSpans_append _ true comma, left, gap]
            simp
        _ = mapSpans rewrite true (spaceCommas (front ++ ',' :: back)) := by
            rw [spaceCommas_comma]
            simp

end KeepsSpans

end ApiSchema.Generic
