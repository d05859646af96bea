import ApiSchema.Json.Printer
import ApiSchema.Json.Source
import ApiSchema.Proofs.Json.Numerals
import ApiSchema.Proofs.Json.Strings

set_option autoImplicit false

namespace ApiSchema.Json

/-- The state after the tokens of a text. -/
def after (state : State) (text : Text) : State := (tokens text).foldl advance state

def Gap (text : Text) : Prop := ∀ c ∈ text, isGap c = true

section Tokens

variable {state : State} {rest : Text}

theorem after_gap {gap : Text} (blank : Gap gap) :
    after state (gap ++ rest) = after state rest := by
  induction gap with
  | nil => rfl
  | cons c gap ih =>
      have same : tokens (c :: (gap ++ rest)) = tokens (gap ++ rest) := by
        rw [tokens, if_pos (blank c (by simp))]
      rw [List.cons_append, after, same]
      exact ih fun d member => blank d (by simp [member])

theorem after_gaps {gap : Text} (blank : Gap gap) : after state gap = state := by
  have passed : after state (gap ++ []) = after state [] := after_gap blank
  rw [List.append_nil] at passed
  rw [passed, after, tokens, List.foldl_nil]

theorem isGap_mem {c : Char} (gap : isGap c = true) : c ∈ [' ', '\n', '\t', '\r'] := by
  simpa [isGap, or_assoc] using gap

theorem mark?_some {c : Char} {token : Token} (marks : mark? c = some token) :
    c ∈ ['[', ']', '{', '}', ',', ':'] := by
  unfold mark? at marks
  split at marks
  · simp_all
  split at marks
  · simp_all
  split at marks
  · simp_all
  split at marks
  · simp_all
  split at marks
  · simp_all
  split at marks
  · simp_all
  · cases marks

theorem after_mark {c : Char} {token : Token} (marks : mark? c = some token) :
    after state (c :: rest) = after (advance state token) rest := by
  have solid : ∀ d ∈ ['[', ']', '{', '}', ',', ':'], ¬ isGap d = true := by simp [isGap]
  rw [after, tokens, if_neg (solid c (mark?_some marks)), marks]
  rfl

theorem after_leaf {c : Char} {text : Text} {value : Json} (solid : isGap c = false)
    (unmarked : mark? c = none) (found : leaf? (c :: text) = some (value, rest)) :
    after state (c :: text) = after (advance state (.leaf value)) rest := by
  rw [after, tokens, if_neg (by simp [solid]), unmarked]
  simp only
  split
  · next none_found => rw [found] at none_found; cases none_found
  · next other more here =>
      rw [found, Option.some.injEq, Prod.mk.injEq] at here
      rw [here.1, here.2]
      rfl

theorem numberEnds_mark {c : Char} {token : Token} (marks : mark? c = some token) :
    NumberEnds (c :: rest) := by
  have ends : ∀ d ∈ ['[', ']', '{', '}', ',', ':'],
      d.isDigit = false ∧ d ≠ '.' ∧ d ≠ 'e' ∧ d ≠ 'E' := by simp
  intro d first
  rw [← Option.some.inj first]
  exact ends c (mark?_some marks)

theorem numberEnds_gap {gap : Text} (blank : Gap gap) (ends : NumberEnds rest) :
    NumberEnds (gap ++ rest) := by
  cases gap with
  | nil => exact ends
  | cons c gap =>
      have gaps : ∀ d ∈ [' ', '\n', '\t', '\r'],
          d.isDigit = false ∧ d ≠ '.' ∧ d ≠ 'e' ∧ d ≠ 'E' := by simp
      intro d first
      rw [← Option.some.inj first]
      exact gaps c (isGap_mem (blank c (by simp)))

end Tokens

/-- Where a value may stand, the tokens of the text place this value. -/
def Reads (text : Text) (value : Json) : Prop :=
  ∀ what frames rest, what = .value ∨ what = .firstItem → NumberEnds rest →
    after (.expecting what frames) (text ++ rest) = after (place value frames) rest

theorem advance_leaf {what : Expectation} (awaited : what = .value ∨ what = .firstItem)
    (value : Json) (frames : List Frame) :
    advance (.expecting what frames) (.leaf value) = place value frames := by
  rcases awaited with rfl | rfl
  · rfl
  · cases frames with
    | nil => rfl
    | cons frame outer => cases frame <;> rfl

theorem reads_leaf {c : Char} {text : Text} {value : Json} (solid : isGap c = false)
    (unmarked : mark? c = none)
    (found : ∀ rest, NumberEnds rest → leaf? (c :: (text ++ rest)) = some (value, rest)) :
    Reads (c :: text) value := by
  intro what frames rest awaited ends
  rw [List.cons_append, after_leaf solid unmarked (found rest ends), advance_leaf awaited]

theorem reads_string (text : Text) : Reads (writeString text) (.string text) :=
  reads_leaf (by decide) (by decide) fun rest _ => leaf?_writeString text rest

theorem reads_null : Reads "null" .null :=
  reads_leaf (by decide) (by decide) fun _ _ => rfl

theorem reads_flag (value : Bool) : Reads (writeLeaf (.flag value)) (.flag value) := by
  cases value with
  | true => exact reads_leaf (c := 't') (by decide) (by decide) fun _ _ => rfl
  | false => exact reads_leaf (c := 'f') (by decide) (by decide) fun _ _ => rfl

theorem reads_number {numeral : Numeral} (proper : numeral.Proper) :
    Reads numeral.text (.number numeral) := by
  obtain ⟨c, more, same, kind⟩ := proper.first
  have others : ∀ d ∈ ['[', ']', '{', '}', ',', ':', ' ', '\n', '\t', '\r'],
      ¬ (d = '-' ∨ d.isDigit = true) := by simp
  have solid : isGap c = false := by
    refine Bool.eq_false_iff.mpr fun gap => others c ?_ kind
    exact List.mem_append_right ['[', ']', '{', '}', ',', ':'] (isGap_mem gap)
  have unmarked : mark? c = none := by
    refine Option.eq_none_iff_forall_not_mem.mpr fun token marks => others c ?_ kind
    exact List.mem_append_left [' ', '\n', '\t', '\r'] (mark?_some marks)
  rw [same]
  refine reads_leaf solid unmarked fun rest ends => ?_
  rw [← List.cons_append, ← same]
  exact leaf?_numeral proper ends

/-- Where this part of a container may stand, the tokens of its text put it to the parts before. -/
def Adds {β : Type} (frame : List β → Frame) (what : Expectation) (text : Text) (part : β) : Prop :=
  ∀ done outer rest, NumberEnds rest →
    after (.expecting what (frame done :: outer)) (text ++ rest) =
      after (.expecting .separator (frame (part :: done) :: outer)) rest

/-- The texts of the parts behind the first, each behind a comma and a gap. -/
def moreParts (gap : Text) (texts : List Text) : Text :=
  texts.flatMap fun text => ',' :: (gap ++ text)

/-- The texts of the parts of a container between its brackets. -/
def enclosed (opening closing : Char) (gap last : Text) : List Text → Text
  | [] => [opening, closing]
  | first :: more => opening :: (gap ++ (first ++ (moreParts gap more ++ (last ++ [closing]))))

theorem numberEnds_moreParts (gap : Text) (texts : List Text) {rest : Text}
    (ends : NumberEnds rest) : NumberEnds (moreParts gap texts ++ rest) := by
  cases texts with
  | nil => exact ends
  | cons text texts => exact numberEnds_mark (show mark? ',' = some .comma from rfl)

section Parts

variable {β : Type} {first next : Expectation} {print : β → Text}

/-- The parts behind the first, each behind a comma. -/
theorem after_moreParts {frame : List β → Frame} (goes_on : ∀ done outer,
      advance (.expecting .separator (frame done :: outer)) .comma =
        .expecting next (frame done :: outer))
    {gap : Text} (blank : Gap gap) {parts : List β}
    (each : ∀ part ∈ parts, Adds frame next (print part) part) (done : List β)
    (outer : List Frame) {rest : Text} (ends : NumberEnds rest) :
    after (.expecting .separator (frame done :: outer))
        (moreParts gap (parts.map print) ++ rest) =
      after (.expecting .separator (frame (parts.reverse ++ done) :: outer)) rest := by
  induction parts generalizing done with
  | nil => rfl
  | cons part parts ih =>
      have spelled : moreParts gap ((part :: parts).map print) ++ rest =
          ',' :: (gap ++ (print part ++ (moreParts gap (parts.map print) ++ rest))) := by
        simp [moreParts]
      have tail := ih (fun other member => each other (by simp [member])) (part :: done)
      rw [spelled, after_mark (show mark? ',' = some .comma from rfl), goes_on, after_gap blank,
        each part (by simp) done outer _ (numberEnds_moreParts gap _ ends), tail, List.reverse_cons,
        List.append_assoc, List.singleton_append]

/-- A container is placed by its brackets and its parts. -/
theorem reads_enclosed (frame : List β → Frame) {whole : List β → Json}
    {opening closing : Char} {opens closes : Token}
    (opened : mark? opening = some opens) (closed : mark? closing = some closes)
    (begins : ∀ what frames, what = .value ∨ what = .firstItem →
      advance (.expecting what frames) opens = .expecting first (frame [] :: frames))
    (empty : ∀ outer,
      advance (.expecting first (frame [] :: outer)) closes = place (whole []) outer)
    (goes_on : ∀ done outer, advance (.expecting .separator (frame done :: outer)) .comma =
      .expecting next (frame done :: outer))
    (ends : ∀ done outer, advance (.expecting .separator (frame done :: outer)) closes =
      place (whole done.reverse) outer)
    {gap last : Text} (blank : Gap gap) (blank_last : Gap last) {parts : List β}
    (each : ∀ part ∈ parts, ∀ what, what = first ∨ what = next →
      Adds frame what (print part) part) :
    Reads (enclosed opening closing gap last (parts.map print)) (whole parts) := by
  intro what frames rest awaited rest_ends
  cases parts with
  | nil =>
      change after _ (opening :: closing :: rest) = _
      rw [after_mark opened, begins what frames awaited, after_mark closed, empty]
  | cons part parts =>
      have close_ends : NumberEnds (last ++ closing :: rest) :=
        numberEnds_gap blank_last (numberEnds_mark closed)
      have spelled : enclosed opening closing gap last ((part :: parts).map print) ++ rest =
          opening :: (gap ++ (print part ++
            (moreParts gap (parts.map print) ++ (last ++ closing :: rest)))) := by
        simp [enclosed]
      have head := each part (by simp) first (Or.inl rfl) [] frames _
        (numberEnds_moreParts gap (parts.map print) close_ends)
      have others : ∀ other ∈ parts, Adds frame next (print other) other :=
        fun other member => each other (by simp [member]) next (Or.inr rfl)
      have tail := after_moreParts goes_on blank others [part] frames close_ends
      rw [spelled, after_mark opened, begins what frames awaited, after_gap blank, head, tail,
        after_gap blank_last, after_mark closed, ends]
      simp

end Parts

theorem advance_open {what : Expectation} (awaited : what = .value ∨ what = .firstItem)
    (frames : List Frame) :
    advance (.expecting what frames) .openArray = .expecting .firstItem (.array [] :: frames) ∧
      advance (.expecting what frames) .openObject =
        .expecting .firstName (.object [] :: frames) := by
  rcases awaited with rfl | rfl
  · exact ⟨rfl, rfl⟩
  · cases frames with
    | nil => exact ⟨rfl, rfl⟩
    | cons frame outer => cases frame <;> exact ⟨rfl, rfl⟩

theorem reads_list {gap last : Text} (blank : Gap gap) (blank_last : Gap last)
    {print : Json → Text} {items : List Json} (each : ∀ item ∈ items, Reads (print item) item) :
    Reads (enclosed '[' ']' gap last (items.map print)) (list items) := by
  refine reads_enclosed Frame.array rfl rfl
    (fun what frames awaited => (advance_open awaited frames).1) (fun _ => rfl)
    (fun _ _ => rfl) (fun _ _ => rfl) blank blank_last ?_
  intro item member what awaited done outer rest ends
  exact each item member what _ rest awaited.symm ends

def memberText (colon : Text) (print : Json → Text) (member : Text × Json) : Text :=
  writeString member.1 ++ (colon ++ print member.2)

theorem adds_member {gap : Text} (blank : Gap gap) {print : Json → Text} {member : Text × Json}
    (reads : Reads (print member.2) member.2) {what : Expectation}
    (awaited : what = .firstName ∨ what = .name) :
    Adds (fun members => Frame.object (members.map fun (name, value) => (some name, value))) what
      (memberText (':' :: gap) print member) member := by
  intro done outer rest ends
  have named : ∀ text, after (.expecting what
      (Frame.object (done.map fun (name, value) => (some name, value)) :: outer))
        (writeString member.1 ++ text) =
      after (.expecting .colon
        (Frame.member (done.map fun (name, value) => (some name, value)) (some member.1) :: outer))
          text := by
    intro text
    have found := leaf?_writeString member.1 text
    rw [writeString, List.cons_append, List.cons_append] at found ⊢
    rw [after_leaf (by decide) (by decide) found]
    rcases awaited with rfl | rfl <;> rfl
  rw [memberText, List.append_assoc, named, List.append_assoc, List.cons_append,
    after_mark (show mark? ':' = some .colon from rfl)]
  change after (.expecting .value _) _ = _
  rw [after_gap blank]
  exact reads .value _ rest (Or.inl rfl) ends

theorem reads_record {gap last colon : Text} (blank : Gap gap) (blank_last : Gap last)
    (blank_colon : Gap colon) {print : Json → Text} {members : List (Text × Json)}
    (each : ∀ member ∈ members, Reads (print member.2) member.2) :
    Reads (enclosed '{' '}' gap last (members.map (memberText (':' :: colon) print)))
      (record members) := by
  refine reads_enclosed
    (fun members => Frame.object (members.map fun (name, value) => (some name, value)))
    rfl rfl (fun what frames awaited => (advance_open awaited frames).2) (fun _ => rfl)
    (fun _ _ => rfl) ?_ blank blank_last ?_
  · intro done outer
    change place (.object (done.map _).reverse true) outer = _
    rw [← List.map_reverse]
    rfl
  · intro member inside what awaited
    exact adds_member blank_colon (each member inside) awaited

end ApiSchema.Json
