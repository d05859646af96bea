import ApiSchema.Text.Blank

set_option autoImplicit false

namespace ApiSchema.Text

def Blank (text : Text) : Prop := ∀ c ∈ text, isBlank c = true

/-- A text that is not empty and has no blank at either end. -/
structure Tight (text : Text) : Prop where
  first : ∃ c ∈ text.head?, isBlank c = false
  last : ∃ c ∈ text.getLast?, isBlank c = false

@[simp] theorem Blank.nil : Blank [] := by
  intro c member
  cases member

theorem Blank.singleton {c : Char} (blank : isBlank c = true) : Blank [c] := by
  intro other member
  rw [List.mem_singleton.mp member]
  exact blank

/-- A solid character stands in no blank text. -/
theorem Blank.not_mem {text : Text} (blank : Blank text) {c : Char} (solid : isBlank c = false) :
    c ∉ text := by
  intro member
  rw [blank c member] at solid
  cases solid

theorem Blank.append {before after : Text} (front : Blank before) (back : Blank after) :
    Blank (before ++ after) := by
  intro c member
  rcases List.mem_append.mp member with member | member
  · exact front c member
  · exact back c member

theorem Blank.reverse {text : Text} (blank : Blank text) : Blank text.reverse := by
  intro c member
  exact blank c (List.mem_reverse.mp member)

theorem Blank.dropWhile_append {before : Text} (blank : Blank before) (text : Text) :
    (before ++ text).dropWhile isBlank = text.dropWhile isBlank :=
  List.dropWhile_append_of_pos blank

theorem Tight.reverse {text : Text} (tight : Tight text) : Tight text.reverse :=
  ⟨by simpa only [List.head?_reverse] using tight.last,
    by simpa only [List.getLast?_reverse] using tight.first⟩

theorem head_append {good : Char → Prop} {front : Text} (start : ∃ c ∈ front.head?, good c)
    (back : Text) : ∃ c ∈ (front ++ back).head?, good c := by
  obtain ⟨c, begins, fit⟩ := start
  refine ⟨c, ?_, fit⟩
  rw [List.head?_append, Option.mem_def.mp begins]
  rfl

theorem last_append {good : Char → Prop} {back : Text} (finish : ∃ c ∈ back.getLast?, good c)
    (front : Text) : ∃ c ∈ (front ++ back).getLast?, good c := by
  obtain ⟨c, ends, fit⟩ := finish
  refine ⟨c, ?_, fit⟩
  rw [List.getLast?_append, Option.mem_def.mp ends]
  rfl

/-- Two texts are tight together if the first begins and the second ends with a solid character. -/
theorem Tight.join {front back : Text} (start : ∃ c ∈ front.head?, isBlank c = false)
    (finish : ∃ c ∈ back.getLast?, isBlank c = false) : Tight (front ++ back) :=
  ⟨head_append start back, last_append finish front⟩

theorem Tight.of_ends {text : Text} (c : Char) (inner : Text) (d : Char)
    (same : text = c :: inner ++ [d]) (first : isBlank c = false) (last : isBlank d = false) :
    Tight text := by
  subst same
  exact ⟨⟨c, by simp, first⟩, ⟨d, by rw [List.getLast?_append]; rfl, last⟩⟩

theorem Tight.of_all {text : Text} (some_text : text ≠ [])
    (solid : ∀ c ∈ text, isBlank c = false) : Tight text := by
  obtain ⟨c, rest, rfl⟩ := List.exists_cons_of_ne_nil some_text
  refine ⟨⟨c, by simp, solid c (by simp)⟩, ⟨(c :: rest).getLast some_text, ?_, ?_⟩⟩
  · exact List.getLast?_eq_some_getLast some_text
  · exact solid _ (List.getLast_mem some_text)

theorem Tight.dropWhile {text : Text} (tight : Tight text) : text.dropWhile isBlank = text := by
  obtain ⟨c, found, solid⟩ := tight.first
  cases text with
  | nil => cases found
  | cons first rest =>
      simp only [List.head?_cons, Option.mem_some] at found
      rw [List.dropWhile_cons, found, solid]
      rfl

/-- Trimming takes away just the blanks around a text without blanks at its ends. -/
theorem trim_padded {before text after : Text} (front : Blank before) (tight : Tight text)
    (back : Blank after) : trim (before ++ text ++ after) = text := by
  obtain ⟨c, start, solid⟩ := tight.first
  have opened : (text ++ after).dropWhile isBlank = text ++ after := by
    cases text with
    | nil => cases start
    | cons first rest =>
        simp only [List.head?_cons, Option.mem_some] at start
        rw [List.cons_append, List.dropWhile_cons, start, solid]
        rfl
  rw [trim, List.append_assoc, front.dropWhile_append, opened, List.reverse_append,
    back.reverse.dropWhile_append, tight.reverse.dropWhile, List.reverse_reverse]

theorem Tight.trim {text : Text} (tight : Tight text) : trim text = text := by
  simpa using trim_padded Blank.nil tight Blank.nil

theorem trim_blank {text : Text} (blank : Blank text) : trim text = [] := by
  have gone : text.dropWhile isBlank = [] := by
    simpa using blank.dropWhile_append []
  simp [trim, gone]

theorem blank_takeWhile (text : Text) : Blank (text.takeWhile isBlank) := by
  intro c member
  exact List.all_eq_true.mp List.all_takeWhile c member

/-- Every text is its trimmed text with blanks around it. -/
theorem exists_margins (text : Text) :
    ∃ before after, Blank before ∧ Blank after ∧ text = before ++ trim text ++ after := by
  let rest := text.dropWhile isBlank
  refine ⟨text.takeWhile isBlank, (rest.reverse.takeWhile isBlank).reverse,
    blank_takeWhile text, (blank_takeWhile rest.reverse).reverse, ?_⟩
  have front := List.takeWhile_append_dropWhile (p := isBlank) (l := text)
  have back := List.takeWhile_append_dropWhile (p := isBlank) (l := rest.reverse)
  have tail : trim text ++ (rest.reverse.takeWhile isBlank).reverse = rest := by
    rw [trim, ← List.reverse_append, back, List.reverse_reverse]
  rw [List.append_assoc, tail, front]

theorem head?_dropWhile_blank (text : Text) {c : Char}
    (found : c ∈ (text.dropWhile isBlank).head?) : isBlank c = false := by
  have stop := List.head?_dropWhile_not isBlank text
  rw [Option.mem_def.mp found] at stop
  simpa using stop

theorem trim_tight (text : Text) (some_text : trim text ≠ []) : Tight (trim text) := by
  let rest := text.dropWhile isBlank
  have unfolded : trim text = (rest.reverse.dropWhile isBlank).reverse := rfl
  have last : ∀ c ∈ (trim text).getLast?, isBlank c = false := by
    intro c found
    rw [unfolded, List.getLast?_reverse] at found
    exact head?_dropWhile_blank _ found
  -- the first character of the trimmed text is still the first one behind the leading blanks
  have first : ∀ c ∈ (trim text).head?, isBlank c = false := by
    intro c found
    have cut : rest = trim text ++ (rest.reverse.takeWhile isBlank).reverse := by
      rw [unfolded, ← List.reverse_append, List.takeWhile_append_dropWhile,
        List.reverse_reverse]
    apply head?_dropWhile_blank text
    change c ∈ rest.head?
    rw [cut, List.head?_append, Option.mem_def.mp found]
    rfl
  obtain ⟨c, start⟩ := Option.isSome_iff_exists.mp (List.isSome_head?.mpr some_text)
  have finish := List.getLast?_eq_some_getLast some_text
  exact ⟨⟨c, start, first c start⟩, ⟨_, finish, last _ finish⟩⟩

theorem trim_trim (text : Text) : trim (trim text) = trim text := by
  by_cases empty : trim text = []
  · rw [empty]
    rfl
  · exact (trim_tight text empty).trim

theorem trim_append_left {front back : Text} (blank : Blank front) :
    trim (front ++ back) = trim back := by
  rw [trim, trim, blank.dropWhile_append]

theorem trim_append_right {front back : Text} (blank : Blank back) :
    trim (front ++ back) = trim front := by
  obtain ⟨before, after, first, last, whole⟩ := exists_margins front
  by_cases empty : trim front = []
  · rw [empty, List.append_nil] at whole
    rw [empty]
    apply trim_blank
    rw [whole]
    exact (first.append last).append blank
  · have again := trim_padded first (trim_tight front empty) (last.append blank)
    rwa [← List.append_assoc, ← whole] at again

theorem trim_ne_nil {text : Text} {c : Char} (member : c ∈ text) (solid : isBlank c = false) :
    trim text ≠ [] := by
  obtain ⟨before, after, first, last, whole⟩ := exists_margins text
  intro empty
  rw [whole, empty, List.append_nil] at member
  rw [first.append last c member] at solid
  cases solid

/-- A text that ends with a solid character has blanks in front of its trimmed text at most. -/
theorem exists_lead {text : Text} (finish : ∃ c ∈ text.getLast?, isBlank c = false) :
    ∃ before, Blank before ∧ text = before ++ trim text := by
  obtain ⟨c, ends, solid⟩ := finish
  obtain ⟨before, after, first, last, whole⟩ := exists_margins text
  rcases List.eq_nil_or_concat after with rfl | ⟨more, d, rfl⟩
  · exact ⟨before, first, by rwa [List.append_nil] at whole⟩
  · rw [List.concat_eq_append] at whole last
    rw [whole, ← List.append_assoc, List.getLast?_concat, Option.mem_some] at ends
    rw [← ends, last d (by simp)] at solid
    cases solid

/-- What stands in front of a solid character is kept if it begins with one itself. -/
theorem trim_append_of_head {front text : Text} (start : ∃ c ∈ front.head?, isBlank c = false)
    (inner : ∃ c ∈ text.head?, isBlank c = false) : trim (front ++ text) = front ++ trim text := by
  obtain ⟨c, found, firm⟩ := inner
  have some_text := trim_ne_nil (List.mem_of_mem_head? found) firm
  obtain ⟨before, after, first, last, whole⟩ := exists_margins text
  cases before with
  | cons d more =>
      rw [whole] at found
      simp only [List.cons_append, List.head?_cons, Option.mem_some] at found
      rw [← found, first d (by simp)] at firm
      cases firm
  | nil =>
      rw [List.nil_append] at whole
      have tight := Tight.join start (trim_tight text some_text).last
      have padded := trim_padded Blank.nil tight last
      rwa [List.nil_append, List.append_assoc, ← whole] at padded

/-- What stands behind a solid character is kept if it ends with one itself. -/
theorem trim_append_of_getLast {text back : Text} (inner : ∃ c ∈ text.getLast?, isBlank c = false)
    (finish : ∃ c ∈ back.getLast?, isBlank c = false) :
    trim (text ++ back) = trim text ++ back := by
  obtain ⟨c, found, firm⟩ := inner
  have some_text := trim_ne_nil (List.mem_of_mem_getLast? found) firm
  obtain ⟨before, after, first, last, whole⟩ := exists_margins text
  rcases List.eq_nil_or_concat after with rfl | ⟨more, d, rfl⟩
  · rw [List.append_nil] at whole
    have tight := Tight.join (trim_tight text some_text).first finish
    have padded := trim_padded first tight Blank.nil
    rwa [List.append_nil, ← List.append_assoc, ← whole] at padded
  · rw [List.concat_eq_append] at whole last
    rw [whole, ← List.append_assoc, List.getLast?_concat, Option.mem_some] at found
    rw [← found, last d (by simp)] at firm
    cases firm

end ApiSchema.Text
