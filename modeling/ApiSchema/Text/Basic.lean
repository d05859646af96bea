set_option autoImplicit false

namespace ApiSchema

/-- A text: names, type expressions, descriptions and messages alike. -/
abbrev Text := List Char

instance : Coe String Text := ⟨String.toList⟩

instance : LawfulBEq Text := inferInstance

namespace Text

/-- The rest of `text` after `start`, if `text` begins with it. -/
def stripStart? (start : Text) (text : Text) : Option Text :=
  if start.isPrefixOf text then some (text.drop start.length) else none

theorem stripStart?_eq_some_iff {start text rest : Text} :
    stripStart? start text = some rest ↔ text = start ++ rest := by
  unfold stripStart?
  split
  · next h =>
    obtain ⟨tail, rfl⟩ := List.isPrefixOf_iff_prefix.mp h
    simp
  · next h =>
    simp only [reduceCtorEq, false_iff]
    rintro rfl
    exact h (List.isPrefixOf_iff_prefix.mpr (List.prefix_append start rest))

/-- What stands before `ending`, if `text` ends with it. -/
def stripEnd? (ending : Text) (text : Text) : Option Text :=
  if ending.isSuffixOf text then some (text.take (text.length - ending.length)) else none

theorem stripEnd?_eq_some_iff {ending text rest : Text} :
    stripEnd? ending text = some rest ↔ text = rest ++ ending := by
  unfold stripEnd?
  split
  · next h =>
    obtain ⟨head, rfl⟩ := List.isSuffixOf_iff_suffix.mp h
    simp
  · next h =>
    simp only [reduceCtorEq, false_iff]
    rintro rfl
    exact h (List.isSuffixOf_iff_suffix.mpr (List.suffix_append rest ending))

/-- The parts of `text` around the first `mark`. -/
def cutAt? (mark : Char) : Text → Option (Text × Text)
  | [] => none
  | c :: rest =>
    if c = mark then some ([], rest)
    else (cutAt? mark rest).map fun (before, after) => (c :: before, after)

theorem eq_append_of_cutAt? {mark : Char} {text before after : Text}
    (cut : cutAt? mark text = some (before, after)) : text = before ++ mark :: after := by
  induction text generalizing before with
  | nil => simp [cutAt?] at cut
  | cons c rest ih =>
    unfold cutAt? at cut
    split at cut
    · next h =>
      simp only [Option.some.injEq, Prod.mk.injEq] at cut
      obtain ⟨rfl, rfl⟩ := cut
      simp [h]
    · obtain ⟨⟨first, second⟩, found, same⟩ := Option.map_eq_some_iff.mp cut
      simp only [Prod.mk.injEq] at same
      obtain ⟨rfl, rfl⟩ := same
      simp [ih found]

theorem not_mem_of_cutAt? {mark : Char} {text before after : Text}
    (cut : cutAt? mark text = some (before, after)) : mark ∉ before := by
  induction text generalizing before with
  | nil => simp [cutAt?] at cut
  | cons c rest ih =>
    unfold cutAt? at cut
    split at cut
    · next h =>
      simp only [Option.some.injEq, Prod.mk.injEq] at cut
      obtain ⟨rfl, rfl⟩ := cut
      simp
    · next h =>
      obtain ⟨⟨first, second⟩, found, same⟩ := Option.map_eq_some_iff.mp cut
      simp only [Prod.mk.injEq] at same
      obtain ⟨rfl, rfl⟩ := same
      simp [ih found, Ne.symm h]

theorem cutAt?_append {mark : Char} {before : Text} (free : mark ∉ before) (after : Text) :
    cutAt? mark (before ++ mark :: after) = some (before, after) := by
  induction before with
  | nil => simp [cutAt?]
  | cons c rest ih =>
    have other : ¬ c = mark := fun same => free (by simp [same])
    have tail := ih fun member => free (List.mem_cons_of_mem c member)
    simp [cutAt?, other, tail]

theorem cutAt?_eq_none_iff {mark : Char} {text : Text} :
    cutAt? mark text = none ↔ mark ∉ text := by
  induction text with
  | nil => simp [cutAt?]
  | cons c rest ih =>
    by_cases same : c = mark
    · simp [cutAt?, same]
    · simp [cutAt?, same, Ne.symm same, ih]

/-- The parts of `text` between the marks: one more than there are marks. -/
def pieces (mark : Char) : Text → List Text
  | [] => [[]]
  | c :: rest =>
    if c = mark then [] :: pieces mark rest
    else
      match pieces mark rest with
      | [] => [[c]]
      | piece :: more => (c :: piece) :: more

/-- The texts one after another with `separator` between neighbours. -/
def joinWith (separator : Text) : List Text → Text
  | [] => []
  | [text] => text
  | text :: next :: rest => text ++ separator ++ joinWith separator (next :: rest)

/-- Replaces every occurrence of a pattern that is not empty, from left to right; occurrences
do not overlap and a replacement is not looked at again. -/
def replaceFound (pattern replacement : Text) (text : Text) : Text :=
  match text with
  | [] => []
  | c :: rest =>
    if pattern.isPrefixOf (c :: rest) ∧ pattern ≠ [] then
      replacement ++ replaceFound pattern replacement ((c :: rest).drop pattern.length)
    else c :: replaceFound pattern replacement rest
termination_by text.length
decreasing_by
  · next h =>
    have := List.length_pos_iff.mpr h.2
    simp only [List.length_drop, List.length_cons]
    omega
  · simp

/-- Replaces every occurrence of `pattern`. The empty pattern occurs before each character and
at the end. -/
def replace (pattern replacement text : Text) : Text :=
  if pattern = [] then replacement ++ text.flatMap fun c => c :: replacement
  else replaceFound pattern replacement text

/-- A natural number in decimal digits. -/
def ofNat (n : Nat) : Text :=
  Nat.toDigits 10 n

end Text

end ApiSchema
