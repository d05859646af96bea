import ApiSchema.Text.Basic

set_option autoImplicit false

namespace ApiSchema.Text

theorem replaceFound_cons (pattern replacement : Text) {c : Char} {rest : Text}
    (absent : ¬ pattern <+: c :: rest) :
    replaceFound pattern replacement (c :: rest) =
      c :: replaceFound pattern replacement rest := by
  rw [replaceFound, if_neg]
  rintro ⟨found, -⟩
  exact absent (List.isPrefixOf_iff_prefix.mp found)

theorem replaceFound_pattern {pattern : Text} (some_pattern : pattern ≠ [])
    (replacement rest : Text) :
    replaceFound pattern replacement (pattern ++ rest) =
      replacement ++ replaceFound pattern replacement rest := by
  obtain ⟨c, more, rfl⟩ := List.exists_cons_of_ne_nil some_pattern
  have found : (c :: more).isPrefixOf (c :: (more ++ rest)) = true :=
    List.isPrefixOf_iff_prefix.mpr ⟨rest, rfl⟩
  rw [List.cons_append, replaceFound, if_pos ⟨found, some_pattern⟩]
  simp

/-- Where its first character does not stand, a pattern is not found. -/
theorem replaceFound_free {c : Char} {front : Text} (free : c ∉ front)
    (pattern replacement rest : Text) :
    replaceFound (c :: pattern) replacement (front ++ rest) =
      front ++ replaceFound (c :: pattern) replacement rest := by
  induction front with
  | nil => rfl
  | cons d front ih =>
      have absent : ¬ c :: pattern <+: d :: (front ++ rest) := by
        rintro ⟨behind, same⟩
        rw [List.cons_append, List.cons.injEq] at same
        exact free (by simp [same.1])
      rw [List.cons_append, replaceFound_cons _ _ absent,
        ih fun member => free (List.mem_cons_of_mem d member), List.cons_append]

/-- A pattern is not found in a text, or it is replaced where it is found first and then in what
follows. -/
theorem replaceFound_cases {pattern : Text} (some_pattern : pattern ≠ [])
    (replacement text : Text) :
    replaceFound pattern replacement text = text ∨
      ∃ front back, text = front ++ pattern ++ back ∧
        replaceFound pattern replacement text =
          front ++ replacement ++ replaceFound pattern replacement back := by
  induction text with
  | nil => exact Or.inl (by rw [replaceFound])
  | cons c rest ih =>
      by_cases found : pattern <+: c :: rest
      · obtain ⟨back, same⟩ := found
        refine Or.inr ⟨[], back, same.symm, ?_⟩
        rw [← same, replaceFound_pattern some_pattern]
        rfl
      · rw [replaceFound_cons _ _ found]
        rcases ih with same | ⟨front, back, same, replaced⟩
        · exact Or.inl (by rw [same])
        · exact Or.inr ⟨c :: front, back, by rw [same]; rfl, by rw [replaced]; rfl⟩

/-- Every character of the result is one of the replacement or of the text. -/
theorem mem_replaceFound {pattern replacement text : Text} {c : Char}
    (member : c ∈ replaceFound pattern replacement text) : c ∈ replacement ∨ c ∈ text := by
  fun_induction replaceFound pattern replacement text with
  | case1 => cases member
  | case2 d rest _ ih =>
      rcases List.mem_append.mp member with put | kept
      · exact Or.inl put
      · exact (ih kept).imp id fun behind => List.mem_of_mem_drop behind
  | case3 d rest _ ih =>
      rcases List.mem_cons.mp member with rfl | kept
      · exact Or.inr (by simp)
      · exact (ih kept).imp id (List.mem_cons_of_mem d)

/-- No character of the text is lost that the replacement has if the pattern has it. -/
theorem mem_replaceFound_of_mem {pattern replacement text : Text} {c : Char}
    (carried : c ∈ pattern → c ∈ replacement) (member : c ∈ text) :
    c ∈ replaceFound pattern replacement text := by
  fun_induction replaceFound pattern replacement text with
  | case1 => cases member
  | case2 d rest found ih =>
      obtain ⟨behind, same⟩ := List.isPrefixOf_iff_prefix.mp found.1
      rw [← same, List.drop_left] at ih ⊢
      rw [← same] at member
      rcases List.mem_append.mp member with inside | after
      · exact List.mem_append_left _ (carried inside)
      · exact List.mem_append_right _ (ih after)
  | case3 d rest _ ih =>
      rcases List.mem_cons.mp member with rfl | inside
      · simp
      · exact List.mem_cons_of_mem d (ih inside)

/-- The places of a pattern in a text, counted from the front. -/
theorem forall_places_iff {pattern text : Text} {P : Text → Text → Prop} :
    (∀ i ≤ text.length, pattern <+: text.drop i →
        P (text.take i) (text.drop (i + pattern.length))) ↔
      ∀ front back, text = front ++ pattern ++ back → P front back := by
  constructor
  · rintro each front back rfl
    have place := each front.length (by simp)
    rw [← List.drop_drop] at place
    simpa using place
  · rintro each i - ⟨back, same⟩
    have place := each (text.take i) back
    rw [List.append_assoc, same, List.take_append_drop] at place
    rw [← List.drop_drop, ← same, List.drop_left]
    exact place rfl

/-- An occurrence that begins before a character which the pattern does not have ends before it. -/
theorem startsWith_of_apart {pattern front back : Text} {c : Char} (apart : c ∉ pattern)
    (found : pattern <+: front ++ c :: back) : pattern <+: front := by
  induction pattern generalizing front with
  | nil => exact List.nil_prefix
  | cons d pattern ih =>
      cases front with
      | nil =>
          rw [List.nil_append, List.cons_prefix_cons] at found
          exact absurd (by simp [found.1]) apart
      | cons e front =>
          rw [List.cons_append, List.cons_prefix_cons] at found
          rw [List.cons_prefix_cons]
          exact ⟨found.1, ih (fun member => apart (List.mem_cons_of_mem d member)) found.2⟩

section Apart

variable {pattern : Text} (some_pattern : pattern ≠ [])
include some_pattern

/-- A character that the pattern does not have stays, and the two sides of it are replaced apart. -/
theorem replaceFound_apart {c : Char} (apart : c ∉ pattern) (replacement front back : Text) :
    replaceFound pattern replacement (front ++ c :: back) =
      replaceFound pattern replacement front ++ c :: replaceFound pattern replacement back := by
  induction size : front.length using Nat.strongRecOn generalizing front with
  | ind size ih =>
      by_cases found : pattern <+: front
      · obtain ⟨rest, rfl⟩ := found
        have positive := List.length_pos_iff.mpr some_pattern
        have tail := ih rest.length (by simp at size; omega) rest rfl
        rw [List.append_assoc, replaceFound_pattern some_pattern,
          replaceFound_pattern some_pattern, tail, List.append_assoc]
      · have absent : ¬ pattern <+: front ++ c :: back :=
          fun starts => found (startsWith_of_apart apart starts)
        cases front with
        | nil =>
            rw [List.nil_append] at absent ⊢
            rw [replaceFound_cons _ _ absent, replaceFound]
            rfl
        | cons d front =>
            have tail := ih front.length (by simp at size; omega) front rfl
            rw [List.cons_append] at absent ⊢
            rw [replaceFound_cons _ _ absent, replaceFound_cons _ _ found, tail]
            rfl

/-- A text with no character of the pattern stays, and what is around it is replaced apart. -/
theorem replaceFound_around {inner : Text} (apart : ∀ c ∈ inner, c ∉ pattern)
    (some_inner : inner ≠ []) (replacement front back : Text) :
    replaceFound pattern replacement (front ++ inner ++ back) =
      replaceFound pattern replacement front ++ inner ++
        replaceFound pattern replacement back := by
  induction inner generalizing front with
  | nil => exact absurd rfl some_inner
  | cons c inner ih =>
      have first := replaceFound_apart some_pattern (apart c (by simp)) replacement front
      cases inner with
      | nil => rw [List.append_assoc, List.singleton_append, first]; simp
      | cons d inner =>
          have rest := ih (fun e member => apart e (by simp [member])) (by simp) []
          rw [replaceFound] at rest
          rw [List.append_assoc, List.cons_append, first]
          simp only [List.nil_append] at rest
          rw [rest]
          simp

theorem replaceFound_front {inner : Text} (apart : ∀ c ∈ inner, c ∉ pattern)
    (replacement back : Text) : replaceFound pattern replacement (inner ++ back) =
      inner ++ replaceFound pattern replacement back := by
  by_cases empty : inner = []
  · rw [empty, List.nil_append, List.nil_append]
  · have split := replaceFound_around some_pattern apart empty replacement [] back
    rw [replaceFound] at split
    simpa using split

theorem replaceFound_back {inner : Text} (apart : ∀ c ∈ inner, c ∉ pattern)
    (replacement front : Text) : replaceFound pattern replacement (front ++ inner) =
      replaceFound pattern replacement front ++ inner := by
  by_cases empty : inner = []
  · rw [empty, List.append_nil, List.append_nil]
  · have split := replaceFound_around some_pattern apart empty replacement front []
    rw [replaceFound.eq_def _ _ []] at split
    simpa using split

end Apart

end ApiSchema.Text
