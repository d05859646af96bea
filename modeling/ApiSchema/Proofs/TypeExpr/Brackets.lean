import ApiSchema.Proofs.TypeExpr.Writing

set_option autoImplicit false

namespace ApiSchema.TypeExpr

/-- Behind `depth` open brackets the text closes these and its own, and never one that is not
open. -/
structure Closes (depth : Nat) (text : Text) : Prop where
  sane : ∀ front, front <+: text → front.count '>' ≤ depth + front.count '<'
  settled : text.count '>' = depth + text.count '<'

/-- Behind `depth` open brackets the text closes all brackets, and its commas stand within some. -/
structure Whole (depth : Nat) (text : Text) : Prop extends Closes depth text where
  inside : ∀ front, front ++ [','] <+: text → front.count '>' < depth + front.count '<'

theorem closes_nil {depth : Nat} : Closes depth [] ↔ depth = 0 := by
  constructor
  · intro closes
    simpa using closes.settled.symm
  · rintro rfl
    refine ⟨fun front start => ?_, by simp⟩
    rw [List.prefix_nil.mp start]
    simp

theorem whole_nil {depth : Nat} : Whole depth [] ↔ depth = 0 := by
  constructor
  · intro whole
    exact closes_nil.mp whole.toCloses
  · intro none_open
    refine ⟨closes_nil.mpr none_open, fun front start => ?_⟩
    simpa using start.length_le

theorem not_closes_bracket (text : Text) : ¬ Closes 0 ('>' :: text) := by
  intro closes
  simpa using closes.sane ['>'] (by simp)

theorem not_whole_comma (text : Text) : ¬ Whole 0 (',' :: text) := by
  intro whole
  simpa using whole.inside [] (by simp)

section Cons

variable {depth next : Nat} {c : Char} {text : Text}

theorem count_cons_eq (d c : Char) (text : Text) :
    (c :: text).count d = [c].count d + text.count d := by
  rw [← List.count_append, List.singleton_append]

/-- The first character takes the number of open brackets from `depth` to `next`. -/
theorem closes_cons (balance : depth + [c].count '<' = next + [c].count '>') :
    Closes depth (c :: text) ↔ Closes next text := by
  have opened := count_cons_eq '<' c
  have closed := count_cons_eq '>' c
  constructor
  · rintro ⟨sane, settled⟩
    refine ⟨fun front start => ?_, ?_⟩
    · have before := sane (c :: front) (List.cons_prefix_cons.mpr ⟨rfl, start⟩)
      rw [opened front, closed front] at before
      omega
    · rw [opened text, closed text] at settled
      omega
  · rintro ⟨sane, settled⟩
    refine ⟨fun front start => ?_, ?_⟩
    · rcases List.prefix_cons_iff.mp start with rfl | ⟨more, rfl, behind⟩
      · simp
      · have before := sane more behind
        rw [opened more, closed more]
        omega
    · rw [opened text, closed text]
      omega

theorem whole_cons (balance : depth + [c].count '<' = next + [c].count '>')
    (within : c = ',' → 0 < depth) : Whole depth (c :: text) ↔ Whole next text := by
  have opened := count_cons_eq '<' c
  have closed := count_cons_eq '>' c
  constructor
  · rintro ⟨closes, inside⟩
    refine ⟨(closes_cons balance).mp closes, fun front start => ?_⟩
    have before := inside (c :: front) (List.cons_prefix_cons.mpr ⟨rfl, start⟩)
    rw [opened front, closed front] at before
    omega
  · rintro ⟨closes, inside⟩
    refine ⟨(closes_cons balance).mpr closes, fun front start => ?_⟩
    cases front with
    | nil => simpa using within (List.cons_prefix_cons.mp start).1.symm
    | cons d front =>
        obtain ⟨rfl, behind⟩ := List.cons_prefix_cons.mp start
        have before := inside front behind
        rw [opened front, closed front]
        omega

end Cons

/-- A text is cut just if its brackets match. -/
theorem isSome_splitAtDepth {depth : Nat} {text : Text} :
    (splitAtDepth depth text).isSome = true ↔ Closes depth text := by
  induction text generalizing depth with
  | nil =>
      rw [closes_nil, splitAtDepth]
      split <;> simp [*]
  | cons c text ih =>
      rcases splitAtDepth_cases depth c with ⟨next, goesOn⟩ | ⟨rfl, rfl | rfl⟩
      · rw [goesOn.cut_self, Option.isSome_map, ih, closes_cons goesOn.balance]
      · simp [splitAtDepth, not_closes_bracket]
      · have balance : 0 + [','].count '<' = 0 + [','].count '>' := rfl
        rw [closes_cons balance, ← ih]
        simp [splitAtDepth]

/-- The first character of joined pieces is that of the first piece, or a comma behind an empty
one. -/
theorem joinWith_eq_cons {first : Text} {rest : List Text} {c : Char} {text : Text} :
    Text.joinWith [','] (first :: rest) = c :: text ↔
      (∃ inner, first = c :: inner ∧ Text.joinWith [','] (inner :: rest) = text) ∨
        c = ',' ∧ first = [] ∧ rest ≠ [] ∧ Text.joinWith [','] rest = text := by
  cases rest with
  | nil => simp
  | cons other rest =>
      cases first with
      | nil => simp [eq_comm]
      | cons d first => simp [and_assoc]

/-- The pieces of a text are those that make it up and are whole, the first behind the brackets that
are open in front of the text. -/
theorem splitAtDepth_eq_some_iff {depth : Nat} {text first : Text} {rest : List Text} :
    splitAtDepth depth text = some (first :: rest) ↔
      Text.joinWith [','] (first :: rest) = text ∧ Whole depth first ∧
        ∀ part ∈ rest, Whole 0 part := by
  induction text generalizing depth first rest with
  | nil =>
      have empty : Text.joinWith [','] (first :: rest) = [] ↔ first = [] ∧ rest = [] := by
        cases rest <;> simp
      rw [empty, splitAtDepth]
      constructor
      · split
        · next none_open =>
          rintro ⟨⟩
          exact ⟨⟨rfl, rfl⟩, whole_nil.mpr none_open, by simp⟩
        · rintro ⟨⟩
      · rintro ⟨⟨rfl, rfl⟩, whole, -⟩
        rw [if_pos (whole_nil.mp whole)]
  | cons c text ih =>
      rw [joinWith_eq_cons]
      rcases splitAtDepth_cases depth c with ⟨next, goesOn⟩ | ⟨rfl, rfl | rfl⟩
      · rw [goesOn.cut_self, Option.map_eq_some_iff]
        constructor
        · rintro ⟨pieces, found, same⟩
          obtain ⟨inner, more, rfl⟩ := List.exists_cons_of_ne_nil (splitAtDepth_ne_nil found)
          cases same
          obtain ⟨joined, whole, others⟩ := ih.mp found
          exact ⟨Or.inl ⟨inner, rfl, joined⟩, (whole_cons goesOn.balance goesOn.inside).mpr whole,
            others⟩
        · rintro ⟨⟨inner, rfl, joined⟩ | ⟨comma, rfl, -, -⟩, whole, others⟩
          · have inner_whole := (whole_cons goesOn.balance goesOn.inside).mp whole
            exact ⟨inner :: rest, ih.mpr ⟨joined, inner_whole, others⟩, rfl⟩
          · -- a comma goes into a piece within brackets only, where no piece is empty
            have outside := whole_nil.mp whole
            have within := goesOn.inside comma
            omega
      · refine ⟨fun cut => by simp [splitAtDepth] at cut, ?_⟩
        rintro ⟨⟨inner, rfl, -⟩ | ⟨same, -⟩, whole, -⟩
        · exact absurd whole.toCloses (not_closes_bracket inner)
        · simp at same
      · have cut : splitAtDepth 0 (',' :: text) = (splitAtDepth 0 text).map ([] :: ·) := by
          simp [splitAtDepth]
        rw [cut, Option.map_eq_some_iff]
        constructor
        · rintro ⟨pieces, found, same⟩
          obtain ⟨inner, more, rfl⟩ := List.exists_cons_of_ne_nil (splitAtDepth_ne_nil found)
          cases same
          obtain ⟨joined, whole, others⟩ := ih.mp found
          exact ⟨Or.inr ⟨rfl, rfl, by simp, joined⟩, whole_nil.mpr rfl,
            List.forall_mem_cons.mpr ⟨whole, others⟩⟩
        · rintro ⟨⟨inner, rfl, -⟩ | ⟨-, rfl, some_piece, joined⟩, whole, others⟩
          · exact absurd whole (not_whole_comma inner)
          · obtain ⟨inner, more, rfl⟩ := List.exists_cons_of_ne_nil some_piece
            obtain ⟨inner_whole, others⟩ := List.forall_mem_cons.mp others
            exact ⟨inner :: more, ih.mpr ⟨joined, inner_whole, others⟩, rfl⟩

/-- A list of arguments is not cut just if one of its front parts closes more brackets than it opens
or the whole closes another number than it opens. Else its pieces are the only texts that make up
the list when joined with commas, match their brackets and have no comma outside them. (No pieces
at all would make up the empty list, which is cut into one empty piece.) -/
theorem splitArguments_exact (text : Text) :
    (splitArguments text = none ↔
      (∃ front, front <+: text ∧ front.count '<' < front.count '>') ∨
        text.count '<' ≠ text.count '>') ∧
    ∀ parts, splitArguments text = some parts ↔
      parts ≠ [] ∧ Text.joinWith [','] parts = text ∧ ∀ part ∈ parts, Whole 0 part := by
  constructor
  · rw [splitArguments, ← Option.not_isSome_iff_eq_none, isSome_splitAtDepth]
    constructor
    · intro open_or_closed
      by_contra matching
      simp only [not_or, not_exists, not_and, Nat.not_lt, not_not] at matching
      refine open_or_closed ⟨fun front start => ?_, ?_⟩
      · have sane := matching.1 front start
        omega
      · omega
    · rintro (⟨front, start, more⟩ | other) closes
      · have sane := closes.sane front start
        omega
      · have settled := closes.settled
        omega
  · intro parts
    cases parts with
    | nil =>
        refine ⟨fun cut => absurd rfl (splitAtDepth_ne_nil cut), ?_⟩
        rintro ⟨some_part, -⟩
        exact absurd rfl some_part
    | cons first rest =>
        rw [splitArguments, splitAtDepth_eq_some_iff, List.forall_mem_cons]
        simp

end ApiSchema.TypeExpr
