import ApiSchema.Proofs.Generic.EverySpan
import Mathlib.Logic.Function.Iterate

set_option autoImplicit false

namespace ApiSchema.Generic

open TypeExpr (isIdentifier extendFirst)

/-- What stands on the two sides of one of the cuts between the gaps, if `name` stands in all of
them. -/
def Sides (name : Text) (gaps : List Text) (front back : Text) : Prop :=
  ∃ before after, before ≠ [] ∧ after ≠ [] ∧ gaps = before ++ after ∧
    front = Text.joinWith name before ∧ back = Text.joinWith name after

/-- A text that stands behind `lead` is cut just where `name` is a whole token. -/
structure CutAtTokens (name lead text : Text) (gaps : List Text) : Prop where
  some_gap : gaps ≠ []
  joined : Text.joinWith name gaps = text
  tokens : ∀ front back,
    text = front ++ name ++ back ∧ Bounded (lead ++ front) back ↔ Sides name gaps front back

/-- Going on until nothing changes takes this many passes that change something. -/
structure SettlesAfter {α : Type} (pass : α → α) (start : α) (passes : Nat) (result : α) :
    Prop where
  changing : ∀ earlier < passes, pass (pass^[earlier] start) ≠ pass^[earlier] start
  reached : pass^[passes] start = result
  settled : pass result = result

theorem exists_settlesAfter {α : Type} {pass : α → α} {start : α}
    (settled : pass (pass (pass start)) = pass (pass start)) :
    ∃ passes ≤ 2, SettlesAfter pass start passes (pass (pass start)) := by
  by_cases once : pass start = start
  · refine ⟨0, by omega, fun earlier below => by omega, ?_, settled⟩
    rw [once, once]
    rfl
  by_cases twice : pass (pass start) = pass start
  · refine ⟨1, by omega, fun earlier below => ?_, twice.symm, settled⟩
    rw [show earlier = 0 by omega]
    exact once
  · refine ⟨2, by omega, fun earlier below => ?_, rfl, settled⟩
    rcases Nat.lt_succ_iff_lt_or_eq.mp below with below | rfl
    · rw [show earlier = 0 by omega]
      exact once
    · exact twice

section Sides

variable {name gap front back : Text} {rest gaps : List Text}

theorem not_sides_singleton : ¬ Sides name [gap] front back := by
  rintro ⟨before, after, some_before, some_after, whole, -⟩
  have size := congrArg List.length whole
  have first := List.length_pos_iff.mpr some_before
  have second := List.length_pos_iff.mpr some_after
  simp only [List.length_append, List.length_singleton] at size
  omega

theorem sides_cons (more : rest ≠ []) : Sides name (gap :: rest) front back ↔
    front = gap ∧ back = Text.joinWith name rest ∨
      ∃ inner, front = gap ++ name ++ inner ∧ Sides name rest inner back := by
  constructor
  · rintro ⟨before, after, some_before, some_after, whole, rfl, rfl⟩
    obtain ⟨first, others, rfl⟩ := List.exists_cons_of_ne_nil some_before
    rw [List.cons_append, List.cons.injEq] at whole
    obtain ⟨rfl, rfl⟩ := whole
    by_cases only : others = []
    · subst only
      exact Or.inl ⟨rfl, rfl⟩
    · exact Or.inr ⟨_, Text.joinWith_cons name gap only, others, after, only, some_after, rfl, rfl,
        rfl⟩
  · rintro (⟨rfl, rfl⟩ | ⟨inner, rfl, before, after, some_before, some_after, rfl, rfl, rfl⟩)
    · exact ⟨[front], rest, by simp, more, rfl, rfl, rfl⟩
    · exact ⟨gap :: before, after, by simp, some_after, rfl,
        (Text.joinWith_cons name gap some_before).symm, rfl⟩

theorem sides_extendFirst (c : Char) (some_gap : gaps ≠ []) :
    Sides name (extendFirst c gaps) front back ↔
      ∃ inner, front = c :: inner ∧ Sides name gaps inner back := by
  obtain ⟨gap, rest, rfl⟩ := List.exists_cons_of_ne_nil some_gap
  rw [extendFirst]
  by_cases only : rest = []
  · simp [only, not_sides_singleton]
  · simp only [sides_cons only]
    constructor
    · rintro (⟨rfl, same⟩ | ⟨inner, rfl, behind⟩)
      · exact ⟨gap, rfl, Or.inl ⟨rfl, same⟩⟩
      · exact ⟨gap ++ name ++ inner, by simp, Or.inr ⟨inner, rfl, behind⟩⟩
    · rintro ⟨inner, rfl, ⟨rfl, same⟩ | ⟨more, rfl, behind⟩⟩
      · exact Or.inl ⟨rfl, same⟩
      · exact Or.inr ⟨more, by simp, behind⟩

end Sides

section Name

variable {name : Text} (word : isIdentifier name = true)

theorem not_opening {lead front : Text} (some_front : front ≠ [])
    (inner : ∀ c ∈ front, endsLeft c = false) : ¬ Opening (lead ++ front) := by
  intro opening
  rcases List.eq_nil_or_concat front with rfl | ⟨before, c, rfl⟩
  · exact some_front rfl
  · rw [List.concat_eq_append] at opening inner
    rw [Opening, ← List.append_assoc, List.getLast?_concat, Option.all_some,
      inner c (by simp)] at opening
    cases opening

/-- A token that does not stand at the start stands behind the first character. -/
theorem tokens_cons {lead : Text} {c : Char} {tail : Text}
    (absent : ∀ back, c :: tail = name ++ back → ¬ Bounded lead back) (front back : Text) :
    c :: tail = front ++ name ++ back ∧ Bounded (lead ++ front) back ↔
      ∃ inner, front = c :: inner ∧
        tail = inner ++ name ++ back ∧ Bounded (lead ++ [c] ++ inner) back := by
  constructor
  · rintro ⟨whole, bounded⟩
    cases front with
    | nil =>
        rw [List.append_nil] at bounded
        exact absurd bounded (absent back whole)
    | cons d inner =>
        simp only [List.cons_append, List.cons.injEq] at whole
        obtain ⟨rfl, rfl⟩ := whole
        exact ⟨inner, rfl, rfl, by simpa using bounded⟩
  · rintro ⟨inner, rfl, rfl, bounded⟩
    exact ⟨by simp, by simpa using bounded⟩

include word

/-- No token begins within another. -/
theorem tokens_token {lead rest : Text} (opening : Opening lead) (closing : Closing rest)
    (front back : Text) :
    name ++ rest = front ++ name ++ back ∧ Bounded (lead ++ front) back ↔
      front = [] ∧ back = rest ∨ ∃ inner, front = name ++ inner ∧
        rest = inner ++ name ++ back ∧ Bounded (lead ++ name ++ inner) back := by
  constructor
  · rintro ⟨whole, bounded⟩
    rw [List.append_assoc] at whole
    rcases List.append_eq_append_iff.mp whole with ⟨inner, rfl, rfl⟩ | ⟨inner, letters, behind⟩
    · exact Or.inr ⟨inner, rfl, by simp, by simpa using bounded⟩
    · by_cases start : front = []
      · subst start
        exact Or.inl ⟨rfl, (List.append_cancel_left whole).symm⟩
      · have inside : ∀ c ∈ front, endsLeft c = false := fun c member =>
          word_inner word c (by rw [letters]; simp [member])
        exact absurd bounded.left (not_opening start inside)
  · rintro (⟨rfl, rfl⟩ | ⟨inner, rfl, rfl, bounded⟩)
    · exact ⟨rfl, by simpa using opening, closing⟩
    · exact ⟨by simp, by simpa using bounded⟩

/-- Marking all tokens at once marks them in all the cuts between the gaps of the text. -/
theorem exists_cutAtTokens {free : Bool} {lead : Text} (start : free = true ↔ Opening lead)
    (text : Text) :
    ∃ gaps, CutAtTokens name lead text gaps ∧
      markAtOnce name free text = Text.joinWith (mark name) gaps := by
  have some_name := TypeExpr.isIdentifier_ne_nil word
  fun_induction markAtOnce name free text generalizing lead with
  | case1 free =>
      refine ⟨[[]], ⟨by simp, rfl, fun front back => ?_⟩, rfl⟩
      simp [not_sides_singleton, some_name]
  | case2 free c tail rest found ih =>
      obtain ⟨begins, whole, closing, behind⟩ := token_found word found
      have inside : false = true ↔ Opening (lead ++ name) := by
        simp [not_opening some_name (word_inner word)]
      obtain ⟨gaps, cut, marked⟩ := ih inside
      rw [behind] at cut marked ⊢
      refine ⟨[] :: gaps, ⟨by simp, ?_, fun front back => ?_⟩, ?_⟩
      · rw [Text.joinWith_cons name [] cut.some_gap, cut.joined, whole]
        rfl
      · rw [whole, tokens_token word (start.mp begins) closing, sides_cons cut.some_gap, cut.joined]
        simp only [cut.tokens, List.nil_append]
      · rw [marked, Text.joinWith_cons _ _ cut.some_gap]
        rfl
  | case3 free c tail absent ih =>
      have behind : endsLeft c = true ↔ Opening (lead ++ [c]) := by
        rw [Opening, List.getLast?_concat, Option.all_some]
      have none_here : ∀ back, c :: tail = name ++ back → ¬ Bounded lead back := by
        rintro back whole ⟨left, right⟩
        have found := tokenTail?_eq_some_iff.mpr ⟨whole, right⟩
        simp [start.mpr left, found] at absent
      obtain ⟨gaps, cut, marked⟩ := ih behind
      refine ⟨extendFirst c gaps, ⟨?_, ?_, fun front back => ?_⟩, ?_⟩
      · cases gaps <;> simp [extendFirst]
      · rw [TypeExpr.joinWith_extendFirst name c cut.some_gap, cut.joined]
      · rw [tokens_cons none_here, sides_extendFirst c cut.some_gap]
        simp only [cut.tokens]
      · rw [marked, TypeExpr.joinWith_extendFirst _ c cut.some_gap]

end Name

namespace CutAtTokens

variable {name lead text gap : Text} {rest gaps others : List Text} (some_name : name ≠ [])
include some_name

/-- Behind its first token a text is cut at its other tokens. -/
theorem behind (more : rest ≠ []) (cut : CutAtTokens name lead text (gap :: rest)) :
    CutAtTokens name (lead ++ gap ++ name) (Text.joinWith name rest) rest where
  some_gap := more
  joined := rfl
  tokens front back := by
    have token := cut.tokens (gap ++ name ++ front) back
    have first : ¬ gap ++ name ++ front = gap := by simp [some_name]
    rw [← cut.joined, Text.joinWith_cons name gap more, sides_cons more] at token
    simp only [first, false_and, false_or, List.append_cancel_left_eq, exists_eq_left'] at token
    rw [← token]
    simp only [List.append_assoc, List.append_cancel_left_eq]

omit some_name in
/-- The first gap ends where the first token begins, and so does that of any other cut. -/
theorem exists_first (more : rest ≠ []) (cut : CutAtTokens name lead text (gap :: rest))
    (other : CutAtTokens name lead text others) :
    ∃ first next, others = first :: next ∧ next ≠ [] ∧ first <+: gap := by
  have token := (cut.tokens gap (Text.joinWith name rest)).mpr
    ((sides_cons more).mpr (Or.inl ⟨rfl, rfl⟩))
  have sides := (other.tokens _ _).mp token
  obtain ⟨first, next, rfl⟩ := List.exists_cons_of_ne_nil other.some_gap
  have some_next : next ≠ [] := by
    rintro rfl
    exact not_sides_singleton sides
  refine ⟨first, next, rfl, some_next, ?_⟩
  rcases (sides_cons some_next).mp sides with ⟨rfl, -⟩ | ⟨inner, rfl, -⟩
  · exact List.prefix_refl _
  · simp

/-- The tokens determine the gaps. -/
theorem unique (cut : CutAtTokens name lead text gaps) (other : CutAtTokens name lead text others) :
    gaps = others := by
  induction gaps generalizing lead text others with
  | nil => exact absurd rfl cut.some_gap
  | cons gap rest ih =>
      by_cases only : rest = []
      · subst only
        obtain ⟨first, next, rfl⟩ := List.exists_cons_of_ne_nil other.some_gap
        by_cases alone : next = []
        · subst alone
          have same : first = gap := other.joined.trans cut.joined.symm
          rw [same]
        · obtain ⟨_, _, same, some_next, -⟩ := exists_first alone other cut
          cases same
          exact absurd rfl some_next
      · obtain ⟨first, next, rfl, some_next, below⟩ := exists_first only cut other
        obtain ⟨_, _, same, -, above⟩ := exists_first some_next other cut
        cases same
        obtain rfl := below.eq_of_length_le above.length_le
        have joined := cut.joined.trans other.joined.symm
        rw [Text.joinWith_cons name first only, Text.joinWith_cons name first some_next,
          List.append_cancel_left_eq] at joined
        have tail := other.behind some_name some_next
        rw [← joined] at tail
        rw [ih (cut.behind some_name only) tail]

end CutAtTokens

/-- A span that is left or put by marking is no token. -/
theorem everySpan_markAtOnce {name : Text} (word : isIdentifier name = true) (text : Text) :
    EverySpan (fun free span => ¬ (free = true ∧ span = name)) true
      (markAtOnce name true text) := by
  have only : ∀ other ∈ [name], isIdentifier other = true := by simpa using word
  rw [markAtOnce_eq_mapSpans word, everySpan_mapSpans (keepsSpans_markSpan only).unbroken]
  rintro front span back - - - - ⟨free, same⟩
  by_cases token : freeBehind true front = true ∧ span ∈ [name]
  · rw [markSpan, if_pos token] at same
    exact mark_not_mem_words only span (List.mem_singleton.mpr same)
  · rw [markSpan, if_neg token] at same
    exact token ⟨free, List.mem_singleton.mpr same⟩

/-- Marking the tokens of a text takes two sweeps that change it at most. It puts the marked token
into all cuts of the text at its tokens at the same time and changes nothing else, and no token is
left. -/
theorem markTokens_simultaneous {name : Text} (word : isIdentifier name = true) (text : Text) :
    (∃ passes ≤ 2, SettlesAfter (sweep name true) text passes (markTokens name text)) ∧
    (∃ gaps, CutAtTokens name [] text gaps ∧
      (∀ others, CutAtTokens name [] text others → others = gaps) ∧
      markTokens name text = Text.joinWith (mark name) gaps) ∧
    ∀ front back, markTokens name text = front ++ name ++ back → ¬ Bounded front back := by
  have some_name := TypeExpr.isIdentifier_ne_nil word
  have marked := markTokens_eq word text
  have twice : sweep name true (sweep name true text) = markTokens name text := by
    rw [marked]
    exact sweep_sweep word true true text
  refine ⟨?_, ?_, ?_⟩
  · rw [← twice]
    apply exists_settlesAfter
    rw [twice, marked, sweep_markAtOnce word]
  · obtain ⟨gaps, cut, filled⟩ := exists_cutAtTokens word
      (show true = true ↔ Opening [] from ⟨fun _ => rfl, fun _ => rfl⟩) text
    exact ⟨gaps, cut, fun others other => other.unique some_name cut, marked.trans filled⟩
  · intro front back whole bounded
    rw [marked] at whole
    exact everySpan_markAtOnce word text front name back whole (Unbroken.word word)
      bounded.left.edge bounded.right ⟨freeBehind_eq_true.mpr bounded.left, rfl⟩

/-- Neighbours in a text that is no type expression, one of them behind a bracket and one marked. -/
theorem markTokens_simultaneous_row :
    isIdentifier "T" = true ∧ markTokens "T" "T T,T<MyT T[],«T»,T" = "«T» «T»,«T»<MyT «T»[],«T»,«T»" ∧
      (∃ passes ≤ 2, SettlesAfter (sweep "T" true) "T T,T<MyT T[],«T»,T" passes
        "«T» «T»,«T»<MyT «T»[],«T»,«T»") ∧
      (∃ gaps, CutAtTokens "T" [] "T T,T<MyT T[],«T»,T" gaps ∧
        Text.joinWith (mark "T") gaps = "«T» «T»,«T»<MyT «T»[],«T»,«T»") ∧
      ∀ front back : Text, ("«T» «T»,«T»<MyT «T»[],«T»,«T»" : Text) = front ++ "T" ++ back →
        ¬ Bounded front back := by
  have word : isIdentifier "T" = true := by decide
  have marked : markTokens "T" "T T,T<MyT T[],«T»,T" = "«T» «T»,«T»<MyT «T»[],«T»,«T»" := by
    decide +kernel
  obtain ⟨settles, ⟨gaps, cut, -, filled⟩, left⟩ :=
    markTokens_simultaneous word "T T,T<MyT T[],«T»,T"
  rw [marked] at settles filled left
  exact ⟨word, marked, settles, ⟨gaps, cut, filled.symm⟩, left⟩

end ApiSchema.Generic
