import ApiSchema.Proofs.TypeExpr.Form
import ApiSchema.Generic.Marking

set_option autoImplicit false

namespace ApiSchema.Generic

open TypeExpr (isIdentifier isIdentifierPart)

/-- Marks all tokens `name` at once, each between boundaries that it shares with its neighbours.
`free` says that a token may begin at the start of the text. -/
def markAtOnce (name : Text) (free : Bool) (text : Text) : Text :=
  match text with
  | [] => []
  | c :: tail =>
    match if free then tokenTail? name (c :: tail) else none with
    | some _ => mark name ++ markAtOnce name false (tail.drop (name.length - 1))
    | none => c :: markAtOnce name (endsLeft c) tail
termination_by text.length
decreasing_by
  · simp only [List.length_drop, List.length_cons]
    omega
  · simp

/-- Nothing, or a character that may stand behind a token. -/
def Closing (text : Text) : Prop := text.head?.all endsRight = true

theorem tokenTail?_eq_some_iff {name text rest : Text} :
    tokenTail? name text = some rest ↔ text = name ++ rest ∧ Closing rest := by
  constructor
  · intro tail
    refine ⟨tokenTail?_eq tail, ?_⟩
    unfold tokenTail? at tail
    split at tail
    · cases tail
    · split at tail
      · next closing =>
        rw [← Option.some.inj tail]
        exact closing
      · cases tail
  · rintro ⟨rfl, closing⟩
    have stripped : Text.stripStart? name (name ++ rest) = some rest :=
      Text.stripStart?_eq_some_iff.mpr rfl
    have bounded : rest.head?.all endsRight = true := closing
    simp [tokenTail?, stripped, bounded]

theorem identifierPart_endsLeft {c : Char} (part : isIdentifierPart c = true) :
    endsLeft c = false := by
  have solid := TypeExpr.identifierPart_solid part
  rw [endsLeft, solid, Bool.or_false, Bool.or_eq_false_iff]
  constructor <;> simp only [decide_eq_false_iff_not] <;> rintro rfl <;> revert part <;> decide

theorem identifierPart_endsRight {c : Char} (part : isIdentifierPart c = true) :
    endsRight c = false := by
  have solid := TypeExpr.identifierPart_solid part
  simp only [endsRight, solid, Bool.or_false, Bool.or_eq_false_iff, decide_eq_false_iff_not]
  refine ⟨⟨⟨?_, ?_⟩, ?_⟩, ?_⟩ <;> rintro rfl <;> revert part <;> decide

section Name

variable {name : Text}

theorem exists_cons_of_word (word : isIdentifier name = true) :
    ∃ c rest, name = c :: rest ∧ isIdentifierPart c = true := by
  obtain ⟨c, rest, rfl⟩ := List.exists_cons_of_ne_nil (TypeExpr.isIdentifier_ne_nil word)
  exact ⟨c, rest, rfl, TypeExpr.isIdentifier_part word c (by simp)⟩

/-- No token begins with a character that is no part of an identifier. -/
theorem tokenTail?_cons_eq_none (word : isIdentifier name = true) {c : Char}
    (outside : isIdentifierPart c = false) (tail : Text) : tokenTail? name (c :: tail) = none := by
  obtain ⟨d, rest, rfl, part⟩ := exists_cons_of_word word
  cases found : tokenTail? (d :: rest) (c :: tail) with
  | none => rfl
  | some behind =>
      have same := (tokenTail?_eq_some_iff.mp found).1
      rw [List.cons_append, List.cons.injEq] at same
      rw [same.1, part] at outside
      cases outside

/-- A rewriting that keeps every character at which no token `name` begins. It is told whether a
token may begin at the start of the text. -/
structure Scans (name : Text) (rewrite : Bool → Text → Text) : Prop where
  nil : ∀ free, rewrite free [] = []
  keep : ∀ free c tail, (if free then tokenTail? name (c :: tail) else none) = none →
    rewrite free (c :: tail) = c :: rewrite (endsLeft c) tail

theorem word_inner {other : Text} (word : isIdentifier other = true) :
    ∀ c ∈ other, endsLeft c = false :=
  fun c member => identifierPart_endsLeft (TypeExpr.isIdentifier_part word c member)

theorem mark_inner {other : Text} (word : isIdentifier other = true) :
    ∀ c ∈ other ++ [markClose], endsLeft c = false := by
  intro c member
  rcases List.mem_append.mp member with member | member
  · exact word_inner word c member
  · rw [List.mem_singleton.mp member]
    decide

namespace Scans

variable {rewrite : Bool → Text → Text} (scans : Scans name rewrite)
include scans

theorem keep_false (c : Char) (tail : Text) :
    rewrite false (c :: tail) = c :: rewrite (endsLeft c) tail :=
  scans.keep false c tail rfl

theorem keep_outside (word : isIdentifier name = true) (free : Bool) {c : Char}
    (outside : isIdentifierPart c = false) (tail : Text) :
    rewrite free (c :: tail) = c :: rewrite (endsLeft c) tail := by
  apply scans.keep
  rw [tokenTail?_cons_eq_none word outside]
  cases free <;> rfl

theorem head? (text : Text) : (rewrite false text).head? = text.head? := by
  cases text with
  | nil => rw [scans.nil]
  | cons c tail => rw [scans.keep_false, List.head?_cons, List.head?_cons]

/-- Where no token may begin, characters that are no left boundary are passed over. -/
theorem pass {front : Text} (inner : ∀ c ∈ front, endsLeft c = false) (rest : Text) :
    rewrite false (front ++ rest) = front ++ rewrite false rest := by
  induction front with
  | nil => rfl
  | cons c front ih =>
      rw [List.cons_append, scans.keep_false, inner c (by simp),
        ih fun d member => inner d (by simp [member]), List.cons_append]

theorem pass_inv {front : Text} (inner : ∀ c ∈ front, endsLeft c = false) {text behind : Text}
    (rewritten : rewrite false text = front ++ behind) :
    ∃ rest, text = front ++ rest ∧ rewrite false rest = behind := by
  induction front generalizing text with
  | nil => exact ⟨text, rfl, rewritten⟩
  | cons c front ih =>
      cases text with
      | nil => simp [scans.nil] at rewritten
      | cons d tail =>
          rw [scans.keep_false, List.cons_append, List.cons.injEq] at rewritten
          obtain ⟨rfl, behind_same⟩ := rewritten
          rw [inner d (by simp)] at behind_same
          obtain ⟨rest, rfl, done⟩ := ih (fun e member => inner e (by simp [member])) behind_same
          exact ⟨rest, rfl, done⟩

/-- A token that is marked already is passed over. -/
theorem marked (word : isIdentifier name = true) {other : Text}
    (another : isIdentifier other = true) (free : Bool) (rest : Text) :
    rewrite free (mark other ++ rest) = mark other ++ rewrite false rest := by
  have outside : isIdentifierPart markOpen = false := by decide
  have inside := mark_inner another
  rw [mark, List.cons_append, List.cons_append, List.cons_append,
    scans.keep_outside word free outside]
  change markOpen :: rewrite false (other ++ [markClose] ++ rest) = _
  rw [scans.pass inside]

/-- No token comes about at a character that is kept. -/
theorem absent (word : isIdentifier name = true) {free : Bool} {c : Char} {tail : Text}
    (none_before : (if free then tokenTail? name (c :: tail) else none) = none) :
    (if free then tokenTail? name (c :: rewrite (endsLeft c) tail) else none) = none := by
  cases free with
  | false => rfl
  | true =>
      cases found : tokenTail? name (c :: rewrite (endsLeft c) tail) with
      | none => simp
      | some rest =>
          obtain ⟨whole, closing⟩ := tokenTail?_eq_some_iff.mp found
          have every := word_inner word
          obtain ⟨d, more, rfl, -⟩ := exists_cons_of_word word
          obtain ⟨first, inner⟩ := List.forall_mem_cons.mp every
          rw [List.cons_append, List.cons.injEq] at whole
          obtain ⟨rfl, letters⟩ := whole
          -- the letters of the token stand in the text before, and so does what ends it
          rw [first] at letters
          obtain ⟨earlier, rfl, rfl⟩ := scans.pass_inv inner letters
          rw [Closing, scans.head?] at closing
          have before : tokenTail? (c :: more) (c :: (more ++ earlier)) = some earlier :=
            tokenTail?_eq_some_iff.mpr ⟨rfl, closing⟩
          simp [before] at none_before

end Scans

@[simp] theorem markAtOnce_nil (free : Bool) : markAtOnce name free [] = [] := by
  rw [markAtOnce]

theorem markAtOnce_token (word : isIdentifier name = true) {rest : Text} (closing : Closing rest) :
    markAtOnce name true (name ++ rest) = mark name ++ markAtOnce name false rest := by
  have found : tokenTail? name (name ++ rest) = some rest :=
    tokenTail?_eq_some_iff.mpr ⟨rfl, closing⟩
  obtain ⟨c, more, rfl, -⟩ := exists_cons_of_word word
  rw [List.cons_append] at found ⊢
  rw [markAtOnce]
  simp [found]

theorem markAtOnce_cons_of_none {free : Bool} {c : Char} {tail : Text}
    (absent : (if free then tokenTail? name (c :: tail) else none) = none) :
    markAtOnce name free (c :: tail) = c :: markAtOnce name (endsLeft c) tail := by
  rw [markAtOnce, absent]

theorem scans_markAtOnce : Scans name (markAtOnce name) where
  nil := markAtOnce_nil
  keep _ _ _ absent := markAtOnce_cons_of_none absent

/-- A token found at the start takes its own letters off the text. -/
theorem token_found (word : isIdentifier name = true) {free : Bool} {c : Char} {tail rest : Text}
    (found : (if free then tokenTail? name (c :: tail) else none) = some rest) :
    free = true ∧ c :: tail = name ++ rest ∧ Closing rest ∧
      tail.drop (name.length - 1) = rest := by
  cases free with
  | false => cases found
  | true =>
      obtain ⟨whole, closing⟩ := tokenTail?_eq_some_iff.mp found
      refine ⟨rfl, whole, closing, ?_⟩
      obtain ⟨d, more, rfl, -⟩ := exists_cons_of_word word
      rw [List.cons_append, List.cons.injEq] at whole
      rw [whole.2]
      simp

/-- A sweep marks a token at the start and uses up the boundary behind it. -/
theorem sweep_found {free : Bool} {text rest : Text}
    (found : (if free then tokenTail? name text else none) = some rest) :
    sweep name free text = mark name ++ rest.take 1 ++ sweep name false (rest.drop 1) := by
  fun_cases sweep name free text with
  | case1 _ other same =>
      rw [found, Option.some.injEq] at same
      rw [same]
  | case2 absent => simp [found] at absent
  | case3 c tail absent => simp [found] at absent
  | case4 c tail absent => simp [found] at absent

/-- A sweep that starts where no token may begin keeps the first character. -/
theorem sweep_cons_false (c : Char) (tail : Text) :
    sweep name false (c :: tail) =
      match if endsLeft c then tokenTail? name tail else none with
      | some rest => c :: mark name ++ rest.take 1 ++ sweep name false (rest.drop 1)
      | none => c :: sweep name false tail := by
  rw [sweep]
  split
  · next found => cases found
  · simp only []
    split
    · next found => rw [found]
    · next absent => rw [absent]

theorem sweep_nil (free : Bool) (some_name : name ≠ []) : sweep name free [] = [] := by
  rw [sweep]
  split
  · next rest found =>
    split at found
    · exact absurd (List.append_eq_nil_iff.mp (tokenTail?_eq found).symm).1 some_name
    · cases found
  · rfl

theorem sweep_of_none {free : Bool} {text : Text}
    (absent : (if free then tokenTail? name text else none) = none) :
    sweep name free text = sweep name false text := by
  fun_cases sweep name free text with
  | case1 _ rest found => simp [absent] at found
  | case2 _ => simp [sweep]
  | case3 c tail _ rest found => rw [sweep_cons_false, found]
  | case4 c tail _ inner => rw [sweep_cons_false, inner]

/-- At a character that begins no token a sweep goes on as it would start behind it. -/
theorem sweep_cons_of_none {free : Bool} {c : Char} {tail : Text}
    (absent : (if free then tokenTail? name (c :: tail) else none) = none) :
    sweep name free (c :: tail) = c :: sweep name (endsLeft c) tail := by
  rw [sweep_of_none absent, sweep_cons_false]
  split
  · next found =>
    rw [sweep_found found]
    rfl
  · next inner => rw [sweep_of_none inner]

theorem scans_sweep (word : isIdentifier name = true) : Scans name (sweep name) where
  nil free := sweep_nil free (TypeExpr.isIdentifier_ne_nil word)
  keep _ _ _ absent := sweep_cons_of_none absent

theorem sweep_token {rest : Text} (closing : Closing rest) :
    sweep name true (name ++ rest) =
      mark name ++ rest.take 1 ++ sweep name false (rest.drop 1) :=
  sweep_found (tokenTail?_eq_some_iff.mpr ⟨rfl, closing⟩)

/-- A sweep finds no token in a text in which all tokens are marked. -/
theorem sweep_markAtOnce (word : isIdentifier name = true) (free : Bool) (text : Text) :
    sweep name free (markAtOnce name free text) = markAtOnce name free text := by
  have scans := scans_sweep word
  fun_induction markAtOnce name free text with
  | case1 free => exact scans.nil free
  | case2 free c tail rest found ih =>
      rw [scans.marked word word, ih]
  | case3 free c tail absent ih =>
      rw [scans.keep _ _ _ (scans_markAtOnce.absent word absent), ih]

/-- Behind a token the first sweep leaves out what the second finds, and the other way round. -/
theorem sweep_sweep_token (word : isIdentifier name = true) {rest : Text} (closing : Closing rest)
    (behind : ∀ first second, sweep name second (sweep name first (rest.drop 1)) =
      markAtOnce name (first || second) (rest.drop 1))
    {first second : Bool} (free : (first || second) = true) :
    sweep name second (sweep name first (name ++ rest)) =
      mark name ++ markAtOnce name false rest := by
  have scans := scans_sweep word
  cases first with
  | true =>
      rw [sweep_token closing, List.append_assoc, scans.marked word word]
      cases rest with
      | nil => simp [scans.nil]
      | cons c more =>
          change mark name ++ sweep name false (c :: sweep name false more) = _
          rw [scans.keep_false, scans_markAtOnce.keep_false]
          exact congrArg (fun text => mark name ++ c :: text) (behind false (endsLeft c))
  | false =>
      cases free
      have still : Closing (sweep name false rest) := by
        rw [Closing, scans.head?]
        exact closing
      rw [scans.pass (word_inner word), sweep_token still]
      cases rest with
      | nil => simp [scans.nil]
      | cons c more =>
          rw [scans.keep_false, scans_markAtOnce.keep_false, List.append_assoc]
          have done := behind (endsLeft c) false
          rw [Bool.or_false] at done
          exact congrArg (fun text => mark name ++ c :: text) done

/-- Two sweeps mark all tokens, the one at the start too if either may. -/
theorem sweep_sweep (word : isIdentifier name = true) (first second : Bool) (text : Text) :
    sweep name second (sweep name first text) = markAtOnce name (first || second) text := by
  have scans := scans_sweep word
  induction size : text.length using Nat.strongRecOn generalizing first second text with
  | ind letters ih =>
      cases found : if (first || second) = true then tokenTail? name text else none with
      | some rest =>
          split at found
          · next free =>
            obtain ⟨rfl, closing⟩ := tokenTail?_eq_some_iff.mp found
            have some_letter := List.length_pos_iff.mpr (TypeExpr.isIdentifier_ne_nil word)
            have shorter : (rest.drop 1).length < letters := by
              simp only [List.length_append] at size
              simp only [List.length_drop]
              omega
            rw [free, markAtOnce_token word closing]
            exact sweep_sweep_token word closing
              (fun first second => ih _ shorter first second (rest.drop 1) rfl) free
          · cases found
      | none =>
          cases text with
          | nil => rw [scans.nil, scans.nil, markAtOnce_nil]
          | cons c tail =>
              have none_first : (if first then tokenTail? name (c :: tail) else none) = none := by
                cases first <;> simp_all
              have none_second : (if second then tokenTail? name (c :: tail) else none) = none := by
                cases second <;> simp_all
              have shorter : tail.length < letters := by
                simp only [List.length_cons] at size
                omega
              rw [scans.keep _ _ _ none_first, scans.keep _ _ _ (scans.absent word none_second),
                ih _ shorter _ _ tail rfl, Bool.or_self, scans_markAtOnce.keep _ _ _ found]

theorem sweepRounds_settled {text : Text} (settled : sweep name true text = text) (rounds : Nat) :
    sweepRounds name rounds text = text := by
  cases rounds with
  | zero => rfl
  | succ rounds => rw [sweepRounds, if_pos settled]

/-- Two rounds are enough. -/
theorem sweepRounds_eq (word : isIdentifier name = true) (rounds : Nat) (text : Text) :
    sweepRounds name (rounds + 2) text = markAtOnce name true text := by
  have settled := sweep_markAtOnce word true text
  have twice : sweep name true (sweep name true text) = markAtOnce name true text :=
    sweep_sweep word true true text
  rw [sweepRounds]
  by_cases once : sweep name true text = text
  · rw [if_pos once, ← twice, once, once]
  · rw [if_neg once, sweepRounds]
    by_cases same : sweep name true (sweep name true text) = sweep name true text
    · rw [if_pos same, ← twice, same]
    · rw [if_neg same, twice, sweepRounds_settled settled]

/-- The rounds that a text of this length gets are enough. -/
theorem markTokens_eq (word : isIdentifier name = true) (text : Text) :
    markTokens name text = markAtOnce name true text := by
  cases text with
  | nil =>
      rw [markTokens, sweepRounds_settled (sweep_nil true (TypeExpr.isIdentifier_ne_nil word)),
        markAtOnce_nil]
  | cons c tail => exact sweepRounds_eq word tail.length (c :: tail)

end Name

end ApiSchema.Generic
