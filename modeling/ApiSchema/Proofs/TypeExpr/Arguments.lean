import ApiSchema.TypeExpr.Lexical

set_option autoImplicit false

namespace ApiSchema

namespace Text

@[simp] theorem joinWith_singleton (separator text : Text) : joinWith separator [text] = text := rfl

@[simp] theorem joinWith_cons_cons (separator text next : Text) (rest : List Text) :
    joinWith separator (text :: next :: rest) =
      text ++ separator ++ joinWith separator (next :: rest) := rfl

theorem joinWith_cons (separator text : Text) {rest : List Text} (more : rest ≠ []) :
    joinWith separator (text :: rest) = text ++ separator ++ joinWith separator rest := by
  cases rest with
  | nil => exact absurd rfl more
  | cons next rest => rfl

/-- A separator may as well stand in front of all pieces but the first. -/
theorem joinWith_append (first second text : Text) (rest : List Text) :
    joinWith (first ++ second) (text :: rest) =
      joinWith first (text :: rest.map (second ++ ·)) := by
  induction rest generalizing text with
  | nil => rfl
  | cons next rest ih =>
      have moved : joinWith first ((second ++ next) :: rest.map (second ++ ·)) =
          second ++ joinWith first (next :: rest.map (second ++ ·)) := by
        cases rest <;> simp [List.append_assoc]
      simp only [List.map_cons, joinWith_cons_cons, ih, moved, List.append_assoc]

end Text

namespace TypeExpr

def prependFirst (text : Text) : List Text → List Text
  | [] => [text]
  | piece :: rest => (text ++ piece) :: rest

theorem prependFirst_nil {pieces : List Text} (some_piece : pieces ≠ []) :
    prependFirst [] pieces = pieces := by
  cases pieces with
  | nil => exact absurd rfl some_piece
  | cons piece rest => rfl

theorem prependFirst_append (front back : Text) (pieces : List Text) :
    prependFirst front (prependFirst back pieces) = prependFirst (front ++ back) pieces := by
  cases pieces <;> simp [prependFirst]

theorem prependFirst_singleton (c : Char) : prependFirst [c] = extendFirst c := by
  funext pieces
  cases pieces <;> rfl

/-- A cut with at least `low` open brackets goes over `text` without cutting it, and has as many
open brackets behind it as before. -/
def Uncut (low : Nat) (text : Text) : Prop :=
  ∀ depth rest, low ≤ depth →
    splitAtDepth depth (text ++ rest) = (splitAtDepth depth rest).map (prependFirst text)

namespace Uncut

theorem mono {low high : Nat} {text : Text} (uncut : Uncut low text) (above : low ≤ high) :
    Uncut high text :=
  fun depth rest enough => uncut depth rest (by omega)

theorem nil (low : Nat) : Uncut low [] := by
  intro depth rest _
  cases found : splitAtDepth depth rest with
  | none => simp [found]
  | some parts => simp [found, prependFirst_nil (splitAtDepth_ne_nil found)]

theorem append {low : Nat} {front back : Text} (first : Uncut low front) (second : Uncut low back) :
    Uncut low (front ++ back) := by
  intro depth rest enough
  rw [List.append_assoc, first depth (back ++ rest) enough, second depth rest enough,
    Option.map_map]
  congr 1
  funext pieces
  exact prependFirst_append front back pieces

theorem plain_char {c : Char} (low : Nat) (plain : c ≠ '<' ∧ c ≠ '>' ∧ c ≠ ',') :
    Uncut low [c] := by
  intro depth rest _
  rw [List.singleton_append, splitAtDepth]
  simp only [plain.1, plain.2.1, plain.2.2, false_and, ↓reduceIte, prependFirst_singleton]

theorem plain {text : Text} (low : Nat) (free : ∀ c ∈ text, c ≠ '<' ∧ c ≠ '>' ∧ c ≠ ',') :
    Uncut low text := by
  induction text with
  | nil => exact nil low
  | cons c rest ih =>
      have first := plain_char low (free c (by simp))
      exact first.append (ih fun d member => free d (by simp [member]))

/-- Inside brackets a comma is like any other character. -/
theorem comma : Uncut 1 [','] := by
  intro depth rest enough
  have inside : depth ≠ 0 := by omega
  rw [List.singleton_append, splitAtDepth]
  simp [inside, prependFirst_singleton]

theorem brackets {inner : Text} (uncut : Uncut 1 inner) : Uncut 0 ('<' :: inner ++ ['>']) := by
  intro depth rest _
  have opened := uncut (depth + 1) ('>' :: rest) (by omega)
  have closed : splitAtDepth (depth + 1) ('>' :: rest) =
      (splitAtDepth depth rest).map (extendFirst '>') := by
    rw [splitAtDepth]
    simp
  rw [List.cons_append, List.cons_append, splitAtDepth, List.append_assoc, List.singleton_append]
  simp only [↓reduceIte, opened, closed, Option.map_map]
  congr 1
  funext pieces
  simp only [Function.comp_apply, ← prependFirst_singleton, prependFirst_append]
  rfl

theorem join {texts : List Text} (uncut : ∀ text ∈ texts, Uncut 0 text) :
    Uncut 1 (Text.joinWith [','] texts) := by
  induction texts with
  | nil => exact nil 1
  | cons text rest ih =>
      have head := (uncut text (by simp)).mono (Nat.zero_le 1)
      have tail := ih fun other member => uncut other (by simp [member])
      cases rest with
      | nil => exact head
      | cons next rest => exact (head.append comma).append tail

end Uncut

/-- Pieces that no cut divides are found again in what they are joined to. -/
theorem splitArguments_join {texts : List Text} (some_text : texts ≠ [])
    (uncut : ∀ text ∈ texts, Uncut 0 text) :
    splitArguments (Text.joinWith [','] texts) = some texts := by
  induction texts with
  | nil => exact absurd rfl some_text
  | cons text rest ih =>
      have head := uncut text (by simp)
      cases rest with
      | nil =>
          have whole := head 0 [] (Nat.le_refl 0)
          rw [List.append_nil] at whole
          rw [Text.joinWith_singleton, splitArguments, whole]
          simp [splitAtDepth, prependFirst]
      | cons next rest =>
          have tail := ih (by simp) fun other member => uncut other (by simp [member])
          rw [splitArguments] at tail
          rw [Text.joinWith_cons_cons, splitArguments, List.append_assoc,
            head 0 _ (Nat.le_refl 0)]
          change ((splitAtDepth 0 (',' :: Text.joinWith [','] (next :: rest))).map
            (prependFirst text)) = _
          rw [splitAtDepth]
          simp [tail, prependFirst]

theorem joinWith_extendFirst (separator : Text) (c : Char) {pieces : List Text}
    (some_piece : pieces ≠ []) :
    Text.joinWith separator (extendFirst c pieces) = c :: Text.joinWith separator pieces := by
  cases pieces with
  | nil => exact absurd rfl some_piece
  | cons piece rest => cases rest <;> rfl

/-- The parts of a cut text make up the text. -/
theorem joinWith_splitAtDepth {depth : Nat} {text : Text} {parts : List Text}
    (split : splitAtDepth depth text = some parts) : Text.joinWith [','] parts = text := by
  induction text generalizing depth parts with
  | nil =>
      rw [splitAtDepth] at split
      split at split
      · cases split
        rfl
      · cases split
  | cons c rest ih =>
      have extended : ∀ inner : Nat, (splitAtDepth inner rest).map (extendFirst c) = some parts →
          Text.joinWith [','] parts = c :: rest := by
        intro inner found
        obtain ⟨more, cut, rfl⟩ := Option.map_eq_some_iff.mp found
        rw [joinWith_extendFirst [','] c (splitAtDepth_ne_nil cut), ih cut]
      rw [splitAtDepth] at split
      split at split
      · exact extended _ split
      · split at split
        · split at split
          · cases split
          · exact extended _ split
        · split at split
          · next comma =>
            obtain ⟨more, cut, rfl⟩ := Option.map_eq_some_iff.mp split
            rw [Text.joinWith_cons [','] [] (splitAtDepth_ne_nil cut), ih cut, comma.1]
            rfl
          · exact extended _ split

theorem length_lt_spread {pieces : List Text} {piece : Text} (member : piece ∈ pieces) :
    piece.length < spread pieces := by
  induction pieces with
  | nil => cases member
  | cons first rest ih =>
      simp only [spread_cons]
      rcases List.mem_cons.mp member with rfl | member
      · omega
      · have := ih member
        omega

theorem splitArguments_length_le {inner : Text} {args : List Text}
    (parts : splitArguments inner = some args) {arg : Text} (member : arg ∈ args) :
    arg.length ≤ inner.length := by
  have room := spread_splitAtDepth parts
  have below := length_lt_spread member
  omega

end TypeExpr

end ApiSchema
