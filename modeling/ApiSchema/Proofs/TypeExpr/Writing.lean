import ApiSchema.Proofs.TypeExpr.Agreement
import ApiSchema.Proofs.TypeExpr.Grammar

set_option autoImplicit false

namespace ApiSchema

namespace TypeExpr

open Text (Blank Tight trim)

def Readable (text : Text) : Prop := ∃ type, parse text = .ok type

theorem readable_iff {text : Text} : Readable text ↔ checkFragment text = .ok () := by
  simp only [Readable, parse_eq_ok_iff]
  exact ⟨fun ⟨type, read⟩ => checkFragment_of_parse read, parse_of_checkFragment⟩

theorem readable_trim {text : Text} : Readable (trim text) ↔ Readable text := by
  simp only [Readable, parse_eq_ok_iff, parseFragment_trim]

theorem Word.readable {word : Word} (valid : word.Valid) : Readable word.text :=
  ⟨word.type, parse_eq_ok_iff.mpr (parseFragment_word valid (Word.tight valid).trim)⟩

/-- With `depth` brackets open the cut goes over `c` and on with `next` brackets open, and likewise
if there are more open around them. -/
structure GoesOn (depth : Nat) (c : Char) (next : Nat) : Prop where
  cut : ∀ more rest, splitAtDepth (depth + more) (c :: rest) =
    (splitAtDepth (next + more) rest).map (extendFirst c)
  balance : depth + [c].count '<' = next + [c].count '>'
  inside : c = ',' → 0 < depth

theorem GoesOn.cut_self {depth next : Nat} {c : Char} (goesOn : GoesOn depth c next) (rest : Text) :
    splitAtDepth depth (c :: rest) = (splitAtDepth next rest).map (extendFirst c) :=
  goesOn.cut 0 rest

/-- A cut goes on over every character, but for a bracket that closes none and for a comma outside
all. -/
theorem splitAtDepth_cases (depth : Nat) (c : Char) :
    (∃ next, GoesOn depth c next) ∨ depth = 0 ∧ (c = '>' ∨ c = ',') := by
  by_cases opens : c = '<'
  · refine Or.inl ⟨depth + 1, fun more rest => ?_, by simp [opens], by simp [opens]⟩
    rw [splitAtDepth, if_pos opens, Nat.add_right_comm]
  by_cases closes : c = '>'
  · cases depth with
    | zero => exact Or.inr ⟨rfl, Or.inl closes⟩
    | succ depth =>
        refine Or.inl ⟨depth, fun more rest => ?_, by simp [closes], by simp [closes]⟩
        have inside : ¬ depth + 1 + more = 0 := by omega
        rw [splitAtDepth, if_neg opens, if_pos closes, if_neg inside,
          show depth + 1 + more - 1 = depth + more by omega]
  by_cases comma : depth = 0 ∧ c = ','
  · exact Or.inr ⟨comma.1, Or.inr comma.2⟩
  · refine Or.inl ⟨depth, fun more rest => ?_, by simp [opens, closes], ?_⟩
    · rw [splitAtDepth, if_neg opens, if_neg closes, if_neg]
      rintro ⟨same, outside⟩
      exact comma ⟨by omega, same⟩
    · intro same
      exact Nat.pos_of_ne_zero fun none_open => comma ⟨none_open, same⟩

/-- A text that closes one bracket more than it opens cannot be cut with one open bracket less. -/
theorem splitAtDepth_underflow {depth : Nat} {text : Text} {parts : List Text}
    (split : splitAtDepth (depth + 1) text = some parts) (rest : Text) :
    splitAtDepth depth (text ++ rest) = none := by
  induction text generalizing depth parts with
  | nil => simp [splitAtDepth] at split
  | cons c text ih =>
      rw [List.cons_append]
      rcases splitAtDepth_cases depth c with ⟨next, goesOn⟩ | ⟨rfl, rfl | rfl⟩
      · rw [goesOn.cut 1] at split
        obtain ⟨inner, found, -⟩ := Option.map_eq_some_iff.mp split
        rw [goesOn.cut_self, ih found]
        rfl
      · rw [splitAtDepth]
        rfl
      · rw [splitAtDepth] at split ⊢
        obtain ⟨inner, found, -⟩ := Option.map_eq_some_iff.mp split
        simp [ih found]

/-- What stands in front of `<` in a list of arguments that is applied to arguments is the applied
name, if it is a name at all. -/
theorem applied_inj {head inner name rest : Text} {parts : List Text} (uncut : Uncut 0 head)
    (word : isTypeName name = true) (cut : splitArguments rest = some parts)
    (same : head ++ '<' :: inner = name ++ '<' :: rest) : head = name ∧ inner = rest := by
  have identifier := (isTypeName_iff.mp word).1
  have no_bracket : '<' ∉ name := isIdentifier_not_mem identifier (by decide)
  rcases List.append_eq_append_iff.mp same with ⟨more, names, inners⟩ | ⟨more, heads, inners⟩
  · cases more with
    | nil => exact ⟨by simpa using names.symm, by simpa using inners⟩
    | cons c more =>
        rw [List.cons_append, List.cons.injEq] at inners
        exact absurd (by simp [names, ← inners.1]) no_bracket
  · cases more with
    | nil => exact ⟨by simpa using heads, by simpa using inners.symm⟩
    | cons c more =>
        rw [List.cons_append, List.cons.injEq] at inners
        obtain ⟨rfl, rest_same⟩ := inners
        -- the head closes all its brackets, and one of them was opened in front of `more`
        have whole := uncut 0 [] (Nat.le_refl 0)
        rw [heads, List.append_nil, isIdentifier_uncut identifier 0 _ (Nat.le_refl 0)] at whole
        cases split : splitAtDepth (0 + 1) more with
        | none => simp [splitAtDepth, split] at whole
        | some parts =>
            rw [splitArguments, rest_same, splitAtDepth_underflow split] at cut
            cases cut

theorem single_cons {depth : Nat} {c : Char} {text piece : Text}
    (single : splitAtDepth depth (c :: text) = some [piece]) :
    ∃ next inner, GoesOn depth c next ∧ splitAtDepth next text = some [inner] := by
  rcases splitAtDepth_cases depth c with ⟨next, goesOn⟩ | ⟨rfl, rfl | rfl⟩
  · rw [goesOn.cut_self] at single
    obtain ⟨pieces, found, same⟩ := Option.map_eq_some_iff.mp single
    cases pieces with
    | nil => exact absurd rfl (splitAtDepth_ne_nil found)
    | cons inner more =>
        simp only [extendFirst, List.cons.injEq] at same
        rw [same.2] at found
        exact ⟨next, inner, goesOn, found⟩
  · simp [splitAtDepth] at single
  · rw [splitAtDepth] at single
    obtain ⟨pieces, found, same⟩ := Option.map_eq_some_iff.mp single
    simp only [List.cons.injEq] at same
    exact absurd same.2 (splitAtDepth_ne_nil found)

/-- A text that is cut in one part is cut nowhere, whatever stands around it. -/
theorem splitAtDepth_single {depth : Nat} {text piece : Text}
    (single : splitAtDepth depth text = some [piece]) (more : Nat) (rest : Text) :
    splitAtDepth (depth + more) (text ++ rest) =
      (splitAtDepth more rest).map (prependFirst text) := by
  induction text generalizing depth piece with
  | nil =>
      rw [splitAtDepth] at single
      split at single
      · next closed =>
        rw [closed, Nat.zero_add]
        exact Uncut.nil 0 more rest (Nat.zero_le more)
      · cases single
  | cons c text ih =>
      obtain ⟨next, inner, goesOn, found⟩ := single_cons single
      rw [List.cons_append, goesOn.cut, ih found, Option.map_map, ← prependFirst_singleton]
      congr 1
      funext pieces
      exact prependFirst_append [c] text pieces

theorem uncut_iff {text : Text} : Uncut 0 text ↔ ∃ piece, splitArguments text = some [piece] := by
  constructor
  · intro uncut
    have whole := uncut 0 [] (Nat.le_refl 0)
    rw [List.append_nil] at whole
    exact ⟨text, by rw [splitArguments, whole]; simp [splitAtDepth, prependFirst]⟩
  · rintro ⟨piece, single⟩ depth rest -
    have behind := splitAtDepth_single single depth rest
    rwa [Nat.zero_add] at behind

/-- Blanks and brackets around a text make no difference. -/
theorem readable_around {core : Text} (tight : Tight core) {margins : Margins}
    (valid : margins.Valid) : Readable (margins.around core) ↔ Readable core := by
  have trimmed : ∀ fragment, checkFragment (trim fragment) = checkFragment fragment := by
    intro fragment
    rw [checkFragment_eq, checkFragment_eq, withoutSuffixes_trim]
  have around : ∀ gaps : List Text, (∀ gap ∈ gaps, Blank gap) → ∀ before after, Blank before →
      Blank after →
        checkFragment (before ++ arrayText core gaps ++ after) = checkFragment core := by
    intro gaps blank
    induction gaps with
    | nil =>
        intro before after front back
        rw [← trimmed, arrayText, Text.trim_padded front tight back]
    | cons gap gaps ih =>
        intro before after front back
        have suffix := Text.trim_padded front (arrayText_tight tight (gap :: gaps)) back
        have inner := ih (fun other member => blank other (by simp [member])) [] gap Blank.nil
          (blank gap (by simp))
        rw [checkFragment_array (suffix.trans rfl)]
        exact inner
  rw [readable_iff, readable_iff, Margins.around,
    around margins.gaps valid.gaps _ _ valid.before valid.after]

theorem tight_applied {head : Text} (tight : Tight head) (args : List Text) :
    Tight (appliedText head args) := by
  have closing : ∃ c ∈ (('<' :: Text.joinWith [','] args) ++ ['>']).getLast?,
      Text.isBlank c = false := Text.last_append ⟨'>', rfl, by decide⟩ _
  have joined := Tight.join tight.first closing
  rwa [← List.append_assoc] at joined

/-- A text applied to arguments can be read just if it is a type name and they can be read. -/
theorem readable_applied {head : Text} {args : List Text} (tight : Tight head)
    (uncut : Uncut 0 head) (some_arg : args ≠ []) (each : ∀ arg ∈ args, Uncut 0 arg) :
    Readable (appliedText head args) ↔
      isTypeName head = true ∧ ∀ arg ∈ args, Readable arg := by
  have split := splitArguments_join some_arg each
  have whole_tight := tight_applied tight args
  have core : withoutSuffixes (appliedText head args) = appliedText head args := by
    have bare : Text.stripEnd? "[]" (trim (appliedText head args)) = none := by
      rw [whole_tight.trim]
      exact no_suffix _ (by decide)
    rw [withoutSuffixes_core bare, whole_tight.trim]
  simp only [readable_iff]
  constructor
  · intro checked
    obtain ⟨parts, shape, rest⟩ := checkFragment_eq_ok checked
    rw [core] at shape
    rcases checkShape_cases shape with ⟨word, valid, spelled, -⟩ | ⟨name, inner, spelled, word, cut⟩
    · refine absurd ?_ (Word.text_not_mem valid (show _ ∧ '<' ≠ '#' ∧ _ by decide))
      simp [← spelled, appliedText]
    · obtain ⟨rfl, rfl⟩ := applied_inj uncut word cut (List.append_cancel_right spelled)
      rw [split, Option.some.injEq] at cut
      subst cut
      exact ⟨word, checkAll_eq_ok_iff.mp rest⟩
  · rintro ⟨word, readable⟩
    have shape : checkShape (withoutSuffixes (appliedText head args)) = .ok args := by
      rw [core]
      exact checkShape_applied word split
    rw [checkFragment_shape shape, checkAll_eq_ok_iff]
    exact readable

/-- What may be written for words and for applied names: texts without blanks at their ends that no
cut goes through. -/
structure Apt (words : Word → Text) (heads : Text → Text) : Prop where
  word : ∀ word : Word, word.Valid → Tight (words word) ∧ Uncut 0 (words word)
  head : ∀ name, isTypeName name = true → Tight (heads name) ∧ Uncut 0 (heads name)

namespace Layout

mutual

/-- The text with `words` for its words and `heads` for the names that are applied to arguments. -/
def write (words : Word → Text) (heads : Text → Text) : Layout → Text
  | leaf margins word => margins.around (words word)
  | applied margins name args =>
    margins.around (appliedText (heads name) (writeAll words heads args))

def writeAll (words : Word → Text) (heads : Text → Text) : List Layout → List Text
  | [] => []
  | first :: rest => first.write words heads :: writeAll words heads rest

end

section Write

variable {words : Word → Text} {heads : Text → Text}

@[simp] theorem writeAll_eq_map (args : List Layout) :
    writeAll words heads args = args.map (write words heads) := by
  induction args with
  | nil => rfl
  | cons first rest ih => simp [writeAll, ih]

/-- What is written is a type expression wherever the layout stands: its words are type
expressions, and its applied names type names. -/
inductive Fit (words : Word → Text) (heads : Text → Text) : Layout → Prop
  | leaf {margins : Margins} {word : Word} (readable : Readable (words word)) :
    Fit words heads (leaf margins word)
  | applied {margins : Margins} {name : Text} {args : List Layout}
    (head : isTypeName (heads name) = true) (fit : ∀ arg ∈ args, Fit words heads arg) :
    Fit words heads (applied margins name args)

theorem Valid.write_render {spell : Text → Text} {layout : Layout} (valid : layout.Valid) :
    layout.write (Word.render spell) spell = layout.render spell := by
  induction valid with
  | @leaf margins word _ _ => rw [render_leaf, write]
  | @applied margins name args _ _ _ _ ih =>
      rw [render_applied, write, writeAll_eq_map, List.map_congr_left ih]

theorem Valid.uncut_write (apt : Apt words heads) {layout : Layout} (valid : layout.Valid) :
    Uncut 0 (layout.write words heads) := by
  induction valid with
  | @leaf margins word blank word_valid =>
      rw [write]
      exact blank.uncut (apt.word word word_valid).2
  | @applied margins name args blank word _ _ ih =>
      rw [write, writeAll_eq_map]
      refine blank.uncut (appliedText_uncut (apt.head name word).2 ?_)
      intro arg member
      obtain ⟨layout, inside, rfl⟩ := List.mem_map.mp member
      exact ih layout inside

/-- What is written can be read just if all that is put in fits its place. -/
theorem Valid.readable_write (apt : Apt words heads) {layout : Layout} (valid : layout.Valid) :
    Readable (layout.write words heads) ↔ layout.Fit words heads := by
  induction valid with
  | @leaf margins word blank word_valid =>
      rw [write, readable_around (apt.word word word_valid).1 blank]
      constructor
      · exact .leaf
      · rintro (readable | -)
        exact readable
  | @applied margins name args blank word some_arg valid ih =>
      obtain ⟨tight, uncut⟩ := apt.head name word
      have each : ∀ arg ∈ args.map (write words heads), Uncut 0 arg := by
        intro arg member
        obtain ⟨layout, inside, rfl⟩ := List.mem_map.mp member
        exact (valid layout inside).uncut_write apt
      have whole := tight_applied tight (args.map (write words heads))
      rw [write, writeAll_eq_map, readable_around whole blank,
        readable_applied tight uncut (by simpa using some_arg) each, List.forall_mem_map]
      constructor
      · rintro ⟨head, readable⟩
        exact .applied head fun arg given => (ih arg given).mp (readable arg given)
      · rintro (- | ⟨head, fit⟩)
        exact ⟨head, fun arg given => (ih arg given).mpr (fit arg given)⟩

/-- What fits every valid word and every name fits. -/
theorem Valid.fit (word : ∀ word : Word, word.Valid → Readable (words word))
    (head : ∀ name, isTypeName name = true → isTypeName (heads name) = true) {layout : Layout}
    (valid : layout.Valid) : layout.Fit words heads := by
  induction valid with
  | leaf _ word_valid => exact .leaf (word _ word_valid)
  | applied _ name_word _ _ ih => exact .applied (head _ name_word) ih

/-- Whether it fits is no matter of blanks. -/
theorem Valid.fit_solid {layout : Layout} (valid : layout.Valid) :
    layout.solid.Fit words heads ↔ layout.Fit words heads := by
  induction valid with
  | leaf =>
      rw [Layout.solid]
      constructor
      · rintro (readable | -)
        exact .leaf readable
      · rintro (readable | -)
        exact .leaf readable
  | @applied margins name args _ _ _ _ ih =>
      rw [Layout.solid, solidAll_eq_map]
      constructor
      · rintro (- | ⟨head, fit⟩)
        exact .applied head fun arg given =>
          (ih arg given).mp (fit arg.solid (List.mem_map_of_mem given))
      · rintro (- | ⟨head, fit⟩)
        refine .applied head fun layout member => ?_
        obtain ⟨arg, given, rfl⟩ := List.mem_map.mp member
        exact (ih arg given).mpr (fit arg given)

end Write

end Layout

end TypeExpr

end ApiSchema
