import ApiSchema.Proofs.TypeExpr.Tree

set_option autoImplicit false

namespace ApiSchema

namespace Text

/-- A text without blanks at its ends is found again in what blanks are put around. -/
theorem padded_inj {before text after front inner back : Text} (blank : Blank before)
    (tight : Tight text) (blank_after : Blank after) (other_blank : Blank front)
    (other_tight : Tight inner) (other_after : Blank back)
    (same : before ++ text ++ after = front ++ inner ++ back) :
    before = front ∧ text = inner ∧ after = back := by
  have trimmed := congrArg trim same
  rw [trim_padded blank tight blank_after, trim_padded other_blank other_tight other_after]
    at trimmed
  subst trimmed
  obtain ⟨c, start, solid⟩ := tight.first
  have taken : ∀ lead rest : Text, Blank lead →
      (lead ++ (text ++ rest)).takeWhile isBlank = lead := by
    intro lead rest is_blank
    have none_taken : (text ++ rest).takeWhile isBlank = [] := by
      obtain ⟨more, rfl⟩ := List.head?_eq_some_iff.mp start
      simp [solid]
    rw [List.takeWhile_append_of_pos is_blank, none_taken, List.append_nil]
  have leads := congrArg (List.takeWhile isBlank) same
  rw [List.append_assoc, List.append_assoc, taken _ _ blank, taken _ _ other_blank] at leads
  subst leads
  exact ⟨rfl, rfl, List.append_cancel_left same⟩

end Text

namespace TypeExpr

open Text (Blank Tight)

def Word.tree : Word → TypeExpr
  | primitive base => .primitive [] base base.defaultFormat
  | tagged base format => .primitive [] base format
  | named name => .object [] name []

theorem Word.unsourced_type (word : Word) : word.type.unsourced = word.tree := by
  cases word with
  | primitive base => rfl
  | tagged base format => rfl
  | named name => rfl

namespace Layout

mutual

/-- The tree that a derivation stands for: an array for every `[]`, and the arguments in their
order. -/
def tree : Layout → TypeExpr
  | leaf margins word => (array [])^[margins.gaps.length] word.tree
  | applied margins name args => (array [])^[margins.gaps.length] (.object [] name (treeAll args))

def treeAll : List Layout → List TypeExpr
  | [] => []
  | first :: rest => first.tree :: treeAll rest

end

/-- The layout is a derivation of the text. -/
structure Derives (layout : Layout) (text : Text) : Prop where
  valid : layout.Valid
  spells : layout.text = text

@[simp] theorem treeAll_eq_map (args : List Layout) : treeAll args = args.map tree := by
  induction args with
  | nil => rfl
  | cons first rest ih => simp [treeAll, ih]

theorem Valid.unsourced_eq_tree {layout : Layout} (valid : layout.Valid) :
    layout.type.unsourced = layout.tree := by
  induction valid with
  | @leaf margins word _ _ =>
      rw [Layout.unsourced_type, item, Word.unsourced_type, tree]
      rfl
  | @applied margins name args _ _ _ _ ih =>
      have same : args.map (fun arg => arg.type.unsourced) = args.map tree :=
        List.map_congr_left ih
      rw [Layout.unsourced_type, item, unsourced, unsourcedAll_eq_map, List.map_map, tree,
        treeAll_eq_map, ← same]
      rfl

end Layout

/-- A word's text is that of no other word: primitives are no names, and a `#` stands in tagged
primitives only. -/
theorem Word.text_inj {first second : Word} (valid : first.Valid) (other : second.Valid)
    (same : first.text = second.text) : first = second := by
  have types : first.type = second.type := by
    have shape := form_word valid
    rw [same, form_word other, Except.ok.injEq, Form.leaf.injEq] at shape
    exact shape.symm
  have no_tag : ∀ (base other : Primitive) (format : Text),
      base.name ≠ other.name ++ '#' :: format := by
    intro base other format spelled
    refine isIdentifier_not_mem (name_isIdentifier base) (show _ = false by decide) (c := '#') ?_
    simp [spelled]
  cases first <;> cases second <;> simp_all [Word.type, Word.text]

/-- The arrays around a core that does not end with `[]` are found again in their text. -/
theorem arrayText_inj {core inner : Text} (tight : Tight core) (other_tight : Tight inner)
    (bare : Text.stripEnd? "[]" core = none) (other_bare : Text.stripEnd? "[]" inner = none)
    {gaps others : List Text} (blank : ∀ gap ∈ gaps, Blank gap)
    (other_blank : ∀ gap ∈ others, Blank gap)
    (same : arrayText core gaps = arrayText inner others) : core = inner ∧ gaps = others := by
  have no_suffix : ∀ (text : Text), Text.stripEnd? "[]" text = none → ∀ rest : Text,
      text ≠ rest ++ ['[', ']'] := by
    intro text none_found rest spelled
    have found : Text.stripEnd? "[]" text = some rest := Text.stripEnd?_eq_some_iff.mpr spelled
    rw [found] at none_found
    cases none_found
  induction gaps generalizing others with
  | nil =>
      cases others with
      | nil => exact ⟨same, rfl⟩
      | cons gap others => exact absurd same (no_suffix core bare _)
  | cons gap gaps ih =>
      cases others with
      | nil => exact absurd same.symm (no_suffix inner other_bare _)
      | cons other others =>
          rw [arrayText, arrayText] at same
          obtain ⟨-, items, gap_same⟩ := Text.padded_inj Blank.nil (arrayText_tight tight gaps)
            (blank gap (by simp)) Blank.nil (arrayText_tight other_tight others)
            (other_blank other (by simp)) (List.append_cancel_right same)
          obtain ⟨cores, gaps_same⟩ := ih (fun gap member => blank gap (by simp [member]))
            (fun gap member => other_blank gap (by simp [member])) items
          exact ⟨cores, by rw [gap_same, gaps_same]⟩

/-- A name and the texts of its arguments are found again in their text, for its first `<` stands
behind the name and no comma of an argument is one between two arguments. -/
theorem appliedText_inj {name other : Text} {args others : List Text}
    (word : isTypeName name = true) (other_word : isTypeName other = true)
    (some_arg : args ≠ []) (some_other : others ≠ []) (uncut : ∀ arg ∈ args, Uncut 0 arg)
    (other_uncut : ∀ arg ∈ others, Uncut 0 arg)
    (same : appliedText name args = appliedText other others) : name = other ∧ args = others := by
  have cut : ∀ (head inner : Text), isTypeName head = true →
      Text.cutAt? '<' (head ++ '<' :: inner ++ ['>']) = some (head, inner ++ ['>']) := by
    intro head inner head_word
    rw [List.append_assoc, List.cons_append]
    exact Text.cutAt?_append
      (isIdentifier_not_mem (isTypeName_iff.mp head_word).1 (by decide)) _
  have parts := cut name (Text.joinWith [','] args) word
  change Text.cutAt? '<' (appliedText name args) = _ at parts
  rw [same, appliedText, cut other _ other_word, Option.some.injEq, Prod.mk.injEq] at parts
  obtain ⟨names, inners⟩ := parts
  have joined := List.append_cancel_right inners
  have split := splitArguments_join some_other other_uncut
  rw [joined, splitArguments_join some_arg uncut, Option.some.injEq] at split
  exact ⟨names.symm, split⟩

namespace Layout

theorem Valid.core_bare {layout : Layout} (valid : layout.Valid) :
    Text.stripEnd? "[]" layout.core = none := by
  cases valid with
  | leaf _ word => exact Word.no_suffix word
  | applied => exact no_suffix _ (by decide)

theorem args_inj {args others : List Layout}
    (each : ∀ arg ∈ args, ∀ other ∈ others, arg.text = other.text → arg = other)
    (same : args.map text = others.map text) : args = others := by
  induction args generalizing others with
  | nil => simpa using same.symm
  | cons arg args ih =>
      cases others with
      | nil => cases same
      | cons other others =>
          rw [List.map_cons, List.map_cons, List.cons.injEq] at same
          have head := each arg (by simp) other (by simp) same.1
          have tail := ih (fun arg inside other here => each arg (by simp [inside]) other
            (by simp [here])) same.2
          rw [head, tail]

/-- Layouts of one text have the same margins and the same core. -/
theorem margins_core {first second : Layout} (valid : first.Valid) (other : second.Valid)
    (same : first.text = second.text) :
    first.margins = second.margins ∧ first.core = second.core := by
  have blanks := valid.margins
  have other_blanks := other.margins
  have tight := valid.core_tight
  have other_tight := other.core_tight
  rw [text_eq, text_eq, Margins.around, Margins.around] at same
  obtain ⟨before, arrays, after⟩ := Text.padded_inj blanks.before (arrayText_tight tight _)
    blanks.after other_blanks.before (arrayText_tight other_tight _) other_blanks.after same
  obtain ⟨cores, gaps⟩ := arrayText_inj tight other_tight valid.core_bare other.core_bare
    blanks.gaps other_blanks.gaps arrays
  refine ⟨?_, cores⟩
  generalize first.margins = left at before gaps after ⊢
  generalize second.margins = right at before gaps after ⊢
  cases left
  cases right
  cases before
  cases gaps
  cases after
  rfl

/-- No text has two derivations. -/
theorem Valid.eq_of_text {first second : Layout} (valid : first.Valid) (other : second.Valid)
    (same : first.text = second.text) : first = second := by
  induction valid generalizing second with
  | @leaf margins word blank word_valid =>
      have whole : (Layout.leaf margins word).Valid := .leaf blank word_valid
      obtain ⟨margins_same, cores⟩ := margins_core whole other same
      cases other with
      | leaf _ other_valid =>
          rw [Word.text_inj word_valid other_valid cores]
          exact congrArg (Layout.leaf · _) margins_same
      | @applied _ name args =>
          -- a word has no bracket
          refine absurd ?_ (Word.text_not_mem word_valid (show _ ∧ '<' ≠ '#' ∧ _ by decide))
          change word.text = appliedText name (args.map text) at cores
          simp [cores, appliedText]
  | @applied margins name args blank name_word some_arg valid ih =>
      have whole : (Layout.applied margins name args).Valid :=
        .applied blank name_word some_arg valid
      obtain ⟨margins_same, cores⟩ := margins_core whole other same
      cases other with
      | @leaf _ word _ word_valid =>
          refine absurd ?_ (Word.text_not_mem word_valid (show _ ∧ '<' ≠ '#' ∧ _ by decide))
          change appliedText name (args.map text) = word.text at cores
          simp [← cores, appliedText]
      | @applied _ other_name others _ other_word some_other other_valid =>
          have uncut : ∀ layouts : List Layout, (∀ layout ∈ layouts, layout.Valid) →
              ∀ arg ∈ layouts.map text, Uncut 0 arg := by
            intro layouts valids arg member
            obtain ⟨layout, inside, rfl⟩ := List.mem_map.mp member
            exact (valids layout inside).uncut
          obtain ⟨names, texts⟩ := appliedText_inj name_word other_word (by simpa using some_arg)
            (by simpa using some_other) (uncut args valid) (uncut others other_valid) cores
          have args_same := args_inj (fun arg inside other here =>
            ih arg inside (other_valid other here)) texts
          rw [names, args_same]
          exact congrArg (Layout.applied · _ _) margins_same

end Layout

/-- The reader accepts just the texts that the grammar derives. A text has one derivation at most,
and the tree that is read, without the texts of its nodes, is the tree of the derivation. -/
theorem parse_exact_grammar (text : Text) :
    ((∃ type, parse text = .ok type) ↔ ∃ layout : Layout, layout.Derives text) ∧
      (∀ first second : Layout, first.Derives text → second.Derives text → first = second) ∧
      ∀ layout : Layout, layout.Derives text →
        ∃ type, parse text = .ok type ∧ type.unsourced = layout.tree := by
  have read : ∀ layout : Layout, layout.Derives text → parse text = .ok layout.type := by
    rintro layout ⟨valid, rfl⟩
    exact parse_eq_ok_iff.mpr valid.parse
  refine ⟨⟨?_, ?_⟩, ?_, ?_⟩
  · rintro ⟨type, accepted⟩
    obtain ⟨layout, valid, spells, -⟩ := exists_layout (parse_eq_ok_iff.mp accepted)
    exact ⟨layout, valid, spells⟩
  · rintro ⟨layout, derives⟩
    exact ⟨layout.type, read layout derives⟩
  · intro first second derives other
    exact derives.valid.eq_of_text other.valid (derives.spells.trans other.spells.symm)
  · intro layout derives
    exact ⟨layout.type, read layout derives, derives.valid.unsourced_eq_tree⟩

/-- A map from dates to lists of lists of users, with blanks wherever they may stand. -/
def mapLayout : Layout :=
  .applied ⟨[' '], [], []⟩ "Map"
    [.leaf ⟨[' '], [], []⟩ (.tagged .string "date"),
      .leaf ⟨[], [[' '], []], [' ']⟩ (.named "User")]

theorem parse_exact_grammar_map :
    mapLayout.Derives " Map< string#date,User[] [] >" ∧
      ∃ type, parse " Map< string#date,User[] [] >" = .ok type ∧
        type.unsourced = .object [] "Map"
          [.primitive [] .string "date", .array [] (.array [] (.object [] "User" []))] := by
  have blank : Blank [' '] := Layout.blank_space
  have date : (Layout.leaf ⟨[' '], [], []⟩ (.tagged .string "date")).Valid :=
    .leaf ⟨blank, by simp, Blank.nil⟩ (show _ = true by decide)
  have users : (Layout.leaf ⟨[], [[' '], []], [' ']⟩ (.named "User")).Valid := by
    refine .leaf ⟨Blank.nil, ?_, blank⟩ (show _ = true by decide)
    simp [blank, Blank.nil]
  have derives : mapLayout.Derives " Map< string#date,User[] [] >" := by
    refine ⟨.applied ⟨blank, by simp, Blank.nil⟩ (by decide) (by simp) ?_, by decide⟩
    intro arg given
    rcases List.mem_cons.mp given with rfl | given
    · exact date
    · rwa [List.mem_singleton.mp given]
  exact ⟨derives, (parse_exact_grammar _).2.2 mapLayout derives⟩

end TypeExpr

end ApiSchema
