import ApiSchema.Proofs.TypeExpr.Tree

set_option autoImplicit false

namespace ApiSchema

namespace Text

theorem trim_isInfix (text : Text) : trim text <:+: text := by
  obtain ⟨before, after, -, -, whole⟩ := exists_margins text
  exact ⟨before, after, whole.symm⟩

theorem isInfix_joinWith (separator : Text) {texts : List Text} {text : Text}
    (member : text ∈ texts) : text <:+: joinWith separator texts := by
  induction texts with
  | nil => cases member
  | cons first rest ih =>
      cases rest with
      | nil =>
          rw [List.mem_singleton.mp member]
          exact List.infix_rfl
      | cons next rest =>
          rw [joinWith_cons_cons]
          rcases List.mem_cons.mp member with rfl | member
          · rw [List.append_assoc]
            exact (List.prefix_append _ _).isInfix
          · exact (ih member).trans (List.suffix_append _ _).isInfix

end Text

namespace TypeExpr

open Text (Blank Tight trim)

/-- A node stands in the text: its own text is a part of it that is not empty and has no blank at
either end, and read alone this part gives the node again. -/
structure StandsIn (node : TypeExpr) (text : Text) : Prop where
  part : node.source <:+: text
  tight : Tight node.source
  reread : parseFragment node.source = .ok node

theorem StandsIn.mono {node : TypeExpr} {text whole : Text} (stands : node.StandsIn text)
    (inside : text <:+: whole) : node.StandsIn whole :=
  ⟨stands.part.trans inside, stands.tight, stands.reread⟩

/-- The item of an array stands in front of its brackets. -/
theorem item_isInfix {fragment item : Text} (spelled : trim fragment = item ++ ['[', ']']) :
    item <:+: fragment := by
  apply List.IsInfix.trans _ (Text.trim_isInfix fragment)
  rw [spelled]
  exact (List.prefix_append item _).isInfix

/-- An argument stands between the brackets. -/
theorem arg_isInfix {fragment name inner : Text} {args : List Text}
    (spelled : trim fragment = name ++ '<' :: inner ++ ['>'])
    (cut : splitArguments inner = some args) {arg : Text} (member : arg ∈ args) :
    arg <:+: fragment := by
  have inside : arg <:+: inner := by
    have joined := joinWith_splitAtDepth cut
    rw [← joined]
    exact Text.isInfix_joinWith [','] member
  have whole : inner <:+: trim fragment := by
    rw [spelled]
    exact ⟨name ++ ['<'], ['>'], by simp⟩
  exact (inside.trans whole).trans (Text.trim_isInfix fragment)

/-- What is read from a text stands in it. -/
theorem standsIn_of_read {fragment : Text} {type : TypeExpr}
    (read : parseFragment fragment = .ok type) : type.StandsIn fragment := by
  have source : type.source = trim fragment ∧ trim fragment ≠ [] := by
    rcases parseFragment_cases read with ⟨word, valid, spelled, rfl⟩ |
      ⟨item, inner, spelled, -, rfl⟩ | ⟨name, inner, args, types, spelled, -, -, -, rfl⟩
    · rw [spelled]
      exact ⟨by cases word <;> rfl, Word.text_ne_nil valid⟩
    · exact ⟨rfl, by simp [spelled]⟩
    · exact ⟨rfl, by simp [spelled]⟩
  refine ⟨?_, ?_, ?_⟩
  · rw [source.1]
    exact Text.trim_isInfix fragment
  · rw [source.1]
    exact Text.trim_tight fragment source.2
  · rw [source.1, parseFragment_trim]
    exact read

theorem Word.nodes_type (word : Word) : word.type.nodes = [word.type] := by
  cases word <;> rfl

/-- Every node, at any depth, stands in the text that the whole was read from. -/
theorem nodes_standIn {fragment : Text} {type : TypeExpr}
    (read : parseFragment fragment = .ok type) : ∀ node ∈ type.nodes, node.StandsIn fragment := by
  apply parseFragment_induction (motive := fun fragment type =>
    ∀ node ∈ type.nodes, node.StandsIn fragment) ?word ?array ?applied read
  case word =>
    intro fragment word valid spelled node member
    rw [word.nodes_type, List.mem_singleton] at member
    rw [member]
    exact standsIn_of_read (parseFragment_word valid spelled)
  case array =>
    intro fragment item type spelled inside below node member
    rcases List.mem_cons.mp member with rfl | deeper
    · exact standsIn_of_read (parseFragment_array spelled inside)
    · exact (below node deeper).mono (item_isInfix spelled)
  case applied =>
    intro fragment name inner args types spelled word cut inside below node member
    rcases List.mem_cons.mp member with rfl | deeper
    · exact standsIn_of_read (parseFragment_applied spelled word cut inside)
    · obtain ⟨type, given, here⟩ := mem_nodesAll.mp deeper
      obtain ⟨arg, written, argRead⟩ := exists_read_arg inside given
      exact (below arg written type argRead node here).mono (arg_isInfix spelled cut written)

/-- Source texts are faithful. The text of any node of a type that was read is a part of what the
type was read from, not empty and without blanks at its ends, and reading this part alone gives the
node again, with the texts of all nodes in it. -/
theorem parse_source {text : Text} {type : TypeExpr} (read : parse text = .ok type)
    {node : TypeExpr} (member : node ∈ type.nodes) :
    node.source ≠ [] ∧ node.source <:+: text ∧ trim node.source = node.source ∧
      parse node.source = .ok node := by
  have stands := nodes_standIn (parse_eq_ok_iff.mp read) node member
  refine ⟨?_, stands.part, stands.tight.trim, parse_eq_ok_iff.mpr stands.reread⟩
  obtain ⟨c, start, -⟩ := stands.tight.first
  intro empty
  rw [empty] at start
  cases start

def resultLayout : Layout :=
  .applied ⟨[' '], [], ['\t']⟩ "Result"
    [.applied ⟨[' '], [], []⟩ "Page" [.leaf ⟨[], [[' ']], [' ']⟩ (.named "User")],
      .leaf ⟨[' '], [[]], []⟩ (.tagged .string "date")]

def resultText : Text := " Result< Page<User [] >, string#date[]>\t"

theorem parse_source_result :
    parse resultText = .ok resultLayout.type ∧
      ∃ node ∈ resultLayout.type.nodes, node.source = "User []" ∧
        "User []" <:+: resultText ∧ parse "User []" = .ok node := by
  have blank : Blank [' '] := Layout.blank_space
  have tab : Blank ['\t'] := .singleton (by decide)
  have users : (Layout.leaf ⟨[], [[' ']], [' ']⟩ (.named "User")).Valid :=
    .leaf ⟨Blank.nil, List.forall_mem_singleton.mpr blank, blank⟩ (show _ = true by decide)
  have page : (Layout.applied ⟨[' '], [], []⟩ "Page"
      [.leaf ⟨[], [[' ']], [' ']⟩ (.named "User")]).Valid :=
    .applied ⟨blank, by simp, Blank.nil⟩ (by decide) (by simp) (List.forall_mem_singleton.mpr users)
  have dates : (Layout.leaf ⟨[' '], [[]], []⟩ (.tagged .string "date")).Valid :=
    .leaf ⟨blank, List.forall_mem_singleton.mpr Blank.nil, Blank.nil⟩ (show _ = true by decide)
  have valid : resultLayout.Valid :=
    .applied ⟨blank, by simp, tab⟩ (by decide) (by simp)
      (List.forall_mem_cons.mpr ⟨page, List.forall_mem_singleton.mpr dates⟩)
  have spelled : resultLayout.text = resultText := by decide
  have read : parse resultText = .ok resultLayout.type := by
    rw [← spelled]
    exact parse_eq_ok_iff.mpr valid.parse
  -- behind the result and the page comes the list of users
  have member : TypeExpr.array "User []" (.object "User" "User" []) ∈ resultLayout.type.nodes :=
    .tail _ (.tail _ (.head _))
  obtain ⟨-, part, -, again⟩ := parse_source read member
  exact ⟨read, _, member, rfl, part, again⟩

end TypeExpr

end ApiSchema
