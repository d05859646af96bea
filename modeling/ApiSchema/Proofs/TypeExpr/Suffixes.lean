import ApiSchema.Proofs.TypeExpr.Layout

set_option autoImplicit false

namespace ApiSchema

namespace Text

/-- In front of a text that neither begins nor ends with a blank only leading blanks go. -/
theorem trim_append_tight (front : Text) {back : Text} (tight : Tight back) :
    trim (front ++ back) = front.dropWhile isBlank ++ back := by
  have start : ∃ c ∈ (front.dropWhile isBlank ++ back).head?, isBlank c = false := by
    cases kept : front.dropWhile isBlank with
    | nil => exact tight.first
    | cons c rest =>
        refine ⟨c, rfl, ?_⟩
        apply head?_dropWhile_blank front
        rw [kept]
        rfl
  have whole : front ++ back =
      front.takeWhile isBlank ++ (front.dropWhile isBlank ++ back) ++ [] := by
    rw [List.append_nil, ← List.append_assoc, List.takeWhile_append_dropWhile]
  rw [whole]
  exact trim_padded (blank_takeWhile front) ⟨start, last_append tight.last _⟩ Blank.nil

theorem trim_dropWhile (text : Text) : trim (text.dropWhile isBlank) = trim text := by
  have whole := List.takeWhile_append_dropWhile (p := isBlank) (l := text)
  calc trim (text.dropWhile isBlank)
      = trim (text.takeWhile isBlank ++ text.dropWhile isBlank) :=
        (trim_append_left (blank_takeWhile text)).symm
    _ = trim text := by rw [whole]

end Text

namespace TypeExpr

open Text (Blank Tight trim)

def suffixes : Nat → Text
  | 0 => []
  | count + 1 => suffixes count ++ ['[', ']']

theorem suffixes_add (first second : Nat) :
    suffixes (first + second) = suffixes first ++ suffixes second := by
  induction second with
  | zero => rw [Nat.add_zero, suffixes, List.append_nil]
  | succ second ih => rw [← Nat.add_assoc, suffixes, suffixes, ih, List.append_assoc]

/-- The layers of an array are those that the normal spelling has brackets for. -/
theorem canonical_innermost (node : TypeExpr) :
    node.canonical = node.innermost.canonical ++ suffixes node.depth := by
  fun_induction innermost node with
  | case1 source item ih =>
      rw [canonical, ih, depth, suffixes, List.append_assoc]
  | case2 leaf other =>
      have none_around : leaf.depth = 0 := by
        rw [depth]
        exact other
      rw [none_around, suffixes, List.append_nil]

theorem innermost_not_array (node : TypeExpr) : node.innermost.isArray = false := by
  fun_induction innermost node with
  | case1 source item ih => exact ih
  | case2 leaf other =>
      cases leaf with
      | array source item => exact absurd rfl (other source item)
      | primitive source base format => rfl
      | object source name args => rfl

/-- What a type refers to hangs on the type inside its array layers only. -/
theorem reference?_of_innermost {first second : TypeExpr}
    (same : first.innermost = second.innermost) : first.reference? = second.reference? := by
  unfold reference?
  rw [same]

/-- The type in arrays with these texts, the outermost first. -/
def inArrays (sources : List Text) (type : TypeExpr) : TypeExpr := sources.foldr array type

theorem depth_inArrays (sources : List Text) (type : TypeExpr) :
    (inArrays sources type).depth = type.depth + sources.length := by
  induction sources with
  | nil => rfl
  | cons source sources ih =>
      show (inArrays sources type).depth + 1 = type.depth + (sources.length + 1)
      omega

theorem innermost_inArrays (sources : List Text) (type : TypeExpr) :
    (inArrays sources type).innermost = type.innermost := by
  induction sources with
  | nil => rfl
  | cons source sources ih => exact ih

/-- With a `[]` at its end a text is read as an array of what it is read as without, and refused
as it is without. -/
theorem parseFragment_suffix (text : Text) {gap : Text} (blank : Blank gap) :
    parseFragment (text ++ gap ++ ['[', ']']) =
      (parseFragment text).map (array (trim (text ++ gap ++ ['[', ']']))) := by
  have brackets : Tight ['[', ']'] := Tight.of_ends '[' [] ']' rfl (by decide) (by decide)
  have spelled := Text.trim_append_tight (text ++ gap) brackets
  have item : parseFragment ((text ++ gap).dropWhile Text.isBlank) = parseFragment text := by
    rw [← parseFragment_trim, Text.trim_dropWhile, Text.trim_append_right blank,
      parseFragment_trim]
  have shape := form_arrayOf ((text ++ gap).dropWhile Text.isBlank)
  rw [← spelled] at shape
  rw [parseFragment]
  split
  · next flaw other =>
    rw [shape] at other
    cases other
  · next type other =>
    rw [shape] at other
    cases other
  · next found other =>
    rw [shape, Except.ok.injEq, Form.arrayOf.injEq] at other
    rw [← other, item]
    cases parseFragment text <;> rfl
  · next name args other =>
    rw [shape] at other
    cases other

/-- Any number of suffixes puts what is read into as many arrays. -/
theorem parseFragment_arrayText (text : Text) {gaps : List Text} (blank : ∀ gap ∈ gaps, Blank gap) :
    ∃ sources : List Text, sources.length = gaps.length ∧
      parseFragment (arrayText text gaps) = (parseFragment text).map (inArrays sources) := by
  induction gaps with
  | nil =>
      refine ⟨[], rfl, ?_⟩
      cases found : parseFragment text <;> simp [arrayText, found, Except.map, inArrays]
  | cons gap gaps ih =>
      obtain ⟨sources, length, inner⟩ := ih fun other member => blank other (by simp [member])
      refine ⟨trim (arrayText text (gap :: gaps)) :: sources, ?_, ?_⟩
      · rw [List.length_cons, List.length_cons, length]
      · rw [arrayText, parseFragment_suffix _ (blank gap (by simp)), inner]
        cases parseFragment text <;> rfl

/-- Suffixes make arrays and nothing else. A text with suffixes, whatever blanks stand before each,
is a type expression just if the text is one; then it has as many more layers as suffixes around the
same innermost type, its normal spelling has as many more brackets, and it refers to the same
definition. And every tree is spelled as its innermost type, which is no array, with brackets for
its layers. -/
theorem parse_suffixed (text : Text) {gaps : List Text} (blank : ∀ gap ∈ gaps, Blank gap) :
    ((∃ whole, parse (arrayText text gaps) = .ok whole) ↔ ∃ type, parse text = .ok type) ∧
      (∀ whole type, parse (arrayText text gaps) = .ok whole → parse text = .ok type →
        whole.depth = type.depth + gaps.length ∧ whole.innermost = type.innermost ∧
          whole.canonical = type.canonical ++ suffixes gaps.length ∧
          whole.reference? = type.reference?) ∧
      ∀ node : TypeExpr, node.canonical = node.innermost.canonical ++ suffixes node.depth ∧
        node.innermost.isArray = false := by
  obtain ⟨sources, length, read⟩ := parseFragment_arrayText text blank
  simp only [parse_eq_ok_iff, read]
  refine ⟨?_, ?_, fun node => ⟨canonical_innermost node, innermost_not_array node⟩⟩
  · cases parseFragment text with
    | error flaw => simp [Except.map]
    | ok type => simp [Except.map]
  · intro whole type found inner
    rw [inner] at found
    have same : inArrays sources type = whole := Except.ok.inj found
    have innermost : whole.innermost = type.innermost := by
      rw [← same, innermost_inArrays]
    have depth : whole.depth = type.depth + gaps.length := by
      rw [← same, depth_inArrays, length]
    refine ⟨depth, innermost, ?_, reference?_of_innermost innermost⟩
    rw [canonical_innermost whole, canonical_innermost type, innermost, depth, suffixes_add,
      List.append_assoc]

/-- A list of users in two more arrays. -/
theorem parse_suffixed_users :
    ∃ type whole, parse " User [] " = .ok type ∧ parse " User [] \t[] []" = .ok whole ∧
      whole.depth = 3 ∧ whole.innermost = .object "User" "User" [] ∧
      whole.canonical = "User[][][]" ∧ whole.reference? = some ("User" : Text) := by
  have named : (Word.named "User").Valid := show _ = true by decide
  have user : parseFragment "User " = .ok (.object "User" "User" []) :=
    parseFragment_word named (by decide)
  have spelled : Text.trim " User [] " = ("User " : Text) ++ ['[', ']'] := by decide
  have users : parse " User [] " = .ok (.array "User []" (.object "User" "User" [])) :=
    parse_eq_ok_iff.mpr (parseFragment_array spelled user)
  have tab : ∀ gap ∈ [['\t']], Blank gap :=
    List.forall_mem_singleton.mpr (.singleton (by decide))
  have blank : ∀ gap ∈ [[' '], ['\t']], Blank gap :=
    List.forall_mem_cons.mpr ⟨.singleton (by decide), tab⟩
  obtain ⟨accepted, suffixed, -⟩ := parse_suffixed " User [] " blank
  obtain ⟨whole, read⟩ := accepted.mpr ⟨_, users⟩
  obtain ⟨depth, innermost, canonical, reference⟩ := suffixed whole _ read users
  refine ⟨_, whole, users, read, depth, innermost, ?_, ?_⟩
  · rw [canonical]
    decide
  · rw [reference]
    decide

end TypeExpr

end ApiSchema
