import ApiSchema.Proofs.Generic.Demand
import ApiSchema.Proofs.TypeExpr.Tree

set_option autoImplicit false

namespace ApiSchema

namespace TypeExpr

/-- Every node was read from its own normal spelling. -/
def IsNormal (type : TypeExpr) : Prop := ∀ node ∈ type.nodes, node.source = node.canonical

theorem source_arrayType {core : Text} {item : TypeExpr} (spelled : item.source = core)
    (gaps : List Text) : (arrayType core item gaps).source = arrayText core gaps := by
  cases gaps with
  | nil => exact spelled
  | cons gap gaps => rfl

/-- Brackets without blanks keep a type normal. -/
theorem IsNormal.arrayType {core : Text} {item : TypeExpr} (normal : item.IsNormal)
    (source : item.source = core) (spelled : core = item.canonical) (gaps : List Text) :
    (arrayType core item (gaps.map fun _ => [])).IsNormal := by
  induction gaps with
  | nil => exact normal
  | cons gap gaps ih =>
      have whole := canonical_arrayType core item ((gap :: gaps).map fun _ => [])
      have text := source_arrayType source ((gap :: gaps).map fun _ => [])
      rw [List.map_map, Function.comp_def, ← spelled, ← text] at whole
      intro node member
      rcases List.mem_cons.mp member with rfl | inside
      · exact whole.symm
      · exact ih node inside

theorem Word.isNormal (word : Word) : word.type.IsNormal := by
  have alone : word.type.nodes = [word.type] := by
    cases word <;> rfl
  have source : word.type.source = word.text := by
    cases word <;> rfl
  intro node member
  rw [alone, List.mem_singleton] at member
  rw [member, source, canonical_word]

namespace Layout

theorem core_plainAfter (before : Text) (layout : Layout) :
    (layout.plainAfter before).core = layout.inner.plain.core := by
  cases layout <;> rfl

theorem source_item (layout : Layout) : layout.item.source = layout.core := by
  cases layout with
  | leaf margins word => cases word <;> rfl
  | applied margins name args => rfl

/-- With normal blanks the core is the normal spelling of the type inside the arrays. -/
theorem Valid.core_normal {layout : Layout} (valid : layout.Valid) (before : Text) :
    (layout.plainAfter before).core = (layout.plainAfter before).item.canonical := by
  rw [core_plainAfter, valid.source_plain.2]
  cases valid with
  | leaf => rw [Layout.plainAfter]; rfl
  | applied _ _ _ valid =>
      have same := canonicals_plainAll valid Text.Blank.nil
      rw [Layout.plainAfter, item, item, canonical_object, canonical_object, List.map_map,
        List.map_map]
      exact congrArg (_ ++ bracketed ·) same.symm

theorem Valid.normal_plainAfter {layout : Layout} (valid : layout.Valid) (before : Text) :
    (layout.plainAfter before).type.IsNormal := by
  have spelled := valid.core_normal before
  have source := (layout.plainAfter before).source_item
  induction valid generalizing before with
  | @leaf margins word _ _ =>
      rw [Layout.plainAfter] at spelled source ⊢
      rw [type_eq]
      exact (Word.isNormal word).arrayType source spelled margins.gaps
  | @applied margins name args _ _ _ valid ih =>
      rw [Layout.plainAfter] at spelled source ⊢
      rw [type_eq]
      refine IsNormal.arrayType ?_ source spelled margins.gaps
      intro node member
      rcases List.mem_cons.mp member with rfl | below
      · exact source.trans spelled
      · obtain ⟨type, given, inside⟩ := mem_nodesAll.mp below
        obtain ⟨layout, placed, rfl⟩ := List.mem_map.mp given
        obtain ⟨arg, declared, space, -, rfl⟩ := mem_plainAll placed
        exact ih arg declared space ((valid arg declared).core_normal space)
          (arg.plainAfter space).source_item node inside

end Layout

/-- The normal spelling is read as the same tree, node by node from its own normal spelling. -/
theorem canonical_reread {text : Text} {type : TypeExpr} (read : parse text = .ok type) :
    ∃ again, parse type.canonical = .ok again ∧ again.unsourced = type.unsourced ∧
      again.canonical = type.canonical ∧ again.IsNormal := by
  obtain ⟨layout, valid, -, rfl⟩ := exists_layout (parse_eq_ok_iff.mp read)
  have plain := valid.plainAfter Text.Blank.nil
  have same := Layout.solid_plainAfter valid []
  exact ⟨layout.plain.type, parse_eq_ok_iff.mpr valid.parse_canonical,
    Layout.unsourced_eq_of_solid plain valid same, Layout.canonical_eq_of_solid plain valid same,
    valid.normal_plainAfter []⟩

/-- Types of one normal spelling are one tree. -/
theorem unsourced_eq_of_canonical {text other : Text} {first second : TypeExpr}
    (read : parse text = .ok first) (read_too : parse other = .ok second)
    (same : first.canonical = second.canonical) : first.unsourced = second.unsourced := by
  obtain ⟨again, reread, tree, -⟩ := canonical_reread read
  obtain ⟨other_again, other_reread, other_tree, -⟩ := canonical_reread read_too
  rw [same, other_reread, Except.ok.injEq] at reread
  rw [← tree, ← reread, other_tree]

end TypeExpr

open TypeExpr (parse canonical)

/-- The normal spelling encodes the tree. What is read is read again from it, with the same tree and
the same normal spelling, and then the text of every node is the normal spelling of that node; types
have one normal spelling only if they are one tree; and instances of one name, in whatever discovery
of the definitions and for whatever types, are one instance of one definition with the arguments
that the name is read with. -/
theorem canonical_faithful :
    (∀ text type, parse text = .ok type →
      ∃ again, parse type.canonical = .ok again ∧ again.unsourced = type.unsourced ∧
        again.canonical = type.canonical ∧ ∀ node ∈ again.nodes, node.source = node.canonical) ∧
    (∀ text other first second, parse text = .ok first → parse other = .ok second →
      first.canonical = second.canonical → first.unsourced = second.unsourced) ∧
    ∀ (definitions emitted others : List Definition) (type other : Text) (first second : Instance),
      (definitions.map (·.name)).Nodup → demand definitions emitted type = .ok (some first) →
      demand definitions others other = .ok (some second) →
      first.definition.name = second.definition.name →
        first = second ∧ ∃ template ∈ definitions, ∃ args : List TypeExpr,
          parse first.definition.name =
            .ok (.object first.definition.name template.name args) ∧
          first.args = args.map canonical ∧
          first.definition = template.instantiate first.definition.name first.args := by
  refine ⟨fun text type read => TypeExpr.canonical_reread read,
    fun text other first second read read_too same =>
      TypeExpr.unsourced_eq_of_canonical read read_too same, ?_⟩
  intro definitions emitted others type other first second distinct asked asked_too same
  have made := (demand_some asked).1
  have made_too := (demand_some asked_too).1
  refine ⟨made.eq_of_name distinct made_too same, ?_⟩
  obtain ⟨template, declared, args, read, -, -, -, texts, instantiated⟩ := made
  exact ⟨template, declared, args, read, texts, instantiated⟩

/-- A map to lists of lists, with blanks and a format that is the default one. -/
def spacedMap : TypeExpr.Layout :=
  .applied ⟨[' '], [], []⟩ "Map"
    [.leaf ⟨[' '], [], []⟩ (.tagged .integer "int32"),
      .leaf ⟨[], [[' '], []], [' ']⟩ (.named "User")]

def mapDefinitions : List Definition :=
  [{ name := "Map", params := ["«K»", "«V»"], properties := [{ name := "keys", type := "«K»[]" }] }]

def mapInstance : Instance :=
  { definition :=
      { name := "Map<integer#int32, User[][]>",
        properties := [{ name := "keys", type := "integer#int32[]" }] },
    args := ["integer#int32", "User[][]"] }

/-- The same instance is asked for with other blanks, and the normal spelling is read as the tree
that was written with blanks. -/
theorem canonical_faithful_map :
    (∃ again, parse "Map<integer#int32, User[][]>" = .ok again ∧
      again.unsourced = spacedMap.type.unsourced ∧
      ∀ node ∈ again.nodes, node.source = node.canonical) ∧
    demand mapDefinitions [] " Map< integer#int32,User [][] >" = .ok (some mapInstance) ∧
    demand mapDefinitions mapDefinitions "Map<integer#int32,User[][]>[]" = .ok (some mapInstance) ∧
    ∃ template ∈ mapDefinitions, ∃ args : List TypeExpr,
      parse mapInstance.definition.name =
        .ok (.object mapInstance.definition.name template.name args) ∧
      mapInstance.args = args.map canonical := by
  have valid : spacedMap.Valid := by
    have key : (TypeExpr.Layout.leaf ⟨[' '], [], []⟩ (.tagged .integer "int32")).Valid :=
      .leaf ⟨TypeExpr.Layout.blank_space, by simp, Text.Blank.nil⟩ (show _ = true by decide)
    have value : (TypeExpr.Layout.leaf ⟨[], [[' '], []], [' ']⟩ (.named "User")).Valid := by
      refine .leaf ⟨Text.Blank.nil, ?_, TypeExpr.Layout.blank_space⟩ (show _ = true by decide)
      simp [TypeExpr.Layout.blank_space, Text.Blank.nil]
    refine .applied ⟨TypeExpr.Layout.blank_space, by simp, Text.Blank.nil⟩ (by decide) (by simp) ?_
    exact List.forall_mem_cons.mpr ⟨key, List.forall_mem_singleton.mpr value⟩
  have spelled : spacedMap.type.canonical = "Map<integer#int32, User[][]>" := by decide
  have asked : demand mapDefinitions [] " Map< integer#int32,User [][] >" =
      .ok (some mapInstance) := by
    decide +kernel
  have asked_too : demand mapDefinitions mapDefinitions "Map<integer#int32,User[][]>[]" =
      .ok (some mapInstance) := by
    decide +kernel
  obtain ⟨reads, -, names⟩ := canonical_faithful
  obtain ⟨again, reread, same, -, normal⟩ :=
    reads spacedMap.text spacedMap.type (TypeExpr.parse_eq_ok_iff.mpr valid.parse)
  rw [spelled] at reread
  obtain ⟨-, template, declared, args, read, texts, -⟩ :=
    names mapDefinitions _ _ _ _ _ _ (by decide) asked asked_too rfl
  exact ⟨⟨again, reread, same, normal⟩, asked, asked_too, template, declared, args, read, texts⟩

end ApiSchema
