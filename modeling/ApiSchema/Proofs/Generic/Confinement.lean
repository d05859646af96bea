import ApiSchema.Proofs.Generic.Substitution

set_option autoImplicit false

namespace ApiSchema

open TypeExpr (parse parseFragment canonical isTypeName argumentFor? Layout)
open Generic (mark markOpen substitute markedType)

namespace TypeExpr

def ownArguments : TypeExpr → List Text
  | object _ _ args => args.map canonical
  | _ => []

def argumentTexts (type : TypeExpr) : List Text := type.nodes.flatMap ownArguments

/-- The type is one of these names, without arguments and in no array. -/
def isOneOf (names : List Text) : TypeExpr → Bool
  | object _ name args => args.isEmpty && names.contains name
  | _ => false

def isNamed (names : List Text) : TypeExpr → Bool
  | object _ name _ => names.contains name
  | _ => false

def isFreeOf (names : List Text) (type : TypeExpr) : Bool :=
  type.nodes.all fun node => !node.isNamed names

theorem isOneOf_iff {names : List Text} {type : TypeExpr} : type.isOneOf names = true ↔
    ∃ source name, type = object source name [] ∧ name ∈ names := by
  cases type with
  | primitive source base format => simp [isOneOf]
  | array source item => simp [isOneOf]
  | object source name args => cases args <;> simp [isOneOf]

theorem isFreeOf_iff {names : List Text} {type : TypeExpr} : type.isFreeOf names = true ↔
    ∀ source name args, object source name args ∈ type.nodes → name ∉ names := by
  rw [isFreeOf, List.all_eq_true]
  constructor
  · intro all source name args node
    simpa [isNamed] using all _ node
  · intro apart node member
    cases node with
    | primitive source base format => rfl
    | array source item => rfl
    | object source name args => simpa [isNamed] using apart source name args member

theorem argumentTexts_arrayType (core : Text) (item : TypeExpr) (gaps : List Text) :
    (arrayType core item gaps).argumentTexts = item.argumentTexts := by
  induction gaps with
  | nil => rfl
  | cons gap gaps ih => simpa [arrayType, argumentTexts, nodes, ownArguments] using ih

theorem mem_argumentTexts_object {source name text : Text} {args : List TypeExpr} :
    text ∈ (object source name args).argumentTexts ↔
      ∃ arg ∈ args, text = arg.canonical ∨ text ∈ arg.argumentTexts := by
  simp only [argumentTexts, nodes, List.flatMap_cons, ownArguments, List.mem_append, List.mem_map,
    List.mem_flatMap, mem_nodesAll]
  constructor
  · rintro (⟨arg, given, rfl⟩ | ⟨node, ⟨arg, given, inside⟩, member⟩)
    · exact ⟨arg, given, Or.inl rfl⟩
    · exact ⟨arg, given, Or.inr ⟨node, inside, member⟩⟩
  · rintro ⟨arg, given, rfl | ⟨node, inside, member⟩⟩
    · exact Or.inl ⟨arg, given, rfl⟩
    · exact Or.inr ⟨node, ⟨arg, given, inside⟩, member⟩

theorem mem_argumentTexts {type arg : TypeExpr} {source name : Text} {args : List TypeExpr}
    (node : object source name args ∈ type.nodes) (given : arg ∈ args) :
    arg.canonical ∈ type.argumentTexts :=
  List.mem_flatMap.mpr ⟨_, node, List.mem_map_of_mem given⟩

namespace Layout

theorem object_mem_applied {margins : Margins} {name source head : Text} {args : List Layout}
    {given : List TypeExpr} : object source head given ∈ (applied margins name args).type.nodes ↔
      object source head given = (applied margins name args).item ∨
        ∃ arg ∈ args, object source head given ∈ arg.type.nodes := by
  rw [type_eq, object_mem_arrayType, item, nodes, List.mem_cons, mem_nodesAll]
  simp only [List.mem_map, exists_exists_and_eq_and]

theorem argumentTexts_type (layout : Layout) :
    layout.type.argumentTexts = layout.item.argumentTexts := by
  rw [type_eq, argumentTexts_arrayType]

theorem argumentTexts_leaf (margins : Margins) (word : Word) :
    (leaf margins word).type.argumentTexts = [] := by
  rw [argumentTexts_type]
  cases word <;> rfl

theorem mem_argumentTexts_applied {margins : Margins} {name text : Text} {args : List Layout} :
    text ∈ (applied margins name args).type.argumentTexts ↔
      ∃ arg ∈ args, text = arg.type.canonical ∨ text ∈ arg.type.argumentTexts := by
  rw [argumentTexts_type, item, mem_argumentTexts_object]
  simp

/-- Blanks make no difference to the arguments. -/
theorem Valid.argumentTexts_solid {layout : Layout} (valid : layout.Valid) {text : Text} :
    text ∈ layout.solid.type.argumentTexts ↔ text ∈ layout.type.argumentTexts := by
  induction valid with
  | leaf => rw [Layout.solid, argumentTexts_leaf, argumentTexts_leaf]
  | @applied margins name args _ _ _ valid ih =>
      rw [Layout.solid, mem_argumentTexts_applied, mem_argumentTexts_applied, solidAll_eq_map]
      simp only [List.mem_map, exists_exists_and_eq_and]
      refine exists_congr fun arg => and_congr_right fun given => ?_
      rw [(valid arg given).canonical_solid, ih arg given]

theorem argumentTexts_of_solid {first second : Layout} (valid : first.Valid)
    (other : second.Valid) (same : first.solid = second.solid) :
    first.type.argumentTexts ⊆ second.type.argumentTexts := by
  intro text member
  rwa [← other.argumentTexts_solid, ← same, valid.argumentTexts_solid]

section Fill

variable {choose : Text → Option Layout}

/-- What is filled is filled alike with other blanks. -/
theorem Valid.solid_fill {layout : Layout} (valid : layout.Valid) :
    (layout.fill choose).solid = (layout.solid.fill choose).solid := by
  induction valid with
  | @leaf margins word _ _ =>
      cases word with
      | primitive base => simp [Layout.solid, Layout.fill]
      | tagged base format => simp [Layout.solid, Layout.fill]
      | named name =>
          rw [Layout.solid, Layout.fill, Layout.fill]
          cases choose name with
          | none => simp [Layout.solid]
          | some inner => cases inner <;> simp [Layout.within, Layout.solid, Margins.plain]
  | @applied margins name args _ _ _ _ ih =>
      have same : args.map (fun arg => (arg.fill choose).solid) =
          args.map fun arg => (arg.solid.fill choose).solid := List.map_congr_left ih
      simpa [Layout.solid, Layout.fill, Function.comp_def] using same

theorem Valid.solid_fill_spaced {layout : Layout} (valid : layout.Valid) :
    (layout.spaced.fill choose).solid = (layout.fill choose).solid := by
  rw [valid.spaced.solid_fill, solid_spaced valid, ← valid.solid_fill]

variable {params known : List Text}

/-- Where none of the names stands that have a choice, nothing is filled in. -/
theorem Valid.fill_free (others : ∀ name, name ∉ params → choose name = none) {layout : Layout}
    (valid : layout.Valid)
    (free : ∀ source name args, object source name args ∈ layout.type.nodes → name ∉ params) :
    layout.fill choose = layout := by
  induction valid with
  | @leaf margins word _ _ =>
      cases word with
      | primitive base => rfl
      | tagged base format => rfl
      | named name =>
          have apart : name ∉ params := by
            refine free name name [] ?_
            rw [type_eq, object_mem_arrayType]
            exact List.mem_cons_self ..
          rw [Layout.fill, others name apart]
  | @applied margins name args _ _ _ _ ih =>
      have same : args.map (Layout.fill choose) = args := by
        rw [← List.map_id args, List.map_map]
        exact List.map_congr_left fun arg given => ih arg given fun source head below member =>
          free source head below (object_mem_applied.mpr (Or.inr ⟨arg, given, member⟩))
      rw [Layout.fill, fillAll_eq_map, same]

/-- A layout that is just a parameter is filled with what is chosen for it. -/
theorem Valid.canonical_fill_one {layout inner : Layout} (valid : layout.Valid)
    {source name : Text} (one : layout.type = object source name [])
    (chosen : choose name = some inner) :
    (layout.fill choose).type.canonical = inner.type.canonical := by
  rw [type_eq] at one
  cases gaps : layout.margins.gaps with
  | cons gap more => rw [gaps] at one; cases one
  | nil =>
      rw [gaps] at one
      change layout.item = object source name [] at one
      cases valid with
      | @leaf margins word _ _ =>
          cases word with
          | primitive base => cases one
          | tagged base format => cases one
          | named other =>
              cases one
              change margins.gaps = [] at gaps
              rw [Layout.fill, chosen, canonical_type, canonical_type]
              simp [gaps]
      | applied _ _ some_arg =>
          simp only [item, object.injEq, List.map_eq_nil_iff] at one
          exact absurd one.2.2 some_arg

/-- Where each argument is a parameter or holds none, filling in makes no new arguments. -/
theorem Valid.argumentTexts_fill (others : ∀ name, name ∉ params → choose name = none)
    (stock : ∀ name ∈ params, ∃ inner, choose name = some inner ∧
      inner.type.canonical ∈ known ∧ inner.type.argumentTexts ⊆ known)
    {layout : Layout} (valid : layout.Valid)
    (steady : ∀ source name given, object source name given ∈ layout.type.nodes →
      ∀ arg ∈ given, arg.isOneOf params = true ∨
        (arg.isFreeOf params = true ∧ arg.canonical ∈ known)) :
    (layout.fill choose).type.argumentTexts ⊆ known := by
  induction valid with
  | @leaf margins word _ _ =>
      have nothing : (Layout.leaf margins word).type.argumentTexts ⊆ known := by
        rw [argumentTexts_leaf]
        exact List.nil_subset _
      cases word with
      | primitive base => exact nothing
      | tagged base format => exact nothing
      | named name =>
          rw [Layout.fill]
          by_cases member : name ∈ params
          · obtain ⟨inner, chosen, -, within⟩ := stock name member
            rw [chosen]
            rwa [argumentTexts_type, item_within, ← argumentTexts_type]
          · rwa [others name member]
  | @applied margins name args blank word some_arg valid ih =>
      intro text member
      rw [Layout.fill, fillAll_eq_map, mem_argumentTexts_applied] at member
      obtain ⟨filled, inside, rest⟩ := member
      obtain ⟨arg, given, rfl⟩ := List.mem_map.mp inside
      rcases rest with rfl | below
      · have whole := steady _ _ _ (object_mem_applied.mpr (Or.inl rfl)) arg.type
          (List.mem_map_of_mem given)
        rcases whole with one | ⟨free, inStock⟩
        · obtain ⟨source, param, same, declared⟩ := isOneOf_iff.mp one
          obtain ⟨inner, chosen, inStock, -⟩ := stock param declared
          rwa [(valid arg given).canonical_fill_one same chosen]
        · rwa [(valid arg given).fill_free others (isFreeOf_iff.mp free)]
      · exact ih arg given (fun source head inner member => steady source head inner
          (object_mem_applied.mpr (Or.inr ⟨arg, given, member⟩))) below

end Fill

end Layout

/-- The normal spelling of a type is read with the arguments of the type. -/
theorem canonical_arguments {fragment : Text} {type again : TypeExpr}
    (read : parseFragment fragment = .ok type) (reread : parseFragment type.canonical = .ok again) :
    again.argumentTexts ⊆ type.argumentTexts := by
  obtain ⟨layout, valid, -, rfl⟩ := exists_layout read
  rw [valid.parse_canonical, Except.ok.injEq] at reread
  rw [← reread]
  exact Layout.argumentTexts_of_solid (valid.plainAfter Text.Blank.nil) valid
    (Layout.solid_plainAfter valid [])

/-- So is the name that a type refers to. -/
theorem reference_arguments {fragment name : Text} {type again : TypeExpr}
    (read : parseFragment fragment = .ok type) (refers : type.reference? = some name)
    (reread : parseFragment name = .ok again) : again.argumentTexts ⊆ type.argumentTexts := by
  obtain ⟨layout, valid, -, rfl⟩ := exists_layout read
  have named : name = layout.inner.type.canonical := by
    rw [Layout.type_inner]
    rw [reference?] at refers
    split at refers
    · next source base args same =>
      rw [same]
      exact (Option.some.inj refers).symm
    · cases refers
  have inner := canonical_arguments valid.inner.parse (named ▸ reread)
  rwa [Layout.argumentTexts_type, Layout.inner, Layout.item_within,
    ← Layout.argumentTexts_type] at inner

end TypeExpr

namespace Generic

open TypeExpr

/-- Where each argument in a template is a parameter or holds none, the arguments in a property type
of an instance are from the stock that the instance's own arguments are from. -/
theorem substituted_arguments {params known : List Text} {args : List TypeExpr} {type : Text}
    (words : ∀ param ∈ params, isTypeName param = true) (arity : args.length = params.length)
    (readable : ∀ arg ∈ args, ∃ fragment, parseFragment fragment = .ok arg)
    (unmarked : ∀ arg ∈ args, Unmarked arg.canonical) (plain : Unmarked type)
    {before : TypeExpr} (read : parseFragment type = .ok before)
    (unapplied : ∀ source name given, object source name given ∈ before.nodes → given ≠ [] →
      name ∉ params)
    (steady : ∀ source name given, object source name given ∈ before.nodes →
      ∀ arg ∈ given, arg.isOneOf params = true ∨
        (arg.isFreeOf params = true ∧ arg.canonical ∈ known))
    (stock : ∀ arg ∈ args, arg.canonical ∈ known ∧ arg.argumentTexts ⊆ known)
    {after : TypeExpr} (read_after :
      parseFragment (substitute (params.map mark) (args.map canonical) (markedType params type)) =
        .ok after) : after.argumentTexts ⊆ known := by
  obtain ⟨layout, valid, rfl, rfl⟩ := exists_layout read
  obtain ⟨inners, valids, rfl⟩ := exists_args_layouts readable
  have fits := fits_plain params valids
  have filled := valid.spaced.fill fits
  rw [valid.substitute_fill words (by simpa using arity) valids
    (fun inner inside => (unmarked _ (List.mem_map_of_mem inside)).1) plain.1 unapplied,
    filled.parse, Except.ok.injEq] at read_after
  rw [← read_after]
  refine List.Subset.trans (Layout.argumentTexts_of_solid filled (valid.fill fits)
    valid.solid_fill_spaced) ?_
  refine valid.argumentTexts_fill (fun name absent => argumentFor?_of_not_mem _ absent) ?_ steady
  intro name member
  have size : (inners.map Layout.plain).length = params.length := by simpa using arity
  obtain ⟨layout, inside, chosen⟩ := argumentFor?_of_mem size member
  obtain ⟨inner, given, rfl⟩ := List.mem_map.mp inside
  have inner_valid := valids inner given
  have same := Layout.solid_plainAfter inner_valid []
  have plain_valid := inner_valid.plainAfter Text.Blank.nil
  obtain ⟨inStock, within⟩ := stock _ (List.mem_map_of_mem given)
  refine ⟨inner.plain, chosen, ?_, ?_⟩
  · rwa [Layout.plain, Layout.canonical_eq_of_solid plain_valid inner_valid same]
  · exact List.Subset.trans (Layout.argumentTexts_of_solid plain_valid inner_valid same) within

end Generic

end ApiSchema
