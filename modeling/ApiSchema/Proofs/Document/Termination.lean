import ApiSchema.Proofs.Document.Failures
import ApiSchema.Proofs.Generic.Confinement
import Mathlib.Data.List.Perm.Subperm
import Mathlib.Data.List.Sections

set_option autoImplicit false

namespace ApiSchema

open TypeExpr (parse parseFragment canonical)

section Ends

variable {definitions : List Definition} {used : List Text} {instances : List Instance}

theorem Progress.names_nodup {state : Discovery}
    (progress : Progress definitions used instances state) :
    (instances.map fun inst => inst.definition.name).Nodup := by
  have names := progress.distinct
  rw [progress.emitted, List.map_append, List.nodup_append', List.map_map] at names
  exact names.2.1

/-- A run ends if the texts it looks at only ever ask for instances with names from a list, and the
instances for such texts again. The induction is on the number of names left, and then on the
pending texts. -/
theorem Progress.ends {names : List Text} {good : Text → Prop}
    (closed : ∀ emitted type inst, good type →
      demand definitions emitted type = .ok (some inst) →
        inst.definition.name ∈ names ∧ ∀ need ∈ inst.needs, good need)
    {state : Discovery} (progress : Progress definitions used instances state)
    (named : ∀ inst ∈ instances, inst.definition.name ∈ names)
    (fit : ∀ type ∈ state.pending, good type) :
    ∃ limit result, Discovery.run definitions limit state = some result := by
  induction room : names.length - instances.length using Nat.strongRecOn
    generalizing instances state with
  | ind room ih =>
      obtain ⟨emitted, pending⟩ := state
      induction pending with
      | nil => exact ⟨0, .ok emitted, Discovery.run_nil⟩
      | cons type rest rest_ih =>
          have others : ∀ other ∈ rest, good other :=
            fun other member => fit other (by simp [member])
          cases asked : demand definitions emitted type with
          | error error => exact ⟨1, .error error, Discovery.run_error asked⟩
          | ok asks =>
              cases asks with
              | none =>
                  obtain ⟨limit, result, ended⟩ := rest_ih (progress.skip asked) others
                  exact ⟨limit + 1, result, by rw [Discovery.run_none asked, ended]⟩
              | some inst =>
                  obtain ⟨name, needs⟩ := closed emitted type inst (fit type (by simp)) asked
                  have grown := progress.emit asked
                  have all_named :
                      ∀ other ∈ instances ++ [inst], other.definition.name ∈ names := by
                    intro other member
                    rcases List.mem_append.mp member with old | new
                    · exact named other old
                    · rwa [List.mem_singleton.mp new]
                  have subset : ((instances ++ [inst]).map fun other => other.definition.name) ⊆
                      names := by
                    intro other member
                    obtain ⟨from_inst, inside, rfl⟩ := List.mem_map.mp member
                    exact all_named from_inst inside
                  have bound := (grown.names_nodup.subperm subset).length_le
                  simp only [List.length_map, List.length_append, List.length_singleton] at bound
                  obtain ⟨limit, result, ended⟩ :=
                    ih (names.length - (instances ++ [inst]).length) (by simp; omega) grown
                      all_named (fun other member => (List.mem_append.mp member).elim (needs other)
                        (others other)) rfl
                  exact ⟨limit + 1, result, by rw [Discovery.run_some asked, ended]⟩

end Ends

/-- The names of the instances of a definition whose arguments are among `known`. -/
def Definition.instanceNames (known : List Text) (definition : Definition) : List Text :=
  (List.replicate definition.params.length known).sections.map fun texts =>
    definition.name ++ TypeExpr.bracketed texts

theorem mem_sections_replicate {known texts : List Text} (inStock : texts ⊆ known) :
    texts ∈ (List.replicate texts.length known).sections := by
  induction texts with
  | nil => simp
  | cons text texts ih =>
      rw [List.mem_sections, List.length_cons, List.replicate_succ]
      refine .cons (inStock (by simp)) ?_
      exact List.mem_sections.mp (ih fun other member => inStock (by simp [member]))

theorem Definition.mem_instanceNames {known texts : List Text} {definition : Definition}
    (arity : texts.length = definition.params.length) (inStock : texts ⊆ known) :
    definition.name ++ TypeExpr.bracketed texts ∈ definition.instanceNames known := by
  rw [instanceNames, ← arity]
  exact List.mem_map_of_mem (mem_sections_replicate inStock)

/-- The node is none of these names with arguments, and each of its own arguments is one of the
names or holds none of them. -/
def TypeExpr.isSteady (names : List Text) (node : TypeExpr) : Bool :=
  node.isUnapplied names &&
    match node with
    | .object _ _ args => args.all fun arg => arg.isOneOf names || arg.isFreeOf names
    | _ => true

theorem TypeExpr.isSteady_object {names : List Text} {source name : Text} {args : List TypeExpr}
    (steady : (TypeExpr.object source name args).isSteady names = true) :
    (args ≠ [] → name ∉ names) ∧
      ∀ arg ∈ args, arg.isOneOf names = true ∨ arg.isFreeOf names = true := by
  simp only [isSteady, isUnapplied, Bool.and_eq_true, Bool.or_eq_true, List.all_eq_true] at steady
  refine ⟨fun filled => ?_, steady.2⟩
  rcases steady.1 with empty | apart
  · exact absurd (List.isEmpty_iff.mp empty) filled
  · simpa using apart

/-- No property type applies a parameter to arguments, and every argument in it, at any depth, is
just a parameter or holds no parameter. -/
def Definition.IsSteady (definition : Definition) : Prop :=
  ∀ property ∈ definition.properties, ∀ expr, parse property.type = .ok expr →
    ∀ node ∈ expr.nodes, node.isSteady definition.bareParams = true

instance (definition : Definition) : Decidable definition.IsSteady :=
  decidable_of_iff
    (∀ property ∈ definition.properties,
      ((parse property.type).map fun expr =>
        expr.nodes.all (TypeExpr.isSteady definition.bareParams)) ≠ .ok false) <| by
    refine forall₂_congr fun property _ => ?_
    cases parse property.type with
    | error error => simp [Except.map]
    | ok expr => simp [Except.map]

/-- All arguments, at any depth, in a text that is a type expression. -/
def argumentStock (type : Text) : List Text :=
  match parse type with
  | .ok expr => expr.argumentTexts
  | .error _ => []

/-- All arguments in the types in use and in the templates. -/
def stock (definitions : List Definition) (used : List Text) : List Text :=
  used.flatMap argumentStock ++
    definitions.flatMap fun definition =>
      definition.properties.flatMap fun property => argumentStock property.type

/-- A text without marks in which, if it can be read, all arguments are known. -/
structure Confined (known : List Text) (type : Text) : Prop where
  unmarked : Unmarked type
  within : ∀ expr, parse type = .ok expr → expr.argumentTexts ⊆ known

/-- The property types of an instance with known arguments are confined. -/
theorem confined_written {definition ready : Definition} {known : List Text} {args : List TypeExpr}
    (done : definition.prepare = .ok ready)
    (plain : ∀ property ∈ definition.properties, Unmarked property.type)
    (steady : definition.IsSteady)
    (declared : ∀ property ∈ definition.properties, argumentStock property.type ⊆ known)
    (arity : args.length = ready.params.length) (arguments : ∀ arg ∈ args, arg.IsArgument)
    (from_stock : ∀ arg ∈ args, arg.canonical ∈ known ∧ arg.argumentTexts ⊆ known)
    {property : Property} (field : property ∈ definition.properties) :
    Confined known (definition.writtenType args property.type) := by
  obtain ⟨before, read⟩ := Definition.prepare_readable done field
  rw [Generic.bareType_unmarked (plain property field)] at read
  have nodes : ∀ source name given, TypeExpr.object source name given ∈ before.nodes →
      (given ≠ [] → name ∉ definition.bareParams) ∧ ∀ arg ∈ given,
        arg.isOneOf definition.bareParams = true ∨ arg.isFreeOf definition.bareParams = true :=
    fun source name given node =>
      TypeExpr.isSteady_object (steady property field before read _ node)
  refine ⟨definition.written_unmarked done (Definition.markedInPlace_of_types plain) arity
    arguments field, fun after parsed => ?_⟩
  refine Generic.substituted_arguments (Definition.prepare_params done).2
    (Definition.prepare_arity done arity) ?_ (fun arg member => (arguments arg member).unmarked)
    (plain property field) (TypeExpr.parse_eq_ok_iff.mp read)
    (fun source name given node => (nodes source name given node).1) ?_ from_stock
    (TypeExpr.parse_eq_ok_iff.mp parsed)
  · intro arg member
    obtain ⟨text, known⟩ := (arguments arg member).readable
    exact ⟨text, TypeExpr.parse_eq_ok_iff.mp known⟩
  · intro source name given node arg member
    refine ((nodes source name given node).2 arg member).imp_right fun free => ⟨free, ?_⟩
    have stocked := declared property field
    rw [argumentStock, read] at stocked
    exact stocked (TypeExpr.mem_argumentTexts node member)

section Prepared

variable {definitions prepared : List Definition} {known : List Text}
  (done : definitions.map Definition.prepare = prepared.map .ok)
  (plain : ∀ definition ∈ definitions, ∀ property ∈ definition.properties, Unmarked property.type)
  (steady : ∀ definition ∈ definitions, definition.IsSteady)
  (declared : ∀ definition ∈ definitions, ∀ property ∈ definition.properties,
    argumentStock property.type ⊆ known)
include done plain steady declared

/-- A confined text asks for an instance with known arguments, and what this needs is confined. -/
theorem Confined.closed {emitted : List Definition} {type : Text} {inst : Instance}
    (confined : Confined known type) (asks : demand prepared emitted type = .ok (some inst)) :
    inst.definition.name ∈ prepared.flatMap (Definition.instanceNames known) ∧
      ∀ need ∈ inst.needs, Confined known need := by
  obtain ⟨⟨ready, given, args, reread, named, -, arity, texts, instantiated⟩,
    ⟨expr, read, refers⟩, -⟩ := demand_some asks
  have read_fragment := TypeExpr.parse_eq_ok_iff.mp read
  have reread_fragment := TypeExpr.parse_eq_ok_iff.mp reread
  have inside := List.Subset.trans
    (TypeExpr.reference_arguments read_fragment refers reread_fragment)
    (confined.within expr read)
  have unmarked := unmarked_argument (unmarked_reference confined.unmarked read refers) reread
  have readable : ∀ arg ∈ args, ∃ fragment, parseFragment fragment = .ok arg :=
    fun arg member => TypeExpr.argument_read reread_fragment member
  have from_stock : ∀ arg ∈ args, arg.canonical ∈ known ∧ arg.argumentTexts ⊆ known := by
    intro arg member
    refine ⟨inside (TypeExpr.mem_argumentTexts_object.mpr ⟨arg, member, Or.inl rfl⟩), ?_⟩
    exact fun text deeper =>
      inside (TypeExpr.mem_argumentTexts_object.mpr ⟨arg, member, Or.inr deeper⟩)
  have all_known : args.map canonical ⊆ known := by
    intro text member
    obtain ⟨arg, inside, rfl⟩ := List.mem_map.mp member
    exact (from_stock arg inside).1
  constructor
  · rw [named]
    exact List.mem_flatMap.mpr
      ⟨ready, given, Definition.mem_instanceNames (by simpa using arity) all_known⟩
  · intro need needed
    rcases List.mem_append.mp needed with property | argument
    · obtain ⟨definition, authored, prepares⟩ := Definition.exists_authored done given
      rw [instantiated, texts, Definition.instantiate_properties prepares, List.map_map] at property
      obtain ⟨field, member, rfl⟩ := List.mem_map.mp property
      have arguments : ∀ arg ∈ args, arg.IsArgument := by
        intro arg member
        obtain ⟨fragment, known⟩ := readable arg member
        exact ⟨⟨fragment, TypeExpr.parse_eq_ok_iff.mpr known⟩, unmarked arg member⟩
      exact confined_written prepares (plain definition authored) (steady definition authored)
        (declared definition authored) arity arguments from_stock member
    · rw [texts] at argument
      obtain ⟨arg, member, rfl⟩ := List.mem_map.mp argument
      obtain ⟨fragment, known⟩ := readable arg member
      refine ⟨unmarked arg member, fun again parsed => ?_⟩
      exact List.Subset.trans
        (TypeExpr.canonical_arguments known (TypeExpr.parse_eq_ok_iff.mp parsed))
        (from_stock arg member).2

end Prepared

/-- Discovery ends, well or with an error, for prepared definitions whose templates do not grow,
whatever types are in use, if none of the types holds a mark. -/
theorem discover_ends {definitions prepared : List Definition} {used : List Text}
    (done : definitions.mapM Definition.prepare = .ok prepared)
    (plain : ∀ definition ∈ definitions, ∀ property ∈ definition.properties, Unmarked property.type)
    (steady : ∀ definition ∈ definitions, definition.IsSteady)
    (plain_used : ∀ type ∈ used, Unmarked type) :
    ∃ limit result, discover limit prepared used = some result := by
  cases repeated : firstRepeated? [] (prepared.map (·.name)) with
  | some name =>
      exact ⟨0, .error (.duplicateDefinition name), by rw [discover, repeated]⟩
  | none =>
      have distinct := (firstRepeated?_eq_none repeated).1
      have declared : ∀ definition ∈ definitions, ∀ property ∈ definition.properties,
          argumentStock property.type ⊆ stock definitions used := by
        intro definition member property field text inside
        refine List.mem_append_right _ (List.mem_flatMap.mpr ⟨definition, member, ?_⟩)
        exact List.mem_flatMap.mpr ⟨property, field, inside⟩
      have fit : ∀ type ∈ used, Confined (stock definitions used) type := by
        intro type member
        refine ⟨plain_used type member, fun expr read text inside => ?_⟩
        refine List.mem_append_left _ (List.mem_flatMap.mpr ⟨type, member, ?_⟩)
        rwa [argumentStock, read]
      obtain ⟨limit, result, ended⟩ := (Progress.start distinct).ends
        (fun emitted type inst good asks =>
          good.closed (Generic.mapM_eq_ok_iff.mp done) plain steady declared asks)
        (by simp) fit
      exact ⟨limit, result, by rw [discover, repeated]; exact ended⟩

/-- Nodes that lead to nodes, pairs that lead to pairs the other way round, and two definitions that
lead to each other. -/
def cyclicDefinitions : List Definition :=
  [{ name := "User" },
    { name := "Node", params := ["T"],
      properties := [{ name := "items", type := "T[]" }, { name := "next", type := "Node< T >" }] },
    { name := "Pair", params := ["L", "R"],
      properties := [{ name := "swapped", type := "Pair<R,L>" }] },
    { name := "Even", params := ["T"],
      properties := [{ name := "odd", type := "Odd<T,User[]>[]" }] },
    { name := "Odd", params := ["T", "U"],
      properties :=
        [{ name := "even", type := "Even<U>" }, { name := "node", type := "Node<T>" }] }]

def cyclicPrepared : List Definition :=
  [{ name := "User" },
    { name := "Node", params := ["«T»"],
      properties :=
        [{ name := "items", type := "«T»[]" }, { name := "next", type := "Node< «T» >" }] },
    { name := "Pair", params := ["«L»", "«R»"],
      properties := [{ name := "swapped", type := "Pair<«R», «L»>" }] },
    { name := "Even", params := ["«T»"],
      properties := [{ name := "odd", type := "Odd<«T», User[]>[]" }] },
    { name := "Odd", params := ["«T»", "«U»"],
      properties :=
        [{ name := "even", type := "Even<«U»>" }, { name := "node", type := "Node<«T»>" }] }]

theorem discover_ends_cycles :
    cyclicDefinitions.mapM Definition.prepare = .ok cyclicPrepared ∧
      ∃ limit result,
        discover limit cyclicPrepared ["Pair<Node<User>, Even<integer>[]>"] = some result := by
  have done : cyclicDefinitions.mapM Definition.prepare = .ok cyclicPrepared := by decide +kernel
  have plain : ∀ definition ∈ cyclicDefinitions, ∀ property ∈ definition.properties,
      Unmarked property.type := by
    decide
  have steady : ∀ definition ∈ cyclicDefinitions, definition.IsSteady := by decide +kernel
  exact ⟨done, discover_ends done plain steady (by decide)⟩

end ApiSchema
