import ApiSchema.Proofs.Generic.Substitution
import Mathlib.Control.Monad.Basic

set_option autoImplicit false

namespace ApiSchema

open TypeExpr (parse parseFragment canonical isTypeName argumentFor?)
open Generic (mark markOpen markClose substitute markedType bareName bareType spaceCommas)

namespace Generic

theorem bareName_unmarked {name : Text} (plain : Unmarked name) : bareName name = name := by
  have unopened : Text.stripStart? [markOpen] name = none := by
    cases found : Text.stripStart? [markOpen] name with
    | none => rfl
    | some rest =>
        refine absurd ?_ plain.1
        rw [Text.stripStart?_eq_some_iff.mp found]
        simp
  simp [bareName, unmark?, unopened]

theorem bareType_unmarked {params : List Text} {type : Text} (plain : Unmarked type) :
    bareType params type = type := by
  rw [bareType]
  induction params with
  | nil => rfl
  | cons param params ih => rw [List.foldl_cons, replace_of_unmarked plain.1, ih]

end Generic

theorem unmarked_trim {type : Text} (plain : Unmarked type) : Unmarked (Text.trim type) := by
  obtain ⟨before, after, -, -, whole⟩ := Text.exists_margins type
  have inside : Text.trim type ⊆ type := by
    intro c member
    rw [whole]
    simp [member]
  exact ⟨fun member => plain.1 (inside member), fun member => plain.2 (inside member)⟩

theorem unmarked_reference {type name : Text} {expr : TypeExpr} (plain : Unmarked type)
    (read : parse type = .ok expr) (refers : expr.reference? = some name) : Unmarked name := by
  have read_fragment := TypeExpr.parse_eq_ok_iff.mp read
  exact ⟨fun member => plain.1 (TypeExpr.mem_reference read_fragment refers (by decide) member),
    fun member => plain.2 (TypeExpr.mem_reference read_fragment refers (by decide) member)⟩

theorem unmarked_argument {full source name : Text} {args : List TypeExpr} (plain : Unmarked full)
    (read : parse full = .ok (.object source name args)) :
    ∀ arg ∈ args, Unmarked arg.canonical := by
  intro arg given
  have read_fragment := TypeExpr.parse_eq_ok_iff.mp read
  exact ⟨fun member => plain.1 (TypeExpr.mem_argument read_fragment given (by decide) member),
    fun member => plain.2 (TypeExpr.mem_argument read_fragment given (by decide) member)⟩

theorem unmarked_spaceCommas {type : Text} {expr : TypeExpr} (plain : Unmarked type)
    (read : parse type = .ok expr) : Unmarked (spaceCommas type) := by
  obtain ⟨layout, valid, rfl, -⟩ := TypeExpr.exists_layout (TypeExpr.parse_eq_ok_iff.mp read)
  have spaced : spaceCommas layout.text = layout.spaced.text :=
    valid.spaceCommas_render TypeExpr.legible_id
  have letters : ∀ c, Text.isBlank c = false → (c ∈ layout.spaced.text ↔ c ∈ layout.text) :=
    fun c solid => TypeExpr.Layout.mem_text_of_solid solid valid.spaced valid
      (TypeExpr.Layout.solid_spaced valid)
  rw [spaced]
  exact ⟨fun member => plain.1 ((letters markOpen (by decide)).mp member),
    fun member => plain.2 ((letters markClose (by decide)).mp member)⟩

/-- A definition with no mark in its types and parameters. -/
structure Definition.Unmarked (definition : Definition) : Prop where
  types : ∀ property ∈ definition.properties, ApiSchema.Unmarked property.type
  params : ∀ param ∈ definition.params, ApiSchema.Unmarked param

instance (definition : Definition) : Decidable definition.Unmarked :=
  decidable_of_iff
    ((∀ property ∈ definition.properties, ApiSchema.Unmarked property.type) ∧
      ∀ param ∈ definition.params, ApiSchema.Unmarked param)
    ⟨fun both => ⟨both.1, both.2⟩, fun plain => ⟨plain.types, plain.params⟩⟩

theorem Definition.Unmarked.map_bareName {definition : Definition} (plain : definition.Unmarked) :
    definition.params.map bareName = definition.params := by
  conv_rhs => rw [← List.map_id definition.params]
  exact List.map_congr_left fun param member =>
    Generic.bareName_unmarked (plain.params param member)

/-- The node is not one of the names with arguments. -/
def TypeExpr.isUnapplied (names : List Text) : TypeExpr → Bool
  | .object _ name args => args.isEmpty || !names.contains name
  | _ => true

theorem TypeExpr.all_isUnapplied_iff {names : List Text} {nodes : List TypeExpr} :
    (∀ node ∈ nodes, node.isUnapplied names = true) ↔ ∀ source name args,
      TypeExpr.object source name args ∈ nodes → args ≠ [] → name ∉ names := by
  constructor
  · intro all source name args node filled
    have fit := all _ node
    rw [isUnapplied, List.isEmpty_eq_false_iff.mpr filled] at fit
    simpa using fit
  · intro unapplied node member
    cases node with
    | primitive source base format => rfl
    | array source item => rfl
    | object source name args =>
        cases args with
        | nil => rfl
        | cons first rest =>
            have apart := unapplied source name (first :: rest) member (by simp)
            simpa [isUnapplied] using apart

/-- No property type applies a parameter of the definition to arguments. -/
def Definition.ParamsUnapplied (definition : Definition) : Prop :=
  ∀ property ∈ definition.properties, ∀ expr, parse property.type = .ok expr →
    ∀ source name args, TypeExpr.object source name args ∈ expr.nodes → args ≠ [] →
      name ∉ definition.params

instance (definition : Definition) : Decidable definition.ParamsUnapplied :=
  decidable_of_iff
    (∀ property ∈ definition.properties,
      ((parse property.type).map fun expr =>
        expr.nodes.all (TypeExpr.isUnapplied definition.params)) ≠ .ok false) <| by
    refine forall₂_congr fun property _ => ?_
    cases parse property.type with
    | error error => simp [Except.map]
    | ok expr =>
        simpa [Except.map] using TypeExpr.all_isUnapplied_iff

/-- What is prepared from a definition without marks. -/
theorem Definition.Unmarked.prepare {definition prepared : Definition} (plain : definition.Unmarked)
    (done : definition.prepare = .ok prepared) :
    (∀ param ∈ definition.params.eraseDups, isTypeName param = true) ∧
      (∀ property ∈ definition.properties, ∃ expr, parse property.type = .ok expr) ∧
      prepared = { definition.mapTypes (markedType definition.params.eraseDups) with
        params := definition.params.eraseDups.map mark } := by
  obtain ⟨params, same, words, checked, -, rfl⟩ := Definition.prepareWith_eq_ok done
  rw [plain.map_bareName] at same
  subst same
  refine ⟨words, ?_, rfl⟩
  intro property member
  have fit := checked property member
  rw [Generic.bareType_unmarked (plain.types property member)] at fit
  obtain ⟨expr, read⟩ := TypeExpr.parse_of_checkFragment fit
  exact ⟨expr, TypeExpr.parse_eq_ok_iff.mpr read⟩

/-- A property as written out for a property as authored: the type is read as the authored tree with
the arguments' trees in the place of the parameters. -/
def Filled (params : List Text) (args : List TypeExpr) (authored written : Property) : Prop :=
  ∃ before after, parse authored.type = .ok before ∧ parse written.type = .ok after ∧
    after.unsourced = (before.replaceNames (argumentFor? params args)).unsourced

section Instances

variable {authored ready : Definition} {args : List TypeExpr}

theorem template_arity (plain : authored.Unmarked) (done : authored.prepare = .ok ready)
    (arity : args.length = ready.params.length) :
    args.length = authored.params.eraseDups.length := by
  obtain ⟨-, -, same⟩ := plain.prepare done
  rw [arity, same]
  exact List.length_map mark

/-- The types of an instance are those of the authored definition, filled. -/
theorem instantiate_filled (plain : authored.Unmarked) (unapplied : authored.ParamsUnapplied)
    (done : authored.prepare = .ok ready) (arity : args.length = ready.params.length)
    (readable : ∀ arg ∈ args, ∃ fragment, parseFragment fragment = .ok arg)
    (unmarked : ∀ arg ∈ args, Unmarked arg.canonical) (name : Text) :
    List.Forall₂ (Filled authored.params.eraseDups args) authored.properties
      (ready.instantiate name (args.map canonical)).properties := by
  have size := template_arity plain done arity
  obtain ⟨words, read_all, same⟩ := plain.prepare done
  subst same
  simp only [Definition.instantiate, Definition.mapTypes, List.map_map]
  rw [List.forall₂_map_right_iff, List.forall₂_same]
  intro property field
  obtain ⟨before, read⟩ := read_all property field
  have apart : ∀ source name given, TypeExpr.object source name given ∈ before.nodes →
      given ≠ [] → name ∉ authored.params.eraseDups := by
    intro source name given node filled member
    exact unapplied property field before read source name given node filled
      (List.mem_eraseDups.mp member)
  obtain ⟨after, read_after, tree⟩ := Generic.substituted_read words size readable unmarked
    (plain.types property field) (TypeExpr.parse_eq_ok_iff.mp read) apart
  exact ⟨before, after, read, TypeExpr.parse_eq_ok_iff.mpr read_after, tree⟩

theorem instantiate_unmarked (plain : authored.Unmarked) (done : authored.prepare = .ok ready)
    (arity : args.length = ready.params.length) (unmarked : ∀ arg ∈ args, Unmarked arg.canonical)
    {property : Property} (field : property ∈ ready.properties) :
    Unmarked (substitute ready.params (args.map canonical) property.type) := by
  have size := template_arity plain done arity
  obtain ⟨words, read_all, same⟩ := plain.prepare done
  subst same
  obtain ⟨source, declared, rfl⟩ := List.mem_map.mp field
  obtain ⟨before, read⟩ := read_all source declared
  exact Generic.substituted_unmarked words size unmarked (plain.types source declared)
    (TypeExpr.parse_eq_ok_iff.mp read)

/-- The types of a definition without parameters, as they are written out. -/
theorem spaced_unmarked (plain : authored.Unmarked) (done : authored.prepare = .ok ready)
    {property : Property} (field : property ∈ (authored.mapTypes spaceCommas).properties) :
    Unmarked property.type := by
  obtain ⟨-, read_all, -⟩ := plain.prepare done
  obtain ⟨source, declared, rfl⟩ := List.mem_map.mp field
  obtain ⟨expr, read⟩ := read_all source declared
  exact unmarked_spaceCommas (plain.types source declared) read

end Instances

/-- A document with no mark in its types and declared parameters. -/
structure Document.Unmarked (document : Document) : Prop where
  operations : ∀ operation ∈ document.operations, ∀ type ∈ operation.types, ApiSchema.Unmarked type
  definitions : ∀ definition ∈ document.definitions, definition.Unmarked

theorem Document.Unmarked.used {document : Document} (plain : document.Unmarked) :
    ∀ type ∈ document.usedTypes, ApiSchema.Unmarked type := by
  intro type member
  obtain ⟨source, used, rfl⟩ := List.mem_map.mp (List.mem_eraseDups.mp member)
  apply unmarked_trim
  rcases List.mem_append.mp used with operation | property
  · obtain ⟨operation, declared, inside⟩ := List.mem_flatMap.mp operation
    exact plain.operations operation declared source inside
  · obtain ⟨definition, declared, inside⟩ := List.mem_flatMap.mp property
    obtain ⟨field, given, rfl⟩ := List.mem_map.mp inside
    exact (plain.definitions definition (List.mem_filter.mp declared).1).types field given

section Run

variable {definitions prepared : List Definition} {used : List Text} {instances : List Instance}
  {out : List Definition}

/-- No required name holds a mark. An instance that is required has as many arguments as its
template has parameters, so that none of these is left in its types. -/
theorem required_unmarked (progress : Progress prepared used instances ⟨out, []⟩)
    (distinct : (prepared.map (·.name)).Nodup)
    (done : definitions.map Definition.prepare = prepared.map .ok)
    (plain : ∀ definition ∈ definitions, definition.Unmarked)
    (plain_used : ∀ type ∈ used, Unmarked type) {name : Text}
    (required : Required prepared used name) : Unmarked name := by
  induction required with
  | used inUse requires =>
      obtain ⟨expr, read, refers, -⟩ := requires
      exact unmarked_reference (plain_used _ inUse) read refers
  | @property full source name args template property required instanceOf declared field requires
      ih =>
      obtain ⟨expr, read, refers, -⟩ := requires
      obtain ⟨inst, member, rfl⟩ := progress.complete distinct required
      obtain ⟨base, known, nodes, reread, -, -, arity, -⟩ := progress.made inst member
      rw [instanceOf, Except.ok.injEq, TypeExpr.object.injEq] at reread
      obtain ⟨-, sameName, rfl⟩ := reread
      have same := eq_of_name_eq distinct declared known sameName
      subst same
      obtain ⟨authored, given, prepares⟩ := Definition.exists_authored done declared
      have free := instantiate_unmarked (plain authored given) prepares arity
        (unmarked_argument ih instanceOf) field
      exact unmarked_reference free read refers
  | argument required instanceOf given requires ih =>
      obtain ⟨expr, read, refers, -⟩ := requires
      exact unmarked_reference (unmarked_argument ih instanceOf _ given) read refers

end Run

namespace Document

/-- In a document that resolves, and that holds no mark and applies no parameter to arguments, every
entry behind those without parameters is an instance: its types are the authored types of a
definition with the arguments that its name says in the place of the parameters, and no mark is left
in them or in its name. The entries before keep their names, and their types hold no mark. -/
theorem resolve_substitutes {limit : Nat} {document : Document} {out : List Definition}
    (plain : document.Unmarked)
    (unapplied : ∀ definition ∈ document.definitions, definition.ParamsUnapplied)
    (resolved : document.resolve limit = some (.ok out)) :
    ∃ instances : List Definition,
      out = (document.definitions.filter fun definition => !definition.isGeneric).map
          (·.mapTypes spaceCommas) ++ instances ∧
      (∀ inst ∈ instances, ∃ template ∈ document.definitions, ∃ args : List TypeExpr,
        parse inst.name = .ok (.object inst.name template.name args) ∧
        inst.name = template.name ++ TypeExpr.bracketed (args.map canonical) ∧
        args ≠ [] ∧ args.length = template.params.eraseDups.length ∧
        List.Forall₂ (Filled template.params.eraseDups args) template.properties
          inst.properties) ∧
      (∀ inst ∈ instances, ApiSchema.Unmarked inst.name) ∧
      ∀ definition ∈ out, ∀ property ∈ definition.properties, ApiSchema.Unmarked property.type := by
  obtain ⟨prepared, done, finished⟩ := resolve_eq_ok resolved
  obtain ⟨distinct, instances, progress⟩ := discover_progress finished
  have written : out = (plainDefinitions document.definitions).map (·.mapTypes spaceCommas) ++
      instances.map Instance.definition := by
    rw [← Definition.plainDefinitions_prepared done]
    exact progress.emitted
  have names : ∀ inst ∈ instances, ApiSchema.Unmarked inst.definition.name := fun inst member =>
    required_unmarked progress distinct done plain.definitions plain.used
      (progress.required inst member)
  refine ⟨instances.map Instance.definition, written, ?_, ?_, ?_⟩
  · intro definition member
    obtain ⟨inst, made, rfl⟩ := List.mem_map.mp member
    obtain ⟨ready, declared, args, read, named, some_arg, arity, texts, instantiated⟩ :=
      progress.made inst made
    obtain ⟨authored, given, prepares⟩ := Definition.exists_authored done declared
    have template_plain := plain.definitions authored given
    have free := unmarked_argument (names inst made) read
    have readable : ∀ arg ∈ args, ∃ fragment, parseFragment fragment = .ok arg :=
      fun arg given => TypeExpr.argument_read (TypeExpr.parse_eq_ok_iff.mp read) given
    rw [Definition.prepare_name prepares] at read named
    refine ⟨authored, given, args, read, named, some_arg,
      template_arity template_plain prepares arity, ?_⟩
    rw [instantiated, texts]
    exact instantiate_filled template_plain (unapplied authored given) prepares arity readable
      free _
  · intro definition member
    obtain ⟨inst, made, rfl⟩ := List.mem_map.mp member
    exact names inst made
  · intro definition member property field
    rw [written] at member
    rcases List.mem_append.mp member with old | new
    · obtain ⟨authored, declared, rfl⟩ := List.mem_map.mp old
      have given := (mem_plainDefinitions.mp declared).1
      obtain ⟨ready, -, prepares⟩ := Definition.exists_prepared done given
      exact spaced_unmarked (plain.definitions authored given) prepares field
    · obtain ⟨inst, made, rfl⟩ := List.mem_map.mp new
      obtain ⟨ready, declared, args, read, -, -, arity, texts, instantiated⟩ :=
        progress.made inst made
      obtain ⟨authored, given, prepares⟩ := Definition.exists_authored done declared
      rw [instantiated, texts] at field
      obtain ⟨source, inside, rfl⟩ := List.mem_map.mp field
      exact instantiate_unmarked (plain.definitions authored given) prepares arity
        (unmarked_argument (names inst made) read) inside

/-- A pair of anything, with a pair the other way round; a parameter is declared twice, and there
are types named like the parameters. -/
def swappedPairs : Document :=
  { title := "Pairs", version := "1",
    operations :=
      [{ id := "get", method := .get, path := "/pair",
         responses := [{ status := 200, type := some "Pair<R[], L>" }] }],
    definitions :=
      [{ name := "L" }, { name := "R" },
        { name := "Pair", params := ["L", "R", "L"],
          properties :=
            [{ name := "first", type := "L[]" }, { name := "both", type := "Pair<R,L>" }] }] }

def pairEntry : Definition :=
  { name := "Pair<R[], L>",
    properties :=
      [{ name := "first", type := "R[][]" }, { name := "both", type := "Pair<L, R[]>" }] }

def swappedPairsOut : List Definition :=
  [{ name := "L" }, { name := "R" }, pairEntry,
    { name := "Pair<L, R[]>",
      properties :=
        [{ name := "first", type := "L[]" }, { name := "both", type := "Pair<R[], L>" }] }]

theorem resolve_substitutes_pairs :
    swappedPairs.Unmarked ∧
      (∀ definition ∈ swappedPairs.definitions, definition.ParamsUnapplied) ∧
      swappedPairs.resolve 20 = some (.ok swappedPairsOut) ∧
      ∃ template ∈ swappedPairs.definitions, ∃ args : List TypeExpr,
        parse pairEntry.name = .ok (.object pairEntry.name template.name args) ∧
        List.Forall₂ (Filled template.params.eraseDups args) template.properties
          pairEntry.properties := by
  have plain : swappedPairs.Unmarked := ⟨by decide, by decide⟩
  have unapplied : ∀ definition ∈ swappedPairs.definitions, definition.ParamsUnapplied := by
    decide +kernel
  have resolved : swappedPairs.resolve 20 = some (.ok swappedPairsOut) := by decide +kernel
  obtain ⟨instances, written, filled, -, -⟩ := resolve_substitutes plain unapplied resolved
  have tail := congrArg (List.drop 2) written
  change swappedPairsOut.drop 2 = instances at tail
  obtain ⟨template, declared, args, read, -, -, -, types⟩ :=
    filled pairEntry (by rw [← tail]; exact List.mem_cons_self ..)
  exact ⟨plain, unapplied, resolved, template, declared, args, read, types⟩

/-- A definition with a mark in its name and nothing in it. -/
def markedName : Document :=
  { title := "Marked", version := "1", definitions := [{ name := "«A»" }] }

/-- The name of a definition without parameters is written out as authored, marks and all. -/
theorem resolve_keeps_marked_name :
    markedName.Unmarked ∧ (∀ definition ∈ markedName.definitions, definition.ParamsUnapplied) ∧
      ∃ out, markedName.resolve 1 = some (.ok out) ∧
        ¬ ∀ definition ∈ out, ApiSchema.Unmarked definition.name := by
  refine ⟨⟨by decide, by decide⟩, by decide +kernel, markedName.definitions, by decide +kernel, ?_⟩
  decide

end Document

end ApiSchema
