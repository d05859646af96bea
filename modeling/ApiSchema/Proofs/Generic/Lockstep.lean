import ApiSchema.Proofs.Generic.Preparation
import ApiSchema.Proofs.Generic.Demand
import ApiSchema.Proofs.Generic.Rewriting
import Mathlib.Data.List.Forall2

set_option autoImplicit false

namespace ApiSchema

open Text (Tight squeeze)
open TypeExpr (parse parseFragment isTypeName canonical Uncut Readable Respaced)
open Generic (mark substitute markedType)

/-- The error without the type expression at fault and what is wrong with it. -/
def SchemaError.untyped : SchemaError → SchemaError
  | invalidType _ _ => invalidType [] .empty
  | unknownType _ name => unknownType [] name
  | arityMismatch _ name expected found => arityMismatch [] name expected found
  | error => error

/-- Both fail, with errors that are the same but for the type expressions in them, or both succeed,
with related results. -/
inductive SameOutcome {α β : Type} (R : α → β → Prop) :
    Except SchemaError α → Except SchemaError β → Prop
  | failed {first second : SchemaError} (same : first.untyped = second.untyped) :
    SameOutcome R (.error first) (.error second)
  | done {first : α} {second : β} (related : R first second) :
    SameOutcome R (.ok first) (.ok second)

/-- Two processes that agree after each number of steps both end, with the same outcome, or
neither. -/
theorem ends_either {α β : Type} {R : α → β → Prop} {first : Nat → Option (Except SchemaError α)}
    {second : Nat → Option (Except SchemaError β)}
    (agree : ∀ limit, Option.Rel (SameOutcome R) (first limit) (second limit)) :
    (∃ limit result other, first limit = some result ∧ second limit = some other ∧
        SameOutcome R result other) ∨
      ∀ limit, first limit = none ∧ second limit = none := by
  by_cases ended : ∃ limit result, first limit = some result
  · obtain ⟨limit, result, ended⟩ := ended
    have pair := agree limit
    rw [ended] at pair
    generalize ended_too : second limit = outcome at pair
    obtain related | - := pair
    exact Or.inl ⟨limit, _, _, ended, ended_too, related⟩
  · refine Or.inr fun limit => ?_
    have pair := agree limit
    cases here : first limit with
    | some result => exact absurd ⟨limit, result, here⟩ ended
    | none =>
        rw [here] at pair
        generalize there : second limit = outcome at pair
        cases pair
        exact ⟨rfl, rfl⟩

theorem mapM_outcome {α β γ δ : Type} {R : γ → δ → Prop} {f : α → Except SchemaError γ}
    {g : β → Except SchemaError δ} {left : List α} {right : List β}
    (related : List.Forall₂ (fun x y => SameOutcome R (f x) (g y)) left right) :
    SameOutcome (List.Forall₂ R) (left.mapM f) (right.mapM g) := by
  induction related with
  | nil => exact .done .nil
  | @cons x y left right pair _ ih =>
      rw [List.mapM_cons, List.mapM_cons]
      generalize f x = first at pair ⊢
      generalize g y = second at pair ⊢
      generalize left.mapM f = rest at ih ⊢
      generalize right.mapM g = others at ih ⊢
      cases pair with
      | failed same => exact .failed same
      | done head =>
          cases ih with
          | failed same => exact .failed same
          | done tail => exact .done (.cons head tail)

/-- What is known of each side holds of the pairs. -/
theorem forall₂_restrict {α β : Type} {R : α → β → Prop} {P : α → Prop} {Q : β → Prop}
    {left : List α} {right : List β} (related : List.Forall₂ R left right)
    (first : ∀ x ∈ left, P x) (second : ∀ y ∈ right, Q y) :
    List.Forall₂ (fun x y => P x ∧ Q y ∧ R x y) left right := by
  have flipped : List.Forall₂ (fun y x => Q y ∧ R x y) right left :=
    (List.forall₂_and_left _ _).mpr ⟨second, related.flip⟩
  exact (List.forall₂_and_left _ _).mpr ⟨first, flipped.flip⟩

structure Property.Alike (R : Text → Text → Prop) (first second : Property) : Prop where
  rest : { first with type := [] } = { second with type := [] }
  type : R first.type second.type

structure Definition.Alike (R : Text → Text → Prop) (first second : Definition) : Prop where
  name : first.name = second.name
  description : first.description = second.description
  params : first.params = second.params
  properties : List.Forall₂ (Property.Alike R) first.properties second.properties

namespace Definition

variable {R S : Text → Text → Prop} {first second : Definition}

theorem Alike.imp (alike : first.Alike R second)
    (implies : ∀ text other, R text other → S text other) : first.Alike S second where
  name := alike.name
  description := alike.description
  params := alike.params
  properties := alike.properties.imp fun _ _ pair => ⟨pair.rest, implies _ _ pair.type⟩

theorem Alike.mapTypes {rewrite : Text → Text} (alike : first.Alike R second)
    (rewrites : ∀ text other, R text other → S (rewrite text) (rewrite other)) :
    (first.mapTypes rewrite).Alike S (second.mapTypes rewrite) where
  name := alike.name
  description := alike.description
  params := alike.params
  properties := by
    rw [Definition.mapTypes, Definition.mapTypes, List.forall₂_map_left_iff,
      List.forall₂_map_right_iff]
    exact alike.properties.imp fun _ _ pair => ⟨pair.rest, rewrites _ _ pair.type⟩

/-- Definitions that a rewriting of types makes equal are the same but for these types. -/
theorem mapTypes_eq_iff {rewrite : Text → Text} : first.mapTypes rewrite = second.mapTypes rewrite ↔
    first.Alike (fun text other => rewrite text = rewrite other) second := by
  have property : ∀ first second : Property, { first with type := rewrite first.type } =
      { second with type := rewrite second.type } ↔
        first.Alike (fun text other => rewrite text = rewrite other) second := by
    intro first second
    constructor
    · intro same
      simp only [Property.mk.injEq] at same
      obtain ⟨name, type, required, description, facets⟩ := same
      exact ⟨by rw [name, required, description, facets], type⟩
    · rintro ⟨rest, type⟩
      simp only [Property.mk.injEq, true_and] at rest ⊢
      exact ⟨rest.1, type, rest.2⟩
  have properties : first.properties.map (fun property =>
        { property with type := rewrite property.type }) = second.properties.map (fun property =>
        { property with type := rewrite property.type }) ↔
      List.Forall₂ (Property.Alike fun text other => rewrite text = rewrite other)
        first.properties second.properties := by
    simp only [map_eq_map_iff, property]
  rw [mapTypes, mapTypes, mk.injEq, properties]
  constructor
  · rintro ⟨name, description, params, pairs⟩
    exact ⟨name, description, params, pairs⟩
  · rintro ⟨name, description, params, pairs⟩
    exact ⟨name, description, params, pairs⟩

theorem Alike.isGeneric (alike : first.Alike R second) : first.isGeneric = second.isGeneric := by
  rw [Definition.isGeneric, Definition.isGeneric, alike.params]

theorem Alike.types (alike : first.Alike R second) :
    List.Forall₂ R (first.properties.map (·.type)) (second.properties.map (·.type)) := by
  rw [List.forall₂_map_left_iff, List.forall₂_map_right_iff]
  exact alike.properties.imp fun _ _ pair => pair.type

end Definition

section Definitions

variable {R : Definition → Definition → Prop} {definitions others : List Definition}
  (related : List.Forall₂ R definitions others)
include related

theorem names_eq (names : ∀ first second, R first second → first.name = second.name) :
    definitions.map (·.name) = others.map (·.name) :=
  map_eq_map_iff.mpr (related.imp names)

theorem plainDefinitions_related
    (generic : ∀ first second, R first second → first.isGeneric = second.isGeneric) :
    List.Forall₂ R (plainDefinitions definitions) (plainDefinitions others) := by
  refine List.rel_filter (fun first second pair => ?_) related
  simp [generic first second pair]

theorem find?_related (names : ∀ first second, R first second → first.name = second.name)
    (name : Text) : Option.Rel R (definitions.find? fun definition => definition.name = name)
      (others.find? fun definition => definition.name = name) := by
  induction related with
  | nil => exact .none
  | @cons first second rest more pair _ ih =>
      have same := names first second pair
      by_cases named : first.name = name
      · rw [List.find?_cons_of_pos (by simpa using named),
          List.find?_cons_of_pos (by simpa [← same] using named)]
        exact .some pair
      · rw [List.find?_cons_of_neg (by simpa using named),
          List.find?_cons_of_neg (by simpa [← same] using named)]
        exact ih

end Definitions

/-- The texts differ in blanks only whichever arguments are put in for the parameters. -/
def Interchangeable (params : List Text) (first second : Text) : Prop :=
  ∀ args : List Text, (∀ arg ∈ args, Tight arg ∧ Uncut 0 arg) →
    Respaced (substitute params args first) (substitute params args second)

theorem Interchangeable.respaced {params : List Text} {first second : Text}
    (pair : Interchangeable params first second) : Respaced first second := by
  have bare := pair [] (by simp)
  rwa [substitute, substitute, List.zip_nil_right] at bare

/-- The definitions are the same but for their types, which differ in blanks only whichever
arguments are put in. -/
def Definition.Parallel (first second : Definition) : Prop :=
  first.Alike (Interchangeable first.params) second

/-- Of two definitions whose types are type expressions and differ in blanks only, both are refused
for the same parameter, or both are prepared alike. -/
theorem prepare_parallel {first second : Definition}
    (alike : first.Alike (fun text other => squeeze text = squeeze other) second)
    (readable : ∀ property ∈ first.properties, Readable property.type)
    (also : ∀ property ∈ second.properties, Readable property.type) :
    SameOutcome Definition.Parallel first.prepare second.prepare := by
  rw [Definition.prepare, Definition.prepare, Definition.prepareWith, Definition.prepareWith,
    ← alike.name, ← alike.params]
  cases distinct : Generic.distinctParams first.name [] first.params with
  | error error => exact .failed rfl
  | ok params =>
      -- marks stand in formats only, so that the types pass their check without them as well
      have words := (Generic.distinctParams_eq_ok distinct).2
      have checks : ∀ definition : Definition,
          (∀ property ∈ definition.properties, Readable property.type) →
            Generic.checkTypes params definition.properties = .ok () := by
        intro definition readable
        refine Generic.checkTypes_ok fun property field => ?_
        exact TypeExpr.readable_iff.mp
          (TypeExpr.readable_bareType words (readable property field))
      simp only [checks first readable, checks second also]
      cases Generic.checkFinders Generic.finderRefusal? first.name params with
      | error error => exact .failed rfl
      | ok =>
          refine .done ⟨alike.name, alike.description, rfl, ?_⟩
          rw [Definition.mapTypes, Definition.mapTypes, List.forall₂_map_left_iff,
            List.forall₂_map_right_iff]
          refine (forall₂_restrict alike.properties readable also).imp ?_
          rintro property other ⟨read, read_too, rest, same⟩
          exact ⟨rest, fun args whole =>
            TypeExpr.respaced_substitute words whole same read read_too⟩

structure Instance.Alike (first second : Instance) : Prop where
  definition : first.definition.Alike Respaced second.definition
  args : first.args = second.args

theorem Instance.Alike.needs {first second : Instance} (alike : first.Alike second) :
    List.Forall₂ Respaced first.needs second.needs := by
  refine List.rel_append alike.definition.types ?_
  rw [alike.args]
  exact List.forall₂_same.mpr fun text _ => .refl text

/-- Parallel definitions have like instances. -/
theorem Definition.Parallel.instantiate {first second : Definition}
    (parallel : first.Parallel second) (name : Text) {args : List Text}
    (whole : ∀ arg ∈ args, Tight arg ∧ Uncut 0 arg) :
    (first.instantiate name args).Alike Respaced (second.instantiate name args) := by
  have types : (first.mapTypes (substitute first.params args)).Alike Respaced
      (second.mapTypes (substitute first.params args)) :=
    Alike.mapTypes parallel fun text other pair => pair args whole
  rw [Definition.instantiate, Definition.instantiate, ← Alike.params parallel]
  exact ⟨rfl, types.description, rfl, types.properties⟩

section Demand

variable {definitions others emitted written : List Definition}

theorem exists_object {text full : Text} {type : TypeExpr} (read : parse text = .ok type)
    (refers : type.reference? = some full) : ∃ source name args part,
      type.innermost = .object source name args ∧
        parseFragment part = .ok (.object source name args) ∧
        (TypeExpr.object source name args).canonical = full := by
  obtain ⟨part, inside⟩ := TypeExpr.innermost_read (TypeExpr.parse_eq_ok_iff.mp read)
  rw [TypeExpr.reference?] at refers
  split at refers
  · next source name args inner =>
    rw [inner] at inside
    exact ⟨source, name, args, part, inner, inside, Option.some.inj refers⟩
  · cases refers

theorem arguments_whole {part source name : Text} {args : List TypeExpr}
    (read : parseFragment part = .ok (.object source name args)) :
    ∀ arg ∈ args.map canonical, Tight arg ∧ Uncut 0 arg := by
  intro arg member
  obtain ⟨node, given, rfl⟩ := List.mem_map.mp member
  obtain ⟨fragment, node_read⟩ := TypeExpr.argument_read read given
  exact TypeExpr.canonical_whole node_read

section Alike

variable (parallel : List.Forall₂ Definition.Parallel definitions others)
  (alike : List.Forall₂ (Definition.Alike Respaced) emitted written)
include parallel alike

/-- Two texts that refer to one definition ask for the same. -/
theorem demand_referring {first second : Text} {type other : TypeExpr}
    (read : parse first = .ok type) (read_too : parse second = .ok other) {full : Text}
    (refers : type.reference? = some full) (refers_too : other.reference? = some full) :
    SameOutcome (Option.Rel Instance.Alike) (demand definitions emitted first)
      (demand others written second) := by
  obtain ⟨source, name, args, part, inner, inside, spelled⟩ := exists_object read refers
  obtain ⟨origin, another, nodes, portion, inner_too, within, spelled_too⟩ :=
    exists_object read_too refers_too
  obtain ⟨rfl, texts⟩ := TypeExpr.object_canonical_inj inside within
    (spelled.trans spelled_too.symm)
  have arity : args.length = nodes.length := by simpa using congrArg List.length texts
  have empty : nodes.isEmpty = args.isEmpty := by
    rw [Bool.eq_iff_iff, List.isEmpty_iff_length_eq_zero, List.isEmpty_iff_length_eq_zero, arity]
  have present : (emitted.any fun definition => definition.name = full) =
      written.any fun definition => definition.name = full := by
    have names := names_eq alike fun _ _ pair => pair.name
    have images := congrArg (List.any · fun name => decide (name = full)) names
    simpa only [List.any_map, Function.comp_def] using images
  have found := find?_related parallel (fun _ _ pair => pair.name) name
  simp only [demand, read, read_too, inner, inner_too, spelled, spelled_too, ← present, ← texts,
    ← arity, empty]
  split
  · exact .done .none
  · generalize (definitions.find? fun definition => definition.name = name) = here at found ⊢
    generalize (others.find? fun definition => definition.name = name) = there at found ⊢
    obtain @⟨template, twin, pair⟩ | - := found
    · simp only [← pair.params]
      split
      · exact .failed rfl
      · split
        · exact .done .none
        · exact .done (.some ⟨pair.instantiate full (arguments_whole inside), rfl⟩)
    · exact .failed rfl

/-- Two texts that differ in blanks ask for the same. -/
theorem demand_alike {first second : Text} (respaced : Respaced first second) :
    SameOutcome (Option.Rel Instance.Alike) (demand definitions emitted first)
      (demand others written second) := by
  by_cases readable : Readable first
  · obtain ⟨type, read⟩ := readable
    obtain ⟨other, read_too, refers⟩ := respaced.reference read
    cases target : type.reference? with
    | none =>
        rw [demand_settled ⟨type, read, by simp [target]⟩,
          demand_settled ⟨other, read_too, by simp [refers, target]⟩]
        exact .done .none
    | some full => exact demand_referring parallel alike read read_too target (refers.trans target)
  · have fails : ∀ text, ¬ Readable text →
        ∃ flaw, parse text = .error (.invalidType text flaw) := by
      intro text unreadable
      cases found : parse text with
      | ok type => exact absurd ⟨type, found⟩ unreadable
      | error error =>
          obtain ⟨flaw, rfl⟩ := TypeExpr.parse_error found
          exact ⟨flaw, rfl⟩
    obtain ⟨flaw, here⟩ := fails first readable
    obtain ⟨other, there⟩ := fails second fun read => readable (respaced.readable.mpr read)
    simp only [demand, here, there]
    exact .failed rfl

end Alike

/-- Runs on texts that differ in blanks take the same steps. -/
theorem run_alike (parallel : List.Forall₂ Definition.Parallel definitions others)
    (alike : List.Forall₂ (Definition.Alike Respaced) emitted written)
    {pending waiting : List Text} (respaced : List.Forall₂ Respaced pending waiting)
    (limit : Nat) :
    Option.Rel (SameOutcome (List.Forall₂ (Definition.Alike Respaced)))
      (Discovery.run definitions limit ⟨emitted, pending⟩)
      (Discovery.run others limit ⟨written, waiting⟩) := by
  induction limit generalizing emitted written pending waiting with
  | zero =>
      cases respaced with
      | nil => exact .some (.done alike)
      | cons pair rest => exact .none
  | succ limit ih =>
      cases respaced with
      | nil => exact .some (.done alike)
      | @cons first second rest more pair behind =>
          have asks := demand_alike parallel alike pair
          cases here : demand definitions emitted first <;>
              cases there : demand others written second <;>
            rw [here, there] at asks
          · rw [Discovery.run_error here, Discovery.run_error there]
            cases asks with
            | failed same => exact .some (.failed same)
          · cases asks
          · cases asks
          · obtain - | asks := asks
            obtain @⟨inst, twin, same⟩ | - := asks
            · rw [Discovery.run_some here, Discovery.run_some there]
              exact ih (List.rel_append alike (.cons same.definition .nil))
                (List.rel_append same.needs behind)
            · rw [Discovery.run_none here, Discovery.run_none there]
              exact ih alike behind

/-- The discoveries from parallel definitions and like types in use agree in all but blanks. -/
theorem discover_alike (parallel : List.Forall₂ Definition.Parallel definitions others)
    {used used_too : List Text} (respaced : List.Forall₂ Respaced used used_too) (limit : Nat) :
    Option.Rel (SameOutcome (List.Forall₂ (Definition.Alike Respaced)))
      (discover limit definitions used) (discover limit others used_too) := by
  have names : definitions.map (·.name) = others.map (·.name) :=
    names_eq parallel fun _ _ pair => pair.name
  have plain : List.Forall₂ (Definition.Alike Respaced) (plainDefinitions definitions)
      (plainDefinitions others) :=
    (plainDefinitions_related parallel fun _ _ pair => pair.isGeneric).imp fun _ _ pair =>
      pair.imp fun _ _ types => types.respaced
  rw [discover, discover, ← names]
  split
  · exact .some (.failed rfl)
  · exact run_alike parallel plain respaced limit

end Demand

end ApiSchema
