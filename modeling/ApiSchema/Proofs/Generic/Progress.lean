import ApiSchema.Generic.Discovery
import ApiSchema.Proofs.TypeExpr.Canonical
import Mathlib.Data.List.Nodup

set_option autoImplicit false

namespace ApiSchema

open TypeExpr (parse canonical reference?)

/-- The definitions that are written out as they are. -/
def plainDefinitions (definitions : List Definition) : List Definition :=
  definitions.filter fun definition => !definition.isGeneric

/-- `type` refers to `name` inside its arrays, and no definition without parameters has that
name. -/
def Requires (definitions : List Definition) (type name : Text) : Prop :=
  ∃ expr, parse type = .ok expr ∧ expr.reference? = some name ∧
    ∀ definition ∈ definitions, definition.isGeneric = false → definition.name ≠ name

/-- The least set of names that holds what the types in use require and, for every instance named
in it, what the instance's property types and its arguments require. -/
inductive Required (definitions : List Definition) (used : List Text) : Text → Prop
  | used {type name : Text} (inUse : type ∈ used) (requires : Requires definitions type name) :
    Required definitions used name
  | property {full source name : Text} {args : List TypeExpr} {template : Definition}
    {property : Property} (required : Required definitions used full)
    (instanceOf : parse full = .ok (.object source template.name args))
    (declared : template ∈ definitions) (field : property ∈ template.properties)
    (requires : Requires definitions
      (Generic.substitute template.params (args.map canonical) property.type) name) :
    Required definitions used name
  | argument {full source base name : Text} {args : List TypeExpr} {arg : TypeExpr}
    (required : Required definitions used full)
    (instanceOf : parse full = .ok (.object source base args)) (given : arg ∈ args)
    (requires : Requires definitions arg.canonical name) :
    Required definitions used name

/-- The definition that `type` refers to, if any, is among `emitted`. -/
def Settled (emitted : List Definition) (type : Text) : Prop :=
  ∃ expr, parse type = .ok expr ∧
    ∀ name, expr.reference? = some name → ∃ definition ∈ emitted, definition.name = name

/-- An instance of one of the definitions: its name is read as that definition with the arguments
whose normal spellings stand for the parameters. -/
def Instance.Made (definitions : List Definition) (inst : Instance) : Prop :=
  ∃ template ∈ definitions, ∃ args,
    parse inst.definition.name = .ok (.object inst.definition.name template.name args) ∧
      inst.definition.name = template.name ++ TypeExpr.bracketed (args.map canonical) ∧
      args ≠ [] ∧ args.length = template.params.length ∧ inst.args = args.map canonical ∧
      inst.definition = template.instantiate inst.definition.name inst.args

/-- A type text that is in use or that one of the instances needs. -/
def Asked (used : List Text) (instances : List Instance) (type : Text) : Prop :=
  type ∈ used ∨ ∃ inst ∈ instances, type ∈ inst.needs

/-- How far a discovery has come when it has written out these instances. -/
structure Progress (definitions : List Definition) (used : List Text) (instances : List Instance)
    (state : Discovery) : Prop where
  emitted : state.emitted = plainDefinitions definitions ++ instances.map (·.definition)
  distinct : (state.emitted.map (·.name)).Nodup
  made : ∀ inst ∈ instances, inst.Made definitions
  required : ∀ inst ∈ instances, Required definitions used inst.definition.name
  pending : ∀ type ∈ state.pending, Asked used instances type
  covered : ∀ type, Asked used instances type → type ∈ state.pending ∨ Settled state.emitted type

section Names

variable {definitions : List Definition}

theorem firstRepeated?_eq_none {seen names : List Text}
    (none_found : firstRepeated? seen names = none) :
    names.Nodup ∧ ∀ name ∈ names, name ∉ seen := by
  induction names generalizing seen with
  | nil => exact ⟨List.nodup_nil, by simp⟩
  | cons name rest ih =>
      rw [firstRepeated?] at none_found
      split at none_found
      · cases none_found
      · next fresh =>
        obtain ⟨distinct, apart⟩ := ih none_found
        refine ⟨List.nodup_cons.mpr ⟨fun member => apart name member (by simp), distinct⟩, ?_⟩
        intro other member
        rcases List.mem_cons.mp member with rfl | member
        · exact fresh
        · exact fun old => apart other member (by simp [old])

theorem eq_of_name_eq (distinct : (definitions.map (·.name)).Nodup) {first second : Definition}
    (member : first ∈ definitions) (other : second ∈ definitions)
    (same : first.name = second.name) : first = second :=
  List.inj_on_of_nodup_map distinct member other same

theorem mem_plainDefinitions {definition : Definition} :
    definition ∈ plainDefinitions definitions ↔
      definition ∈ definitions ∧ definition.isGeneric = false := by
  simp [plainDefinitions]

theorem plainDefinitions_distinct (distinct : (definitions.map (·.name)).Nodup) :
    ((plainDefinitions definitions).map (·.name)).Nodup :=
  distinct.sublist (List.filter_sublist.map _)

/-- A definition whose name is not taken may be added. -/
theorem nodup_names_concat (distinct : (definitions.map (·.name)).Nodup) {definition : Definition}
    (fresh : ∀ other ∈ definitions, other.name ≠ definition.name) :
    ((definitions ++ [definition]).map (·.name)).Nodup := by
  rw [List.map_append]
  refine List.Nodup.append distinct (List.nodup_singleton _) ?_
  intro name old new
  obtain ⟨other, member, rfl⟩ := List.mem_map.mp old
  exact fresh other member (List.mem_singleton.mp new)

theorem Settled.mono {emitted later : List Definition} {type : Text}
    (settled : Settled emitted type) (grown : emitted ⊆ later) : Settled later type := by
  obtain ⟨expr, read, written⟩ := settled
  refine ⟨expr, read, ?_⟩
  intro name refers
  obtain ⟨definition, member, named⟩ := written name refers
  exact ⟨definition, grown member, named⟩

end Names

theorem reference?_object {expr : TypeExpr} {source name : Text} {args : List TypeExpr}
    (inner : expr.innermost = .object source name args) :
    expr.reference? = some (TypeExpr.object source name args).canonical := by
  rw [reference?, inner]

theorem reference?_primitive {expr : TypeExpr}
    (other : ∀ source name args, expr.innermost ≠ .object source name args) :
    expr.reference? = none := by
  rw [reference?]
  split
  · next source name args inner => exact absurd inner (other source name args)
  · rfl

/-- What a type asks for beyond the definitions in `emitted`: nothing if it refers to one of them or
to a definition without parameters, else an instance. -/
inductive Demand (definitions emitted : List Definition) (expr : TypeExpr) : Option Instance → Prop
  | settled (written : ∀ name, expr.reference? = some name →
      ∃ definition ∈ emitted, definition.name = name) : Demand definitions emitted expr none
  | bare {source : Text} {template : Definition}
    (inner : expr.innermost = .object source template.name []) (declared : template ∈ definitions)
    (params : template.params = []) : Demand definitions emitted expr none
  | inst {source : Text} {args : List TypeExpr} {template : Definition}
    (inner : expr.innermost = .object source template.name args)
    (fresh : ∀ definition ∈ emitted,
      definition.name ≠ (TypeExpr.object source template.name args).canonical)
    (declared : template ∈ definitions) (arity : args.length = template.params.length)
    (some_arg : args ≠ []) :
    Demand definitions emitted expr <| some
      ⟨template.instantiate (TypeExpr.object source template.name args).canonical
        (args.map canonical), args.map canonical⟩

/-- `type` can be read, and inside its arrays it is `name` with these arguments. -/
def Applies (type name : Text) (args : List TypeExpr) : Prop :=
  ∃ expr source, parse type = .ok expr ∧ expr.innermost = .object source name args

/-- Why a type text is refused: it cannot be read, or no definition has the name that it applies, or
the one that has takes another number of arguments. -/
inductive Refused (definitions : List Definition) (type : Text) : SchemaError → Prop
  | unread {flaw : TypeExpr.Flaw} (failed : parse type = .error (.invalidType type flaw)) :
    Refused definitions type (.invalidType type flaw)
  | unknown {name : Text} {args : List TypeExpr} (applies : Applies type name args)
    (absent : ∀ definition ∈ definitions, definition.name ≠ name) :
    Refused definitions type (.unknownType type name)
  | arity {template : Definition} {args : List TypeExpr} (applies : Applies type template.name args)
    (declared : template ∈ definitions) (other : template.params.length ≠ args.length) :
    Refused definitions type
      (.arityMismatch type template.name template.params.length args.length)

section Step

variable {definitions emitted : List Definition} {type : Text}

theorem demand_eq_ok {result : Option Instance}
    (asked : demand definitions emitted type = .ok result) :
    ∃ expr, parse type = .ok expr ∧ Demand definitions emitted expr result := by
  unfold demand at asked
  split at asked
  · cases asked
  · next expr read =>
    refine ⟨expr, read, ?_⟩
    split at asked
    · next source name args inner =>
      dsimp only at asked
      split at asked
      · next present =>
        cases asked
        refine .settled fun full refers => ?_
        rw [reference?_object inner, Option.some.injEq] at refers
        rw [← refers]
        simpa using present
      · next absent =>
        split at asked
        · cases asked
        · next template found =>
          have declared := List.mem_of_find?_eq_some found
          have named : template.name = name := by simpa using List.find?_some found
          subst named
          split at asked
          · cases asked
          · next arity =>
            have size : args.length = template.params.length := by simpa using arity
            split at asked
            · next empty =>
              cases asked
              have no_args : args = [] := List.isEmpty_iff.mp empty
              subst no_args
              exact .bare inner declared (List.length_eq_zero_iff.mp size.symm)
            · next filled =>
              cases asked
              refine .inst inner (by simpa using absent) declared size ?_
              rintro rfl
              exact filled rfl
    · next other =>
      cases asked
      refine .settled fun name refers => ?_
      rw [reference?_primitive other] at refers
      cases refers

theorem demand_eq_error {error : SchemaError}
    (failed : demand definitions emitted type = .error error) : Refused definitions type error := by
  unfold demand at failed
  split at failed
  · next unread =>
    cases failed
    obtain ⟨flaw, rfl⟩ := TypeExpr.parse_error unread
    exact .unread unread
  · next expr read =>
    split at failed
    · next source name args inner =>
      have applies : Applies type name args := ⟨expr, source, read, inner⟩
      dsimp only at failed
      split at failed
      · cases failed
      · split at failed
        · next absent =>
          cases failed
          exact .unknown applies (by simpa using absent)
        · next template found =>
          have declared := List.mem_of_find?_eq_some found
          have named : template.name = name := by simpa using List.find?_some found
          subst named
          split at failed
          · next other =>
            cases failed
            exact .arity applies declared (Ne.symm other)
          · split at failed <;> cases failed
    · cases failed

/-- A text that asks for nothing new refers to what is written out. -/
theorem demand_none (plain : plainDefinitions definitions ⊆ emitted)
    (nothing : demand definitions emitted type = .ok none) : Settled emitted type := by
  obtain ⟨expr, read, asks⟩ := demand_eq_ok nothing
  refine ⟨expr, read, ?_⟩
  cases asks with
  | settled written => exact written
  | @bare source template inner declared params =>
      -- a definition without parameters is written out from the start
      intro name refers
      have notGeneric : template.isGeneric = false := by rw [Definition.isGeneric, params]; rfl
      rw [reference?_object inner, Option.some.injEq, TypeExpr.canonical_object] at refers
      refine ⟨template, plain (mem_plainDefinitions.mpr ⟨declared, notGeneric⟩), ?_⟩
      simpa [TypeExpr.bracketed] using refers

/-- A new instance is one of a definition, has the name that the text refers to, and that name is
not yet taken. -/
theorem demand_some {inst : Instance} (asks : demand definitions emitted type = .ok (some inst)) :
    inst.Made definitions ∧
      (∃ expr, parse type = .ok expr ∧ expr.reference? = some inst.definition.name) ∧
      ∀ definition ∈ emitted, definition.name ≠ inst.definition.name := by
  obtain ⟨expr, read, asked⟩ := demand_eq_ok asks
  cases asked with
  | @inst source args template inner fresh declared arity some_arg =>
      obtain ⟨part, inside⟩ := TypeExpr.innermost_read (TypeExpr.parse_eq_ok_iff.mp read)
      rw [inner] at inside
      obtain ⟨again, reread, spelled⟩ := TypeExpr.object_canonical_read inside
      have size : again.length = args.length := by simpa using congrArg List.length spelled
      have some_again : again ≠ [] := by
        rw [← List.length_pos_iff, size, List.length_pos_iff]
        exact some_arg
      refine ⟨⟨template, declared, again, TypeExpr.parse_eq_ok_iff.mpr reread, ?_, some_again,
        size.trans arity, spelled.symm, rfl⟩, ⟨expr, read, reference?_object inner⟩, fresh⟩
      rw [spelled]
      exact TypeExpr.canonical_object source template.name args

end Step

section Run

variable {definitions : List Definition} {used : List Text} {instances : List Instance}

theorem asked_append {type : Text} {inst : Instance} :
    Asked used (instances ++ [inst]) type ↔ Asked used instances type ∨ type ∈ inst.needs := by
  simp only [Asked, List.mem_append, List.mem_singleton, or_and_right, exists_or, exists_eq_left,
    or_assoc]

/-- What is asked for may be required. -/
theorem Asked.required {type name : Text} (asked : Asked used instances type)
    (made : ∀ inst ∈ instances, inst.Made definitions)
    (required : ∀ inst ∈ instances, Required definitions used inst.definition.name)
    (requires : Requires definitions type name) : Required definitions used name := by
  rcases asked with inUse | ⟨inst, member, needed⟩
  · exact .used inUse requires
  · obtain ⟨template, declared, args, read, -, -, -, texts, instantiated⟩ := made inst member
    rcases List.mem_append.mp needed with property | argument
    · rw [instantiated, texts] at property
      simp only [Definition.instantiate, Definition.mapTypes, List.map_map] at property
      obtain ⟨field, declaredField, rfl⟩ := List.mem_map.mp property
      exact .property (required inst member) read declared declaredField requires
    · rw [texts] at argument
      obtain ⟨arg, given, rfl⟩ := List.mem_map.mp argument
      exact .argument (required inst member) read given requires

theorem Progress.plain {state : Discovery} (progress : Progress definitions used instances state) :
    plainDefinitions definitions ⊆ state.emitted := by
  rw [progress.emitted]
  exact List.subset_append_left _ _

theorem Progress.start (distinct : (definitions.map (·.name)).Nodup) :
    Progress definitions used [] (.start definitions used) where
  emitted := (List.append_nil _).symm
  distinct := plainDefinitions_distinct distinct
  made := by simp
  required := by simp
  pending := fun type member => Or.inl member
  covered := by
    rintro type (inUse | ⟨inst, member, -⟩)
    · exact Or.inl inUse
    · cases member

/-- A text that asks for nothing new is done with. -/
theorem Progress.skip {emitted : List Definition} {type : Text} {rest : List Text}
    (progress : Progress definitions used instances ⟨emitted, type :: rest⟩)
    (nothing : demand definitions emitted type = .ok none) :
    Progress definitions used instances ⟨emitted, rest⟩ where
  emitted := progress.emitted
  distinct := progress.distinct
  made := progress.made
  required := progress.required
  pending := fun other member => progress.pending other (List.mem_cons_of_mem type member)
  covered := by
    intro other asked
    rcases progress.covered other asked with waiting | settled
    · rcases List.mem_cons.mp waiting with rfl | waiting
      · exact Or.inr (demand_none progress.plain nothing)
      · exact Or.inl waiting
    · exact Or.inr settled

/-- A text that asks for an instance is done with once that is written out and the needs of the
instance are pending. -/
theorem Progress.emit {emitted : List Definition} {type : Text} {rest : List Text}
    {inst : Instance} (progress : Progress definitions used instances ⟨emitted, type :: rest⟩)
    (asks : demand definitions emitted type = .ok (some inst)) :
    Progress definitions used (instances ++ [inst])
      ⟨emitted ++ [inst.definition], inst.needs ++ rest⟩ := by
  obtain ⟨made, ⟨expr, read, refers⟩, fresh⟩ := demand_some asks
  have plain := progress.plain
  have requires : Requires definitions type inst.definition.name := by
    refine ⟨expr, read, refers, ?_⟩
    intro definition member notGeneric
    exact fresh definition (plain (mem_plainDefinitions.mpr ⟨member, notGeneric⟩))
  have asked := progress.pending type (by simp)
  have required := asked.required progress.made progress.required requires
  have new_settled : Settled (emitted ++ [inst.definition]) type := by
    refine ⟨expr, read, ?_⟩
    intro name names
    rw [refers, Option.some.injEq] at names
    exact ⟨inst.definition, by simp, names⟩
  refine ⟨?_, ?_, ?_, ?_, ?_, ?_⟩
  · change emitted ++ [inst.definition] = _
    rw [show emitted = _ from progress.emitted, List.map_append, List.append_assoc]
    rfl
  · exact nodup_names_concat progress.distinct fresh
  · intro other member
    rcases List.mem_append.mp member with old | new
    · exact progress.made other old
    · rwa [List.mem_singleton.mp new]
  · intro other member
    rcases List.mem_append.mp member with old | new
    · exact progress.required other old
    · rwa [List.mem_singleton.mp new]
  · intro other member
    rw [asked_append]
    rcases List.mem_append.mp member with needed | waiting
    · exact Or.inr needed
    · exact Or.inl (progress.pending other (List.mem_cons_of_mem type waiting))
  · intro other asks
    rcases asked_append.mp asks with earlier | needed
    · rcases progress.covered other earlier with waiting | settled
      · rcases List.mem_cons.mp waiting with rfl | waiting
        · exact Or.inr new_settled
        · exact Or.inl (List.mem_append_right _ waiting)
      · exact Or.inr (settled.mono (List.subset_append_left _ _))
    · exact Or.inl (List.mem_append_left _ needed)

/-- What holds of a discovery and is kept by its steps holds when it ends, be it that nothing is
pending or that the first text pending is refused. -/
theorem Discovery.run_invariant {I : Discovery → Prop}
    (skip : ∀ emitted type rest, I ⟨emitted, type :: rest⟩ →
      demand definitions emitted type = .ok none → I ⟨emitted, rest⟩)
    (emit : ∀ emitted type rest inst, I ⟨emitted, type :: rest⟩ →
      demand definitions emitted type = .ok (some inst) →
        I ⟨emitted ++ [inst.definition], inst.needs ++ rest⟩)
    {limit : Nat} {state : Discovery} {result : Except SchemaError (List Definition)}
    (holds : I state) (ended : Discovery.run definitions limit state = some result) :
    (∃ out, result = .ok out ∧ I ⟨out, []⟩) ∨
      ∃ error emitted type rest, result = .error error ∧ I ⟨emitted, type :: rest⟩ ∧
        demand definitions emitted type = .error error := by
  induction limit generalizing state with
  | zero =>
      obtain ⟨emitted, pending⟩ := state
      cases pending with
      | nil =>
          cases ended
          exact Or.inl ⟨emitted, rfl, holds⟩
      | cons type rest => cases ended
  | succ limit ih =>
      obtain ⟨emitted, pending⟩ := state
      cases pending with
      | nil =>
          cases ended
          exact Or.inl ⟨emitted, rfl, holds⟩
      | cons type rest =>
          rw [Discovery.run, Discovery.step] at ended
          cases asked : demand definitions emitted type with
          | error error =>
              rw [asked] at ended
              cases ended
              exact Or.inr ⟨error, emitted, type, rest, rfl, holds, asked⟩
          | ok asks =>
              rw [asked] at ended
              cases asks with
              | none => exact ih (skip emitted type rest holds asked) ended
              | some inst => exact ih (emit emitted type rest inst holds asked) ended

/-- A discovery that ends has written out instances for all that is asked for. -/
theorem Progress.run {limit : Nat} {state : Discovery} {out : List Definition}
    (progress : Progress definitions used instances state)
    (finished : Discovery.run definitions limit state = some (.ok out)) :
    ∃ all, Progress definitions used all ⟨out, []⟩ := by
  have start : ∃ instances, Progress definitions used instances state := ⟨instances, progress⟩
  rcases Discovery.run_invariant (I := fun state => ∃ all, Progress definitions used all state)
      (fun _ _ _ ⟨all, progress⟩ asked => ⟨all, progress.skip asked⟩)
      (fun _ _ _ inst ⟨all, progress⟩ asked => ⟨all ++ [inst], progress.emit asked⟩)
      start finished with ⟨_, same, done⟩ | ⟨_, _, _, _, failed, -⟩
  · cases same
    exact done
  · cases failed

/-- What a finished discovery has written out. -/
theorem discover_progress {limit : Nat} {out : List Definition}
    (finished : discover limit definitions used = some (.ok out)) :
    (definitions.map (·.name)).Nodup ∧
      ∃ instances, Progress definitions used instances ⟨out, []⟩ := by
  rw [discover] at finished
  split at finished
  · cases finished
  · next unrepeated =>
    have distinct := (firstRepeated?_eq_none unrepeated).1
    exact ⟨distinct, (Progress.start distinct).run finished⟩

end Run

section Done

variable {definitions : List Definition} {used : List Text} {instances : List Instance}
  {out : List Definition}

theorem Progress.settled (progress : Progress definitions used instances ⟨out, []⟩) {type : Text}
    (asked : Asked used instances type) : Settled out type := by
  rcases progress.covered type asked with waiting | settled
  · cases waiting
  · exact settled

/-- What is asked for and required has its instance at the end. -/
theorem Progress.exists_instance (progress : Progress definitions used instances ⟨out, []⟩)
    {type name : Text} (asked : Asked used instances type)
    (requires : Requires definitions type name) :
    ∃ inst ∈ instances, inst.definition.name = name := by
  obtain ⟨expr, read, refers, apart⟩ := requires
  obtain ⟨again, reread, written⟩ := progress.settled asked
  rw [read, Except.ok.injEq] at reread
  subst reread
  obtain ⟨definition, member, named⟩ := written name refers
  rw [show out = _ from progress.emitted] at member
  rcases List.mem_append.mp member with plain | made
  · obtain ⟨declared, notGeneric⟩ := mem_plainDefinitions.mp plain
    exact absurd named (apart definition declared notGeneric)
  · obtain ⟨inst, inside, rfl⟩ := List.mem_map.mp made
    exact ⟨inst, inside, named⟩

/-- An instance needs the property types of the definition that its name is read as. -/
theorem Instance.Made.needs_property (distinct : (definitions.map (·.name)).Nodup)
    {inst : Instance} (made : inst.Made definitions) {source : Text} {args : List TypeExpr}
    {template : Definition}
    (instanceOf : parse inst.definition.name = .ok (.object source template.name args))
    (declared : template ∈ definitions) {property : Property}
    (field : property ∈ template.properties) :
    Generic.substitute template.params (args.map canonical) property.type ∈ inst.needs := by
  obtain ⟨base, known, nodes, read, -, -, -, texts, instantiated⟩ := made
  rw [instanceOf, Except.ok.injEq, TypeExpr.object.injEq] at read
  obtain ⟨-, sameName, rfl⟩ := read
  have same := eq_of_name_eq distinct declared known sameName
  subst same
  apply List.mem_append_left
  rw [instantiated, texts]
  simp only [Definition.instantiate, Definition.mapTypes, List.map_map]
  exact List.mem_map.mpr ⟨property, field, rfl⟩

/-- An instance needs the arguments that its name is read with. -/
theorem Instance.Made.needs_argument {inst : Instance} (made : inst.Made definitions)
    {source base : Text} {args : List TypeExpr}
    (instanceOf : parse inst.definition.name = .ok (.object source base args)) {arg : TypeExpr}
    (given : arg ∈ args) : arg.canonical ∈ inst.needs := by
  obtain ⟨template, -, nodes, read, -, -, -, texts, -⟩ := made
  rw [instanceOf, Except.ok.injEq, TypeExpr.object.injEq] at read
  obtain ⟨-, -, rfl⟩ := read
  apply List.mem_append_right
  rw [texts]
  exact List.mem_map.mpr ⟨arg, given, rfl⟩

/-- Every required name has an instance at the end. -/
theorem Progress.complete (progress : Progress definitions used instances ⟨out, []⟩)
    (distinct : (definitions.map (·.name)).Nodup) {name : Text}
    (required : Required definitions used name) :
    ∃ inst ∈ instances, inst.definition.name = name := by
  induction required with
  | used inUse requires => exact progress.exists_instance (Or.inl inUse) requires
  | @property full source name args template property _ instanceOf declared field requires ih =>
      obtain ⟨inst, member, rfl⟩ := ih
      have needed := (progress.made inst member).needs_property distinct instanceOf declared field
      exact progress.exists_instance (Or.inr ⟨inst, member, needed⟩) requires
  | @argument full source base name args arg _ instanceOf given requires ih =>
      obtain ⟨inst, member, rfl⟩ := ih
      have needed := (progress.made inst member).needs_argument instanceOf given
      exact progress.exists_instance (Or.inr ⟨inst, member, needed⟩) requires

end Done

end ApiSchema
