import ApiSchema.Proofs.Generic.Progress

set_option autoImplicit false

namespace ApiSchema

open TypeExpr (parse canonical)

section Demand

variable {definitions emitted : List Definition} {type : Text}

/-- A text that refers to what is written out, or to nothing, asks for nothing. -/
theorem demand_settled (settled : Settled emitted type) :
    demand definitions emitted type = .ok none := by
  obtain ⟨expr, read, written⟩ := settled
  simp only [demand, read]
  split
  · next source name args inner =>
    have present := written _ (reference?_object inner)
    rw [if_pos (by simpa using present)]
  · rfl

/-- Otherwise it asks for what it would ask for at the outset. -/
theorem demand_unsettled (unsettled : ¬ Settled emitted type) :
    demand definitions emitted type = demand definitions [] type := by
  simp only [demand]
  cases read : parse type with
  | error error => rfl
  | ok expr =>
      dsimp only
      split
      · next source name args inner =>
        have absent : ¬ ∃ definition ∈ emitted,
            definition.name = (TypeExpr.object source name args).canonical := by
          intro present
          refine unsettled ⟨expr, read, ?_⟩
          intro other refers
          rw [reference?_object inner, Option.some.injEq] at refers
          rwa [← refers]
        rw [if_neg (by simpa using absent), if_neg (by simp)]
      · rfl

theorem find?_name (distinct : (definitions.map (·.name)).Nodup) {definition : Definition}
    (declared : definition ∈ definitions) :
    definitions.find? (fun other => other.name = definition.name) = some definition := by
  cases found : definitions.find? fun other => other.name = definition.name with
  | none =>
      have absent := List.find?_eq_none.mp found definition declared
      simp at absent
  | some other =>
      have named : other.name = definition.name := by simpa using List.find?_some found
      rw [eq_of_name_eq distinct (List.mem_of_find?_eq_some found) declared named]

/-- A text that refers to an instance of the definitions asks for that very instance. -/
theorem Instance.Made.demand (distinct : (definitions.map (·.name)).Nodup) {inst : Instance}
    (made : inst.Made definitions) {expr : TypeExpr} (read : parse type = .ok expr)
    (refers : expr.reference? = some inst.definition.name) :
    demand definitions [] type = .ok (some inst) := by
  obtain ⟨template, declared, args, reread, -, some_arg, arity, texts, instantiated⟩ := made
  rw [TypeExpr.reference?] at refers
  split at refers
  · next source name given inner =>
    rw [Option.some.injEq] at refers
    obtain ⟨part, inside⟩ := TypeExpr.innermost_read (TypeExpr.parse_eq_ok_iff.mp read)
    rw [inner] at inside
    obtain ⟨again, parsed, spelled⟩ := TypeExpr.object_canonical_read inside
    rw [refers, ← TypeExpr.parse_eq_ok_iff, reread, Except.ok.injEq, TypeExpr.object.injEq]
      at parsed
    obtain ⟨-, rfl, rfl⟩ := parsed
    have size : given.length = args.length := by simpa using (congrArg List.length spelled).symm
    have some_given : given ≠ [] := by
      rw [← List.length_pos_iff, size, List.length_pos_iff]
      exact some_arg
    simp only [ApiSchema.demand, read, inner, refers, find?_name distinct declared]
    rw [if_neg (by simp), if_neg (by simp [size, arity]), if_neg (by simpa using some_given),
      ← spelled, ← texts, ← instantiated]
  · cases refers

/-- An instance is known by its name. -/
theorem Instance.Made.eq_of_name (distinct : (definitions.map (·.name)).Nodup)
    {first second : Instance} (made : first.Made definitions) (other : second.Made definitions)
    (same : first.definition.name = second.definition.name) : first = second := by
  have asks : ∀ inst : Instance, inst.Made definitions →
      inst.definition.name = first.definition.name →
      ApiSchema.demand definitions [] first.definition.name = .ok (some inst) := by
    intro inst inst_made named
    have ⟨template, _, args, read, spelled, _⟩ := inst_made
    rw [← named]
    refine inst_made.demand distinct read ?_
    rw [reference?_object rfl, TypeExpr.canonical_object, ← spelled]
  have both := (asks first made rfl).symm.trans (asks second other same.symm)
  simpa using both

/-- The definitions written out when these instances are known. -/
def written (definitions : List Definition) (known : List Instance) : List Definition :=
  plainDefinitions definitions ++ known.map (·.definition)

theorem written_append (known : List Instance) (inst : Instance) :
    written definitions known ++ [inst.definition] = written definitions (known ++ [inst]) := by
  simp [written]

theorem written_take (known : List Instance) :
    (written definitions known).take (plainDefinitions definitions).length =
      plainDefinitions definitions :=
  List.take_left

theorem written_drop (known : List Instance) :
    (written definitions known).drop (plainDefinitions definitions).length =
      known.map (·.definition) :=
  List.drop_left

/-- With instances written out behind the definitions without parameters, a text asks for what it
would ask for without them, or else for one of them and so for nothing. -/
theorem demand_recalled (distinct : (definitions.map (·.name)).Nodup) {known : List Instance}
    (made : ∀ inst ∈ known, inst.Made definitions) (type : Text) :
    demand definitions (written definitions known) type =
        demand definitions (plainDefinitions definitions) type ∨
      ∃ inst ∈ known, demand definitions (plainDefinitions definitions) type = .ok (some inst) ∧
        demand definitions (written definitions known) type = .ok none := by
  by_cases plain : Settled (plainDefinitions definitions) type
  · have more : Settled (written definitions known) type :=
      plain.mono (List.subset_append_left _ _)
    exact Or.inl (by rw [demand_settled plain, demand_settled more])
  by_cases settled : Settled (written definitions known) type
  · right
    obtain ⟨expr, read, written⟩ := settled
    cases refers : expr.reference? with
    | none => exact absurd ⟨expr, read, by simp [refers]⟩ plain
    | some name =>
        obtain ⟨definition, member, rfl⟩ := written name refers
        rcases List.mem_append.mp member with old | new
        · refine absurd ⟨expr, read, ?_⟩ plain
          intro other same
          rw [refers, Option.some.injEq] at same
          exact ⟨definition, old, same⟩
        · obtain ⟨inst, inside, rfl⟩ := List.mem_map.mp new
          refine ⟨inst, inside, ?_, demand_settled ⟨expr, read, written⟩⟩
          rw [demand_unsettled plain]
          exact (made inst inside).demand distinct read refers
  · exact Or.inl (by rw [demand_unsettled settled, demand_unsettled plain])

end Demand

theorem firstRepeated?_of_nodup {seen names : List Text} (distinct : names.Nodup)
    (apart : ∀ name ∈ names, name ∉ seen) : firstRepeated? seen names = none := by
  induction names generalizing seen with
  | nil => rfl
  | cons name rest ih =>
      rw [firstRepeated?, if_neg (apart name (by simp))]
      refine ih distinct.of_cons ?_
      intro other member old
      rcases List.mem_cons.mp old with rfl | old
      · exact distinct.notMem member
      · exact apart other (by simp [member]) old

theorem discover_eq_run {definitions : List Definition}
    (distinct : (definitions.map (·.name)).Nodup) (limit : Nat) (used : List Text) :
    discover limit definitions used =
      Discovery.run definitions limit ⟨written definitions [], used⟩ := by
  rw [discover, firstRepeated?_of_nodup distinct (by simp), written, List.map_nil,
    List.append_nil]
  rfl

namespace Discovery

variable {definitions emitted : List Definition} {type : Text} {limit : Nat} {rest : List Text}

theorem run_nil : run definitions limit ⟨emitted, []⟩ = some (.ok emitted) := by
  cases limit <;> rfl

theorem run_error {error : SchemaError} (asked : demand definitions emitted type = .error error) :
    run definitions (limit + 1) ⟨emitted, type :: rest⟩ = some (.error error) := by
  rw [run, step, asked]

theorem run_none (asked : demand definitions emitted type = .ok none) :
    run definitions (limit + 1) ⟨emitted, type :: rest⟩ =
      run definitions limit ⟨emitted, rest⟩ := by
  rw [run, step, asked]

theorem run_some {inst : Instance} (asked : demand definitions emitted type = .ok (some inst)) :
    run definitions (limit + 1) ⟨emitted, type :: rest⟩ =
      run definitions limit ⟨emitted ++ [inst.definition], inst.needs ++ rest⟩ := by
  rw [run, step, asked]

end Discovery

end ApiSchema
