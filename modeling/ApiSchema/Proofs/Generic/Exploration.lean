import ApiSchema.Proofs.Generic.Demand

set_option autoImplicit false

namespace ApiSchema

/-- The instances met one after another when none is remembered: only a definition without
parameters stops the exploration of a text, and an instance is looked into whenever it is met. None
if more than `limit` steps are needed. -/
def explore (definitions : List Definition) :
    Nat → List Text → Option (Except SchemaError (List Instance))
  | _, [] => some (.ok [])
  | 0, _ :: _ => none
  | limit + 1, type :: rest =>
    match demand definitions (plainDefinitions definitions) type with
    | .error error => some (.error error)
    | .ok none => explore definitions limit rest
    | .ok (some inst) =>
      (explore definitions limit (inst.needs ++ rest)).map fun result => result.map (inst :: ·)

theorem map_eq_some_ok {α β ε : Type} {value : Option (Except ε α)} {f : α → β} {result : β}
    (mapped : (value.map fun inner => inner.map f) = some (.ok result)) :
    ∃ inner, value = some (.ok inner) ∧ f inner = result := by
  cases value with
  | none => cases mapped
  | some given =>
      cases given with
      | error error => cases mapped
      | ok inner => exact ⟨inner, rfl, by simpa [Except.map] using mapped⟩

section Explore

variable {definitions : List Definition} {limit : Nat} {types : List Text}

theorem explore_error {type : Text} {rest : List Text} {error : SchemaError}
    (asked : demand definitions (plainDefinitions definitions) type = .error error) :
    explore definitions (limit + 1) (type :: rest) = some (.error error) := by
  rw [explore, asked]

theorem explore_none {type : Text} {rest : List Text}
    (asked : demand definitions (plainDefinitions definitions) type = .ok none) :
    explore definitions (limit + 1) (type :: rest) = explore definitions limit rest := by
  rw [explore, asked]

theorem explore_some {type : Text} {rest : List Text} {inst : Instance}
    (asked : demand definitions (plainDefinitions definitions) type = .ok (some inst)) :
    explore definitions (limit + 1) (type :: rest) =
      (explore definitions limit (inst.needs ++ rest)).map fun result =>
        result.map (inst :: ·) := by
  rw [explore, asked]

/-- More steps change nothing in what has come to an end. -/
theorem explore_mono {result : Except SchemaError (List Instance)}
    (ended : explore definitions limit types = some result) {more : Nat} (enough : limit ≤ more) :
    explore definitions more types = some result := by
  fun_induction explore definitions limit types generalizing more result with
  | case1 => rwa [explore]
  | case2 => cases ended
  | case3 limit type rest error asked =>
      obtain ⟨more, rfl⟩ := Nat.exists_eq_add_one.mpr (Nat.lt_of_lt_of_le limit.succ_pos enough)
      rw [explore_error asked, ended]
  | case4 limit type rest asked ih =>
      obtain ⟨more, rfl⟩ := Nat.exists_eq_add_one.mpr (Nat.lt_of_lt_of_le limit.succ_pos enough)
      rw [explore_none asked]
      exact ih ended (Nat.le_of_succ_le_succ enough)
  | case5 limit type rest inst asked ih =>
      obtain ⟨more, rfl⟩ := Nat.exists_eq_add_one.mpr (Nat.lt_of_lt_of_le limit.succ_pos enough)
      obtain ⟨later, found, rfl⟩ := Option.map_eq_some_iff.mp ended
      rw [explore_some asked, ih found (Nat.le_of_succ_le_succ enough)]
      rfl

/-- How many steps are allowed makes no difference to what an exploration comes to. -/
theorem explore_unique {first second : Except SchemaError (List Instance)}
    (ended : explore definitions limit types = some first) {other : Nat}
    (ended_too : explore definitions other types = some second) : first = second := by
  have more := explore_mono ended (Nat.le_max_left limit other)
  have again := explore_mono ended_too (Nat.le_max_right limit other)
  rw [more, Option.some.injEq] at again
  exact again

/-- There is a least number of steps that is enough. -/
theorem explore_least {result : Except SchemaError (List Instance)}
    (ended : explore definitions limit types = some result) :
    ∃ least ≤ limit, explore definitions least types = some result ∧
      ∀ less < least, explore definitions less types = none := by
  induction limit with
  | zero => exact ⟨0, Nat.le_refl 0, ended, by omega⟩
  | succ limit ih =>
      cases earlier : explore definitions limit types with
      | none =>
          refine ⟨limit + 1, Nat.le_refl _, ended, ?_⟩
          intro less below
          cases found : explore definitions less types with
          | none => rfl
          | some other =>
              rw [explore_mono found (Nat.le_of_lt_succ below)] at earlier
              cases earlier
      | some other =>
          rw [explore_unique earlier ended] at earlier
          obtain ⟨least, below, enough, none_less⟩ := ih earlier
          exact ⟨least, by omega, enough, none_less⟩

/-- An exploration of two lists of texts is one of the first and then, if there is no error, one of
the second with the steps that are left. -/
theorem explore_append {rest : List Text} {result : Except SchemaError (List Instance)}
    (ended : explore definitions limit (types ++ rest) = some result) :
    (∃ error, explore definitions limit types = some (.error error) ∧ result = .error error) ∨
      ∃ first second met later, first + second = limit ∧
        explore definitions first types = some (.ok met) ∧
        explore definitions second rest = some later ∧ result = later.map (met ++ ·) := by
  induction limit generalizing types result with
  | zero =>
      cases types with
      | nil => exact Or.inr ⟨0, 0, [], result, rfl, rfl, ended, by cases result <;> rfl⟩
      | cons type types => cases ended
  | succ limit ih =>
      cases types with
      | nil =>
          exact Or.inr ⟨0, limit + 1, [], result, Nat.zero_add _, rfl, ended, by
            cases result <;> rfl⟩
      | cons type types =>
          rw [List.cons_append] at ended
          cases asked : demand definitions (plainDefinitions definitions) type with
          | error error =>
              rw [explore_error asked, Option.some.injEq] at ended
              exact Or.inl ⟨error, explore_error asked, ended.symm⟩
          | ok asks =>
              cases asks with
              | none =>
                  rw [explore_none asked] at ended
                  rcases ih ended with ⟨error, failed, same⟩ |
                    ⟨first, second, met, later, total, own, other, same⟩
                  · exact Or.inl ⟨error, by rw [explore_none asked, failed], same⟩
                  · exact Or.inr ⟨first + 1, second, met, later, by omega, by
                      rw [explore_none asked, own], other, same⟩
              | some inst =>
                  rw [explore_some asked] at ended
                  obtain ⟨whole, found, rfl⟩ := Option.map_eq_some_iff.mp ended
                  rw [← List.append_assoc] at found
                  rcases ih found with ⟨error, failed, rfl⟩ |
                    ⟨first, second, met, later, total, own, other, rfl⟩
                  · exact Or.inl ⟨error, by rw [explore_some asked, failed]; rfl, rfl⟩
                  · refine Or.inr ⟨first + 1, second, inst :: met, later, by omega, ?_, other, ?_⟩
                    · rw [explore_some asked, own]
                      rfl
                    · cases later <;> rfl

/-- What is met is an instance of one of the definitions. -/
theorem explore_made {met : List Instance}
    (ended : explore definitions limit types = some (.ok met)) :
    ∀ inst ∈ met, inst.Made definitions := by
  fun_induction explore definitions limit types generalizing met with
  | case1 => cases ended; simp
  | case2 => cases ended
  | case3 => cases ended
  | case4 limit type rest asked ih => exact ih ended
  | case5 limit type rest inst asked ih =>
      obtain ⟨later, found, rfl⟩ := map_eq_some_ok ended
      exact List.forall_mem_cons.mpr ⟨(demand_some asked).1, ih found⟩

/-- An instance that is met is explored in fewer steps, and all that is met within it is met in the
whole. -/
theorem explore_closed {met : List Instance}
    (ended : explore definitions limit types = some (.ok met)) {inst : Instance}
    (member : inst ∈ met) :
    ∃ less < limit, ∃ inner, explore definitions less inst.needs = some (.ok inner) ∧
      inner ⊆ met := by
  fun_induction explore definitions limit types generalizing met with
  | case1 => cases ended; cases member
  | case2 => cases ended
  | case3 => cases ended
  | case4 limit type rest asked ih =>
      obtain ⟨less, below, inner, found, inside⟩ := ih ended member
      exact ⟨less, by omega, inner, found, inside⟩
  | case5 limit type rest first asked ih =>
      obtain ⟨later, found, rfl⟩ := map_eq_some_ok ended
      rcases List.mem_cons.mp member with rfl | member
      · rcases explore_append found with ⟨error, -, same⟩ |
          ⟨less, more, inner, tail, total, own, -, same⟩
        · cases same
        · refine ⟨less, by omega, inner, own, List.subset_cons_of_subset _ ?_⟩
          cases tail with
          | error error => cases same
          | ok tail =>
              cases same
              exact List.subset_append_left _ _
      · obtain ⟨less, below, inner, own, inside⟩ := ih found member
        exact ⟨less, by omega, inner, own, List.subset_cons_of_subset _ inside⟩

end Explore

end ApiSchema
