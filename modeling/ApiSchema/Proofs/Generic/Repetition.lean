import ApiSchema.Proofs.Generic.Demand

set_option autoImplicit false

namespace ApiSchema

namespace Discovery

variable {definitions emitted : List Definition} {limit : Nat}
  {result : Except SchemaError (List Definition)}

/-- The discovery comes to an end with this result, if it may take steps enough. -/
def Ends (definitions : List Definition) (state : Discovery)
    (result : Except SchemaError (List Definition)) : Prop :=
  ∃ limit, run definitions limit state = some result

/-- More steps change nothing in what has come to an end. -/
theorem run_mono {state : Discovery} (ended : run definitions limit state = some result)
    {more : Nat} (enough : limit ≤ more) : run definitions more state = some result := by
  induction limit generalizing state more with
  | zero =>
      obtain ⟨emitted, pending⟩ := state
      cases pending with
      | nil => rwa [run_nil] at ended ⊢
      | cons type rest => cases ended
  | succ limit ih =>
      obtain ⟨emitted, pending⟩ := state
      cases pending with
      | nil => rwa [run_nil] at ended ⊢
      | cons type rest =>
          obtain ⟨more, rfl⟩ := Nat.exists_eq_add_one.mpr (Nat.lt_of_lt_of_le limit.succ_pos enough)
          have below := Nat.le_of_succ_le_succ enough
          cases asked : demand definitions emitted type with
          | error error => rwa [run_error asked] at ended ⊢
          | ok asks =>
              cases asks with
              | none =>
                  rw [run_none asked] at ended ⊢
                  exact ih ended below
              | some inst =>
                  rw [run_some asked] at ended ⊢
                  exact ih ended below

/-- Both ways between a run with a text and a run without it, which takes one step less. -/
def Spare (definitions : List Definition) (limit : Nat) (full thin : Discovery) : Prop :=
  ∀ result, (run definitions limit full = some result → run definitions limit thin = some result) ∧
    (run definitions limit thin = some result → run definitions (limit + 1) full = some result)

theorem spare_settled {type : Text} (settled : Settled emitted type) (rest : List Text) :
    Spare definitions limit ⟨emitted, type :: rest⟩ ⟨emitted, rest⟩ := by
  intro result
  have skips : ∀ limit, run definitions (limit + 1) ⟨emitted, type :: rest⟩ =
      run definitions limit ⟨emitted, rest⟩ := fun limit => run_none (demand_settled settled)
  refine ⟨fun ended => ?_, fun ended => by rwa [skips]⟩
  cases limit with
  | zero => cases ended
  | succ limit =>
      rw [skips] at ended
      exact run_mono ended (Nat.le_succ limit)

/-- A text that is pending a second time, or refers to what is written out, can be spared. -/
theorem spare_repeated (plain : plainDefinitions definitions ⊆ emitted) {type : Text}
    {front : List Text} (seen : type ∈ front ∨ Settled emitted type) (back : List Text) :
    Spare definitions limit ⟨emitted, front ++ type :: back⟩ ⟨emitted, front ++ back⟩ := by
  induction limit generalizing emitted front with
  | zero =>
      cases front with
      | nil => exact spare_settled (by simpa using seen) back
      | cons other front => exact fun result => ⟨nofun, nofun⟩
  | succ limit ih =>
      cases front with
      | nil => exact spare_settled (by simpa using seen) back
      | cons other front =>
          intro result
          rw [List.cons_append, List.cons_append]
          cases asked : demand definitions emitted other with
          | error error =>
              rw [run_error asked, run_error asked, run_error asked]
              exact ⟨id, id⟩
          | ok asks =>
              cases asks with
              | none =>
                  -- if it was the text itself, what it refers to is written out by now
                  have later : type ∈ front ∨ Settled emitted type := by
                    rcases seen with member | settled
                    · rcases List.mem_cons.mp member with rfl | member
                      · exact Or.inr (demand_none plain asked)
                      · exact Or.inl member
                    · exact Or.inr settled
                  rw [run_none asked, run_none asked, run_none asked]
                  exact ih plain later result
              | some inst =>
                  have grown := List.subset_append_left emitted [inst.definition]
                  have later : type ∈ inst.needs ++ front ∨
                      Settled (emitted ++ [inst.definition]) type := by
                    rcases seen with member | settled
                    · rcases List.mem_cons.mp member with rfl | member
                      · obtain ⟨-, ⟨expr, read, refers⟩, -⟩ := demand_some asked
                        refine Or.inr ⟨expr, read, fun name names => ?_⟩
                        rw [refers, Option.some.injEq] at names
                        exact ⟨inst.definition, by simp, names⟩
                      · exact Or.inl (List.mem_append_right _ member)
                    · exact Or.inr (settled.mono grown)
                  rw [run_some asked, run_some asked, run_some asked, ← List.append_assoc,
                    ← List.append_assoc]
                  exact ih (List.Subset.trans plain grown) later result

theorem ends_repeated (plain : plainDefinitions definitions ⊆ emitted) {type : Text}
    {front : List Text} (pending : type ∈ front) (back : List Text) :
    Ends definitions ⟨emitted, front ++ type :: back⟩ result ↔
      Ends definitions ⟨emitted, front ++ back⟩ result := by
  constructor
  · rintro ⟨limit, ended⟩
    exact ⟨limit, (spare_repeated plain (Or.inl pending) back result).1 ended⟩
  · rintro ⟨limit, ended⟩
    exact ⟨limit + 1, (spare_repeated plain (Or.inl pending) back result).2 ended⟩

/-- All repetitions of a pending text can be dropped. -/
theorem ends_filter (plain : plainDefinitions definitions ⊆ emitted) {type : Text}
    {front : List Text} (pending : type ∈ front) (back : List Text) :
    Ends definitions ⟨emitted, front ++ back⟩ result ↔
      Ends definitions ⟨emitted, front ++ back.filter fun other => !other == type⟩ result := by
  induction back generalizing front with
  | nil => rfl
  | cons other back ih =>
      by_cases same : other = type
      · subst same
        rw [ends_repeated plain pending, ih pending, List.filter_cons_of_neg (by simp)]
      · have behind := @ih (front ++ [other]) (by simp [pending])
        rw [List.filter_cons_of_pos (by simpa using same)]
        simpa only [List.append_assoc, List.singleton_append] using behind

theorem ends_eraseDups (plain : plainDefinitions definitions ⊆ emitted) (front back : List Text) :
    Ends definitions ⟨emitted, front ++ back⟩ result ↔
      Ends definitions ⟨emitted, front ++ back.eraseDups⟩ result := by
  induction length : back.length using Nat.strongRecOn generalizing front back with
  | ind size ih =>
      cases back with
      | nil => rfl
      | cons type back =>
          -- the first use moves to the texts in front, and so its repetitions can be dropped
          let others := back.filter fun other => !other == type
          have shorter : others.length < size := by
            have atMost : others.length ≤ back.length := List.length_filter_le ..
            rw [List.length_cons] at length
            omega
          have pending : type ∈ front ++ [type] := by simp
          have dropped : Ends definitions ⟨emitted, front ++ [type] ++ back⟩ result ↔
              Ends definitions ⟨emitted, front ++ [type] ++ others⟩ result :=
            ends_filter plain pending back
          have inner := ih others.length shorter (front ++ [type]) others rfl
          rw [List.append_assoc, List.append_assoc] at dropped inner
          rw [List.eraseDups_cons]
          exact dropped.trans inner

end Discovery

theorem discover_mono {limit : Nat} {definitions : List Definition} {used : List Text}
    {result : Except SchemaError (List Definition)}
    (ended : discover limit definitions used = some result) {more : Nat} (enough : limit ≤ more) :
    discover more definitions used = some result := by
  rw [discover] at ended ⊢
  split at ended
  · exact ended
  · exact Discovery.run_mono ended enough

/-- Whether types in use are given once or repeatedly makes no difference to how a discovery
ends. -/
theorem discover_eraseDups {definitions : List Definition} {used : List Text}
    {result : Except SchemaError (List Definition)} :
    (∃ limit, discover limit definitions used.eraseDups = some result) ↔
      ∃ limit, discover limit definitions used = some result := by
  simp only [discover]
  split
  · rfl
  · exact (Discovery.ends_eraseDups (List.Subset.refl _) [] used).symm

end ApiSchema
