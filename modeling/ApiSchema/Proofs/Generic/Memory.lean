import ApiSchema.Proofs.Generic.Exploration

set_option autoImplicit false

namespace ApiSchema

/-- The first instance of each name that is not among those seen. -/
def firstOfName (seen : List Text) : List Instance → List Instance
  | [] => []
  | inst :: rest =>
    if inst.definition.name ∈ seen then firstOfName seen rest
    else inst :: firstOfName (seen ++ [inst.definition.name]) rest

/-- The definitions to write out, found without remembering any instance: of those met, the first of
each name is kept. -/
def discoverAfresh (limit : Nat) (definitions : List Definition) (used : List Text) :
    Option (Except SchemaError (List Definition)) :=
  match firstRepeated? [] (definitions.map (·.name)) with
  | some name => some (.error (.duplicateDefinition name))
  | none =>
    (explore definitions limit used).map fun result => result.map fun met =>
      plainDefinitions definitions ++ (firstOfName [] met).map (·.definition)

section FirstOfName

variable {seen : List Text} {met : List Instance}

theorem firstOfName_append (front back : List Instance) :
    firstOfName seen (front ++ back) = firstOfName seen front ++
      firstOfName (seen ++ (firstOfName seen front).map (·.definition.name)) back := by
  induction front generalizing seen with
  | nil => simp [firstOfName]
  | cons inst front ih =>
      rw [List.cons_append, firstOfName, firstOfName]
      split
      · exact ih
      · rw [ih]
        simp

theorem firstOfName_seen (old : ∀ inst ∈ met, inst.definition.name ∈ seen) :
    firstOfName seen met = [] := by
  induction met with
  | nil => rfl
  | cons inst rest ih =>
      rw [firstOfName, if_pos (old inst (by simp))]
      exact ih fun other member => old other (by simp [member])

theorem firstOfName_subset : firstOfName seen met ⊆ met := by
  induction met generalizing seen with
  | nil => simp [firstOfName]
  | cons inst rest ih =>
      rw [firstOfName]
      split
      · exact List.subset_cons_of_subset _ ih
      · exact List.cons_subset_cons _ ih

/-- Every name met is kept, if it was not seen before. -/
theorem exists_firstOfName (seen : List Text) {inst : Instance} (member : inst ∈ met) :
    inst.definition.name ∈ seen ∨
      ∃ first ∈ firstOfName seen met, first.definition.name = inst.definition.name := by
  induction met generalizing seen with
  | nil => cases member
  | cons other rest ih =>
      rw [firstOfName]
      rcases List.mem_cons.mp member with rfl | member
      · split
        · next old => exact Or.inl old
        · exact Or.inr ⟨inst, by simp, rfl⟩
      · split
        · exact ih seen member
        · rcases ih (seen ++ [other.definition.name]) member with old | ⟨first, kept, named⟩
          · rcases List.mem_append.mp old with old | same
            · exact Or.inl old
            · exact Or.inr ⟨other, by simp, (List.mem_singleton.mp same).symm⟩
          · exact Or.inr ⟨first, by simp [kept], named⟩

end FirstOfName

/-- The instances known once these are met. -/
def learn (known met : List Instance) : List Instance :=
  known ++ firstOfName (known.map (·.definition.name)) met

/-- Nothing comes of it that is not known. -/
def Recalled (known : List Instance) (result : Except SchemaError (List Instance)) : Prop :=
  ∃ met, result = .ok met ∧ met ⊆ known

/-- Of a known instance, either everything is known that exploring it comes to, or that takes
`limit` steps at least: it may be under way. -/
def Ready (definitions : List Definition) (limit : Nat) (known : List Instance) : Prop :=
  ∀ inst ∈ known, ∀ steps < limit, ∀ result,
    explore definitions steps inst.needs = some result → Recalled known result

section Ready

variable {definitions : List Definition} {limit : Nat} {known : List Instance}

theorem learn_append (front back : List Instance) :
    learn known (front ++ back) = learn (learn known front) back := by
  simp [learn, firstOfName_append]

theorem learn_recalled {met : List Instance} (old : met ⊆ known) : learn known met = known := by
  have none_new : firstOfName (known.map (·.definition.name)) met = [] :=
    firstOfName_seen fun inst member => List.mem_map_of_mem (old member)
  rw [learn, none_new, List.append_nil]

theorem learn_cons {inst : Instance} (fresh : inst.definition.name ∉ known.map (·.definition.name))
    (met : List Instance) : learn known (inst :: met) = learn (known ++ [inst]) met := by
  rw [learn, firstOfName, if_neg fresh]
  simp [learn]

theorem learn_made (made : ∀ inst ∈ known, inst.Made definitions) {met : List Instance}
    (met_made : ∀ inst ∈ met, inst.Made definitions) :
    ∀ inst ∈ learn known met, inst.Made definitions := by
  intro inst member
  rcases List.mem_append.mp member with old | new
  · exact made inst old
  · exact met_made inst (firstOfName_subset new)

/-- What was met is known, for instances of one name are the same. -/
theorem subset_learn (distinct : (definitions.map (·.name)).Nodup)
    (made : ∀ inst ∈ known, inst.Made definitions) {met : List Instance}
    (met_made : ∀ inst ∈ met, inst.Made definitions) : met ⊆ learn known met := by
  intro inst member
  rcases exists_firstOfName (known.map (·.definition.name)) member with old | new
  · obtain ⟨other, inside, same⟩ := List.mem_map.mp old
    rw [← (made other inside).eq_of_name distinct (met_made inst member) same]
    exact List.mem_append_left _ inside
  · obtain ⟨first, kept, same⟩ := new
    have first_made := met_made first (firstOfName_subset kept)
    rw [← first_made.eq_of_name distinct (met_made inst member) same]
    exact List.mem_append_right _ kept

theorem Ready.mono (ready : Ready definitions limit known) {less : Nat} (below : less ≤ limit) :
    Ready definitions less known :=
  fun inst member steps few => ready inst member steps (Nat.lt_of_lt_of_le few below)

/-- When the exploration of an instance begins, it takes as many steps as it needs. -/
theorem Ready.begin (ready : Ready definitions limit known) {inst : Instance} {least : Nat}
    (below : least ≤ limit)
    (unfinished : ∀ less < least, explore definitions less inst.needs = none) :
    Ready definitions least (known ++ [inst]) := by
  intro other member steps few result ended
  rcases List.mem_append.mp member with old | new
  · obtain ⟨met, same, inside⟩ :=
      ready other old steps (Nat.lt_of_lt_of_le few below) result ended
    exact ⟨met, same, List.subset_append_of_subset_left _ inside⟩
  · rw [List.mem_singleton.mp new, unfinished steps few] at ended
    cases ended

/-- After an exploration everything that it met is known with all that it leads to. -/
theorem Ready.learn (ready : Ready definitions limit known)
    (distinct : (definitions.map (·.name)).Nodup)
    (made : ∀ inst ∈ known, inst.Made definitions) {steps : Nat} {types : List Text}
    {met : List Instance} (ended : explore definitions steps types = some (.ok met)) :
    Ready definitions limit (learn known met) := by
  have inside := subset_learn distinct made (explore_made ended)
  intro inst member less few result inner_ended
  rcases List.mem_append.mp member with old | new
  · obtain ⟨inner, same, part⟩ := ready inst old less few result inner_ended
    exact ⟨inner, same, List.subset_append_of_subset_left _ part⟩
  · obtain ⟨other, -, inner, own, part⟩ := explore_closed ended (firstOfName_subset new)
    exact ⟨inner, explore_unique inner_ended own, fun found here => inside (part here)⟩

end Ready

/-- How a run goes on behind texts whose exploration has come to an end. -/
def goOn (definitions : List Definition) (limit : Nat) (known : List Instance) (rest : List Text) :
    Except SchemaError (List Instance) → Option (Except SchemaError (List Definition))
  | .error error => some (.error error)
  | .ok met => Discovery.run definitions limit ⟨written definitions (learn known met), rest⟩

section Follow

variable {definitions : List Definition}

theorem goOn_append (limit : Nat) (known met : List Instance) (rest : List Text)
    (later : Except SchemaError (List Instance)) :
    goOn definitions limit known rest (later.map (met ++ ·)) =
      goOn definitions limit (learn known met) rest later := by
  cases later with
  | error error => rfl
  | ok later =>
      change Discovery.run _ limit ⟨written _ (learn known (met ++ later)), rest⟩ = _
      rw [learn_append]
      rfl

theorem map_append_cons (inst : Instance) (met : List Instance)
    (later : Except SchemaError (List Instance)) :
    (later.map (met ++ ·)).map (inst :: ·) = later.map ((inst :: met) ++ ·) := by
  cases later <;> rfl

/-- With these instances known, a run looks at `types` in `steps` steps at most and goes on from
`result`. -/
def Passes (definitions : List Definition) (steps : Nat) (known : List Instance)
    (types : List Text) (result : Except SchemaError (List Instance)) : Prop :=
  ∃ taken ≤ steps, ∀ limit rest,
    Discovery.run definitions (limit + taken) ⟨written definitions known, types ++ rest⟩ =
      goOn definitions limit known rest result

/-- A run needs no more steps than an exploration that ends after `steps` steps, and comes to the
same. -/
def Follows (definitions : List Definition) (steps : Nat) : Prop :=
  ∀ known : List Instance, (∀ inst ∈ known, inst.Made definitions) →
    Ready definitions steps known → ∀ types result, explore definitions steps types = some result →
      Passes definitions steps known types result

section Step

variable {steps : Nat} {known : List Instance} {type : Text} {types : List Text}
  {inst : Instance} {result : Except SchemaError (List Instance)}

/-- An instance that is known is not looked at again, and nothing new would come of it. -/
theorem follows_known (earlier : ∀ less ≤ steps, Follows definitions less)
    (made : ∀ inst ∈ known, inst.Made definitions)
    (ready : Ready definitions (steps + 1) known) (member : inst ∈ known)
    (asked : demand definitions (plainDefinitions definitions) type = .ok (some inst))
    (nothing : demand definitions (written definitions known) type = .ok none)
    (ended : explore definitions (steps + 1) (type :: types) = some result) :
    Passes definitions (steps + 1) known (type :: types) result := by
  rw [explore_some asked] at ended
  obtain ⟨whole, found, rfl⟩ := Option.map_eq_some_iff.mp ended
  have recalled := ready inst member
  rcases explore_append found with ⟨error, failed, -⟩ |
    ⟨first, second, met, later, total, own, other, rfl⟩
  · obtain ⟨met, same, -⟩ := recalled steps (by omega) _ failed
    cases same
  · obtain ⟨again, same, old⟩ := recalled first (by omega) _ own
    cases same
    obtain ⟨taken, few, follows⟩ :=
      earlier second (by omega) known made (ready.mono (by omega)) types later other
    refine ⟨taken + 1, by omega, fun limit rest => ?_⟩
    rw [← Nat.add_assoc, List.cons_append, Discovery.run_none nothing, follows limit rest,
      map_append_cons, goOn_append, learn_recalled (List.cons_subset.mpr ⟨member, old⟩)]

/-- A new instance is written out, and what it needs is looked at before the other texts. -/
theorem follows_fresh (distinct : (definitions.map (·.name)).Nodup)
    (earlier : ∀ less ≤ steps, Follows definitions less)
    (made : ∀ inst ∈ known, inst.Made definitions)
    (ready : Ready definitions (steps + 1) known)
    (asked : demand definitions (plainDefinitions definitions) type = .ok (some inst))
    (asked_too : demand definitions (written definitions known) type = .ok (some inst))
    (ended : explore definitions (steps + 1) (type :: types) = some result) :
    Passes definitions (steps + 1) known (type :: types) result := by
  obtain ⟨inst_made, -, absent⟩ := demand_some asked_too
  have fresh : inst.definition.name ∉ known.map (·.definition.name) := by
    intro old
    obtain ⟨other, inside, same⟩ := List.mem_map.mp old
    exact absent other.definition (List.mem_append_right _ (List.mem_map_of_mem inside)) same
  have made_too : ∀ other ∈ known ++ [inst], other.Made definitions := by
    intro other member
    rcases List.mem_append.mp member with old | new
    · exact made other old
    · rwa [List.mem_singleton.mp new]
  have start : ∀ limit rest,
      Discovery.run definitions (limit + 1) ⟨written definitions known, type :: rest⟩ =
        Discovery.run definitions limit
          ⟨written definitions (known ++ [inst]), inst.needs ++ rest⟩ := by
    intro limit rest
    rw [Discovery.run_some asked_too, written_append]
  -- the needs are looked at as if in the fewest steps, for then the instance is not done before
  have needs : ∀ enough ≤ steps, ∀ own, explore definitions enough inst.needs = some own →
      Passes definitions enough (known ++ [inst]) inst.needs own := by
    intro enough below own found
    obtain ⟨least, least_below, ended, unfinished⟩ := explore_least found
    have began := ready.begin (by omega) unfinished
    obtain ⟨taken, few, follows⟩ :=
      earlier least (by omega) _ made_too began inst.needs own ended
    exact ⟨taken, by omega, follows⟩
  rw [explore_some asked] at ended
  obtain ⟨whole, found, rfl⟩ := Option.map_eq_some_iff.mp ended
  rcases explore_append found with ⟨error, failed, rfl⟩ |
    ⟨first, second, met, later, total, own, other, rfl⟩
  · obtain ⟨taken, few, follows⟩ := needs steps (Nat.le_refl steps) _ failed
    refine ⟨taken + 1, by omega, fun limit rest => ?_⟩
    rw [← Nat.add_assoc, List.cons_append, start, follows]
    rfl
  · obtain ⟨taken, few, follows⟩ := needs first (by omega) _ own
    have single : explore definitions (first + 1) [type] = some (.ok (inst :: met)) := by
      rw [explore_some asked, List.append_nil, own]
      rfl
    have learned := ready.learn distinct made single
    have learned_made := learn_made made (explore_made single)
    obtain ⟨more, fewer, goes_on⟩ := earlier second (by omega) _ learned_made
      (learned.mono (by omega)) types later other
    refine ⟨more + taken + 1, by omega, fun limit rest => ?_⟩
    rw [← Nat.add_assoc, ← Nat.add_assoc, List.cons_append, start, follows, map_append_cons,
      goOn_append, ← goes_on limit rest, learn_cons fresh]
    rfl

end Step

theorem follows (distinct : (definitions.map (·.name)).Nodup) (steps : Nat) :
    Follows definitions steps := by
  induction steps using Nat.strongRecOn with
  | ind steps ih =>
      intro known made ready types result ended
      cases types with
      | nil =>
          rw [explore, Option.some.injEq] at ended
          refine ⟨0, Nat.zero_le steps, fun limit rest => ?_⟩
          rw [← ended, goOn, learn_recalled (List.nil_subset known)]
          rfl
      | cons type types =>
          cases steps with
          | zero => cases ended
          | succ steps =>
              have earlier : ∀ less ≤ steps, Follows definitions less :=
                fun less below => ih less (Nat.lt_succ_of_le below)
              rcases demand_recalled distinct made type with same | ⟨inst, member, asked, nothing⟩
              · cases asked : demand definitions (plainDefinitions definitions) type with
                | error error =>
                    rw [explore_error asked, Option.some.injEq] at ended
                    refine ⟨1, by omega, fun limit rest => ?_⟩
                    rw [← ended]
                    exact Discovery.run_error (same.trans asked)
                | ok asks =>
                    cases asks with
                    | none =>
                        rw [explore_none asked] at ended
                        obtain ⟨taken, few, follows⟩ := earlier steps (Nat.le_refl steps) known
                          made (ready.mono (Nat.le_succ steps)) types result ended
                        refine ⟨taken + 1, by omega, fun limit rest => ?_⟩
                        rw [← follows limit rest, ← Nat.add_assoc, List.cons_append]
                        exact Discovery.run_none (same.trans asked)
                    | some inst =>
                        exact follows_fresh distinct earlier made ready asked (same.trans asked)
                          ended
              · exact follows_known earlier made ready member asked nothing ended

end Follow

/-- What a discovery remembers only saves work. Where discovery without memory comes to an end, the
definitions are the same and in the same order, or it is the same error. -/
theorem discover_eq_discoverAfresh {limit : Nat} {definitions : List Definition} {used : List Text}
    {result : Except SchemaError (List Definition)}
    (ended : discoverAfresh limit definitions used = some result) :
    discover limit definitions used = some result := by
  cases repeated : firstRepeated? [] (definitions.map (·.name)) with
  | some name =>
      rw [discoverAfresh, repeated] at ended
      rwa [discover, repeated]
  | none =>
      rw [discoverAfresh, repeated] at ended
      obtain ⟨explored, found, rfl⟩ := Option.map_eq_some_iff.mp ended
      have distinct := (firstRepeated?_eq_none repeated).1
      obtain ⟨taken, few, follows⟩ :=
        follows distinct limit [] (by simp) (by simp [Ready]) used explored found
      have run := follows (limit - taken) []
      rw [Nat.sub_add_cancel few, List.append_nil] at run
      rw [discover_eq_run distinct, run]
      cases explored with
      | error error => rfl
      | ok met => exact Discovery.run_nil

/-- Two boxes, and boxes of one thing or another. -/
def pairOfBoxes : List Definition :=
  [{ name := "User" },
    { name := "Box", params := ["«T»"], properties := [{ name := "value", type := "«T»[]" }] },
    { name := "Pair", params := ["«L»", "«R»"],
      properties :=
        [{ name := "left", type := "Box<«L»>" }, { name := "right", type := "Box< «R»>" }] }]

def pairOfBoxesOut : List Definition :=
  [{ name := "User" },
    { name := "Pair<User, User>",
      properties :=
        [{ name := "left", type := "Box<User>" }, { name := "right", type := "Box< User>" }] },
    { name := "Box<User>", properties := [{ name := "value", type := "User[]" }] }]

/-- The box is met three times without memory. -/
theorem discover_eq_discoverAfresh_boxes :
    (explore pairOfBoxes 20 ["Pair<User,User>", "Box<User>"]).map
        (·.map fun met => met.map fun inst => inst.definition.name) =
      some (.ok ["Pair<User, User>", "Box<User>", "Box<User>", "Box<User>"]) ∧
    discoverAfresh 20 pairOfBoxes ["Pair<User,User>", "Box<User>"] = some (.ok pairOfBoxesOut) ∧
      discover 20 pairOfBoxes ["Pair<User,User>", "Box<User>"] = some (.ok pairOfBoxesOut) := by
  have ended : discoverAfresh 20 pairOfBoxes ["Pair<User,User>", "Box<User>"] =
      some (.ok pairOfBoxesOut) := by
    decide +kernel
  exact ⟨by decide +kernel, ended, discover_eq_discoverAfresh ended⟩

end ApiSchema
