import ApiSchema.Proofs.Generic.Demand
import Mathlib.Data.List.Perm.Subperm

set_option autoImplicit false

namespace ApiSchema

section Reordered

variable {definitions reordered : List Definition} {used : List Text}

theorem plainDefinitions_perm (same : definitions.Perm reordered) :
    (plainDefinitions definitions).Perm (plainDefinitions reordered) :=
  same.filter _

theorem names_perm (same : definitions.Perm reordered)
    (distinct : (definitions.map (·.name)).Nodup) : (reordered.map (·.name)).Nodup :=
  (same.map _).nodup_iff.mp distinct

theorem Requires.perm (same : definitions.Perm reordered) {type name : Text}
    (requires : Requires definitions type name) : Requires reordered type name := by
  obtain ⟨expr, read, refers, apart⟩ := requires
  exact ⟨expr, read, refers, fun definition member => apart definition (same.mem_iff.mpr member)⟩

/-- Fewer types in use require no more. -/
theorem Required.perm (same : definitions.Perm reordered) {others : List Text}
    (fewer : used ⊆ others) {name : Text} (required : Required definitions used name) :
    Required reordered others name := by
  induction required with
  | used inUse requires => exact .used (fewer inUse) (requires.perm same)
  | property _ instanceOf declared field requires ih =>
      exact .property ih instanceOf (same.mem_iff.mp declared) field (requires.perm same)
  | argument _ instanceOf given requires ih =>
      exact .argument ih instanceOf given (requires.perm same)

theorem Instance.Made.perm (same : definitions.Perm reordered) {inst : Instance}
    (made : inst.Made definitions) : inst.Made reordered := by
  obtain ⟨template, declared, shape⟩ := made
  exact ⟨template, same.mem_iff.mp declared, shape⟩

theorem Settled.perm {emitted others : List Definition} (same : emitted.Perm others) {type : Text}
    (settled : Settled emitted type) : Settled others type :=
  settled.mono same.subset

end Reordered

section Definitions

variable {definitions reordered : List Definition}

theorem find?_perm (same : definitions.Perm reordered)
    (distinct : (definitions.map (·.name)).Nodup) (name : Text) :
    (definitions.find? fun definition => definition.name = name) =
      reordered.find? fun definition => definition.name = name := by
  cases found : definitions.find? fun definition => definition.name = name with
  | none =>
      have absent := List.find?_eq_none.mp found
      refine (List.find?_eq_none.mpr fun definition member => ?_).symm
      exact absent definition (same.mem_iff.mpr member)
  | some definition =>
      have member := same.mem_iff.mp (List.mem_of_find?_eq_some found)
      have named : definition.name = name := by simpa using List.find?_some found
      subst named
      exact (find?_name (names_perm same distinct) member).symm

/-- A definition is found by its name, wherever it stands. -/
theorem demand_perm (same : definitions.Perm reordered)
    (distinct : (definitions.map (·.name)).Nodup) {emitted others : List Definition}
    (written : emitted.Perm others) (type : Text) :
    demand definitions emitted type = demand reordered others type := by
  by_cases settled : Settled emitted type
  · rw [demand_settled settled, demand_settled (settled.perm written)]
  · have unsettled : ¬ Settled others type := fun other => settled (other.perm written.symm)
    rw [demand_unsettled settled, demand_unsettled unsettled]
    simp only [demand, find?_perm same distinct]

theorem written_perm (same : definitions.Perm reordered) (known : List Instance) :
    (written definitions known).Perm (written reordered known) :=
  (plainDefinitions_perm same).append_right _

/-- With the definitions in another order a run writes out the same instances in the same order. -/
theorem run_perm (same : definitions.Perm reordered)
    (distinct : (definitions.map (·.name)).Nodup) {limit : Nat} {known : List Instance}
    {pending : List Text} {out : List Definition}
    (finished : Discovery.run definitions limit ⟨written definitions known, pending⟩ =
      some (.ok out)) :
    ∃ all, out = written definitions all ∧
      Discovery.run reordered limit ⟨written reordered known, pending⟩ =
        some (.ok (written reordered all)) := by
  induction limit generalizing known pending with
  | zero =>
      cases pending with
      | nil =>
          rw [Discovery.run_nil] at finished
          cases finished
          exact ⟨known, rfl, Discovery.run_nil⟩
      | cons type rest => cases finished
  | succ limit ih =>
      cases pending with
      | nil =>
          rw [Discovery.run_nil] at finished
          cases finished
          exact ⟨known, rfl, Discovery.run_nil⟩
      | cons type rest =>
          have alike := demand_perm same distinct (written_perm same known) type
          cases asked : demand definitions (written definitions known) type with
          | error error =>
              rw [Discovery.run_error asked] at finished
              cases finished
          | ok asks =>
              rw [asked] at alike
              cases asks with
              | none =>
                  rw [Discovery.run_none asked] at finished
                  rw [Discovery.run_none alike.symm]
                  exact ih finished
              | some inst =>
                  rw [Discovery.run_some asked, written_append] at finished
                  rw [Discovery.run_some alike.symm, written_append]
                  exact ih finished

end Definitions

section Types

variable {definitions reordered : List Definition} {used others : List Text}
  {all instances : List Instance} {out : List Definition}

/-- What any run writes out for some of the types in use, a finished run has written out. -/
theorem Progress.subset_finished (done : Progress definitions used all ⟨out, []⟩)
    (distinct : (definitions.map (·.name)).Nodup) (same : definitions.Perm reordered)
    (fewer : others ⊆ used) {state : Discovery}
    (progress : Progress reordered others instances state) : instances ⊆ all := by
  intro inst member
  have required := (progress.required inst member).perm same.symm fewer
  obtain ⟨other, inside, named⟩ := done.complete distinct required
  have made := (progress.made inst member).perm same.symm
  rwa [← (done.made other inside).eq_of_name distinct made named]

theorem Progress.nodup {state : Discovery}
    (progress : Progress definitions used instances state) : instances.Nodup := by
  have names := progress.distinct
  rw [progress.emitted, List.map_append, List.nodup_append', List.map_map] at names
  exact names.2.1.of_map _

theorem Progress.length_le (done : Progress definitions used all ⟨out, []⟩)
    (distinct : (definitions.map (·.name)).Nodup) (same : definitions.Perm reordered)
    (fewer : others ⊆ used) {state : Discovery}
    (progress : Progress reordered others instances state) : instances.length ≤ all.length :=
  (progress.nodup.subperm (done.subset_finished distinct same fewer progress)).length_le

/-- A text on which a finished run has met no error gives none in another run. -/
theorem Progress.demand_ok (done : Progress definitions used all ⟨out, []⟩)
    (distinct : (definitions.map (·.name)).Nodup) (same : definitions.Perm reordered)
    {emitted : List Definition} (plain : plainDefinitions reordered ⊆ emitted) {type : Text}
    (settled : Settled out type) : ∃ asks, demand reordered emitted type = .ok asks := by
  by_cases present : Settled emitted type
  · exact ⟨none, demand_settled present⟩
  obtain ⟨expr, read, named⟩ := settled
  cases refers : expr.reference? with
  | none => exact absurd ⟨expr, read, by simp [refers]⟩ present
  | some name =>
      obtain ⟨definition, member, rfl⟩ := named name refers
      rw [show out = _ from done.emitted] at member
      rcases List.mem_append.mp member with old | new
      · refine absurd ⟨expr, read, ?_⟩ present
        intro other again
        rw [refers, Option.some.injEq] at again
        exact ⟨definition, plain ((plainDefinitions_perm same).subset old), again⟩
      · obtain ⟨inst, inside, rfl⟩ := List.mem_map.mp new
        have made := (done.made inst inside).perm same
        exact ⟨some inst, by
          rw [demand_unsettled present, made.demand (names_perm same distinct) read refers]⟩

/-- Where one run has come to its end, a run in any other order comes to an end without error. The
induction is on the number of instances still to be written out, and then on the pending texts. -/
theorem Progress.finishes (done : Progress definitions used all ⟨out, []⟩)
    (distinct : (definitions.map (·.name)).Nodup) (same : definitions.Perm reordered)
    (fewer : others ⊆ used) {state : Discovery}
    (progress : Progress reordered others instances state) :
    ∃ limit result, Discovery.run reordered limit state = some (.ok result) := by
  induction room : all.length - instances.length using Nat.strongRecOn
    generalizing instances state with
  | ind room ih =>
      obtain ⟨emitted, pending⟩ := state
      induction pending with
      | nil => exact ⟨0, emitted, Discovery.run_nil⟩
      | cons type rest rest_ih =>
          have asked : Asked used all type := by
            rcases progress.pending type (by simp) with inUse | ⟨inst, member, needed⟩
            · exact Or.inl (fewer inUse)
            · exact Or.inr
                ⟨inst, done.subset_finished distinct same fewer progress member, needed⟩
          obtain ⟨asks, demanded⟩ :=
            done.demand_ok distinct same progress.plain (done.settled asked)
          cases asks with
          | none =>
              obtain ⟨limit, result, ended⟩ := rest_ih (progress.skip demanded)
              exact ⟨limit + 1, result, by rw [Discovery.run_none demanded, ended]⟩
          | some inst =>
              have grown := progress.emit demanded
              have bound := done.length_le distinct same fewer grown
              rw [List.length_append, List.length_singleton] at bound
              obtain ⟨limit, result, ended⟩ := ih (all.length - (instances ++ [inst]).length)
                (by simp; omega) grown rfl
              exact ⟨limit + 1, result, by rw [Discovery.run_some demanded, ended]⟩

/-- Finished runs with the same types in use have written out the same instances. -/
theorem Progress.perm_finished (done : Progress definitions used all ⟨out, []⟩)
    (distinct : (definitions.map (·.name)).Nodup) (same : definitions.Perm reordered)
    (types : used.Perm others) {result : List Definition}
    (progress : Progress reordered others instances ⟨result, []⟩) : all.Perm instances := by
  refine (List.perm_ext_iff_of_nodup done.nodup progress.nodup).mpr fun inst => ⟨?_, ?_⟩
  · intro member
    exact progress.subset_finished (names_perm same distinct) same.symm types.subset done member
  · intro member
    exact done.subset_finished distinct same types.symm.subset progress member

end Types

/-- The order of the definitions and of the types in use is no more than an order. If the discovery
comes to a result in one order, it does so in every other, with the same definitions. The instances
stay in their places if the types in use do, and the definitions without parameters stay in theirs
if the definitions do. -/
theorem discover_perm {limit : Nat} {definitions reordered : List Definition}
    {used others : List Text} {out : List Definition}
    (finished : discover limit definitions used = some (.ok out))
    (same : definitions.Perm reordered) (types : used.Perm others) :
    ∃ enough result, discover enough reordered others = some (.ok result) ∧ out.Perm result ∧
      (others = used → result.drop (plainDefinitions reordered).length =
        out.drop (plainDefinitions definitions).length) ∧
      (reordered = definitions → result.take (plainDefinitions reordered).length =
        out.take (plainDefinitions definitions).length) := by
  obtain ⟨distinct, all, done⟩ := discover_progress finished
  by_cases unmoved : others = used
  · subst unmoved
    rw [discover_eq_run distinct] at finished
    obtain ⟨known, rfl, ended⟩ := run_perm same distinct finished
    rw [← discover_eq_run (names_perm same distinct)] at ended
    refine ⟨limit, _, ended, written_perm same known, fun _ => ?_, fun unchanged => ?_⟩
    · rw [written_drop, written_drop]
    · rw [written_take, written_take, unchanged]
  · have names := names_perm same distinct
    have start : Progress reordered others [] (.start reordered others) := Progress.start names
    obtain ⟨enough, result, ended⟩ := done.finishes distinct same types.symm.subset start
    obtain ⟨known, progress⟩ := start.run ended
    have instances := done.perm_finished distinct same types progress
    have out_eq : out = written definitions all := done.emitted
    have result_eq : result = written reordered known := progress.emitted
    refine ⟨enough, result, ?_, ?_, fun moved => absurd moved unmoved, fun unchanged => ?_⟩
    · rw [discover_eq_run names, written, List.map_nil, List.append_nil]
      exact ended
    · rw [out_eq, result_eq]
      exact (plainDefinitions_perm same).append (instances.map _)
    · rw [out_eq, result_eq, written_take, written_take, unchanged]

/-- A box of anything and two things, with the box between them. -/
def twoThings : List Definition :=
  [{ name := "User" },
    { name := "Box", params := ["«T»"], properties := [{ name := "value", type := "«T»[]" }] },
    { name := "Team" }]

def twoThingsOut : List Definition :=
  [{ name := "User" }, { name := "Team" },
    { name := "Box<User>", properties := [{ name := "value", type := "User[]" }] },
    { name := "Box<Team>", properties := [{ name := "value", type := "Team[]" }] }]

/-- With the things and the boxes the other way round, both parts come in another order. -/
theorem discover_perm_boxes :
    discover 20 twoThings ["Box<User>", "Box<Team>"] = some (.ok twoThingsOut) ∧
      twoThings.Perm twoThings.reverse ∧
      (["Box<User>", "Box<Team>"] : List Text).Perm ["Box<Team>", "Box<User>"] ∧
      ∃ enough result,
        discover enough twoThings.reverse ["Box<Team>", "Box<User>"] = some (.ok result) ∧
          twoThingsOut.Perm result := by
  have finished : discover 20 twoThings ["Box<User>", "Box<Team>"] = some (.ok twoThingsOut) := by
    decide +kernel
  have same : twoThings.Perm twoThings.reverse := (List.reverse_perm twoThings).symm
  have types : (["Box<User>", "Box<Team>"] : List Text).Perm ["Box<Team>", "Box<User>"] :=
    .swap _ _ []
  obtain ⟨enough, result, ended, alike, -, -⟩ := discover_perm finished same types
  exact ⟨finished, same, types, enough, result, ended, alike⟩

end ApiSchema
