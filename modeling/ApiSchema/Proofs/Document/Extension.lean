import ApiSchema.Proofs.Generic.Order
import ApiSchema.Proofs.Document.Failures

set_option autoImplicit false

namespace ApiSchema

section Definitions

variable {definitions more emitted : List Definition}

theorem plainDefinitions_append (generic : ∀ definition ∈ more, definition.isGeneric = true) :
    plainDefinitions (definitions ++ more) = plainDefinitions definitions := by
  have none_plain : plainDefinitions more = [] :=
    List.filter_eq_nil_iff.mpr fun definition member => by simp [generic definition member]
  rw [plainDefinitions, List.filter_append]
  change plainDefinitions definitions ++ plainDefinitions more = _
  rw [none_plain, List.append_nil]

/-- A text that asks for something finds its definition, and then it finds the same one when other
definitions stand behind. -/
theorem demand_append {type : Text} {asks : Option Instance}
    (asked : demand definitions emitted type = .ok asks) :
    demand (definitions ++ more) emitted type = .ok asks := by
  unfold demand at asked ⊢
  split at asked
  · cases asked
  · next expr read =>
    split at asked
    · next source name args inner =>
      dsimp only at asked ⊢
      split at asked
      · next present => rw [if_pos present, asked]
      · next absent =>
        rw [if_neg absent]
        split at asked
        · cases asked
        · next template found =>
          rw [List.find?_append, found]
          exact asked
    · exact asked

theorem run_append {limit : Nat} {state : Discovery} {out : List Definition}
    (finished : Discovery.run definitions limit state = some (.ok out)) :
    Discovery.run (definitions ++ more) limit state = some (.ok out) := by
  induction limit generalizing state with
  | zero =>
      obtain ⟨emitted, pending⟩ := state
      cases pending with
      | nil => rwa [Discovery.run_nil] at finished ⊢
      | cons type rest => cases finished
  | succ limit ih =>
      obtain ⟨emitted, pending⟩ := state
      cases pending with
      | nil => rwa [Discovery.run_nil] at finished ⊢
      | cons type rest =>
          cases asked : demand definitions emitted type with
          | error error =>
              rw [Discovery.run_error asked] at finished
              cases finished
          | ok asks =>
              have again : demand (definitions ++ more) emitted type = .ok asks :=
                demand_append asked
              cases asks with
              | none =>
                  rw [Discovery.run_none asked] at finished
                  rw [Discovery.run_none again]
                  exact ih finished
              | some inst =>
                  rw [Discovery.run_some asked] at finished
                  rw [Discovery.run_some again]
                  exact ih finished

/-- Definitions with parameters and with new names take no part in a discovery that ends well
without them. -/
theorem discover_append {limit : Nat} {used : List Text} {out : List Definition}
    (finished : discover limit definitions used = some (.ok out))
    (generic : ∀ definition ∈ more, definition.isGeneric = true)
    (distinct : ((definitions ++ more).map (·.name)).Nodup) :
    discover limit (definitions ++ more) used = some (.ok out) := by
  have names : (definitions.map (·.name)).Nodup := (discover_progress finished).1
  rw [discover_eq_run names] at finished
  rw [discover_eq_run distinct, written, plainDefinitions_append generic]
  exact run_append finished

end Definitions

/-- What is written out for some types in use is written out for more of them as well. -/
theorem discover_mono_used {limit enough : Nat} {definitions out grown : List Definition}
    {used others : List Text} (finished : discover limit definitions used = some (.ok out))
    (finished_too : discover enough definitions others = some (.ok grown))
    (fewer : used ⊆ others) : out ⊆ grown := by
  obtain ⟨distinct, instances, progress⟩ := discover_progress finished
  obtain ⟨-, all, done⟩ := discover_progress finished_too
  have inside : instances ⊆ all := done.subset_finished distinct (.refl definitions) fewer progress
  rw [show out = _ from progress.emitted, show grown = _ from done.emitted]
  exact List.append_subset.mpr ⟨List.subset_append_left _ _,
    List.subset_append_of_subset_right _ (List.map_subset _ inside)⟩

/-- A discovery begins with the definitions without parameters. -/
theorem discover_take {limit : Nat} {definitions out : List Definition} {used : List Text}
    (finished : discover limit definitions used = some (.ok out)) :
    out.take (plainDefinitions definitions).length = plainDefinitions definitions := by
  obtain ⟨-, instances, progress⟩ := discover_progress finished
  rw [show out = _ from progress.emitted]
  exact List.take_left

namespace Document

theorem usedTypes_addDefinition {document : Document} {definition : Definition}
    (generic : definition.isGeneric = true) :
    (document.addDefinition definition).usedTypes = document.usedTypes := by
  simp [usedTypes, typeTexts, addDefinition, generic]

theorem usedTypes_addOperation (document : Document) (operation : Operation) :
    document.usedTypes ⊆ (document.addOperation operation).usedTypes := by
  intro type member
  obtain ⟨source, used, rfl⟩ := List.mem_map.mp (List.mem_eraseDups.mp member)
  refine List.mem_eraseDups.mpr (List.mem_map_of_mem ?_)
  rcases List.mem_append.mp used with earlier | field
  · refine List.mem_append_left _ ?_
    rw [addOperation, List.flatMap_append]
    exact List.mem_append_left _ earlier
  · exact List.mem_append_right _ field

/-- A document that resolves goes on to do so while it grows. One more definition with parameters
that can be prepared, under a new name, leaves all that is written out as it is. One more operation,
if the document still resolves with it, leaves the definitions without parameters in their places
at the head, and everything that was written out before is written out again just as it was. -/
theorem resolve_extended {limit : Nat} {document : Document} {out : List Definition}
    (resolved : document.resolve limit = some (.ok out)) :
    (∀ definition ready : Definition, definition.isGeneric = true →
      definition.prepare = .ok ready →
      (∀ other ∈ document.definitions, other.name ≠ definition.name) →
      (document.addDefinition definition).resolve limit = some (.ok out)) ∧
    ∀ (operation : Operation) (enough : Nat) (grown : List Definition),
      (document.addOperation operation).resolve enough = some (.ok grown) →
      grown.take (plainDefinitions document.definitions).length =
          out.take (plainDefinitions document.definitions).length ∧
        out ⊆ grown := by
  obtain ⟨checked, prepared, done, finished⟩ := resolve_eq_ok_iff.mp resolved
  constructor
  · intro definition ready generic prepares fresh
    have distinct : ((prepared ++ [ready]).map (·.name)).Nodup := by
      rw [List.map_append, List.map_singleton]
      refine List.Nodup.append (discover_progress finished).1 (List.nodup_singleton _) ?_
      intro name old new
      obtain ⟨other, member, rfl⟩ := List.mem_map.mp old
      obtain ⟨authored, declared, prepares_too⟩ := Definition.exists_authored done member
      refine fresh authored declared ?_
      rw [← Definition.prepare_name prepares_too, ← Definition.prepare_name prepares]
      exact List.mem_singleton.mp new
    have ready_generic : ∀ other ∈ [ready], other.isGeneric = true := by
      intro other member
      rw [List.mem_singleton.mp member, Definition.prepare_isGeneric prepares, generic]
    refine resolve_eq_ok_iff.mpr ⟨?_, prepared ++ [ready], ?_, ?_⟩
    · rw [usedTypes_addDefinition generic, checked]
    · simp [addDefinition, done, prepares]
    · rw [usedTypes_addDefinition generic]
      exact discover_append finished ready_generic distinct
  · intro operation enough grown resolved_too
    obtain ⟨again, done_too, finished_too⟩ := resolve_eq_ok resolved_too
    have same : prepared = again :=
      List.map_injective_iff.mpr (fun _ _ => Except.ok.inj) (done.symm.trans done_too)
    subst same
    have heads : (plainDefinitions prepared).length =
        (plainDefinitions document.definitions).length := by
      rw [Definition.plainDefinitions_prepared done, List.length_map]
    rw [← heads, discover_take finished, discover_take finished_too]
    have covered := usedTypes_addOperation document operation
    exact ⟨rfl, discover_mono_used finished finished_too covered⟩

/-- Pages of users, in use inside a result. -/
def pagedUsers : Document :=
  oneUse "Result<Page<User>>"
    [{ name := "User", properties := [{ name := "pets", type := "Page<Pet>" }] },
      { name := "Pet" },
      { name := "Page", params := ["T"], properties := [{ name := "items", type := "T[]" }] },
      { name := "Result", params := ["T"], properties := [{ name := "data", type := "T" }] }]

def pagedUsersOut : List Definition :=
  [{ name := "User", properties := [{ name := "pets", type := "Page<Pet>" }] }, { name := "Pet" },
    { name := "Result<Page<User>>", properties := [{ name := "data", type := "Page<User>" }] },
    { name := "Page<User>", properties := [{ name := "items", type := "User[]" }] },
    { name := "Page<Pet>", properties := [{ name := "items", type := "Pet[]" }] }]

/-- A definition that nothing asks for; its property asks for a page of pages. -/
def unusedBook : Definition :=
  { name := "Book", params := ["T"], properties := [{ name := "pages", type := "Page<Page<T>>" }] }

/-- An operation that uses a page of pets, which until now only a property asked for. -/
def listPets : Operation :=
  { id := "pets", method := .get, path := "/pets",
    params := [{ name := "filter", place := .query, type := "Result<Pet>" }],
    responses := [{ status := 200, type := some " Page< Pet >" }] }

/-- With the new operation a result comes before the page of pets. -/
def petsListedOut : List Definition :=
  pagedUsersOut.take 4 ++
    [{ name := "Result<Pet>", properties := [{ name := "data", type := "Pet" }] },
      { name := "Page<Pet>", properties := [{ name := "items", type := "Pet[]" }] }]

theorem resolve_extended_pages :
    pagedUsers.resolve 20 = some (.ok pagedUsersOut) ∧
      (∃ ready, unusedBook.prepare = .ok ready) ∧
      (pagedUsers.addDefinition unusedBook).resolve 20 = some (.ok pagedUsersOut) ∧
      (pagedUsers.addOperation listPets).resolve 20 = some (.ok petsListedOut) ∧
      pagedUsersOut ⊆ petsListedOut := by
  have resolved : pagedUsers.resolve 20 = some (.ok pagedUsersOut) := by decide +kernel
  have prepares : unusedBook.prepare = .ok
      { name := "Book", params := ["«T»"],
        properties := [{ name := "pages", type := "Page<Page<«T»>>" }] } := by decide +kernel
  have resolved_too : (pagedUsers.addOperation listPets).resolve 20 =
      some (.ok petsListedOut) := by decide +kernel
  obtain ⟨unused, grows⟩ := resolve_extended resolved
  have fresh : ∀ other ∈ pagedUsers.definitions, other.name ≠ unusedBook.name := by decide
  exact ⟨resolved, ⟨_, prepares⟩, unused _ _ (by decide) prepares fresh, resolved_too,
    (grows _ _ _ resolved_too).2⟩

end Document

end ApiSchema
