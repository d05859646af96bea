import ApiSchema.Proofs.Generic.Spacing
import ApiSchema.Proofs.Generic.Progress
import ApiSchema.Document.Resolution
import Mathlib.Data.List.Forall2

set_option autoImplicit false

namespace ApiSchema

open TypeExpr (parse parseFragment isTypeName)

theorem map_eq_map_iff {α β γ : Type} {f : α → γ} {g : β → γ} {left : List α} {right : List β} :
    left.map f = right.map g ↔ List.Forall₂ (fun x y => f x = g y) left right := by
  rw [← List.forall₂_eq_eq_eq, List.forall₂_map_left_iff, List.forall₂_map_right_iff]

namespace Generic

theorem mapM_eq_ok_iff {α β ε : Type} {f : α → Except ε β} {items : List α} {results : List β} :
    items.mapM f = .ok results ↔ items.map f = results.map .ok := by
  induction items generalizing results with
  | nil => cases results <;> simp [pure, Except.pure]
  | cons item items ih =>
      rw [List.mapM_cons]
      cases first : f item with
      | error error => cases results <;> simp [bind, Except.bind, first]
      | ok result =>
          cases rest : items.mapM f with
          | error error => cases results <;> simp [bind, Except.bind, ← ih, rest, first]
          | ok more =>
              cases results <;> simp [bind, Except.bind, pure, Except.pure, ← ih, rest, first]

theorem exists_of_map_eq_ok {α β ε : Type} {f : α → Except ε β} {items : List α}
    {results : List β} (done : items.map f = results.map .ok) {result : β}
    (member : result ∈ results) : ∃ item ∈ items, f item = .ok result := by
  have image : (.ok result : Except ε β) ∈ items.map f := by
    rw [done]
    exact List.mem_map_of_mem member
  exact List.mem_map.mp image

theorem parameterFlaw?_eq_none {name : Text} (fit : TypeExpr.parameterFlaw? name = none) :
    isTypeName name = true := by
  unfold TypeExpr.parameterFlaw? at fit
  split at fit
  · cases fit
  · next word =>
    split at fit
    · cases fit
    · next free =>
      rw [isTypeName]
      simpa using And.intro word free

theorem parameterFlaw?_of_typeName {name : Text} (word : isTypeName name = true) :
    TypeExpr.parameterFlaw? name = none := by
  simp only [isTypeName, Bool.and_eq_true, Bool.not_eq_true'] at word
  simp [TypeExpr.parameterFlaw?, word.1, word.2]

theorem nodup_eraseDups (names : List Text) : names.eraseDups.Nodup := by
  induction size : names.length using Nat.strongRecOn generalizing names with
  | ind size ih =>
      cases names with
      | nil => exact List.nodup_nil
      | cons name rest =>
          have shorter := List.length_filter_le (fun other => !other == name) rest
          rw [List.eraseDups_cons, List.nodup_cons]
          constructor
          · intro again
            simpa using (List.mem_filter.mp (List.mem_eraseDups.mp again)).2
          · exact ih _ (by rw [← size, List.length_cons]; omega) _ rfl

theorem eraseDups_of_nodup {names : List Text} (distinct : names.Nodup) :
    names.eraseDups = names := by
  induction names with
  | nil => rfl
  | cons name rest ih =>
      rw [List.nodup_cons] at distinct
      have others : rest.filter (fun other => !other == name) = rest := by
        refine List.filter_eq_self.mpr fun other member => ?_
        have apart : other ≠ name := fun same => distinct.1 (same ▸ member)
        simpa using apart
      rw [List.eraseDups_cons, others, ih distinct.2]

/-- The parameters are the distinct bare names that are not yet seen, all of them type names. -/
theorem distinctParams_eq_ok {definition : Text} {seen declared params : List Text}
    (distinct : distinctParams definition seen declared = .ok params) :
    params = ((declared.map bareName).filter fun name => !seen.contains name).eraseDups ∧
      ∀ param ∈ params, isTypeName param = true := by
  induction declared generalizing seen params with
  | nil =>
      cases distinct
      exact ⟨rfl, by simp⟩
  | cons first rest ih =>
      rw [distinctParams] at distinct
      split at distinct
      · next old =>
        obtain ⟨same, words⟩ := ih distinct
        refine ⟨?_, words⟩
        rw [same, List.map_cons, List.filter_cons_of_neg (by simpa using old)]
      · next fresh =>
        split at distinct
        · cases distinct
        · next fit =>
          cases tail : distinctParams definition (bareName first :: seen) rest with
          | error error => simp [tail, Except.map] at distinct
          | ok more =>
              rw [tail] at distinct
              cases distinct
              obtain ⟨same, words⟩ := ih tail
              constructor
              · rw [List.map_cons, List.filter_cons_of_pos (by simpa using fresh),
                  List.eraseDups_cons, List.filter_filter, same]
                congr 3
                funext name
                simp [Bool.and_comm, Bool.beq_eq_decide_eq]
              · intro param member
                rcases List.mem_cons.mp member with rfl | member
                · exact parameterFlaw?_eq_none fit
                · exact words param member

/-- Declared parameters whose bare names are type names are accepted. -/
theorem exists_distinctParams {declared : List Text}
    (words : ∀ name ∈ declared, isTypeName (bareName name) = true) (definition : Text)
    (seen : List Text) : ∃ params, distinctParams definition seen declared = .ok params := by
  induction declared generalizing seen with
  | nil => exact ⟨[], rfl⟩
  | cons first rest ih =>
      have tail := ih fun name member => words name (by simp [member])
      rw [distinctParams]
      split
      · exact tail seen
      · obtain ⟨more, done⟩ := tail (bareName first :: seen)
        rw [parameterFlaw?_of_typeName (words first (by simp)), done]
        exact ⟨_, rfl⟩

theorem checkTypes_eq_ok {params : List Text} {properties : List Property}
    (checked : checkTypes params properties = .ok ()) :
    ∀ property ∈ properties,
      TypeExpr.checkFragment (bareType params property.type) = .ok () := by
  induction properties with
  | nil => simp
  | cons first rest ih =>
      rw [checkTypes] at checked
      split at checked
      · cases checked
      · next fit =>
        intro property member
        rcases List.mem_cons.mp member with rfl | member
        · exact fit
        · exact ih checked property member

theorem checkTypes_ok {params : List Text} {properties : List Property}
    (checked : ∀ property ∈ properties,
      TypeExpr.checkFragment (bareType params property.type) = .ok ()) :
    checkTypes params properties = .ok () := by
  induction properties with
  | nil => rfl
  | cons first rest ih =>
      rw [checkTypes, checked first (by simp)]
      exact ih fun property member => checked property (by simp [member])

theorem checkFinders_eq_ok_iff {refusal? : Text → Option Text} {definition : Text}
    {params : List Text} :
    checkFinders refusal? definition params = .ok () ↔ ∀ param ∈ params, refusal? param = none := by
  induction params with
  | nil => simp [checkFinders]
  | cons first rest ih =>
      rw [checkFinders, List.forall_mem_cons]
      cases refused : refusal? first with
      | some reason => simp
      | none => simpa using ih

end Generic

namespace Definition

open Generic

variable {refusal? : Text → Option Text}

/-- A prepared definition is the same but for its parameters, which are distinct and marked, and its
property types, where they are marked as well. -/
theorem prepareWith_eq_ok {definition prepared : Definition}
    (done : definition.prepareWith refusal? = .ok prepared) :
    ∃ params, params = (definition.params.map bareName).eraseDups ∧
      (∀ param ∈ params, isTypeName param = true) ∧
      (∀ property ∈ definition.properties,
        TypeExpr.checkFragment (bareType params property.type) = .ok ()) ∧
      (∀ param ∈ params, refusal? param = none) ∧
      prepared = { definition.mapTypes (markedType params) with params := params.map mark } := by
  unfold prepareWith at done
  split at done
  · cases done
  · next params distinct =>
    split at done
    · cases done
    · next checked =>
      split at done
      · cases done
      · next found =>
        obtain ⟨same, words⟩ := distinctParams_eq_ok distinct
        refine ⟨params, ?_, words, checkTypes_eq_ok checked, checkFinders_eq_ok_iff.mp found,
          (Except.ok.inj done).symm⟩
        rw [same, List.filter_eq_self.mpr (by simp)]

/-- A definition whose parameters are type names with tokens that can be looked for, and whose
property types are type expressions without the marks of the parameters, can be prepared. -/
theorem prepareWith_ok {definition : Definition} {params : List Text}
    (distinct : params = (definition.params.map bareName).eraseDups)
    (words : ∀ param ∈ params, isTypeName param = true)
    (checked : ∀ property ∈ definition.properties,
      TypeExpr.checkFragment (bareType params property.type) = .ok ())
    (findable : ∀ param ∈ params, refusal? param = none) :
    definition.prepareWith refusal? =
      .ok { definition.mapTypes (markedType params) with params := params.map mark } := by
  have declared : ∀ name ∈ definition.params, isTypeName (bareName name) = true := by
    intro name member
    refine words _ ?_
    rw [distinct, List.mem_eraseDups]
    exact List.mem_map_of_mem member
  obtain ⟨found, done⟩ := exists_distinctParams declared definition.name []
  have same := (distinctParams_eq_ok done).1
  rw [List.filter_eq_self.mpr (by simp), ← distinct] at same
  subst same
  simp only [prepareWith, done, checkTypes_ok checked, checkFinders_eq_ok_iff.mpr findable]

theorem prepare_name {definition prepared : Definition}
    (done : definition.prepare = .ok prepared) : prepared.name = definition.name := by
  obtain ⟨params, -, -, -, -, rfl⟩ := prepareWith_eq_ok done
  rfl

theorem prepare_isGeneric {definition prepared : Definition}
    (done : definition.prepare = .ok prepared) : prepared.isGeneric = definition.isGeneric := by
  obtain ⟨params, same, -, -, -, rfl⟩ := prepareWith_eq_ok done
  subst same
  cases declared : definition.params with
  | nil => simp [isGeneric, declared]
  | cons first rest => simp [isGeneric, declared, List.eraseDups_cons]

/-- Of a definition without parameters only the commas in its types change. -/
theorem prepare_plain {definition prepared : Definition}
    (done : definition.prepare = .ok prepared) (plain : definition.isGeneric = false) :
    prepared = definition.mapTypes spaceCommas := by
  obtain ⟨params, same, -, -, -, rfl⟩ := prepareWith_eq_ok done
  have no_params : definition.params = [] := by simpa [isGeneric] using plain
  rw [no_params] at same
  subst same
  obtain ⟨name, description, declared, properties⟩ := definition
  cases no_params
  rfl

/-- Every prepared definition is one of those given. -/
theorem exists_authored {definitions prepared : List Definition}
    (done : definitions.map Definition.prepare = prepared.map .ok) {ready : Definition}
    (member : ready ∈ prepared) :
    ∃ definition ∈ definitions, definition.prepare = .ok ready :=
  Generic.exists_of_map_eq_ok done member

theorem exists_prepared {definitions prepared : List Definition}
    (done : definitions.map Definition.prepare = prepared.map .ok) {definition : Definition}
    (member : definition ∈ definitions) : ∃ ready ∈ prepared, definition.prepare = .ok ready := by
  have image := List.mem_map_of_mem (f := Definition.prepare) member
  rw [done] at image
  obtain ⟨ready, inside, same⟩ := List.mem_map.mp image
  exact ⟨ready, inside, same.symm⟩

theorem names_prepared {definitions prepared : List Definition}
    (done : definitions.map Definition.prepare = prepared.map .ok) :
    prepared.map (·.name) = definitions.map (·.name) := by
  have pairs := map_eq_map_iff.mp done
  exact (map_eq_map_iff.mpr (pairs.imp fun _ _ prepares => (prepare_name prepares).symm)).symm

/-- The definitions without parameters stay in their order, with spaced commas. -/
theorem plainDefinitions_prepared {definitions prepared : List Definition}
    (done : definitions.map Definition.prepare = prepared.map .ok) :
    plainDefinitions prepared = (plainDefinitions definitions).map (mapTypes spaceCommas) := by
  induction definitions generalizing prepared with
  | nil =>
      cases prepared with
      | nil => rfl
      | cons ready more => cases done
  | cons definition definitions ih =>
      cases prepared with
      | nil => cases done
      | cons ready more =>
          rw [List.map_cons, List.map_cons, List.cons.injEq] at done
          have tail := ih done.2
          have same := prepare_isGeneric done.1
          rw [plainDefinitions] at tail
          cases generic : definition.isGeneric with
          | true => simpa [plainDefinitions, same, generic] using tail
          | false =>
              have plain := prepare_plain done.1 generic
              simp only [plainDefinitions, List.filter_cons, same, generic, Bool.not_false,
                ↓reduceIte, List.map_cons, tail]
              rw [plain]

end Definition

namespace Document

/-- A document resolves when its types in use are accepted, all its definitions can be prepared, and
these are discovered from the types in use. -/
theorem resolve_eq_ok_iff {limit : Nat} {document : Document} {out : List Definition} :
    document.resolve limit = some (.ok out) ↔
      document.usedTypes.forM TypeExpr.check = .ok () ∧
        ∃ prepared, document.definitions.map Definition.prepare = prepared.map .ok ∧
          discover limit prepared document.usedTypes = some (.ok out) := by
  rw [resolve]
  cases checked : document.usedTypes.forM TypeExpr.check with
  | error error => simp
  | ok =>
      simp only [← Generic.mapM_eq_ok_iff]
      cases done : document.definitions.mapM Definition.prepare with
      | error error => simp
      | ok prepared => simp

theorem resolve_eq_ok {limit : Nat} {document : Document} {out : List Definition}
    (resolved : document.resolve limit = some (.ok out)) :
    ∃ prepared, document.definitions.map Definition.prepare = prepared.map .ok ∧
      discover limit prepared document.usedTypes = some (.ok out) :=
  (resolve_eq_ok_iff.mp resolved).2

end Document

end ApiSchema
