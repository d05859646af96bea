import ApiSchema.Proofs.Document.Failures
import ApiSchema.Proofs.TypeExpr.Writing
import Mathlib.Control.Monad.Basic

set_option autoImplicit false

namespace ApiSchema

open TypeExpr (Readable checkFragment isTypeName parameterFlaw?)

/-- `item` is the first of the items that is not fit. -/
def FirstUnfit {α : Type} (fit : α → Prop) (items : List α) (item : α) : Prop :=
  ∃ front back, items = front ++ item :: back ∧ (∀ earlier ∈ front, fit earlier) ∧ ¬ fit item

section FirstUnfit

variable {α : Type} {fit : α → Prop} {first item : α} {rest : List α}

theorem not_firstUnfit_nil : ¬ FirstUnfit fit [] item := by
  rintro ⟨front, back, whole, -⟩
  simp at whole

/-- The first item is the first unfit one itself, or it is fit and has no say. -/
theorem firstUnfit_cons : FirstUnfit fit (first :: rest) item ↔
    (¬ fit first ∧ item = first) ∨ (fit first ∧ FirstUnfit fit rest item) := by
  constructor
  · rintro ⟨front, back, whole, earlier, unfit⟩
    cases front with
    | nil =>
        rw [List.nil_append, List.cons.injEq] at whole
        obtain ⟨rfl, rfl⟩ := whole
        exact Or.inl ⟨unfit, rfl⟩
    | cons other front =>
        rw [List.cons_append, List.cons.injEq] at whole
        obtain ⟨rfl, rfl⟩ := whole
        exact Or.inr ⟨earlier first (by simp), front, back, rfl,
          fun other member => earlier other (by simp [member]), unfit⟩
  · rintro (⟨unfit, rfl⟩ | ⟨fits, front, back, rfl, earlier, unfit⟩)
    · exact ⟨[], rest, rfl, by simp, unfit⟩
    · exact ⟨first :: front, back, rfl, List.forall_mem_cons.mpr ⟨fits, earlier⟩, unfit⟩

theorem firstUnfit_cons_of_fit (fits : fit first) :
    FirstUnfit fit (first :: rest) item ↔ FirstUnfit fit rest item := by
  simp [firstUnfit_cons, fits]

/-- Where the first item is unfit, it is the one whose flaw is shown. -/
theorem exists_firstUnfit_cons {β : Type} {flawed shown : α → β → Prop} {flaw : β}
    (unfit : ¬ fit first) (found : ∀ other, flawed first other ↔ other = flaw) :
    (∃ item other, FirstUnfit fit (first :: rest) item ∧ flawed item other ∧ shown item other) ↔
      shown first flaw := by
  simp [firstUnfit_cons, unfit, found]

end FirstUnfit

namespace Generic

variable {definition : Text} {params : List Text} {error : SchemaError}

/-- A declaration can have this name, in marks or without. -/
def IsParamName (declared : Text) : Prop := isTypeName (bareName declared) = true

/-- The property's type can be read once the marks of the parameters are taken away. -/
def HoldsType (params : List Text) (property : Property) : Prop :=
  Readable (bareType params property.type)

/-- Occurrences of the parameter can be looked for. -/
def Findable (refusal? : Text → Option Text) (param : Text) : Prop := refusal? param = none

/-- The declaration is refused for the first name in it that no parameter can have. -/
theorem distinctParams_eq_error_iff {seen declared : List Text}
    (known : ∀ name ∈ seen, isTypeName name = true) :
    distinctParams definition seen declared = .error error ↔
      ∃ name flaw, FirstUnfit IsParamName declared name ∧
        parameterFlaw? (bareName name) = some flaw ∧
        error = .invalidParameter definition name flaw := by
  induction declared generalizing seen with
  | nil => simp [distinctParams, not_firstUnfit_nil]
  | cons first rest ih =>
      rw [distinctParams]
      by_cases old : bareName first ∈ seen
      · have fits : IsParamName first := known _ old
        rw [if_pos old, ih known]
        simp only [firstUnfit_cons_of_fit fits]
      · rw [if_neg old]
        cases flawed : parameterFlaw? (bareName first) with
        | none =>
            have fits : IsParamName first := parameterFlaw?_eq_none flawed
            have also : ∀ name ∈ bareName first :: seen, isTypeName name = true :=
              List.forall_mem_cons.mpr ⟨fits, known⟩
            simp only [firstUnfit_cons_of_fit fits, ← ih also]
            cases distinctParams definition (bareName first :: seen) rest <;> simp [Except.map]
        | some flaw =>
            have unfit : ¬ IsParamName first := fun fits => by
              rw [parameterFlaw?_of_typeName fits] at flawed
              cases flawed
            have found (other : ParameterFlaw) :
                parameterFlaw? (bareName first) = some other ↔ other = flaw := by
              simp [flawed, eq_comm]
            rw [Except.error.injEq, eq_comm]
            exact Iff.symm (exists_firstUnfit_cons unfit found)

theorem checkTypes_eq_ok_iff {properties : List Property} :
    checkTypes params properties = .ok () ↔ ∀ property ∈ properties, HoldsType params property := by
  constructor
  · intro checked property field
    exact TypeExpr.readable_iff.mpr (checkTypes_eq_ok checked property field)
  · intro types
    exact checkTypes_ok fun property field => TypeExpr.readable_iff.mp (types property field)

/-- The properties are refused for the first type that cannot be read without its marks. -/
theorem checkTypes_eq_error_iff {properties : List Property} :
    checkTypes params properties = .error error ↔
      ∃ property flaw, FirstUnfit (HoldsType params) properties property ∧
        checkFragment (bareType params property.type) = .error flaw ∧
        error = .invalidType property.type flaw := by
  induction properties with
  | nil => simp [checkTypes, not_firstUnfit_nil]
  | cons first rest ih =>
      rw [checkTypes]
      cases checked : checkFragment (bareType params first.type) with
      | ok done =>
          have fits : HoldsType params first := TypeExpr.readable_iff.mpr checked
          simp only [firstUnfit_cons_of_fit fits, ih]
      | error flaw =>
          have unfit : ¬ HoldsType params first := fun fits => by
            rw [TypeExpr.readable_iff.mp fits] at checked
            cases checked
          have found (other : TypeExpr.Flaw) :
              checkFragment (bareType params first.type) = .error other ↔ other = flaw := by
            simp [checked, eq_comm]
          rw [Except.error.injEq, eq_comm]
          exact Iff.symm (exists_firstUnfit_cons unfit found)

/-- The parameters are refused for the first of them whose token cannot be looked for. -/
theorem checkFinders_eq_error_iff {refusal? : Text → Option Text} :
    checkFinders refusal? definition params = .error error ↔
      ∃ param reason, FirstUnfit (Findable refusal?) params param ∧
        refusal? param = some reason ∧
        error = .invalidParameter definition param (.unfindable reason) := by
  induction params with
  | nil => simp [checkFinders, not_firstUnfit_nil]
  | cons first rest ih =>
      rw [checkFinders]
      cases refused : refusal? first with
      | none =>
          have fits : Findable refusal? first := refused
          simp only [firstUnfit_cons_of_fit fits, ih]
      | some reason =>
          have unfit : ¬ Findable refusal? first := by simp [Findable, refused]
          have found (other : Text) : refusal? first = some other ↔ other = reason := by
            simp [refused, eq_comm]
          rw [Except.error.injEq, eq_comm]
          exact Iff.symm (exists_firstUnfit_cons unfit found)

theorem bareName_typeName {name : Text} (word : isTypeName name = true) : bareName name = name := by
  have identifier := (TypeExpr.isTypeName_iff.mp word).1
  exact bareName_unmarked ⟨TypeExpr.isIdentifier_not_mem identifier (by decide),
    TypeExpr.isIdentifier_not_mem identifier (by decide)⟩

theorem finderRefusal?_of_overlong {name : Text} (long : 327619 < name.length) :
    finderRefusal? name =
      some ("Compiled regex exceeds size limit of 10485760 bytes." : Text) := by
  have above : finderLimit < finderSize name := by
    rw [finderLimit, finderSize]
    omega
  rw [finderRefusal?, if_pos above]
  decide +kernel

end Generic

namespace Definition

open Generic

variable {definition : Definition}

theorem bareParams_words : (∀ param ∈ definition.bareParams, isTypeName param = true) ↔
    ∀ declared ∈ definition.params, IsParamName declared := by
  simp [bareParams, IsParamName]

/-- The parameters that the property types are checked against are the distinct bare names. -/
theorem distinctParams_eq_bareParams {params : List Text}
    (distinct : distinctParams definition.name [] definition.params = .ok params) :
    params = definition.bareParams := by
  rw [(distinctParams_eq_ok distinct).1, List.filter_eq_self.mpr (by simp), bareParams]

theorem not_names_of_error {error : SchemaError}
    (failed : distinctParams definition.name [] definition.params = .error error) :
    ¬ ∀ declared ∈ definition.params, IsParamName declared := by
  intro names
  obtain ⟨params, done⟩ := exists_distinctParams names definition.name []
  rw [failed] at done
  cases done

/-- Parameters, properties and tokens are looked at in this order. -/
theorem prepareWith_eq_error_iff {refusal? : Text → Option Text} {error : SchemaError} :
    definition.prepareWith refusal? = .error error ↔
      distinctParams definition.name [] definition.params = .error error ∨
      ((∀ declared ∈ definition.params, IsParamName declared) ∧
        checkTypes definition.bareParams definition.properties = .error error) ∨
      ((∀ declared ∈ definition.params, IsParamName declared) ∧
        (∀ property ∈ definition.properties, HoldsType definition.bareParams property) ∧
        checkFinders refusal? definition.name definition.bareParams = .error error) := by
  cases distinct : distinctParams definition.name [] definition.params with
  | error refused => simp [prepareWith, distinct, not_names_of_error distinct]
  | ok params =>
      have same := distinctParams_eq_bareParams distinct
      subst same
      have names := bareParams_words.mp (distinctParams_eq_ok distinct).2
      simp only [and_iff_right names]
      cases checked : checkTypes definition.bareParams definition.properties with
      | error refused =>
          have unfit : ¬ ∀ property ∈ definition.properties,
              HoldsType definition.bareParams property := by
            rw [← checkTypes_eq_ok_iff, checked]
            simp
          simp [prepareWith, distinct, checked, unfit]
      | ok done =>
          have types := checkTypes_eq_ok_iff.mp checked
          simp only [and_iff_right types]
          cases found : checkFinders refusal? definition.name definition.bareParams with
          | error refused => simp [prepareWith, distinct, checked, found]
          | ok done => simp [prepareWith, distinct, checked, found]

/-- A definition can be prepared just if every declared name is a type name, in marks or without,
every property type can be read once the marks of the distinct parameters are taken away, and the
token of each of these can be looked for. Else the error is that of the first declared name that is
no type name or, if they all are, that of the first property type that cannot be read, each as it
was written; or, if all can be read, that of the first parameter whose token cannot be looked for,
which is shown bare. -/
theorem prepareWith_outcome (refusal? : Text → Option Text) (definition : Definition) :
    ((∃ ready, definition.prepareWith refusal? = .ok ready) ↔
      (∀ declared ∈ definition.params, IsParamName declared) ∧
        (∀ property ∈ definition.properties, HoldsType definition.bareParams property) ∧
        ∀ param ∈ definition.bareParams, Findable refusal? param) ∧
    ∀ error, definition.prepareWith refusal? = .error error ↔
      (∃ declared flaw, FirstUnfit IsParamName definition.params declared ∧
        parameterFlaw? (bareName declared) = some flaw ∧
        error = .invalidParameter definition.name declared flaw) ∨
      ((∀ declared ∈ definition.params, IsParamName declared) ∧
        ∃ property flaw,
          FirstUnfit (HoldsType definition.bareParams) definition.properties property ∧
          checkFragment (bareType definition.bareParams property.type) = .error flaw ∧
          error = .invalidType property.type flaw) ∨
      ((∀ declared ∈ definition.params, IsParamName declared) ∧
        (∀ property ∈ definition.properties, HoldsType definition.bareParams property) ∧
        ∃ param reason, FirstUnfit (Findable refusal?) definition.bareParams param ∧
          refusal? param = some reason ∧
          error = .invalidParameter definition.name param (.unfindable reason)) := by
  constructor
  · constructor
    · rintro ⟨ready, done⟩
      obtain ⟨params, rfl, words, checked, findable, -⟩ := prepareWith_eq_ok done
      exact ⟨bareParams_words.mp words, fun property field =>
        TypeExpr.readable_iff.mpr (checked property field), findable⟩
    · rintro ⟨names, types, findable⟩
      exact ⟨_, prepareWith_ok rfl (bareParams_words.mpr names) (fun property field =>
        TypeExpr.readable_iff.mp (types property field)) findable⟩
  · intro error
    rw [prepareWith_eq_error_iff, distinctParams_eq_error_iff (List.forall_mem_nil _),
      checkTypes_eq_error_iff, checkFinders_eq_error_iff]

/-- A single parameter that is too long is refused, although it is a type name. -/
theorem prepare_overlong {name parameter : Text} (word : isTypeName parameter = true)
    (long : 327619 < parameter.length) :
    ({ name, params := [parameter] } : Definition).prepare =
      .error (.invalidParameter name parameter
        (.unfindable "Compiled regex exceeds size limit of 10485760 bytes.")) := by
  have distinct : distinctParams name [] [parameter] = .ok [parameter] := by
    rw [distinctParams, bareName_typeName word, if_neg List.not_mem_nil,
      parameterFlaw?_of_typeName word]
    rfl
  rw [prepare, prepareWith]
  simp only [distinct, checkTypes, checkFinders, finderRefusal?_of_overlong long]

def longName : Text := List.replicate 400000 'A'

theorem longName_eq : longName = 'A' :: List.replicate 399999 'A' := List.replicate_succ

theorem isTypeName_longName : isTypeName longName = true := by
  have free (rest : Text) : TypeExpr.isReserved ('A' :: rest) = false := rfl
  have start : TypeExpr.isIdentifierStart 'A' = true := by decide
  have letter : TypeExpr.isIdentifierPart 'A' = true := by decide
  rw [isTypeName, longName_eq, free, TypeExpr.isIdentifier, List.all_replicate, start, letter]
  rfl

def longDefinition : Definition := { name := "D", params := [longName] }

theorem prepare_longDefinition :
    (∀ declared ∈ longDefinition.params, IsParamName declared) ∧
      longDefinition.properties = [] ∧
      longDefinition.prepare = .error (.invalidParameter "D" longName
        (.unfindable "Compiled regex exceeds size limit of 10485760 bytes.")) := by
  have fits : IsParamName longName := by
    rw [IsParamName, bareName_typeName isTypeName_longName]
    exact isTypeName_longName
  have long : 327619 < longName.length := by
    rw [longName, List.length_replicate]
    decide
  exact ⟨List.forall_mem_singleton.mpr fits, rfl, prepare_overlong isTypeName_longName long⟩

/-- A bad name comes before a bad type, and it is shown with its marks. -/
example :
    ({ name := "Page", params := ["T", "«T»", "«string»", "T[]"],
       properties := [{ name := "items", type := "Page<T" }] } : Definition).prepare =
      .error (.invalidParameter "Page" "«string»" .reservedName) := by
  decide +kernel

end Definition

end ApiSchema
