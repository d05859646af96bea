import ApiSchema.TypeExpr.Lexical
import ApiSchema.SchemaError

set_option autoImplicit false

namespace ApiSchema.TypeExpr

/-- The outermost form of a text: an array of what stands before its last `[]`, a name with
argument texts, or a type with no parts. -/
inductive Form
  | arrayOf (item : Text)
  | applied (name : Text) (args : List Text)
  | leaf (type : TypeExpr)

/-- The form of `source`, cut at its first angle bracket into `name` and `rest`. -/
def appliedForm (source name rest : Text) : Except Flaw Form :=
  match Text.stripEnd? ">" rest with
  | none => .error (.unclosedArguments name)
  | some inner =>
    if !isIdentifier name then .error (.notGenericName name)
    else if isKeyword name then .error (.reserved name)
    else if (Primitive.ofName? name).isSome then .error (.argumentsOnPrimitive name)
    else
      match splitArguments inner with
      | none => .error (.unbalanced source)
      | some args => .ok (.applied name args)

/-- The type `source`, cut at its first `#` into `name` and `format`. -/
def taggedForm (source name format : Text) : Except Flaw Form :=
  match Primitive.ofName? name with
  | none => .error (.formatOnObject name)
  | some base =>
    if isFormat format then .ok (.leaf (.primitive source base format))
    else .error (.malformedFormat format)

/-- The type `source`, which holds neither an angle bracket nor a `#`. -/
def namedForm (source : Text) : Except Flaw Form :=
  if !isIdentifier source then .error (.notTypeName source)
  else if isKeyword source then .error (.reserved source)
  else
    match Primitive.ofName? source with
    | some base => .ok (.leaf (.primitive source base base.defaultFormat))
    | none => .ok (.leaf (.object source source []))

/-- The outermost form of a text without blanks at its ends. -/
def form (source : Text) : Except Flaw Form :=
  if source = [] then .error .empty
  else
    match Text.stripEnd? "[]" source with
    | some item => .ok (.arrayOf item)
    | none =>
      match Text.cutAt? '<' source with
      | some (name, rest) => appliedForm source name rest
      | none =>
        match Text.cutAt? '#' source with
        | some (name, format) => taggedForm source name format
        | none => namedForm source

theorem taggedForm_leaf {source name format : Text} {found : Form}
    (tagged : taggedForm source name format = .ok found) : ∃ type, found = .leaf type := by
  unfold taggedForm at tagged
  split at tagged
  · simp at tagged
  · split at tagged
    · exact ⟨_, (Except.ok.inj tagged).symm⟩
    · simp at tagged

theorem namedForm_leaf {source : Text} {found : Form} (named : namedForm source = .ok found) :
    ∃ type, found = .leaf type := by
  unfold namedForm at named
  split at named
  · simp at named
  · split at named
    · simp at named
    · split at named
      · exact ⟨_, (Except.ok.inj named).symm⟩
      · exact ⟨_, (Except.ok.inj named).symm⟩

theorem appliedForm_spread {source name rest : Text} {found : Form}
    (applied : appliedForm source name rest = .ok found) :
    ∃ args, found = .applied name args ∧ spread args = rest.length := by
  unfold appliedForm at applied
  split at applied
  · simp at applied
  · next inner closed =>
    split at applied
    · simp at applied
    · split at applied
      · simp at applied
      · split at applied
        · simp at applied
        · split at applied
          · simp at applied
          · next args split_args =>
            refine ⟨args, (Except.ok.inj applied).symm, ?_⟩
            rw [spread_splitAtDepth split_args, Text.stripEnd?_eq_some_iff.mp closed]
            simp

/-- The item of an array is shorter than the array. -/
theorem form_arrayOf_lt {source item : Text} (shape : form source = .ok (.arrayOf item)) :
    item.length < source.length := by
  unfold form at shape
  split at shape
  · simp at shape
  · split at shape
    · next suffix =>
      simp only [Except.ok.injEq, Form.arrayOf.injEq] at shape
      subst shape
      rw [Text.stripEnd?_eq_some_iff.mp suffix]
      simp
    · split at shape
      · obtain ⟨args, same, -⟩ := appliedForm_spread shape
        simp at same
      · split at shape
        · obtain ⟨type, same⟩ := taggedForm_leaf shape
          simp at same
        · obtain ⟨type, same⟩ := namedForm_leaf shape
          simp at same

/-- The arguments with their separators are shorter than the whole. -/
theorem form_applied_lt {source name : Text} {args : List Text}
    (shape : form source = .ok (.applied name args)) : spread args < source.length := by
  unfold form at shape
  split at shape
  · simp at shape
  · split at shape
    · simp at shape
    · split at shape
      · next cut =>
        obtain ⟨parts, same, room⟩ := appliedForm_spread shape
        simp only [Form.applied.injEq] at same
        rw [same.2, room, Text.eq_append_of_cutAt? cut]
        simp only [List.length_append, List.length_cons]
        omega
      · split at shape
        · obtain ⟨type, same⟩ := taggedForm_leaf shape
          simp at same
        · obtain ⟨type, same⟩ := namedForm_leaf shape
          simp at same

mutual

/-- The type that a part of an expression stands for. -/
def parseFragment (fragment : Text) : Except Flaw TypeExpr :=
  match _shape : form (Text.trim fragment) with
  | .error flaw => .error flaw
  | .ok (.leaf type) => .ok type
  | .ok (.arrayOf item) =>
    match parseFragment item with
    | .error flaw => .error flaw
    | .ok type => .ok (.array (Text.trim fragment) type)
  | .ok (.applied name args) =>
    match parseAll args with
    | .error flaw => .error flaw
    | .ok types => .ok (.object (Text.trim fragment) name types)
termination_by fragment.length
decreasing_by
  · exact Nat.lt_of_lt_of_le (form_arrayOf_lt _shape) (Text.trim_length_le fragment)
  · exact Nat.lt_of_lt_of_le (form_applied_lt _shape) (Text.trim_length_le fragment)

/-- The types of several parts, read from left to right. -/
def parseAll (fragments : List Text) : Except Flaw (List TypeExpr) :=
  match fragments with
  | [] => .ok []
  | first :: rest =>
    match parseFragment first with
    | .error flaw => .error flaw
    | .ok type =>
      match parseAll rest with
      | .error flaw => .error flaw
      | .ok types => .ok (type :: types)
termination_by spread fragments
decreasing_by
  · simp only [spread_cons]
    omega
  · simp only [spread_cons]
    omega

end

/-- Reads a type expression. An error names the whole text as it was given. -/
def parse (text : Text) : Except SchemaError TypeExpr :=
  (parseFragment text).mapError (.invalidType text)

end ApiSchema.TypeExpr
