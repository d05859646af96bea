import ApiSchema.Generic.Marking
import ApiSchema.Proofs.Generic.Demand
import ApiSchema.Proofs.TypeExpr.Layout

set_option autoImplicit false

namespace ApiSchema

open TypeExpr (parse canonical)

/-- A type text that counts: it is in use, or a required instance has it as a property type, with
the arguments put in, or as an argument. -/
inductive Wanted (definitions : List Definition) (used : List Text) : Text → Prop
  | used {type : Text} (inUse : type ∈ used) : Wanted definitions used type
  | property {full source : Text} {args : List TypeExpr} {template : Definition}
    {property : Property} (required : Required definitions used full)
    (instanceOf : parse full = .ok (.object source template.name args))
    (declared : template ∈ definitions) (field : property ∈ template.properties) :
    Wanted definitions used
      (Generic.substitute template.params (args.map canonical) property.type)
  | argument {full source base : Text} {args : List TypeExpr} {arg : TypeExpr}
    (required : Required definitions used full)
    (instanceOf : parse full = .ok (.object source base args)) (given : arg ∈ args) :
    Wanted definitions used arg.canonical

section Owner

variable {definitions : List Definition} {used : List Text} {instances : List Instance}
  {out : List Definition}

theorem Wanted.asked {type : Text} (wanted : Wanted definitions used type)
    (progress : Progress definitions used instances ⟨out, []⟩)
    (distinct : (definitions.map (·.name)).Nodup) : Asked used instances type := by
  cases wanted with
  | used inUse => exact Or.inl inUse
  | property required instanceOf declared field =>
      obtain ⟨inst, member, rfl⟩ := progress.complete distinct required
      exact Or.inr ⟨inst, member,
        (progress.made inst member).needs_property distinct instanceOf declared field⟩
  | argument required instanceOf given =>
      obtain ⟨inst, member, rfl⟩ := progress.complete distinct required
      exact Or.inr ⟨inst, member, (progress.made inst member).needs_argument instanceOf given⟩

/-- A text whose innermost type applies a definition to as many arguments as it has parameters asks
for that instance of it. -/
theorem demand_applied (distinct : (definitions.map (·.name)).Nodup) {type source : Text}
    {expr : TypeExpr} {template : Definition} {args : List TypeExpr} (read : parse type = .ok expr)
    (inner : expr.innermost = .object source template.name args)
    (declared : template ∈ definitions) (some_arg : args ≠ [])
    (arity : args.length = template.params.length) :
    demand definitions [] type = .ok (some
      ⟨template.instantiate (TypeExpr.object source template.name args).canonical
        (args.map canonical), args.map canonical⟩) := by
  simp only [demand, read, inner, find?_name distinct declared]
  rw [if_neg (by simp), if_neg (by simp [arity]), if_neg (by simpa using some_arg)]

end Owner

/-- Every instance that is wanted is found under its normal name, and there is just one definition
of that name. If no definition without parameters was given this name, it is the instance of the
template with these arguments, and none of the definitions that were given. Else it is the
definition that was given the name, unchanged. The definitions need not be prepared. -/
theorem discover_owner {limit : Nat} {definitions out : List Definition} {used : List Text}
    (finished : discover limit definitions used = some (.ok out)) {type source : Text}
    {expr : TypeExpr} {template : Definition} {args : List TypeExpr}
    (wanted : Wanted definitions used type) (read : parse type = .ok expr)
    (inner : expr.innermost = .object source template.name args)
    (declared : template ∈ definitions) (generic : template.isGeneric = true)
    (arity : args.length = template.params.length) :
    ∃ owner ∈ out,
      owner.name = (TypeExpr.object source template.name args).canonical ∧
      (∀ other ∈ out, other.name = owner.name → other = owner) ∧
      ((∀ plain ∈ definitions, plain.isGeneric = false → plain.name ≠ owner.name) →
        owner = template.instantiate owner.name (args.map canonical) ∧ owner ∉ definitions) ∧
      ∀ plain ∈ definitions, plain.isGeneric = false → plain.name = owner.name →
        owner = plain := by
  obtain ⟨distinct, instances, progress⟩ := discover_progress finished
  have written : out = plainDefinitions definitions ++ instances.map (·.definition) :=
    progress.emitted
  have refers := reference?_object inner
  obtain ⟨again, reread, found⟩ := progress.settled (wanted.asked progress distinct)
  rw [read, Except.ok.injEq] at reread
  subst reread
  obtain ⟨owner, member, named⟩ := found _ refers
  have once : ∀ other ∈ out, other.name = owner.name → other = owner :=
    fun other inside same => eq_of_name_eq progress.distinct inside member same
  refine ⟨owner, member, named, once, ?_, ?_⟩
  · intro unowned
    rw [written] at member
    rcases List.mem_append.mp member with plain | made
    · obtain ⟨given, notGeneric⟩ := mem_plainDefinitions.mp plain
      exact absurd rfl (unowned owner given notGeneric)
    · obtain ⟨inst, inside, rfl⟩ := List.mem_map.mp made
      have some_arg : args ≠ [] := by
        rintro rfl
        have no_params := List.length_eq_zero_iff.mp arity.symm
        simp [Definition.isGeneric, no_params] at generic
      rw [← named] at refers
      have asks := (progress.made inst inside).demand distinct read refers
      rw [demand_applied distinct read inner declared some_arg arity, ← named] at asks
      have same : _ = inst := Option.some.inj (Except.ok.inj asks)
      have definition_same := congrArg Instance.definition same
      refine ⟨definition_same.symm, fun given => ?_⟩
      exact unowned inst.definition given (by rw [← definition_same]; rfl) rfl
  · intro plain given notGeneric same
    have kept : plain ∈ out := by
      rw [written]
      exact List.mem_append_left _ (mem_plainDefinitions.mpr ⟨given, notGeneric⟩)
    exact (once plain kept same).symm

def markedBox : Definition :=
  { name := "Box", description := "One value", params := ["«T»"],
    properties := [{ name := "value", type := "«T»" }] }

/-- Somebody's own definition, under the name of the box of a text. -/
def boxOwner : Definition := { name := "Box<string>", description := "Mine" }

def ownedBoxesOut : List Definition :=
  [boxOwner,
    { name := "Box<Box<integer>>", description := "One value",
      properties := [{ name := "value", type := "Box<integer>" }] },
    { name := "Box<integer>", description := "One value",
      properties := [{ name := "value", type := "integer" }] }]

def boxLayout (item : TypeExpr.Layout) : TypeExpr.Layout := .applied ⟨[], [], []⟩ "Box" [item]

theorem boxLayout_valid {item : TypeExpr.Layout} (valid : item.Valid) : (boxLayout item).Valid :=
  .applied ⟨Text.Blank.nil, by simp, Text.Blank.nil⟩ (by decide) (by simp)
    (List.forall_mem_singleton.mpr valid)

/-- The inner box is wanted as an argument. Its name has no owner among the definitions, so it is
an instance. -/
theorem discover_owner_boxes :
    discover 20 [boxOwner, markedBox] ["Box<Box<integer>>"] = some (.ok ownedBoxesOut) ∧
      ∃ owner ∈ ownedBoxesOut, owner = markedBox.instantiate "Box<integer>" ["integer"] ∧
        owner ∉ [boxOwner, markedBox] := by
  have finished : discover 20 [boxOwner, markedBox] ["Box<Box<integer>>"] =
      some (.ok ownedBoxesOut) := by decide +kernel
  let number : TypeExpr.Layout := .leaf ⟨[], [], []⟩ (.primitive .integer)
  have valid : number.Valid := .leaf ⟨Text.Blank.nil, by simp, Text.Blank.nil⟩ trivial
  have read : parse "Box<integer>" = .ok (boxLayout number).type :=
    TypeExpr.parse_eq_ok_iff.mpr (boxLayout_valid valid).parse
  have read_outer : parse "Box<Box<integer>>" = .ok (boxLayout (boxLayout number)).type :=
    TypeExpr.parse_eq_ok_iff.mpr (boxLayout_valid (boxLayout_valid valid)).parse
  have required : Required [boxOwner, markedBox] ["Box<Box<integer>>"] "Box<Box<integer>>" :=
    .used (List.mem_singleton_self _) ⟨_, read_outer, by decide, by decide⟩
  have wanted : Wanted [boxOwner, markedBox] ["Box<Box<integer>>"] "Box<integer>" :=
    .argument required read_outer (List.mem_singleton_self _)
  have inner : (boxLayout number).type.innermost =
      .object "Box<integer>" markedBox.name [number.type] := rfl
  have declared : markedBox ∈ [boxOwner, markedBox] := by simp
  obtain ⟨owner, member, named, -, instanced, -⟩ :=
    discover_owner finished wanted read inner declared rfl rfl
  have name : owner.name = "Box<integer>" := named.trans (by decide)
  refine ⟨finished, owner, member, ?_⟩
  rw [← name]
  exact instanced (by rw [name]; decide)

/-- A definition without parameters can stand in for an instance: given the name of the box of a
text, it is what is written out for that box, and it is not the template with a text put in. -/
theorem discover_authored_instance :
    ∃ authored : List Definition, authored.mapM Definition.prepare = .ok [boxOwner, markedBox] ∧
      Wanted [boxOwner, markedBox] ["Box<string>"] "Box<string>" ∧
      (∃ source arg, parse "Box<string>" = .ok (.object source "Box" [arg]) ∧
        (TypeExpr.object source "Box" [arg]).canonical = "Box<string>" ∧
        arg.canonical = "string") ∧
      markedBox.name = "Box" ∧ markedBox.params.length = 1 ∧
      discover 20 [boxOwner, markedBox] ["Box<string>"] = some (.ok [boxOwner]) ∧
      boxOwner ≠ markedBox.instantiate "Box<string>" ["string"] := by
  have valid : (TypeExpr.Layout.leaf ⟨[], [], []⟩ (.primitive .string)).Valid :=
    .leaf ⟨Text.Blank.nil, by simp, Text.Blank.nil⟩ trivial
  have read := TypeExpr.parse_eq_ok_iff.mpr (boxLayout_valid valid).parse
  have prepares : [boxOwner, { markedBox with
      params := ["T"], properties := [{ name := "value", type := "T" }] }].mapM
        Definition.prepare = .ok [boxOwner, markedBox] := by decide +kernel
  exact ⟨_, prepares, .used (List.mem_singleton_self _),
    ⟨_, _, read, by decide, by decide⟩, rfl, rfl, by decide +kernel, by decide⟩

end ApiSchema
