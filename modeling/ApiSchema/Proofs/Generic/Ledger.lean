import ApiSchema.Proofs.Generic.Demand
import Mathlib.Data.Finset.Dedup
import Mathlib.Data.Finset.Insert
import Mathlib.Logic.Relation

set_option autoImplicit false

namespace ApiSchema

open TypeExpr (parse canonical)

/-- What looking at a type text comes to. -/
inductive Finding
  | refused (error : SchemaError)
  | primitive
  | taken (name : Text)
  | bare (template : Definition)
  | fresh (inst : Instance)
deriving DecidableEq, Repr

/-- What the text asks for: an instance that is not there yet, if any. -/
def Finding.asked : Finding → Except SchemaError (Option Instance)
  | refused error => .error error
  | fresh inst => .ok (some inst)
  | _ => .ok none

/-- The names that are taken, the definitions written out, how many of these were given without
parameters, and the texts still to be looked at. -/
structure Ledger where
  taken : Finset Text
  output : List Definition
  plain : Nat
  pending : List Text
deriving DecidableEq

namespace Ledger

/-- At the start the definitions without parameters are written out and their names are taken. -/
def start (definitions : List Definition) (used : List Text) : Ledger :=
  let plain := plainDefinitions definitions
  ⟨(plain.map (·.name)).toFinset, plain, plain.length, used⟩

/-- Looks up what `type` refers to in the names that are taken, and then its name in the
definitions. -/
def find (definitions : List Definition) (ledger : Ledger) (type : Text) : Finding :=
  match parse type with
  | .error error => .refused error
  | .ok expr =>
    match expr.innermost with
    | .object source name args =>
      let full := (TypeExpr.object source name args).canonical
      if full ∈ ledger.taken then .taken full
      else
        match definitions.find? fun definition => definition.name = name with
        | none => .refused (.unknownType type name)
        | some template =>
          if args.length ≠ template.params.length then
            .refused (.arityMismatch type name template.params.length args.length)
          else if args.isEmpty then .bare template
          else
            let texts := args.map canonical
            .fresh ⟨template.instantiate full texts, texts⟩
    | _ => .primitive

/-- Takes the name of an instance and writes it out; what it needs goes in front of `rest`. -/
def enter (ledger : Ledger) (inst : Instance) (rest : List Text) : Ledger :=
  { ledger with
    taken := insert inst.definition.name ledger.taken
    output := ledger.output ++ [inst.definition]
    pending := inst.needs ++ rest }

/-- Looks at `type`, the first of the pending texts; `rest` are the others. -/
def look (definitions : List Definition) (ledger : Ledger) (type : Text) (rest : List Text) :
    Except SchemaError Ledger :=
  match ledger.find definitions type with
  | .refused error => .error error
  | .fresh inst => .ok (ledger.enter inst rest)
  | _ => .ok { ledger with pending := rest }

/-- What happens to a ledger: a text is handed in and waits for its turn, the first text is looked
at, or it is refused and nothing more comes of the texts handed in. -/
inductive Step (definitions : List Definition) : Ledger → Ledger → Prop
  | call (ledger : Ledger) (type : Text) :
    Step definitions ledger { ledger with pending := ledger.pending ++ [type] }
  | look {ledger next : Ledger} {type : Text} {rest : List Text}
    (first : ledger.pending = type :: rest)
    (done : ledger.look definitions type rest = .ok next) : Step definitions ledger next
  | fail {ledger : Ledger} {type : Text} {rest : List Text} {error : SchemaError}
    (first : ledger.pending = type :: rest)
    (failed : ledger.look definitions type rest = .error error) :
    Step definitions ledger { ledger with pending := [] }

/-- The later ledger comes after the earlier one, or is the same. -/
abbrev Reaches (definitions : List Definition) : Ledger → Ledger → Prop :=
  Relation.ReflTransGen (Step definitions)

def discovery (ledger : Ledger) : Discovery := ⟨ledger.output, ledger.pending⟩

/-- The definition has the normal spelling of a type for its name, which applies one of the
definitions to as many arguments as it has parameters, and to one at least. -/
def IsInstance (definitions : List Definition) (definition : Definition) : Prop :=
  ∃ template ∈ definitions, ∃ args,
    parse definition.name = .ok (.object definition.name template.name args) ∧
      (TypeExpr.object definition.name template.name args).canonical = definition.name ∧
      args ≠ [] ∧ args.length = template.params.length

/-- The records agree with each other and with the definitions. -/
structure Sound (definitions : List Definition) (ledger : Ledger) : Prop where
  taken : ledger.taken = (ledger.output.map (·.name)).toFinset
  distinct : (ledger.output.map (·.name)).Nodup
  count : ledger.plain = (plainDefinitions definitions).length
  plain : ledger.output.take ledger.plain = plainDefinitions definitions
  instances : ∀ definition ∈ ledger.output.drop ledger.plain, IsInstance definitions definition

variable {definitions : List Definition} {used : List Text} {ledger next : Ledger}

/-- What is found to be bare is a definition without parameters whose name is not taken. -/
theorem find_bare {type : Text} {template : Definition}
    (found : ledger.find definitions type = .bare template) :
    template ∈ definitions ∧ template.params = [] ∧ template.name ∉ ledger.taken := by
  rw [find] at found
  split at found
  · cases found
  · split at found
    · next source name args inner =>
      dsimp only at found
      split at found
      · cases found
      · next free =>
        split at found
        · cases found
        · next other known =>
          split at found
          · cases found
          · next arity =>
            split at found
            · next empty =>
              cases found
              have no_args : args = [] := List.isEmpty_iff.mp empty
              have named : template.name = name := by simpa using List.find?_some known
              subst no_args named
              rw [TypeExpr.canonical_object, List.map_nil, TypeExpr.bracketed,
                List.append_nil] at free
              refine ⟨List.mem_of_find?_eq_some known, ?_, free⟩
              exact List.length_eq_zero_iff.mp (not_not.mp arity).symm
            · cases found
    · cases found

namespace Sound

theorem start (distinct : (definitions.map (·.name)).Nodup) :
    (start definitions used).Sound definitions where
  taken := rfl
  distinct := plainDefinitions_distinct distinct
  count := rfl
  plain := List.take_length
  instances := by simp [Ledger.start]

variable (sound : ledger.Sound definitions)
include sound

theorem await (pending : List Text) : { ledger with pending }.Sound definitions :=
  ⟨sound.taken, sound.distinct, sound.count, sound.plain, sound.instances⟩

theorem mem_taken {name : Text} :
    name ∈ ledger.taken ↔ ∃ definition ∈ ledger.output, definition.name = name := by
  simp [sound.taken]

theorem plain_le : ledger.plain ≤ ledger.output.length := by
  have size := congrArg List.length sound.plain
  rw [List.length_take, ← sound.count] at size
  omega

/-- Looking into the ledger finds what the text asks for beyond the definitions written out. -/
theorem asked_find (type : Text) :
    (ledger.find definitions type).asked = demand definitions ledger.output type := by
  rw [find, demand]
  cases parse type with
  | error error => rfl
  | ok expr =>
      dsimp only
      cases expr.innermost with
      | primitive => rfl
      | array => rfl
      | object source name args =>
          dsimp only
          have present : (ledger.output.any fun definition =>
              definition.name = (TypeExpr.object source name args).canonical) = true ↔
                (TypeExpr.object source name args).canonical ∈ ledger.taken := by
            simp [sound.mem_taken]
          simp only [present]
          split
          · rfl
          · cases definitions.find? fun definition => definition.name = name with
            | none => rfl
            | some template =>
                dsimp only
                split
                · rfl
                · split <;> rfl

/-- A step of the ledger is a step of the discovery. -/
theorem discovery_look (type : Text) (rest : List Text) :
    (ledger.look definitions type rest).map discovery =
      Discovery.step definitions ledger.output type rest := by
  rw [look, Discovery.step, ← sound.asked_find]
  cases ledger.find definitions type <;> rfl

/-- The name of an instance that was not there is not taken, so that it can be written out. -/
theorem enter {type : Text} {inst : Instance}
    (found : ledger.find definitions type = .fresh inst) (rest : List Text) :
    (ledger.enter inst rest).Sound definitions := by
  have asked := sound.asked_find type
  rw [found] at asked
  obtain ⟨⟨template, declared, args, read, spelled, some_arg, arity, -⟩, -, apart⟩ :=
    demand_some asked.symm
  refine ⟨?_, ?_, sound.count, ?_, ?_⟩
  · change insert inst.definition.name ledger.taken = _
    rw [sound.taken]
    ext name
    simp only [Ledger.enter, Finset.mem_insert, List.mem_toFinset, List.map_append, List.map_cons,
      List.map_nil, List.mem_append, List.mem_singleton]
    exact or_comm
  · exact nodup_names_concat sound.distinct apart
  · change (ledger.output ++ [inst.definition]).take ledger.plain = _
    rw [List.take_append_of_le_length sound.plain_le, sound.plain]
  · change ∀ definition ∈ (ledger.output ++ [inst.definition]).drop ledger.plain, _
    rw [List.drop_append_of_le_length sound.plain_le]
    intro definition member
    rcases List.mem_append.mp member with old | new
    · exact sound.instances definition old
    · rw [List.mem_singleton.mp new]
      exact ⟨template, declared, args, read,
        (TypeExpr.canonical_object _ _ _).trans spelled.symm, some_arg, arity⟩

/-- A definition without parameters is written out from the start, so that its name is taken and no
text asks for it. -/
theorem find_ne_bare (type : Text) (template : Definition) :
    ledger.find definitions type ≠ .bare template := by
  intro found
  obtain ⟨declared, params, free⟩ := find_bare found
  have plain : template ∈ plainDefinitions definitions := by
    refine mem_plainDefinitions.mpr ⟨declared, ?_⟩
    rw [Definition.isGeneric, params]
    rfl
  rw [← sound.plain] at plain
  exact free (sound.mem_taken.mpr ⟨template, List.mem_of_mem_take plain, rfl⟩)

theorem look {type : Text} {rest : List Text}
    (done : ledger.look definitions type rest = .ok next) :
    next.Sound definitions ∧ ledger.output <+: next.output ∧ next.plain = ledger.plain := by
  rw [Ledger.look] at done
  split at done
  · cases done
  · next inst found =>
    cases done
    exact ⟨sound.enter found rest, List.prefix_append _ _, rfl⟩
  · cases done
    exact ⟨sound.await rest, List.prefix_refl _, rfl⟩

theorem step (step : Step definitions ledger next) :
    next.Sound definitions ∧ ledger.output <+: next.output ∧ next.plain = ledger.plain := by
  cases step with
  | call type => exact ⟨sound.await _, List.prefix_refl _, rfl⟩
  | look first done => exact sound.look done
  | fail first failed => exact ⟨sound.await [], List.prefix_refl _, rfl⟩

theorem reaches (reaches : Reaches definitions ledger next) :
    next.Sound definitions ∧ ledger.output <+: next.output ∧ next.plain = ledger.plain := by
  induction reaches with
  | refl => exact ⟨sound, List.prefix_refl _, rfl⟩
  | tail _ step ih =>
      obtain ⟨between, before, same⟩ := ih
      obtain ⟨after, behind, again⟩ := between.step step
      exact ⟨after, before.trans behind, again.trans same⟩

end Sound

/-- A ledger that the start reaches is kept for this discovery. -/
def Kept (definitions : List Definition) (used : List Text) (state : Discovery) : Prop :=
  ∃ ledger, Reaches definitions (start definitions used) ledger ∧ ledger.discovery = state

theorem kept_start : Kept definitions used (.start definitions used) := ⟨_, .refl, rfl⟩

/-- The ledger that is kept for a discovery looks at the same text and comes to the same. -/
theorem Kept.exists_look (distinct : (definitions.map (·.name)).Nodup) {emitted : List Definition}
    {type : Text} {rest : List Text} (kept : Kept definitions used ⟨emitted, type :: rest⟩) :
    ∃ ledger, Reaches definitions (start definitions used) ledger ∧
      ledger.pending = type :: rest ∧
      (ledger.look definitions type rest).map discovery =
        Discovery.step definitions emitted type rest := by
  obtain ⟨ledger, reached, same⟩ := kept
  obtain ⟨sound, -, -⟩ := (Sound.start distinct).reaches reached
  have output : ledger.output = emitted := congrArg Discovery.emitted same
  have first : ledger.pending = type :: rest := congrArg Discovery.pending same
  exact ⟨ledger, reached, first, by rw [sound.discovery_look, output]⟩

/-- A step of the discovery is a step of the ledger that is kept for it. -/
theorem Kept.step (distinct : (definitions.map (·.name)).Nodup) {emitted : List Definition}
    {type : Text} {rest : List Text} (kept : Kept definitions used ⟨emitted, type :: rest⟩)
    {after : Discovery} (stepped : Discovery.step definitions emitted type rest = .ok after) :
    Kept definitions used after := by
  obtain ⟨ledger, reached, first, looked⟩ := kept.exists_look distinct
  rw [stepped] at looked
  cases done : ledger.look definitions type rest with
  | error error =>
      rw [done] at looked
      cases looked
  | ok next =>
      rw [done] at looked
      exact ⟨next, reached.tail (.look first done), Except.ok.inj looked⟩

/-- A discovery that ends has come to a ledger with nothing pending, which holds what it has written
out, or to one whose first text is refused. -/
theorem exists_reached (distinct : (definitions.map (·.name)).Nodup) {limit : Nat}
    {result : Except SchemaError (List Definition)}
    (ended : discover limit definitions used = some result) :
    ∃ ledger, Reaches definitions (start definitions used) ledger ∧
      (ledger.pending = [] ∧ result = .ok ledger.output ∨
        ∃ type rest error, ledger.pending = type :: rest ∧
          ledger.look definitions type rest = .error error ∧ result = .error error) := by
  rw [discover, firstRepeated?_of_nodup distinct (by simp)] at ended
  have run := Discovery.run_invariant (I := Kept definitions used)
    (fun emitted type rest kept nothing => kept.step distinct (by rw [Discovery.step, nothing]))
    (fun emitted type rest inst kept asks => kept.step distinct (by rw [Discovery.step, asks]))
    kept_start ended
  rcases run with ⟨out, rfl, ledger, reached, same⟩ |
    ⟨error, emitted, type, rest, rfl, kept, refused⟩
  · have output : ledger.output = out := congrArg Discovery.emitted same
    have none_left : ledger.pending = [] := congrArg Discovery.pending same
    exact ⟨ledger, reached, Or.inl ⟨none_left, by rw [output]⟩⟩
  · obtain ⟨ledger, reached, first, looked⟩ := kept.exists_look distinct
    rw [Discovery.step, refused] at looked
    cases done : ledger.look definitions type rest with
    | error reason =>
        rw [done] at looked
        have same : reason = error := Except.error.inj looked
        exact ⟨ledger, reached, Or.inr ⟨type, rest, error, first, same ▸ done, rfl⟩⟩
    | ok next =>
        rw [done] at looked
        cases looked

/-- A discovery that ends has come to a ledger, and at every moment of a sequence of calls, also
where a text is refused, the records agree. The names taken are those of the definitions written
out, no two of which have one name. First come the definitions without parameters, then instances of
the others. What is written out stays as it is and where it is, and no text is found to ask for a
definition without parameters. -/
theorem reached_sound (distinct : (definitions.map (·.name)).Nodup) :
    (∀ limit used result, discover limit definitions used = some result →
      ∃ ledger, Reaches definitions (start definitions used) ledger ∧
        (ledger.pending = [] ∧ result = .ok ledger.output ∨
          ∃ type rest error, ledger.pending = type :: rest ∧
            ledger.look definitions type rest = .error error ∧ result = .error error)) ∧
    ∀ used ledger, Reaches definitions (start definitions used) ledger →
      ledger.Sound definitions ∧
      (∀ type, (ledger.find definitions type).asked = demand definitions ledger.output type) ∧
      (∀ later, Reaches definitions ledger later →
        ledger.output <+: later.output ∧ later.plain = ledger.plain) ∧
      ∀ type template, ledger.find definitions type ≠ .bare template := by
  refine ⟨fun limit used result => exists_reached distinct, fun used ledger reached => ?_⟩
  obtain ⟨sound, -, -⟩ := (Sound.start distinct).reaches reached
  exact ⟨sound, sound.asked_find, fun later behind => (sound.reaches behind).2,
    sound.find_ne_bare⟩

/-- A box has a lid, but there are no lids. -/
def openBoxes : List Definition :=
  [{ name := "User" },
    { name := "Box", params := ["«T»"],
      properties := [{ name := "value", type := "«T»" }, { name := "lid", type := "Lid<«T»>" }] }]

/-- A box of users is written out and its lid is about to be looked at. -/
def openBox : Ledger where
  taken := {("Box<User>" : Text), ("User" : Text)}
  output := [{ name := "User" },
    { name := "Box<User>",
      properties := [{ name := "value", type := "User" }, { name := "lid", type := "Lid<User>" }] }]
  plain := 1
  pending := ["Lid<User>", "User"]

/-- The lid is refused, and the box stays when another text is handed in behind that. -/
theorem reached_sound_openBox :
    (openBoxes.map (·.name)).Nodup ∧
      Reaches openBoxes (start openBoxes ["User[]", "Box<User>"]) openBox ∧
      openBox.look openBoxes "Lid<User>" ["User"] = .error (.unknownType "Lid<User>" "Lid") ∧
      openBox.Sound openBoxes ∧
      Reaches openBoxes openBox { openBox with pending := ["Box<User>[]"] } ∧
      ∀ later, Reaches openBoxes openBox later →
        openBox.output <+: later.output ∧ later.plain = 1 := by
  have distinct : (openBoxes.map (·.name)).Nodup := by decide +kernel
  have refused : openBox.look openBoxes "Lid<User>" ["User"] =
      .error (.unknownType "Lid<User>" "Lid") := by decide +kernel
  let waiting : Ledger := { start openBoxes [] with pending := ["Box<User>"] }
  let emitted : Ledger := { openBox with pending := ["User", "Lid<User>", "User"] }
  have reached : Reaches openBoxes (start openBoxes ["User[]", "Box<User>"]) openBox := by
    have array : Step openBoxes (start openBoxes ["User[]", "Box<User>"]) waiting :=
      .look rfl (by decide +kernel)
    have box : Step openBoxes waiting emitted := .look rfl (by decide +kernel)
    have value : Step openBoxes emitted openBox := .look rfl (by decide +kernel)
    exact ((Relation.ReflTransGen.single array).tail box).tail value
  have resumed : Reaches openBoxes openBox { openBox with pending := ["Box<User>[]"] } :=
    (Relation.ReflTransGen.single (.fail rfl refused)).tail (.call _ "Box<User>[]")
  obtain ⟨sound, -, kept, -⟩ := (reached_sound distinct).2 _ _ reached
  exact ⟨distinct, reached, refused, sound, resumed, kept⟩

end Ledger

end ApiSchema
