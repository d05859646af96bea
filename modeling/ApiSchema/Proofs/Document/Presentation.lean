import ApiSchema.Proofs.Document.Facets
import ApiSchema.Proofs.Document.Members
import Mathlib.Logic.Relation

set_option autoImplicit false

namespace ApiSchema

open Source Member Json

section Items

variable {α : Type} {read : Json → Except Fault α}

theorem listOf_list_iff {items : List Json} {values : List α} :
    listOf read (Json.list items) = .ok values ↔ items.mapM read = .ok values := by
  have parts : Source.items (Json.list items) = .ok (items, true) := rfl
  rw [listOf, parts]
  simp only [↓reduceIte]
  cases items.mapM read with
  | error fault => exact Iff.rfl
  | ok values => exact Iff.rfl

/-- An item may stand for another one that is read as the same. -/
theorem listOf_replace {front back : List Json} {before after : Json}
    (alike : ∀ x, read before = .ok x → read after = .ok x) {values : List α}
    (found : listOf read (Json.list (front ++ before :: back)) = .ok values) :
    listOf read (Json.list (front ++ after :: back)) = .ok values := by
  rw [listOf_list_iff, Generic.mapM_eq_ok_iff, List.map_append, List.map_cons] at found ⊢
  have member : read before ∈ values.map Except.ok := by
    rw [← found]
    exact List.mem_append_right _ List.mem_cons_self
  obtain ⟨x, -, reads⟩ := List.mem_map.mp member
  rw [alike x reads.symm, reads]
  exact found

/-- The field is a list, and items of it that are read alike may stand for each other. -/
def Member.Field.Lists {Record : Type} (field : Field Json Record) (read : Json → Except Fault α) :
    Prop :=
  ∀ {front back : List Json} {before after : Json},
    (∀ x, read before = .ok x → read after = .ok x) →
      ∀ content, field.read (Json.list (front ++ before :: back)) = .ok content →
        field.read (Json.list (front ++ after :: back)) = .ok content

theorem lists_spare {Record : Type} {name : Text} {content : Record → List α} :
    (Field.spare name (listOf read) [] content).Lists read :=
  fun alike _ found => listOf_replace alike found

end Items

section Defaults

variable {α Record : Type} {name : Text}

theorem defaults_text {content : Record → Text} :
    (Field.spare name Source.text [] content).Defaults (Json.string []) :=
  ⟨[], rfl, rfl⟩

theorem defaults_flag {content : Record → Bool} :
    (Field.spare name Source.flag false content).Defaults (Json.flag false) :=
  ⟨false, rfl, rfl⟩

theorem defaults_optional {read : Json → Except Fault α} {content : Record → Option α} :
    (Field.spare name (Source.optional read) none content).Defaults Json.null :=
  ⟨none, rfl, rfl⟩

theorem defaults_list {read : Json → Except Fault α} {content : Record → List α} :
    (Field.spare name (listOf read) [] content).Defaults (Json.list []) :=
  ⟨[], rfl, rfl⟩

variable {Part : Type} {depth : Nat} {part : Record → Part}

theorem defaults_optional_within {read : Datum → Except Fault α} {content : Part → Option α} :
    (Field.within (Json.datum depth) part
      (.spare name (Source.optional read) none content)).Defaults Json.null :=
  ⟨none, rfl, rfl⟩

theorem defaults_list_within (room : depth < deepest) {read : Datum → Except Fault α}
    {content : Part → List α} :
    (Field.within (Json.datum depth) part
      (.spare name (listOf read) [] content)).Defaults (Json.list []) := by
  refine ⟨[], rfl, ?_⟩
  change ((Json.list []).datum depth >>= listOf read) = _
  rw [Json.list, Json.datum, if_pos room, data]
  rfl

end Defaults

/-- A value that is neither a number nor a container. -/
def Json.isPlain : Json → Bool
  | .null | .flag _ | .string _ => true
  | _ => false

/-- The kinds of records in a document that are written as objects. -/
inductive ObjectKind
  | document
  | operation
  | param
  | response
  | tag
  | definition
  | property

namespace ObjectKind

abbrev Value : ObjectKind → Type
  | document => Document
  | operation => Operation
  | param => Param
  | response => Response
  | tag => Tag
  | definition => Definition
  | property => Property

def decode (around : Nat) : (kind : ObjectKind) → Json → Except Fault kind.Value
  | document => Document.decode
  | operation => Operation.decode
  | param => Param.decode
  | response => Response.decode
  | tag => Tag.decode
  | definition => Definition.decode around
  | property => Property.decode around

def shape (around : Nat) : ObjectKind → Shape Json
  | document => Document.shape
  | operation => Operation.shape
  | param => Param.shape
  | response => Response.shape
  | tag => Tag.shape
  | definition => Definition.shape around
  | property => Property.shape around

def table (around : Nat) : (kind : ObjectKind) → List (Field Json kind.Value)
  | document => Document.table
  | operation => Operation.table
  | param => Param.table
  | response => Response.table
  | tag => Tag.table
  | definition => Definition.table around
  | property => Property.table around

def names : ObjectKind → List Text
  | document => ["title", "version", "description", "base_path", "tags", "operations",
      "definitions"]
  | operation => ["id", "method", "path", "summary", "tags", "params", "responses"]
  | param => ["name", "in", "type", "required", "description"]
  | response => ["status", "description", "type"]
  | tag => ["name", "description"]
  | definition => ["name", "description", "generic_params", "properties"]
  | property => ["name", "type", "required", "description", "minimum", "maximum", "min_length",
      "max_length", "pattern", "enum", "default", "example"]

/-- The fields that may be left out, each with the value that is then taken for it. -/
def defaults : ObjectKind → List (Text × Json)
  | document => [("description", .string []), ("base_path", .string []), ("tags", .list []),
      ("operations", .list []), ("definitions", .list [])]
  | operation => [("summary", .string []), ("tags", .list []), ("params", .list []),
      ("responses", .list [])]
  | param => [("required", .flag false), ("description", .string [])]
  | response => [("description", .string []), ("type", .null)]
  | tag => [("description", .string [])]
  | definition => [("description", .string []), ("generic_params", .list []),
      ("properties", .list [])]
  | property => [("required", .flag false), ("description", .string []), ("minimum", .null),
      ("maximum", .null), ("min_length", .null), ("max_length", .null), ("pattern", .null),
      ("enum", .list []), ("default", .null), ("example", .null)]

def parts : ObjectKind → List (Text × ObjectKind)
  | document => [("tags", tag), ("operations", operation), ("definitions", definition)]
  | operation => [("params", param), ("responses", response)]
  | definition => [("properties", property)]
  | _ => []

/-- The containers around a record leave room for those in it. -/
def Room (around : Nat) : ObjectKind → Prop
  | document => around = 0
  | definition => around + 3 < deepest
  | property => around + 1 < deepest
  | _ => True

/-- One change of the presentation of a record. The member that is changed stands in front; a change
of the order brings any other there. -/
inductive Restyles : ObjectKind → List (Text × Json) → List (Text × Json) → Prop
  | reorder {kind : ObjectKind} {before after : List (Text × Json)} (perm : before.Perm after) :
    Restyles kind before after
  | leaveOut {kind : ObjectKind} {name : Text} {value : Json} {rest : List (Text × Json)}
    (default : (name, value) ∈ kind.defaults) : Restyles kind ((name, value) :: rest) rest
  | writeOut {kind : ObjectKind} {name : Text} {value : Json} {rest : List (Text × Json)}
    (default : (name, value) ∈ kind.defaults) (absent : name ∉ rest.map (·.1)) :
    Restyles kind rest ((name, value) :: rest)
  | add {kind : ObjectKind} {name : Text} {value : Json} {rest : List (Text × Json)}
    (foreign : name ∉ kind.names) (plain : value.isPlain = true) :
    Restyles kind rest ((name, value) :: rest)
  | within {kind child : ObjectKind} {name : Text} {front back : List Json}
    {before after rest : List (Text × Json)} (part : (name, child) ∈ kind.parts)
    (inner : Restyles child before after) :
    Restyles kind ((name, .list (front ++ record before :: back)) :: rest)
      ((name, .list (front ++ record after :: back)) :: rest)

variable {kind : ObjectKind} {around : Nat}

theorem decode_record_iff {members : List (Text × Json)} {value : kind.Value} :
    kind.decode around (record members) = .ok value ↔
      Decodes (kind.table around) (kind.shape around).other members value := by
  cases kind with
  | document => exact Document.decode_record_iff
  | operation => exact Operation.decode_record_iff
  | param => exact Param.decode_record_iff
  | response => exact Response.decode_record_iff
  | tag => exact Tag.decode_record_iff
  | definition => exact Definition.decode_record_iff
  | property => exact Property.decode_record_iff

theorem names_table (kind : ObjectKind) (around : Nat) :
    (kind.table around).map (·.name) = kind.names := by
  cases kind <;> rfl

theorem table_distinct (kind : ObjectKind) (around : Nat) :
    ((kind.table around).map (·.name)).Nodup := by
  rw [names_table]
  cases kind <;> decide

/-- A plain value passes in the place of a member that is no field. -/
theorem other_plain {value : Json} (plain : value.isPlain = true) :
    (kind.shape around).other value = .ok () := by
  cases value with
  | null => cases kind <;> rfl
  | flag => cases kind <;> rfl
  | string => cases kind <;> rfl
  | _ => cases plain

/-- The defaults are those of the fields that may be left out, and are read as what is taken. -/
theorem defaults_fit (room : kind.Room around) :
    List.Forall₂ (fun field slot => field.name = slot.1 ∧ field.Defaults slot.2)
      ((kind.table around).filter (·.fallback.isSome)) kind.defaults := by
  cases kind with
  | document =>
      exact .cons ⟨rfl, defaults_text⟩ (.cons ⟨rfl, defaults_text⟩ (.cons ⟨rfl, defaults_list⟩
        (.cons ⟨rfl, defaults_list⟩ (.cons ⟨rfl, defaults_list⟩ .nil))))
  | operation =>
      exact .cons ⟨rfl, defaults_text⟩ (.cons ⟨rfl, defaults_list⟩ (.cons ⟨rfl, defaults_list⟩
        (.cons ⟨rfl, defaults_list⟩ .nil)))
  | param => exact .cons ⟨rfl, defaults_flag⟩ (.cons ⟨rfl, defaults_text⟩ .nil)
  | response => exact .cons ⟨rfl, defaults_text⟩ (.cons ⟨rfl, defaults_optional⟩ .nil)
  | tag => exact .cons ⟨rfl, defaults_text⟩ .nil
  | definition =>
      exact .cons ⟨rfl, defaults_text⟩ (.cons ⟨rfl, defaults_list⟩
        (.cons ⟨rfl, defaults_list⟩ .nil))
  | property =>
      exact .cons ⟨rfl, defaults_flag⟩ (.cons ⟨rfl, defaults_text⟩
        (.cons ⟨rfl, defaults_optional_within⟩ (.cons ⟨rfl, defaults_optional_within⟩
          (.cons ⟨rfl, defaults_optional_within⟩ (.cons ⟨rfl, defaults_optional_within⟩
            (.cons ⟨rfl, defaults_optional_within⟩ (.cons ⟨rfl, defaults_list_within room⟩
              (.cons ⟨rfl, defaults_optional_within⟩
                (.cons ⟨rfl, defaults_optional_within⟩ .nil)))))))))

theorem exists_of_forall₂ {α β : Type _} {R : α → β → Prop} {first : List α} {second : List β}
    (related : List.Forall₂ R first second) {b : β} (member : b ∈ second) :
    ∃ a ∈ first, R a b := by
  induction related with
  | nil => cases member
  | cons here _ ih =>
      rcases List.mem_cons.mp member with rfl | behind
      · exact ⟨_, List.mem_cons_self, here⟩
      · obtain ⟨a, inside, there⟩ := ih behind
        exact ⟨a, List.mem_cons_of_mem _ inside, there⟩

theorem exists_default (room : kind.Room around) {name : Text} {value : Json}
    (default : (name, value) ∈ kind.defaults) :
    ∃ field ∈ kind.table around, field.name = name ∧ field.Defaults value := by
  obtain ⟨field, member, fits⟩ := exists_of_forall₂ (defaults_fit room) default
  exact ⟨field, (List.mem_filter.mp member).1, fits⟩

/-- What is listed as a part is a field that holds a list of such records. -/
theorem exists_part (room : kind.Room around) {name : Text} {child : ObjectKind}
    (part : (name, child) ∈ kind.parts) :
    child.Room (around + 2) ∧ ∃ field ∈ kind.table around, field.name = name ∧
      field.Lists (child.decode (around + 2)) := by
  cases kind with
  | document =>
      subst room
      simp only [parts, List.mem_cons, Prod.mk.injEq, List.not_mem_nil, or_false] at part
      rcases part with ⟨rfl, rfl⟩ | ⟨rfl, rfl⟩ | ⟨rfl, rfl⟩
      · exact ⟨trivial, _, List.mem_of_getElem? (i := 4) rfl, rfl, lists_spare⟩
      · exact ⟨trivial, _, List.mem_of_getElem? (i := 5) rfl, rfl, lists_spare⟩
      · exact ⟨show 5 < deepest by decide, _, List.mem_of_getElem? (i := 6) rfl, rfl, lists_spare⟩
  | operation =>
      simp only [parts, List.mem_cons, Prod.mk.injEq, List.not_mem_nil, or_false] at part
      rcases part with ⟨rfl, rfl⟩ | ⟨rfl, rfl⟩
      · exact ⟨trivial, _, List.mem_of_getElem? (i := 5) rfl, rfl, lists_spare⟩
      · exact ⟨trivial, _, List.mem_of_getElem? (i := 6) rfl, rfl, lists_spare⟩
  | definition =>
      simp only [parts, List.mem_cons, Prod.mk.injEq, List.not_mem_nil, or_false] at part
      obtain ⟨rfl, rfl⟩ := part
      exact ⟨room, _, List.mem_of_getElem? (i := 3) rfl, rfl, lists_spare⟩
  | _ => cases part

/-- One change of the presentation changes nothing in what is decoded. -/
theorem Restyles.decode {before after : List (Text × Json)} (restyles : kind.Restyles before after)
    (room : kind.Room around) {value : kind.Value}
    (found : kind.decode around (record before) = .ok value) :
    kind.decode around (record after) = .ok value := by
  -- on the way in, a record in a list is decoded with two more containers around it
  induction restyles generalizing around with
  | reorder perm =>
      rw [decode_record_iff] at found ⊢
      exact found.perm perm
  | @leaveOut kind _ _ _ default =>
      rw [decode_record_iff] at found ⊢
      obtain ⟨field, known, rfl, reads⟩ := exists_default room default
      have distinct := kind.table_distinct around
      -- the field is not written a second time, or else nothing would be decoded
      have absent := ((decodes_cons_field distinct known).mp found).1.1
      exact (decodes_cons_default distinct known absent reads).mp found
  | @writeOut kind _ _ _ default absent =>
      rw [decode_record_iff] at found ⊢
      obtain ⟨field, known, rfl, reads⟩ := exists_default room default
      exact (decodes_cons_default (kind.table_distinct around) known absent reads).mpr found
  | @add kind _ _ _ foreign plain =>
      rw [decode_record_iff] at found ⊢
      rw [← names_table kind around] at foreign
      exact (decodes_cons_other foreign).mpr ⟨other_plain plain, found⟩
  | @within kind child _ _ _ _ _ _ part _ ih =>
      rw [decode_record_iff] at found ⊢
      obtain ⟨room_below, field, known, rfl, lists⟩ := exists_part room part
      apply found.replace (kind.table_distinct around) known
      exact lists fun x reads => ih room_below reads

/-- Nor do any number of changes, one after another. -/
theorem decode_restyled {before after : List (Text × Json)}
    (run : Relation.ReflTransGen kind.Restyles before after) (room : kind.Room around)
    {value : kind.Value} (found : kind.decode around (record before) = .ok value) :
    kind.decode around (record after) = .ok value := by
  induction run with
  | refl => exact found
  | tail _ restyles ih => exact restyles.decode room ih

theorem within_run {child : ObjectKind} {name : Text} (part : (name, child) ∈ kind.parts)
    (front back : List Json) (rest : List (Text × Json)) {before after : List (Text × Json)}
    (run : Relation.ReflTransGen child.Restyles before after) :
    Relation.ReflTransGen kind.Restyles ((name, .list (front ++ record before :: back)) :: rest)
      ((name, .list (front ++ record after :: back)) :: rest) :=
  run.lift (fun members => (name, Json.list (front ++ record members :: back)) :: rest)
    fun _ _ => .within part

theorem namedMembers_whole {parts : List (Option Text × Json)}
    (whole : (namedMembers parts).length = parts.length) :
    (namedMembers parts).map (fun (name, value) => (some name, value)) = parts := by
  induction parts with
  | nil => rfl
  | cons part rest ih =>
      obtain ⟨name, value⟩ := part
      cases name with
      | none => cases whole
      | some name =>
          rw [namedMembers, List.length_cons, List.length_cons] at whole
          rw [namedMembers, List.map_cons, ih (by omega)]

/-- An object with the members of a record has a text for every name, and is closed. -/
theorem object_eq_record {shape : Shape Json} {parts : List (Option Text × Json)} {closed : Bool}
    {found : List (Text × Json)}
    (passes : RecordSource.members shape (.object parts closed) = .ok found) :
    ∃ members, Json.object parts closed = record members := by
  change Json.members shape (.object parts closed) = _ at passes
  rw [Json.members] at passes
  split at passes
  · cases passes
  · split at passes
    · next whole =>
        rw [Bool.and_eq_true, decide_eq_true_eq] at whole
        refine ⟨namedMembers parts, ?_⟩
        rw [record, namedMembers_whole whole.2, whole.1]
    · cases passes

theorem exists_members {json : Json} {value : kind.Value}
    (found : kind.decode around json = .ok value) :
    ∃ members, RecordSource.members (kind.shape around) json = .ok members := by
  cases kind with
  | _ =>
      obtain ⟨members, here, -⟩ := bind_eq_ok.mp found
      exact ⟨members, here⟩

theorem room_outermost (kind : ObjectKind) : kind.Room 0 := by
  cases kind with
  | document => exact rfl
  | definition => exact show 3 < deepest by decide
  | property => exact show 1 < deepest by decide
  | _ => exact trivial

/-- Decoding ignores presentation. Let a text with an object be decoded as a record of some kind.
Then each member of the object has a name. And whatever is changed in the presentation of the record
or of records in it, any number of times, every text that is read as the outcome is decoded as the
same value: the members may be reordered, members that hold what is taken without them may be left
out or written out, and members that are no fields may be added with plain values. -/
theorem decodeText_restyled {text : Text} {parts : List (Option Text × Json)} {closed : Bool}
    (written : (read text).value = .object parts closed) {value : kind.Value}
    (found : decodeText (kind.decode 0) text = .ok value) :
    (∃ before, (read text).value = record before) ∧
      ∀ (before after : List (Text × Json)) (edited : Text), (read text).value = record before →
        Relation.ReflTransGen kind.Restyles before after → read edited = ⟨record after, true⟩ →
          decodeText (kind.decode 0) edited = .ok value := by
  have decoded := decode_of_decodeText _ found
  constructor
  · obtain ⟨members, here⟩ := exists_members decoded
    rw [written] at here ⊢
    exact object_eq_record here
  · intro before after edited same run reads
    rw [same] at decoded
    have again := decode_restyled run kind.room_outermost decoded
    rw [decodeText, reads]
    simp only [again, ↓reduceIte]

/-- A document with a box, with these members for the property of the box. -/
def boxMembers (property : List (Text × Json)) : List (Text × Json) :=
  [("definitions", .list
      [record [("properties", .list [record property]), ("name", .string "Box")]]),
    ("title", .string "Store"), ("version", .string "1")]

def plainValue : List (Text × Json) :=
  [("name", .string "value"), ("type", .string "T"), ("max_length", Json.ofNat 3),
    ("required", .flag false), ("minimum", .null)]

/-- The same property in another order, with another default written out and with a note. -/
def restyledValue : List (Text × Json) :=
  [("x-note", .flag true), ("enum", .list []), ("max_length", Json.ofNat 3),
    ("type", .string "T"), ("name", .string "value")]

def restyledBox : List (Text × Json) := ("x-origin", .string "hand") :: boxMembers restyledValue

def boxText : Text :=
  "\x7b\"definitions\":[\x7b\"properties\":[\x7b\"name\":\"value\",\"type\":\"T\"," ++
    "\"max_length\":3,\"required\":false,\"minimum\":null\x7d],\"name\":\"Box\"\x7d]," ++
    "\"title\":\"Store\",\"version\":\"1\"\x7d"

def restyledBoxText : Text :=
  "\x7b\"x-origin\":\"hand\",\"definitions\":[\x7b\"properties\":[\x7b\"x-note\":true," ++
    "\"enum\":[],\"max_length\":3,\"type\":\"T\",\"name\":\"value\"\x7d]," ++
    "\"name\":\"Box\"\x7d],\"title\":\"Store\",\"version\":\"1\"\x7d"

def box : Document :=
  { title := "Store", version := "1",
    definitions :=
      [{ name := "Box",
         properties := [{ name := "value", type := "T", facets := { maxLength := some 3 } }] }] }

theorem restyles_box :
    Relation.ReflTransGen document.Restyles (boxMembers plainValue) restyledBox := by
  have written_out : Restyles property
      [("max_length", Json.ofNat 3), ("type", .string "T"), ("name", .string "value")]
      [("enum", .list []), ("max_length", Json.ofNat 3), ("type", .string "T"),
        ("name", .string "value")] := .writeOut (by simp [defaults]) (by decide)
  have value : Relation.ReflTransGen property.Restyles plainValue restyledValue := by
    apply Relation.ReflTransGen.head (.reorder (List.reverse_perm plainValue).symm)
    apply Relation.ReflTransGen.head (.leaveOut (by simp [defaults]))
    apply Relation.ReflTransGen.head (.leaveOut (by simp [defaults]))
    apply Relation.ReflTransGen.head written_out
    exact .single (.add (by decide) rfl)
  have in_definition : (("properties" : Text), property) ∈ definition.parts := List.mem_cons_self
  have in_document : (("definitions" : Text), definition) ∈ document.parts := by simp [parts]
  have whole := within_run in_document [] [] [("title", .string "Store"), ("version", .string "1")]
    (within_run in_definition [] [] [("name", .string "Box")] value)
  exact whole.tail (.add (by decide) rfl)

theorem proper_boxMembers {property : List (Text × Json)}
    (each : ∀ member ∈ property, member.2.Proper) :
    ∀ member ∈ boxMembers property, member.2.Proper := by
  have definition :
      (record [("properties", .list [record property]), ("name", .string "Box")]).Proper := by
    apply Proper.record
    simp only [List.forall_mem_cons]
    exact ⟨.list (List.forall_mem_singleton.mpr (.record each)), .string _, by simp⟩
  simp only [boxMembers, List.forall_mem_cons]
  exact ⟨.list (List.forall_mem_singleton.mpr definition), .string _, .string _, by simp⟩

theorem decodeText_restyled_box :
    decodeText Document.decode boxText = .ok box ∧
      read boxText = ⟨record (boxMembers plainValue), true⟩ ∧
      read restyledBoxText = ⟨record restyledBox, true⟩ ∧
      decodeText Document.decode restyledBoxText = .ok box := by
  have found : decodeText (document.decode 0) boxText = .ok box :=
    ok_of_toOption (by decide +kernel)
  have plain : ∀ member ∈ plainValue, member.2.Proper := by
    simp only [plainValue, List.forall_mem_cons]
    exact ⟨.string _, .string _, proper_ofNat _, .flag _, .null, by simp⟩
  have restyled : ∀ member ∈ restyledValue, member.2.Proper := by
    simp only [restyledValue, List.forall_mem_cons]
    exact ⟨.flag _, .list (by simp), proper_ofNat _, .string _, .string _, by simp⟩
  have written : read boxText = ⟨record (boxMembers plainValue), true⟩ := by
    have text : boxText = (record (boxMembers plainValue)).compact := by decide +kernel
    rw [text]
    exact (Proper.record (proper_boxMembers plain)).read_compact
  have rewritten : read restyledBoxText = ⟨record restyledBox, true⟩ := by
    have text : restyledBoxText = (record restyledBox).compact := by decide +kernel
    rw [text]
    apply (Proper.record _).read_compact
    exact List.forall_mem_cons.mpr ⟨.string _, proper_boxMembers restyled⟩
  have value : (read boxText).value = record (boxMembers plainValue) := by rw [written]
  obtain ⟨-, again⟩ := decodeText_restyled value found
  exact ⟨found, written, rewritten, again _ _ _ value restyles_box rewritten⟩

end ObjectKind

end ApiSchema
