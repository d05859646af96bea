import ApiSchema.Proofs.Document.Blanks
import Mathlib.Data.List.Induction

set_option autoImplicit false

namespace ApiSchema

open Text (trim)

/-- `firsts` holds each of the texts once, in the order in which they first come. -/
structure FirstsOf (texts firsts : List Text) : Prop where
  nodup : firsts.Nodup
  members : ∀ text, text ∈ firsts ↔ text ∈ texts
  ordered : firsts.Pairwise fun text other => texts.idxOf text < texts.idxOf other

namespace FirstsOf

variable {texts firsts : List Text}

theorem nil : FirstsOf [] [] := ⟨List.nodup_nil, fun _ => Iff.rfl, List.Pairwise.nil⟩

/-- Texts further on do not move the first places. -/
theorem ordered_append (holds : FirstsOf texts firsts) (more : List Text) :
    firsts.Pairwise fun text other =>
      (texts ++ more).idxOf text < (texts ++ more).idxOf other := by
  apply holds.ordered.imp_of_mem
  intro text other member also before
  rw [List.idxOf_append_of_mem ((holds.members text).mp member),
    List.idxOf_append_of_mem ((holds.members other).mp also)]
  exact before

/-- A text that was there before changes nothing. -/
theorem seen (holds : FirstsOf texts firsts) {text : Text} (old : text ∈ texts) :
    FirstsOf (texts ++ [text]) firsts := by
  refine ⟨holds.nodup, ?_, holds.ordered_append [text]⟩
  intro other
  rw [holds.members, List.mem_append, List.mem_singleton]
  constructor
  · exact Or.inl
  · intro either
    rcases either with member | same
    · exact member
    · rw [same]
      exact old

/-- A text that was not there before comes last. -/
theorem fresh (holds : FirstsOf texts firsts) {text : Text} (new : text ∉ texts) :
    FirstsOf (texts ++ [text]) (firsts ++ [text]) := by
  refine ⟨?_, ?_, ?_⟩
  · rw [← List.concat_eq_append]
    apply holds.nodup.concat
    rw [holds.members]
    exact new
  · intro other
    rw [List.mem_append, List.mem_append, holds.members]
  · rw [List.pairwise_append]
    refine ⟨holds.ordered_append [text], List.pairwise_singleton _ _, ?_⟩
    intro other member last same
    rw [List.mem_singleton.mp same, List.idxOf_append_of_mem ((holds.members other).mp member),
      List.idxOf_append_of_notMem new]
    have before := List.idxOf_lt_length_iff.mpr ((holds.members other).mp member)
    omega

/-- There is one list of first places. -/
theorem unique {others : List Text} (holds : FirstsOf texts firsts)
    (also : FirstsOf texts others) : firsts = others := by
  have perm : firsts.Perm others := by
    apply (List.perm_ext_iff_of_nodup holds.nodup also.nodup).mpr
    intro text
    rw [holds.members, also.members]
  apply perm.eq_of_pairwise _ holds.ordered also.ordered
  intro text other _ _ before behind
  omega

end FirstsOf

/-- One more text is kept just if it was not there before. -/
theorem eraseDups_concat (texts : List Text) (text : Text) :
    (texts ++ [text]).eraseDups =
      if text ∈ texts then texts.eraseDups else texts.eraseDups ++ [text] := by
  rw [List.eraseDups_append]
  by_cases old : text ∈ texts
  · simp [old, List.removeAll]
  · simp [old, List.removeAll, List.eraseDups_cons]

theorem firstsOf_eraseDups (texts : List Text) : FirstsOf texts texts.eraseDups := by
  induction texts using List.reverseRecOn with
  | nil => exact FirstsOf.nil
  | append_singleton texts text ih =>
      rw [eraseDups_concat]
      by_cases old : text ∈ texts
      · rw [if_pos old]
        exact ih.seen old
      · rw [if_neg old]
        exact ih.fresh old

/-- The types of an operation, trimmed: those of its parameters, then those of its responses that
have a body. -/
def Operation.mentions (operation : Operation) : List Text :=
  operation.params.map (fun param => trim param.type) ++
    operation.responses.filterMap fun response => response.type.map trim

theorem Operation.mentions_eq (operation : Operation) :
    operation.mentions = operation.types.map trim := by
  rw [Operation.types, Operation.mentions, List.map_append, List.map_map, List.map_filterMap]
  rfl

theorem Operation.mentions_mapTypes_trim (operation : Operation) :
    (operation.mapTypes trim).mentions = operation.mentions := by
  rw [mentions_eq, mentions_eq, types_mapTypes, List.map_map]
  simp only [Function.comp_def, Text.trim_trim]

theorem plainDefinitions_mapTypes (rewrite : Text → Text) (definitions : List Definition) :
    plainDefinitions (definitions.map (Definition.mapTypes rewrite)) =
      (plainDefinitions definitions).map (Definition.mapTypes rewrite) := by
  rw [plainDefinitions, List.filter_map]
  rfl

namespace Document

/-- All that is mentioned as a type, trimmed: operation by operation, then property by property of
the definitions without parameters. -/
def mentions (document : Document) : List Text :=
  document.operations.flatMap Operation.mentions ++
    (plainDefinitions document.definitions).flatMap fun definition =>
      definition.properties.map fun property => trim property.type

theorem usedTypes_eq (document : Document) : document.usedTypes = document.mentions.eraseDups := by
  have operations : (document.operations.flatMap (·.types)).map trim =
      document.operations.flatMap Operation.mentions := by
    rw [List.map_flatMap, funext Operation.mentions_eq]
  have plain : (plainDefinitions document.definitions).flatMap (fun definition =>
      (definition.properties.map (·.type)).map trim) =
        (plainDefinitions document.definitions).flatMap fun definition =>
          definition.properties.map fun property => trim property.type := by
    simp only [List.map_map]
    rfl
  rw [usedTypes, typeTexts, mentions, List.map_append, operations, List.map_flatMap, ← plain]
  rfl

/-- Trimming its types does not change what a document mentions. -/
theorem mentions_mapTypes_trim (document : Document) :
    (document.mapTypes trim).mentions = document.mentions := by
  have operations : (document.mapTypes trim).operations.flatMap Operation.mentions =
      document.operations.flatMap Operation.mentions := by
    rw [mapTypes, List.flatMap_map]
    simp only [Operation.mentions_mapTypes_trim]
  have definitions : (document.mapTypes trim).definitions =
      document.definitions.map (Definition.mapTypes trim) := rfl
  rw [mentions, mentions, operations, definitions, plainDefinitions_mapTypes, List.flatMap_map]
  simp only [Definition.mapTypes, List.map_map, Function.comp_def, Text.trim_trim]

/-- The types in use are what the document mentions, each once and in the order of first places, and
this determines them. Generic definitions have no part in them, nor have blanks around a type. -/
theorem usedTypes_firsts (document : Document) :
    FirstsOf document.mentions document.usedTypes ∧
      (∀ used, FirstsOf document.mentions used → used = document.usedTypes) ∧
      (∀ other : Document, other.operations = document.operations →
        plainDefinitions other.definitions = plainDefinitions document.definitions →
          other.usedTypes = document.usedTypes) ∧
      ∀ other : Document, other.mapTypes trim = document.mapTypes trim →
        other.usedTypes = document.usedTypes := by
  have firsts : FirstsOf document.mentions document.usedTypes := by
    rw [usedTypes_eq]
    exact firstsOf_eraseDups document.mentions
  refine ⟨firsts, fun used holds => holds.unique firsts, ?_, ?_⟩
  · intro other operations plain
    rw [usedTypes_eq, usedTypes_eq, mentions, mentions, operations, plain]
  · intro other same
    rw [usedTypes_eq, usedTypes_eq, ← mentions_mapTypes_trim other, same, mentions_mapTypes_trim]

/-- Users and pages of them, with types that differ at their ends only. -/
def userPages : Document :=
  { title := "Users", version := "1",
    operations :=
      [{ id := "list", method := .get, path := "/users",
         params := [.declare "size" .query " integer", .declare "sort" .query "string\t"],
         responses := [{ status := 200, type := some ("Page<User>" : Text) }, { status := 204 }] },
       { id := "show", method := .get, path := "/users/me",
         params := [.declare "size" .query "integer"],
         responses := [{ status := 200, type := some ("User " : Text) }] }],
    definitions :=
      [{ name := "Page", params := ["T"], properties := [{ name := "items", type := "T[]" }] },
       { name := "User", properties := [{ name := "name", type := "\nstring" }] }] }

def usersOnly : Document :=
  { userPages with definitions := plainDefinitions userPages.definitions }

theorem usedTypes_firsts_pages :
    userPages.usedTypes = ["integer", "string", "Page<User>", "User"] ∧
      FirstsOf userPages.mentions userPages.usedTypes ∧
      usersOnly.usedTypes = userPages.usedTypes ∧
      (userPages.mapTypes trim).usedTypes = userPages.usedTypes := by
  obtain ⟨firsts, -, generic, blanks⟩ := usedTypes_firsts userPages
  have plain : plainDefinitions usersOnly.definitions = plainDefinitions userPages.definitions := by
    decide
  have trimmed : (userPages.mapTypes trim).mapTypes trim = userPages.mapTypes trim := by
    decide +kernel
  exact ⟨by decide +kernel, firsts, generic usersOnly rfl plain, blanks _ trimmed⟩

end Document

end ApiSchema
