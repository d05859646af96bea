import ApiSchema.Proofs.Generic.Preparation
import ApiSchema.Proofs.Generic.Progress
import ApiSchema.Proofs.TypeExpr.Tree
import Mathlib.Control.Monad.Basic

set_option autoImplicit false

namespace ApiSchema

namespace TypeExpr

/-- A type with spaced commas is read with the same normal spelling and the same reference. -/
theorem spaceCommas_read {fragment : Text} {type : TypeExpr}
    (read : parseFragment fragment = .ok type) :
    ∃ again, parseFragment (Generic.spaceCommas fragment) = .ok again ∧
      again.canonical = type.canonical ∧ again.reference? = type.reference? := by
  obtain ⟨layout, valid, rfl, rfl⟩ := exists_layout read
  have spaced := valid.spaced
  have same := Layout.solid_spaced valid
  refine ⟨layout.spaced.type, ?_, Layout.canonical_eq_of_solid spaced valid same,
    Layout.reference?_eq_of_solid spaced valid same⟩
  rw [Layout.text, valid.spaceCommas_render legible_id]
  exact spaced.parse

end TypeExpr

open TypeExpr (parse parseFragment isIdentifier)

theorem settled_trim {emitted : List Definition} {type : Text} :
    Settled emitted (Text.trim type) ↔ Settled emitted type := by
  simp only [Settled, TypeExpr.parse_eq_ok_iff, TypeExpr.parseFragment_trim]

theorem Settled.spaceCommas {emitted : List Definition} {type : Text}
    (settled : Settled emitted type) : Settled emitted (Generic.spaceCommas type) := by
  obtain ⟨expr, read, written⟩ := settled
  obtain ⟨again, reread, -, refers⟩ := TypeExpr.spaceCommas_read (TypeExpr.parse_eq_ok_iff.mp read)
  refine ⟨again, TypeExpr.parse_eq_ok_iff.mpr reread, ?_⟩
  rw [refers]
  exact written

/-- Just one of the definitions has this name. -/
def NamedOnce (definitions : List Definition) (name : Text) : Prop :=
  (definitions.map (·.name)).count name = 1

/-- A type that can be read, whose reference and whose object types at every depth are each named by
just one of the definitions. -/
def Grounded (definitions : List Definition) (type : Text) : Prop :=
  ∃ expr, parse type = .ok expr ∧
    (∀ name, expr.reference? = some name → NamedOnce definitions name) ∧
    ∀ source name args, TypeExpr.object source name args ∈ expr.nodes →
      NamedOnce definitions (TypeExpr.object source name args).canonical

section Depth

variable {definitions : List Definition} {used : List Text} {instances : List Instance}
  {out : List Definition}

/-- The arguments of a written object type are settled. -/
theorem Progress.arguments_settled (progress : Progress definitions used instances ⟨out, []⟩)
    (words : ∀ definition ∈ definitions, isIdentifier definition.name = true)
    {fragment source name : Text} {args : List TypeExpr}
    (read : parseFragment fragment = .ok (.object source name args)) (some_arg : args ≠ [])
    (written : ∃ definition ∈ out,
      definition.name = (TypeExpr.object source name args).canonical) :
    ∀ arg ∈ args, Settled out arg.canonical := by
  obtain ⟨definition, member, named⟩ := written
  rw [show out = _ from progress.emitted] at member
  rcases List.mem_append.mp member with plain | made
  · -- a name with arguments holds a bracket, so it is not the name of a definition as authored
    have word := words definition (mem_plainDefinitions.mp plain).1
    obtain ⟨first, rest, rfl⟩ := List.exists_cons_of_ne_nil some_arg
    rw [named, TypeExpr.canonical_object_cons] at word
    refine absurd ?_ (TypeExpr.isIdentifier_not_mem word (show _ = false from rfl) (c := '<'))
    simp [TypeExpr.appliedText]
  · obtain ⟨inst, inside, rfl⟩ := List.mem_map.mp made
    obtain ⟨template, -, nodes, reread, -, -, -, texts, -⟩ := progress.made inst inside
    obtain ⟨again, parsed, spelled⟩ := TypeExpr.object_canonical_read read
    rw [named, TypeExpr.parse_eq_ok_iff, parsed, Except.ok.injEq, TypeExpr.object.injEq] at reread
    obtain ⟨-, -, rfl⟩ := reread
    intro arg given
    refine progress.settled (Or.inr ⟨inst, inside, List.mem_append_right _ ?_⟩)
    rw [texts, spelled]
    exact List.mem_map.mpr ⟨arg, given, rfl⟩

/-- If the innermost type is written, all object types are. -/
theorem Progress.nodes_written (progress : Progress definitions used instances ⟨out, []⟩)
    (words : ∀ definition ∈ definitions, isIdentifier definition.name = true)
    {layout : TypeExpr.Layout} (valid : layout.Valid)
    (written : ∀ name, layout.type.reference? = some name →
      ∃ definition ∈ out, definition.name = name)
    {source name : Text} {args : List TypeExpr}
    (node : TypeExpr.object source name args ∈ layout.type.nodes) :
    ∃ definition ∈ out, definition.name = (TypeExpr.object source name args).canonical := by
  induction valid with
  | @leaf margins word blank valid =>
      rw [TypeExpr.Layout.type_eq, TypeExpr.object_mem_arrayType] at node
      have inner := TypeExpr.Layout.innermost_type (.leaf margins word)
      cases word with
      | primitive base => simp [TypeExpr.Layout.item, TypeExpr.Word.type, TypeExpr.nodes] at node
      | tagged base format =>
          simp [TypeExpr.Layout.item, TypeExpr.Word.type, TypeExpr.nodes] at node
      | named other =>
          have same : TypeExpr.object source name args = .object other other [] := by
            simpa [TypeExpr.Layout.item, TypeExpr.Word.type, TypeExpr.nodes, TypeExpr.nodesAll]
              using node
          rw [same]
          exact written _ (reference?_object inner)
  | @applied margins head layouts blank word some_arg valid ih =>
      have whole : (TypeExpr.Layout.applied margins head layouts).Valid :=
        .applied blank word some_arg valid
      have inner := TypeExpr.Layout.innermost_type (.applied margins head layouts)
      have own := written _ (reference?_object inner)
      rw [TypeExpr.Layout.type_eq, TypeExpr.object_mem_arrayType] at node
      rcases List.mem_cons.mp node with same | deeper
      · rw [same]
        exact own
      · obtain ⟨arg, given, below⟩ := TypeExpr.mem_nodesAll.mp deeper
        obtain ⟨part, inside, rfl⟩ := List.mem_map.mp given
        have read := whole.inner.parse
        rw [TypeExpr.Layout.type_inner, inner] at read
        have settled := progress.arguments_settled words read (by simpa using some_arg) own
        obtain ⟨expr, parsed, references⟩ := settled part.type given
        obtain ⟨again, reread, -, refers⟩ := TypeExpr.canonical_read (valid part inside).parse
        rw [TypeExpr.parse_eq_ok_iff, reread, Except.ok.injEq] at parsed
        subst parsed
        rw [refers] at references
        exact ih part inside references below

theorem Progress.grounded (progress : Progress definitions used instances ⟨out, []⟩)
    (words : ∀ definition ∈ definitions, isIdentifier definition.name = true) {type : Text}
    (settled : Settled out type) : Grounded out type := by
  have once : ∀ name, (∃ definition ∈ out, definition.name = name) → NamedOnce out name := by
    intro name present
    obtain ⟨definition, member, rfl⟩ := present
    exact List.count_eq_one_of_mem progress.distinct (List.mem_map.mpr ⟨definition, member, rfl⟩)
  obtain ⟨expr, read, written⟩ := settled
  refine ⟨expr, read, fun name refers => once name (written name refers), ?_⟩
  intro source name args node
  obtain ⟨layout, valid, -, rfl⟩ := TypeExpr.exists_layout (TypeExpr.parse_eq_ok_iff.mp read)
  exact once _ (progress.nodes_written words valid written node)

end Depth

namespace Document

theorem mem_usedTypes {document : Document} {type : Text} :
    Text.trim type ∈ document.usedTypes ↔ Text.trim type ∈ document.typeTexts :=
  List.mem_eraseDups

section Settled

variable {document : Document} {prepared : List Definition} {instances : List Instance}
  {out : List Definition} (done : document.definitions.map Definition.prepare = prepared.map .ok)
  (progress : Progress prepared document.usedTypes instances ⟨out, []⟩)
include progress

theorem typeTexts_settled : ∀ type, Text.trim type ∈ document.typeTexts → Settled out type := by
  intro type member
  exact settled_trim.mp (progress.settled (Or.inl (mem_usedTypes.mpr member)))

theorem operations_settled :
    ∀ operation ∈ document.operations, ∀ type ∈ operation.types, Settled out type := by
  intro operation member type used
  refine typeTexts_settled progress type (List.mem_map_of_mem ?_)
  exact List.mem_append_left _ (List.mem_flatMap.mpr ⟨operation, member, used⟩)

include done

/-- The types of what is written out are settled. -/
theorem properties_settled :
    ∀ definition ∈ out, ∀ property ∈ definition.properties, Settled out property.type := by
  intro definition member property field
  rw [show out = _ from progress.emitted, Definition.plainDefinitions_prepared done] at member
  rcases List.mem_append.mp member with plain | made
  · -- the type in use is the one as authored, and only its commas are spaced since then
    obtain ⟨authored, declared, rfl⟩ := List.mem_map.mp plain
    obtain ⟨given, notGeneric⟩ := mem_plainDefinitions.mp declared
    obtain ⟨source, inside, rfl⟩ := List.mem_map.mp field
    apply Settled.spaceCommas
    refine typeTexts_settled progress source.type (List.mem_map_of_mem ?_)
    refine List.mem_append_right _
      (List.mem_flatMap.mpr ⟨authored, ?_, List.mem_map_of_mem inside⟩)
    exact List.mem_filter.mpr ⟨given, by simp [notGeneric]⟩
  · obtain ⟨inst, inside, rfl⟩ := List.mem_map.mp made
    refine progress.settled (Or.inr ⟨inst, inside, List.mem_append_left _ ?_⟩)
    exact List.mem_map_of_mem field

end Settled

/-- In a document that resolves, every type of an operation and every property type of a definition
written out is grounded: it can be read, and each object type in it has just one definition. -/
theorem resolve_grounded {limit : Nat} {document : Document} {out : List Definition}
    (words : ∀ definition ∈ document.definitions, isIdentifier definition.name = true)
    (resolved : document.resolve limit = some (.ok out)) :
    (∀ operation ∈ document.operations, ∀ type ∈ operation.types, Grounded out type) ∧
      ∀ definition ∈ out, ∀ property ∈ definition.properties, Grounded out property.type := by
  obtain ⟨prepared, done, finished⟩ := resolve_eq_ok resolved
  obtain ⟨-, instances, progress⟩ := discover_progress finished
  have ready_words : ∀ ready ∈ prepared, isIdentifier ready.name = true := by
    intro ready member
    obtain ⟨definition, declared, prepares⟩ := Definition.exists_authored done member
    rw [Definition.prepare_name prepares]
    exact words definition declared
  constructor
  · intro operation member type used
    exact progress.grounded ready_words (operations_settled progress operation member type used)
  · intro definition member property field
    exact progress.grounded ready_words
      (properties_settled done progress definition member property field)

/-- A page of users, tagged with a role that no property mentions. -/
def taggedPages : Document :=
  { title := "Pages", version := "1",
    operations :=
      [{ id := "list", method := .get, path := "/pages",
         responses := [{ status := 200, type := some " Tagged<Page<User>,Role[]>[] " }] }],
    definitions :=
      [{ name := "User", properties := [{ name := "name", type := "string" }] },
        { name := "Role" },
        { name := "Page", params := ["T"], properties := [{ name := "items", type := "T[]" }] },
        { name := "Tagged", params := ["T", "Tag"],
          properties := [{ name := "value", type := "T" }] }] }

def taggedPagesOut : List Definition :=
  [{ name := "User", properties := [{ name := "name", type := "string" }] }, { name := "Role" },
    { name := "Tagged<Page<User>, Role[]>",
      properties := [{ name := "value", type := "Page<User>" }] },
    { name := "Page<User>", properties := [{ name := "items", type := "User[]" }] }]

theorem resolve_grounded_pages :
    taggedPages.resolve 20 = some (.ok taggedPagesOut) ∧
      Grounded taggedPagesOut " Tagged<Page<User>,Role[]>[] " := by
  have resolved : taggedPages.resolve 20 = some (.ok taggedPagesOut) := by decide +kernel
  have words : ∀ definition ∈ taggedPages.definitions,
      isIdentifier definition.name = true := by decide
  have grounded := (resolve_grounded words resolved).1
  exact ⟨resolved, grounded _ (List.mem_singleton.mpr rfl) _ (List.mem_singleton.mpr rfl)⟩

end Document

end ApiSchema
