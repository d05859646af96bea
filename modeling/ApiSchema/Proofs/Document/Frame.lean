import ApiSchema.Proofs.Document.Blanks
import ApiSchema.Proofs.Document.Idempotence

set_option autoImplicit false

namespace ApiSchema

open Text (squeeze trim)
open TypeExpr (parse canonical)

namespace Generic

/-- Spacing commas moves blanks only. -/
theorem squeeze_spaceCommas (text : Text) : squeeze (spaceCommas text) = squeeze text := by
  have comma : squeeze [',', ' '] = [','] := by decide
  induction text using Text.comma_induction with
  | free text apart => rw [spaceCommas_of_free apart, Text.squeeze_trim]
  | comma front back apart ih =>
      have split : front ++ ',' :: back = front ++ [','] ++ back := by simp
      rw [spaceCommas_comma, spaceCommas_of_free apart, split]
      simp only [Text.squeeze_append, Text.squeeze_trim, ih, comma]
      rfl

end Generic

/-- The definition is `template` but for three things: its name, in which arguments stand behind the
template's name, its parameters, of which it has none, and the types of its properties, which have
the arguments put in. -/
structure Definition.InstanceOf (definition template : Definition) : Prop where
  generic : template.isGeneric = true
  name : ∃ behind, Text.cutAt? '<' definition.name = some (template.name, behind)
  description : definition.description = template.description
  params : definition.params = []
  properties : ∃ args,
    parse definition.name = .ok (.object definition.name template.name args) ∧
      List.Forall₂
        (Property.Alike fun authored written => written = template.writtenType args authored)
        template.properties definition.properties

section Instances

variable {definitions prepared : List Definition}
  (done : definitions.map Definition.prepare = prepared.map .ok)
include done

/-- An instance of prepared definitions is one of the definitions as they were authored. -/
theorem Instance.Made.instanceOf {inst : Instance} (made : inst.Made prepared) :
    ∃ template ∈ definitions, inst.definition.InstanceOf template := by
  obtain ⟨ready, declared, args, read, named, some_arg, arity, texts, instantiated⟩ := made
  obtain ⟨template, given, prepares⟩ := Definition.exists_authored done declared
  have same_name := Definition.prepare_name prepares
  -- the name was read as an object type, so the bracket behind the template's name is the first
  have no_bracket : '<' ∉ ready.name := by
    have word := TypeExpr.object_name_read (TypeExpr.parse_eq_ok_iff.mp read)
    exact TypeExpr.isIdentifier_not_mem (TypeExpr.isTypeName_iff.mp word).1 (by decide)
  refine ⟨template, given, ?_, ?_, ?_, ?_, args, ?_, ?_⟩
  · rw [← Definition.prepare_isGeneric prepares]
    have some_param : ready.params ≠ [] := by
      rw [← List.length_pos_iff, ← arity, List.length_pos_iff]
      exact some_arg
    simpa [Definition.isGeneric] using some_param
  · obtain ⟨first, rest, rfl⟩ := List.exists_cons_of_ne_nil some_arg
    rw [named, ← same_name]
    exact ⟨_, Text.cutAt?_append no_bracket _⟩
  · rw [instantiated]
    obtain ⟨params, -, -, -, -, rfl⟩ := Definition.prepareWith_eq_ok prepares
    rfl
  · rw [instantiated]
    rfl
  · rw [← same_name]
    exact read
  · rw [instantiated, texts, Definition.instantiate_properties prepares,
      List.forall₂_map_right_iff, List.forall₂_same]
    exact fun property _ => ⟨rfl, rfl⟩

end Instances

namespace Document

/-- Only type texts and names are rewritten. What is written out begins with the definitions without
parameters, in their order and the same but for blanks in their types. Behind them are instances of
definitions with parameters, the same as these but for their names, parameters and types. Nothing
that is written out has parameters. -/
theorem resolve_frame {limit : Nat} {document : Document} {out : List Definition}
    (resolved : document.resolve limit = some (.ok out)) :
    (∀ definition ∈ out, definition.isGeneric = false) ∧
      (plainDefinitions document.definitions).length ≤ out.length ∧
      List.Forall₂ Definition.SameButBlanks (plainDefinitions document.definitions)
        (out.take (plainDefinitions document.definitions).length) ∧
      ∀ definition ∈ out.drop (plainDefinitions document.definitions).length,
        ∃ template ∈ document.definitions, definition.InstanceOf template := by
  obtain ⟨prepared, done, discovers⟩ := resolve_eq_ok resolved
  obtain ⟨-, instances, progress⟩ := discover_progress discovers
  have plain := Definition.plainDefinitions_prepared done
  have size : (plainDefinitions document.definitions).length =
      (plainDefinitions prepared).length := by rw [plain, List.length_map]
  have whole : out = written prepared instances := progress.emitted
  refine ⟨?_, ?_, ?_, ?_⟩
  · intro definition member
    rw [Definition.isGeneric, progress.out_params definition member]
    rfl
  · rw [whole, written, List.length_append, size]
    exact Nat.le_add_right _ _
  · rw [whole, size, written_take, plain, ← squeezed_eq_iff, List.map_map]
    refine List.map_congr_left fun definition _ => ?_
    simp only [Function.comp_apply, Definition.mapTypes, List.map_map, Definition.mk.injEq,
      true_and]
    refine List.map_congr_left fun property _ => ?_
    simp only [Function.comp_apply, Generic.squeeze_spaceCommas]
  · intro definition member
    rw [whole, size, written_drop] at member
    obtain ⟨inst, inside, rfl⟩ := List.mem_map.mp member
    exact (progress.made inst inside).instanceOf done

/-- Pages and books with limits on their properties, and blanks about the commas. -/
def boundedPages : Document :=
  oneUse "Page<Book ,string>[]"
    [{ name := "Map", params := ["K", "V"] },
      { name := "Page", description := "Some items", params := ["T", "K"],
        properties :=
          [{ name := "items", type := "Map<K ,T>[]", required := true, description := "By key",
             facets := { minLength := some 1 } },
            { name := "next", type := "K", facets := { pattern := some ("[a-z]*" : String) } }] },
      { name := "Book", description := "A book",
        properties :=
          [{ name := "tags", type := "Map<string ,Book>", facets := { maxLength := some 8 } }] }]

def boundedPage : Definition :=
  { name := "Page<Book, string>", description := "Some items",
    properties :=
      [{ name := "items", type := "Map<string, Book>[]", required := true, description := "By key",
         facets := { minLength := some 1 } },
        { name := "next", type := "string", facets := { pattern := some ("[a-z]*" : String) } }] }

def boundedPagesOut : List Definition :=
  [{ name := "Book", description := "A book",
     properties :=
       [{ name := "tags", type := "Map<string, Book>", facets := { maxLength := some 8 } }] },
    boundedPage, { name := "Map<string, Book>" }]

theorem resolve_frame_pages :
    boundedPages.resolve 20 = some (.ok boundedPagesOut) ∧
      List.Forall₂ Definition.SameButBlanks (plainDefinitions boundedPages.definitions)
        (boundedPagesOut.take 1) ∧
      ∃ template ∈ boundedPages.definitions, boundedPage.InstanceOf template := by
  have resolved : boundedPages.resolve 20 = some (.ok boundedPagesOut) := by decide +kernel
  obtain ⟨-, -, alike, instances⟩ := resolve_frame resolved
  have count : (plainDefinitions boundedPages.definitions).length = 1 := by decide
  rw [count] at alike instances
  exact ⟨resolved, alike, instances boundedPage (by decide)⟩

end Document

end ApiSchema
