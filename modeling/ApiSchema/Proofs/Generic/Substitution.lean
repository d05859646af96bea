import ApiSchema.Proofs.Generic.Filling
import ApiSchema.Proofs.Generic.Preparation
import ApiSchema.Proofs.Generic.Progress
import ApiSchema.Proofs.TypeExpr.Agreement

set_option autoImplicit false

namespace ApiSchema

open TypeExpr (parse parseFragment canonical isTypeName isIdentifierPart argumentFor? Layout)
open Generic (mark markOpen markClose substitute markedType bareName)

/-- A text without marks. -/
def Unmarked (text : Text) : Prop := markOpen ∉ text ∧ markClose ∉ text

instance (text : Text) : Decidable (Unmarked text) :=
  inferInstanceAs (Decidable (markOpen ∉ text ∧ markClose ∉ text))

namespace TypeExpr

section Heads

variable {α : Type} {choose : Text → Option α}

theorem Layout.Valid.headsFree {layout : Layout} (valid : layout.Valid)
    (plain : ∀ source name args, object source name args ∈ layout.type.nodes → args ≠ [] →
      choose name = none) : layout.HeadsFree choose := by
  induction valid with
  | leaf => exact .leaf _ _
  | @applied margins name args _ _ some_arg _ ih =>
      simp only [Layout.type_eq, object_mem_arrayType, Layout.item] at plain
      refine .applied margins ?_ ?_
      · exact plain _ name (args.map Layout.type) (List.mem_cons_self ..) (by simpa using some_arg)
      · intro arg given
        refine ih arg given fun source head below member filled => plain source head below ?_ filled
        rw [nodes]
        exact List.mem_cons_of_mem _
          (mem_nodesAll.mpr ⟨arg.type, List.mem_map_of_mem given, member⟩)

theorem Layout.HeadsFree.spacedWithin {layout : Layout} (valid : layout.Valid)
    (free : layout.HeadsFree choose) (before after : Text) :
    (layout.spacedWithin before after).HeadsFree choose := by
  induction valid generalizing before after with
  | leaf => exact .leaf _ _
  | @applied margins name args _ _ _ valid ih =>
      cases free with
      | applied _ head below =>
          rw [Layout.spacedWithin]
          refine .applied _ head ?_
          intro layout member
          obtain ⟨arg, given, before, after, -, -, rfl⟩ := Layout.mem_spacedAll valid member
          exact ih arg given (below arg given) before after

end Heads

theorem argumentFor?_mem {α : Type} {params : List Text} {args : List α} {name : Text} {arg : α}
    (found : argumentFor? params args name = some arg) : arg ∈ args := by
  induction params generalizing args with
  | nil => cases found
  | cons param params ih =>
      cases args with
      | nil => cases found
      | cons first args =>
          rw [argumentFor?, List.zip_cons_cons, List.lookup_cons] at found
          split at found
          · cases found
            simp
          · exact List.mem_cons_of_mem first (ih found)

/-- Types that were read have layouts. -/
theorem exists_args_layouts {args : List TypeExpr}
    (readable : ∀ arg ∈ args, ∃ fragment, parseFragment fragment = .ok arg) :
    ∃ layouts : List Layout,
      (∀ layout ∈ layouts, layout.Valid) ∧ layouts.map Layout.type = args := by
  induction args with
  | nil => exact ⟨[], by simp, rfl⟩
  | cons arg args ih =>
      obtain ⟨fragment, read⟩ := readable arg (by simp)
      obtain ⟨layout, valid, -, same⟩ := exists_layout read
      obtain ⟨layouts, valids, sames⟩ := ih fun other member => readable other (by simp [member])
      refine ⟨layout :: layouts, ?_, by simp [same, sames]⟩
      intro other member
      rcases List.mem_cons.mp member with rfl | member
      · exact valid
      · exact valids other member

/-- The choice of the plain layouts of arguments fits every place. -/
theorem fits_plain (params : List Text) {layouts : List Layout}
    (valid : ∀ layout ∈ layouts, layout.Valid) :
    Layout.Fits (argumentFor? params (layouts.map Layout.plain)) := by
  have shape : ∀ name layout, argumentFor? params (layouts.map Layout.plain) name = some layout →
      ∃ inner ∈ layouts, layout = inner.plain := by
    intro name layout found
    obtain ⟨inner, inside, same⟩ := List.mem_map.mp (argumentFor?_mem found)
    exact ⟨inner, inside, same.symm⟩
  refine ⟨?_, ?_, ?_⟩
  · intro name layout found
    obtain ⟨inner, inside, rfl⟩ := shape name layout found
    exact (valid inner inside).plainAfter Text.Blank.nil
  · intro name layout found
    obtain ⟨inner, -, rfl⟩ := shape name layout found
    cases inner <;> rfl
  · intro name layout found
    obtain ⟨inner, -, rfl⟩ := shape name layout found
    cases inner <;> rfl

/-- Putting in the normal spellings of layouts gives the spaced layout with their plain texts in the
places of the parameters. -/
theorem Layout.Valid.substitute_plain {params : List Text} {inners : List Layout}
    (words : ∀ param ∈ params, isTypeName param = true) (arity : inners.length = params.length)
    (valids : ∀ inner ∈ inners, inner.Valid)
    (unmarked : ∀ inner ∈ inners, markOpen ∉ inner.type.canonical) {layout : Layout}
    (valid : layout.Valid) (free : markOpen ∉ layout.text) :
    substitute (params.map mark) ((inners.map Layout.type).map canonical)
        (markedType params layout.text) =
      layout.spaced.render fun name =>
        ((argumentFor? params (inners.map Layout.plain) name).map Layout.text).getD name := by
  have texts : (inners.map Layout.plain).map Layout.text =
      (inners.map Layout.type).map canonical := by
    rw [List.map_map, List.map_map]
    exact List.map_congr_left fun inner inside => by
      have text := (valids inner inside).text_plainAfter []
      rwa [List.nil_append] at text
  rw [valid.substitute_markedType words (by simpa using arity) ?_ free, ← texts]
  · congr 1
    funext name
    rw [argumentFor?_map]
  · intro arg member
    obtain ⟨type, given, rfl⟩ := List.mem_map.mp member
    obtain ⟨inner, inside, rfl⟩ := List.mem_map.mp given
    exact unmarked inner inside

/-- Where no parameter is applied to arguments this is the spaced layout, filled. -/
theorem Layout.Valid.substitute_fill {params : List Text} {inners : List Layout}
    (words : ∀ param ∈ params, isTypeName param = true) (arity : inners.length = params.length)
    (valids : ∀ inner ∈ inners, inner.Valid)
    (unmarked : ∀ inner ∈ inners, markOpen ∉ inner.type.canonical) {layout : Layout}
    (valid : layout.Valid) (free : markOpen ∉ layout.text)
    (unapplied : ∀ source name given, object source name given ∈ layout.type.nodes → given ≠ [] →
      name ∉ params) :
    substitute (params.map mark) ((inners.map Layout.type).map canonical)
        (markedType params layout.text) =
      (layout.spaced.fill (argumentFor? params (inners.map Layout.plain))).text := by
  have heads : layout.spaced.HeadsFree (argumentFor? params (inners.map Layout.plain)) := by
    refine Layout.HeadsFree.spacedWithin valid (valid.headsFree ?_) [] []
    intro source name given member filled
    exact argumentFor?_of_not_mem _ (unapplied source name given member filled)
  rw [valid.substitute_plain words arity valids unmarked free,
    valid.spaced.text_fill (fits_plain params valids) heads]

end TypeExpr

namespace Generic

open TypeExpr

section Property

variable {params : List Text} {args : List TypeExpr} {type : Text}

/-- A property type of a template, with arguments put in for its parameters, is read as the tree
that it was authored as, with the trees of the arguments for the parameters. -/
theorem substituted_read (words : ∀ param ∈ params, isTypeName param = true)
    (arity : args.length = params.length)
    (readable : ∀ arg ∈ args, ∃ fragment, parseFragment fragment = .ok arg)
    (unmarked : ∀ arg ∈ args, Unmarked arg.canonical) (plain : Unmarked type) {before : TypeExpr}
    (read : parseFragment type = .ok before)
    (unapplied : ∀ source name given, object source name given ∈ before.nodes → given ≠ [] →
      name ∉ params) :
    ∃ after,
      parseFragment (substitute (params.map mark) (args.map canonical) (markedType params type)) =
        .ok after ∧
      after.unsourced = (before.replaceNames (argumentFor? params args)).unsourced := by
  obtain ⟨layout, valid, rfl, rfl⟩ := exists_layout read
  obtain ⟨inners, valids, rfl⟩ := exists_args_layouts readable
  let choose := argumentFor? params (inners.map Layout.plain)
  have fits : Layout.Fits choose := fits_plain params valids
  have trees : (inners.map Layout.plain).map (fun layout => layout.type.unsourced) =
      (inners.map Layout.type).map unsourced := by
    rw [List.map_map, List.map_map]
    exact List.map_congr_left fun inner inside =>
      Layout.unsourced_eq_of_solid ((valids inner inside).plainAfter Text.Blank.nil)
        (valids inner inside) (Layout.solid_plainAfter (valids inner inside) [])
  have spelled : substitute (params.map mark) ((inners.map Layout.type).map canonical)
      (markedType params layout.text) = (layout.spaced.fill choose).text :=
    valid.substitute_fill words (by simpa using arity) valids
      (fun inner inside => (unmarked _ (List.mem_map_of_mem inside)).1) plain.1 unapplied
  refine ⟨(layout.spaced.fill choose).type, ?_, ?_⟩
  · rw [spelled]
    exact (valid.spaced.fill fits).parse
  · have agree : ∀ name, (choose name).map (fun layout => layout.type.unsourced) =
        (argumentFor? params (inners.map Layout.type) name).map unsourced := by
      intro name
      rw [← argumentFor?_map, ← argumentFor?_map, trees]
    rw [valid.spaced.type_fill agree, ← valid.spaced.replaceNames_solid,
      Layout.solid_spaced valid, valid.replaceNames_solid]

/-- Nothing but the arguments' letters comes into a property type. -/
theorem substituted_unmarked (words : ∀ param ∈ params, isTypeName param = true)
    (arity : args.length = params.length) (unmarked : ∀ arg ∈ args, Unmarked arg.canonical)
    (plain : Unmarked type) {before : TypeExpr} (read : parseFragment type = .ok before) :
    Unmarked (substitute (params.map mark) (args.map canonical) (markedType params type)) := by
  obtain ⟨layout, valid, rfl, rfl⟩ := exists_layout read
  have arg_unmarked : ∀ arg ∈ args.map canonical, Unmarked arg := by
    intro arg member
    obtain ⟨given, inside, rfl⟩ := List.mem_map.mp member
    exact unmarked given inside
  rw [valid.substitute_markedType words (by simpa using arity)
    (fun arg member => (arg_unmarked arg member).1) plain.1]
  have append : ∀ a b, Unmarked a → Unmarked b → Unmarked (a ++ b) := by
    intro a b first second
    exact ⟨fun member => (List.mem_append.mp member).elim first.1 second.1,
      fun member => (List.mem_append.mp member).elim first.2 second.2⟩
  have names : ∀ name, isTypeName name = true →
      Unmarked ((argumentFor? params (args.map canonical) name).getD name) := by
    intro name word
    cases found : argumentFor? params (args.map canonical) name with
    | none =>
        have identifier := (isTypeName_iff.mp word).1
        exact ⟨isIdentifier_not_mem identifier (by decide),
          isIdentifier_not_mem identifier (by decide)⟩
    | some arg => exact arg_unmarked arg (argumentFor?_mem found)
  have letters : ∀ c, Text.isBlank c = false → (c ∈ layout.spaced.text ↔ c ∈ layout.text) :=
    fun c solid => Layout.mem_text_of_solid solid valid.spaced valid (Layout.solid_spaced valid)
  refine valid.spaced.render_of_names append names fun text inside =>
    ⟨fun member => ?_, fun member => ?_⟩
  · exact plain.1 ((letters markOpen (by decide)).mp (inside member))
  · exact plain.2 ((letters markClose (by decide)).mp (inside member))

end Property

end Generic

end ApiSchema
