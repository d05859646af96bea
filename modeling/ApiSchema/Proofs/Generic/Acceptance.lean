import ApiSchema.Proofs.Generic.Substitution

set_option autoImplicit false

namespace ApiSchema

open TypeExpr (parseFragment canonical isTypeName argumentFor? Layout)
open Generic (mark markOpen substitute markedType)

namespace TypeExpr

/-- The type is an object type without arguments, in no array. -/
def isName : TypeExpr → Bool
  | object _ _ args => args.isEmpty
  | _ => false

namespace Layout

def isName : Layout → Bool
  | leaf margins (.named _) => margins.gaps.isEmpty
  | _ => false

theorem Valid.isName_plain {layout : Layout} (valid : layout.Valid) :
    layout.plain.isName = layout.type.isName := by
  cases valid with
  | @leaf margins word _ _ =>
      rw [Layout.plain, Layout.plainAfter, Layout.type]
      cases gaps : margins.gaps with
      | nil =>
          cases word <;>
            simp [isName, Margins.plain, gaps, arrayType, Word.type, TypeExpr.isName]
      | cons gap rest =>
          cases word <;> simp [isName, Margins.plain, gaps, arrayType, TypeExpr.isName]
  | @applied margins name args _ _ some_arg _ =>
      rw [Layout.plain, Layout.plainAfter, type_eq, Layout.margins]
      cases margins.gaps with
      | nil => simp [isName, arrayType, item, TypeExpr.isName, some_arg]
      | cons gap rest => simp [isName, arrayType, TypeExpr.isName]

/-- What is written for an applied name: the name that is its choice, if it has one. -/
def headName (choose : Text → Option Layout) (name : Text) : Text :=
  match choose name with
  | some (leaf _ (.named other)) => other
  | _ => name

mutual

/-- The layout with other names in the places of the applied names. -/
def fillHeads (choose : Text → Option Layout) : Layout → Layout
  | leaf margins word => leaf margins word
  | applied margins name args =>
    applied margins (headName choose name) (fillAllHeads choose args)

def fillAllHeads (choose : Text → Option Layout) : List Layout → List Layout
  | [] => []
  | first :: rest => first.fillHeads choose :: fillAllHeads choose rest

end

@[simp] theorem fillAllHeads_eq_map (choose : Text → Option Layout) (args : List Layout) :
    fillAllHeads choose args = args.map (fillHeads choose) := by
  induction args with
  | nil => rfl
  | cons first rest ih => simp [fillAllHeads, ih]

/-- The choices that are no names and so cannot be applied. -/
def unapplicable? (choose : Text → Option Layout) (name : Text) : Option Layout :=
  (choose name).filter fun layout => !layout.isName

section Heads

variable {choose : Text → Option Layout}

theorem headName_word (fits : Fits choose) {name : Text} (word : isTypeName name = true) :
    isTypeName (headName choose name) = true := by
  rw [headName]
  split
  · next margins other chosen =>
    cases fits.valid name _ chosen with
    | leaf _ type_name => exact type_name
  · exact word

/-- A name that may be applied is written as the text of its choice. -/
theorem headName_text (fits : Fits choose) {name : Text}
    (applicable : unapplicable? choose name = none) :
    ((choose name).map text).getD name = headName choose name := by
  rw [headName]
  cases chosen : choose name with
  | none => rfl
  | some layout =>
      have is_name : layout.isName = true := by simpa [unapplicable?, chosen] using applicable
      have before := fits.before name layout chosen
      have after := fits.after name layout chosen
      cases layout with
      | applied margins head args => cases is_name
      | leaf margins word =>
          cases word with
          | primitive base => cases is_name
          | tagged base format => cases is_name
          | named other =>
              obtain ⟨front, gaps, back⟩ := margins
              have no_gaps : gaps = [] := by simpa [isName] using is_name
              subst no_gaps
              change front = [] at before
              change back = [] at after
              subst before after
              exact List.append_nil other

theorem Valid.fillHeads (fits : Fits choose) {layout : Layout} (valid : layout.Valid) :
    (layout.fillHeads choose).Valid := by
  induction valid with
  | leaf blank word =>
      rw [Layout.fillHeads]
      exact .leaf blank word
  | @applied margins name args blank word some_arg _ ih =>
      rw [Layout.fillHeads, fillAllHeads_eq_map]
      refine .applied blank (headName_word fits word) (by simpa using some_arg) ?_
      intro layout member
      obtain ⟨arg, given, rfl⟩ := List.mem_map.mp member
      exact ih arg given

/-- With names put in for the applied names first, the layout can be filled whatever the choices for
the other names are. -/
theorem Valid.text_fillHeads (fits : Fits choose) {layout : Layout} (valid : layout.Valid)
    (applicable : layout.HeadsFree (unapplicable? choose)) :
    ((layout.fillHeads choose).fill choose).text =
      layout.render fun name => ((choose name).map text).getD name := by
  induction valid with
  | @leaf margins word blank valid =>
      rw [Layout.fillHeads]
      exact (Valid.leaf blank valid).text_fill fits (.leaf margins word)
  | @applied margins name args _ _ _ _ ih =>
      cases applicable with
      | applied _ head below =>
          rw [Layout.fillHeads, fillAllHeads_eq_map, Layout.fill, fillAll_eq_map, text,
            render_applied, render_applied, headName_text fits head, List.map_map, List.map_map]
          congr 2
          exact List.map_congr_left fun arg given => ih arg given (below arg given)

end Heads

end Layout

end TypeExpr

namespace Generic

open TypeExpr

/-- A property type of a template is still a type expression with arguments put in for its
parameters, if every argument that stands for an applied parameter is a name. -/
theorem substituted_accepted {params : List Text} {args : List TypeExpr} {type : Text}
    (words : ∀ param ∈ params, isTypeName param = true) (arity : args.length = params.length)
    (readable : ∀ arg ∈ args, ∃ fragment, parseFragment fragment = .ok arg)
    (unmarked : ∀ arg ∈ args, Unmarked arg.canonical) (plain : Unmarked type) {before : TypeExpr}
    (read : parseFragment type = .ok before)
    (names : ∀ source name given, object source name given ∈ before.nodes → given ≠ [] →
      ∀ arg, argumentFor? params args name = some arg → arg.isName = true) :
    ∃ after,
      parseFragment (substitute (params.map mark) (args.map canonical) (markedType params type)) =
        .ok after := by
  obtain ⟨layout, valid, rfl, rfl⟩ := exists_layout read
  obtain ⟨inners, valids, rfl⟩ := exists_args_layouts readable
  let choose := argumentFor? params (inners.map Layout.plain)
  have fits : Layout.Fits choose := fits_plain params valids
  have applicable : layout.spaced.HeadsFree (Layout.unapplicable? choose) := by
    refine Layout.HeadsFree.spacedWithin valid (valid.headsFree ?_) [] []
    intro source name given member filled
    rw [Layout.unapplicable?, Option.filter_eq_none_iff]
    intro written chosen
    change argumentFor? params (inners.map Layout.plain) name = some written at chosen
    rw [argumentFor?_map] at chosen
    obtain ⟨inner, found, rfl⟩ := Option.map_eq_some_iff.mp chosen
    have fit := names source name given member filled inner.type
      (by rw [argumentFor?_map, found, Option.map_some])
    rw [(valids inner (argumentFor?_mem found)).isName_plain, fit]
    simp
  refine ⟨((layout.spaced.fillHeads choose).fill choose).type, ?_⟩
  rw [valid.substitute_plain words (by simpa using arity) valids
    (fun inner inside => (unmarked _ (List.mem_map_of_mem inside)).1) plain.1,
    ← valid.spaced.text_fillHeads fits applicable]
  exact ((valid.spaced.fillHeads fits).fill fits).parse

end Generic

end ApiSchema
