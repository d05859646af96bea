import ApiSchema.Generic.Discovery
import ApiSchema.Proofs.Generic.Marked
import ApiSchema.Proofs.Text.Replacement
import ApiSchema.Proofs.TypeExpr.Spelling
import ApiSchema.Proofs.TypeExpr.Tree

set_option autoImplicit false

namespace ApiSchema

open TypeExpr (isIdentifier isTypeName)

namespace Generic

theorem eq_of_mark_starts {param name rest : Text} (word : isIdentifier param = true)
    (another : isIdentifier name = true) (found : mark param <+: mark name ++ rest) :
    param = name := by
  obtain ⟨behind, same⟩ := found
  have outside : TypeExpr.isIdentifierPart markClose = false := by decide
  have stop : ∀ text : Text, ∀ c ∈ (markClose :: text).head?,
      TypeExpr.isIdentifierPart c = false := by
    intro text c first
    rw [← Option.some.inj first]
    exact outside
  simp only [mark, List.cons_append, List.append_assoc, List.nil_append, List.cons.injEq,
    true_and] at same
  have letters := TypeExpr.takeWhile_identifier word (stop behind)
  rwa [same, TypeExpr.takeWhile_identifier another (stop rest), eq_comm] at letters

section Marks

variable {param arg : Text}

theorem replace_mark (text : Text) :
    Text.replace (mark param) arg text = Text.replaceFound (mark param) arg text := by
  rw [Text.replace, if_neg (by simp [mark])]

theorem replaceFound_unmarked {front : Text} (free : markOpen ∉ front) (rest : Text) :
    Text.replaceFound (mark param) arg (front ++ rest) =
      front ++ Text.replaceFound (mark param) arg rest :=
  Text.replaceFound_free free _ _ _

theorem replace_of_unmarked {text : Text} (free : markOpen ∉ text) :
    Text.replace (mark param) arg text = text := by
  have same : Text.replaceFound (mark param) arg (text ++ []) =
      text ++ Text.replaceFound (mark param) arg [] := replaceFound_unmarked free []
  rw [Text.replaceFound, List.append_nil] at same
  rw [replace_mark, same]

/-- The marked token of another name is passed over. -/
theorem replaceFound_other (word : isIdentifier param = true) {name : Text}
    (another : isIdentifier name = true) (apart : name ≠ param) (rest : Text) :
    Text.replaceFound (mark param) arg (mark name ++ rest) =
      mark name ++ Text.replaceFound (mark param) arg rest := by
  have absent : ¬ mark param <+: mark name ++ rest := fun found =>
    apart (eq_of_mark_starts word another found).symm
  have letters : markOpen ∉ name := TypeExpr.isIdentifier_not_mem another (by decide)
  have free : markOpen ∉ name ++ [markClose] := by
    simp only [List.mem_append, List.mem_singleton, not_or]
    exact ⟨letters, by decide⟩
  change ¬ mark param <+: markOpen :: (name ++ [markClose] ++ rest) at absent
  change Text.replaceFound (mark param) arg (markOpen :: (name ++ [markClose] ++ rest)) = _
  rw [Text.replaceFound_cons _ _ absent]
  change markOpen :: Text.replaceFound (mark param) arg (name ++ [markClose] ++ rest) = _
  rw [replaceFound_unmarked free]
  rfl

end Marks

end Generic

namespace TypeExpr

open Generic (mark markOpen substitute)

/-- A spelling in which a mark stands in marked names only. -/
def MarksOnly (spell : Text → Text) : Prop :=
  ∀ name, isTypeName name = true → spell name = mark name ∨ markOpen ∉ spell name

/-- The spelling with an argument in the place of a marked name. -/
def putName (param arg : Text) (spell : Text → Text) (name : Text) : Text :=
  if name = param ∧ spell name = mark name then arg else spell name

section Put

variable {spell : Text → Text}

theorem MarksOnly.putName (param : Text) (only : MarksOnly spell) {arg : Text}
    (free : markOpen ∉ arg) :
    MarksOnly (putName param arg spell) := by
  intro name word
  rw [TypeExpr.putName]
  split
  · exact Or.inr free
  · exact only name word

/-- Replacing a marked token in the text of a layout respells that name. -/
theorem Layout.Valid.replace_render {param : Text} (word : isIdentifier param = true) (arg : Text)
    (only : MarksOnly spell) {layout : Layout} (valid : layout.Valid)
    (free : markOpen ∉ layout.text) :
    Text.replace (mark param) arg (layout.render spell) =
      layout.render (putName param arg spell) := by
  let Passes (text result : Text) : Prop := ∀ rest,
    Text.replaceFound (mark param) arg (text ++ rest) =
      result ++ Text.replaceFound (mark param) arg rest
  have append : ∀ a b c d, Passes a b → Passes c d → Passes (a ++ c) (b ++ d) := by
    intro a b c d first second rest
    rw [List.append_assoc, first, second, List.append_assoc]
  have names : ∀ name, isTypeName name = true →
      Passes (spell name) (putName param arg spell name) := by
    intro name type_name rest
    have name_word := (isTypeName_iff.mp type_name).1
    rcases only name type_name with marked | plain
    · by_cases same : name = param
      · rw [putName, if_pos ⟨same, marked⟩, marked, same]
        exact Text.replaceFound_pattern (by simp [mark]) arg rest
      · rw [putName, if_neg (fun both => same both.1), marked,
          Generic.replaceFound_other word name_word same]
    · have unmarked : spell name ≠ mark name := by
        intro same
        rw [same] at plain
        exact plain (by simp [mark])
      rw [putName, if_neg (fun both => unmarked both.2), Generic.replaceFound_unmarked plain]
  have others : ∀ text, text ⊆ layout.text → Passes text text := by
    intro text inside rest
    exact Generic.replaceFound_unmarked (fun member => free (inside member)) rest
  have whole := Layout.Valid.related append spell (putName param arg spell) names valid others []
  rw [Text.replaceFound, List.append_nil, List.append_nil] at whole
  rw [Generic.replace_mark, whole]

theorem Layout.render_respelled (layout : Layout) (spell : Text → Text) :
    layout.render spell =
      layout.render fun name => if spell name = mark name then mark name else spell name := by
  congr 1
  funext name
  split
  · assumption
  · rfl

/-- All parameters are replaced as if at once: what stands for a name is the argument paired with
it. -/
theorem Layout.Valid.substitute_render {params args : List Text}
    (words : ∀ param ∈ params, isIdentifier param = true) (only : MarksOnly spell)
    (unmarked : ∀ arg ∈ args, markOpen ∉ arg) {layout : Layout} (valid : layout.Valid)
    (free : markOpen ∉ layout.text) :
    substitute (params.map mark) args (layout.render spell) =
      layout.render fun name =>
        if spell name = mark name then ((params.zip args).lookup name).getD (mark name)
        else spell name := by
  induction params generalizing args spell with
  | nil => exact layout.render_respelled spell
  | cons param params ih =>
      cases args with
      | nil =>
          rw [substitute]
          simpa using layout.render_respelled spell
      | cons arg args =>
          have arg_free := unmarked arg (by simp)
          have rest_free : ∀ other ∈ args, markOpen ∉ other :=
            fun other member => unmarked other (by simp [member])
          have first := valid.replace_render (words param (by simp)) arg only free
          have tail := ih (fun other member => words other (by simp [member]))
            (only.putName param arg_free) rest_free
          change substitute (params.map mark) args
            (Text.replace (mark param) arg (layout.render spell)) = _
          rw [first, tail]
          congr 1
          funext name
          have arg_ne : arg ≠ mark name := by
            intro same
            rw [same] at arg_free
            exact arg_free (by simp [mark])
          by_cases marked : spell name = mark name
          · by_cases same : name = param
            · subst same
              simp [putName, marked, arg_ne]
            · have other : (name == param) = false := by simpa using same
              simp [putName, marked, same, List.lookup_cons, other]
          · simp [putName, marked]

end Put

/-- What the argument list has for a name that is a parameter. -/
def argumentFor? {α : Type} (params : List Text) (args : List α) (name : Text) : Option α :=
  (params.zip args).lookup name

theorem argumentFor?_of_mem {α : Type} {params : List Text} {args : List α}
    (arity : args.length = params.length) {name : Text} (member : name ∈ params) :
    ∃ arg ∈ args, argumentFor? params args name = some arg := by
  induction params generalizing args with
  | nil => cases member
  | cons param params ih =>
      cases args with
      | nil => cases arity
      | cons arg args =>
          by_cases same : name = param
          · subst same
            exact ⟨arg, by simp, by simp [argumentFor?]⟩
          · have inside : name ∈ params := (List.mem_cons.mp member).resolve_left same
            obtain ⟨found, given, here⟩ := ih (Nat.succ.inj arity) inside
            have other : (name == param) = false := by simpa using same
            refine ⟨found, by simp [given], ?_⟩
            rw [argumentFor?] at here ⊢
            simp [List.lookup_cons, other, here]

theorem argumentFor?_of_not_mem {α : Type} {params : List Text} (args : List α) {name : Text}
    (absent : name ∉ params) : argumentFor? params args name = none := by
  induction params generalizing args with
  | nil => rfl
  | cons param params ih =>
      cases args with
      | nil => rfl
      | cons arg args =>
          have other : (name == param) = false := by simpa using fun same => absent (by simp [same])
          have tail := ih args fun inside => absent (by simp [inside])
          rw [argumentFor?] at tail ⊢
          simp [List.lookup_cons, other, tail]

theorem argumentFor?_map {α β : Type} (f : α → β) (params : List Text) (args : List α)
    (name : Text) :
    argumentFor? params (args.map f) name = (argumentFor? params args name).map f := by
  induction params generalizing args with
  | nil => rfl
  | cons param params ih =>
      cases args with
      | nil => rfl
      | cons arg args =>
          have tail := ih args
          rw [argumentFor?, argumentFor?] at tail ⊢
          cases same : name == param <;> simp [List.lookup_cons, same, tail]

/-- Replacing the marked parameters of a prepared type gives the spaced layout with the arguments'
texts for their names. -/
theorem Layout.Valid.substitute_markedType {params args : List Text}
    (words : ∀ param ∈ params, isTypeName param = true) (arity : args.length = params.length)
    (unmarked : ∀ arg ∈ args, markOpen ∉ arg) {layout : Layout} (valid : layout.Valid)
    (free : markOpen ∉ layout.text) :
    substitute (params.map mark) args (Generic.markedType params layout.text) =
      layout.spaced.render fun name => (argumentFor? params args name).getD name := by
  have identifiers : ∀ param ∈ params, isIdentifier param = true :=
    fun param member => (isTypeName_iff.mp (words param member)).1
  have only : MarksOnly (markNames params) := by
    intro name word
    rcases markup_markNames params name word with plain | marked
    · right
      rw [plain]
      exact isIdentifier_not_mem (isTypeName_iff.mp word).1 (by decide)
    · exact Or.inl marked
  have spaced_free : markOpen ∉ layout.spaced.text := fun member =>
    free ((Layout.mem_text_of_solid (by decide) valid.spaced valid
      (Layout.solid_spaced valid)).mp member)
  rw [valid.markedType_render words,
    valid.spaced.substitute_render identifiers only unmarked spaced_free]
  congr 1
  funext name
  change (if markNames params name = mark name then
    (argumentFor? params args name).getD (mark name) else _) = _
  by_cases member : name ∈ params
  · obtain ⟨arg, -, found⟩ := argumentFor?_of_mem arity member
    simp [markNames, member, found]
  · have longer : name ≠ mark name := by
      intro same
      have size := congrArg List.length same
      simp only [mark, List.length_append, List.length_cons, List.length_nil] at size
      omega
    rw [markNames, if_neg member, if_neg longer, argumentFor?_of_not_mem args member]
    rfl

namespace Layout

mutual

/-- The layout with other layouts in the places of the argument-less names that have a choice. What
is put in has no blanks around it, and its arrays are arrays inside those around the place. -/
def fill (choose : Text → Option Layout) : Layout → Layout
  | leaf margins word =>
    match word with
    | .named name =>
      match choose name with
      | some layout =>
        layout.within ⟨margins.before, margins.gaps ++ layout.margins.gaps, margins.after⟩
      | none => leaf margins (.named name)
    | other => leaf margins other
  | applied margins name args => applied margins name (fillAll choose args)

def fillAll (choose : Text → Option Layout) : List Layout → List Layout
  | [] => []
  | first :: rest => first.fill choose :: fillAll choose rest

end

/-- No name with arguments has a choice. -/
inductive HeadsFree {α : Type} (choose : Text → Option α) : Layout → Prop
  | leaf (margins : Margins) (word : Word) : HeadsFree choose (leaf margins word)
  | applied (margins : Margins) {name : Text} {args : List Layout} (head : choose name = none)
    (free : ∀ arg ∈ args, HeadsFree choose arg) : HeadsFree choose (applied margins name args)

/-- What is put in the place of a name: a valid layout with no blanks around it. -/
structure Fits (choose : Text → Option Layout) : Prop where
  valid : ∀ name layout, choose name = some layout → layout.Valid
  before : ∀ name layout, choose name = some layout → layout.margins.before = []
  after : ∀ name layout, choose name = some layout → layout.margins.after = []

@[simp] theorem fillAll_eq_map (choose : Text → Option Layout) (args : List Layout) :
    fillAll choose args = args.map (fill choose) := by
  induction args with
  | nil => rfl
  | cons first rest ih => simp [fillAll, ih]

theorem arrayText_append (core : Text) (outer inner : List Text) :
    arrayText core (outer ++ inner) = arrayText (arrayText core inner) outer := by
  induction outer with
  | nil => rfl
  | cons gap outer ih => simp [arrayText, ih]

section Fill

variable {choose : Text → Option Layout}

theorem Valid.fill (fits : Fits choose) {layout : Layout} (valid : layout.Valid) :
    (layout.fill choose).Valid := by
  induction valid with
  | @leaf margins word blank valid =>
      cases word with
      | primitive base => exact .leaf blank valid
      | tagged base format => exact .leaf blank valid
      | named name =>
          rw [Layout.fill]
          cases chosen : choose name with
          | none => exact .leaf blank valid
          | some inner =>
              have inner_valid := fits.valid name inner chosen
              refine inner_valid.within ⟨blank.before, ?_, blank.after⟩
              intro gap member
              rcases List.mem_append.mp member with own | inside
              · exact blank.gaps gap own
              · exact inner_valid.margins.gaps gap inside
  | @applied margins name args blank word some_arg _ ih =>
      rw [Layout.fill, fillAll_eq_map]
      refine .applied blank word (by simpa using some_arg) ?_
      intro layout member
      obtain ⟨arg, given, rfl⟩ := List.mem_map.mp member
      exact ih arg given

/-- The text of a filled layout has the texts put in in the places of their names. -/
theorem Valid.text_fill (fits : Fits choose) {layout : Layout} (valid : layout.Valid)
    (heads : layout.HeadsFree choose) : (layout.fill choose).text =
      layout.render fun name => ((choose name).map text).getD name := by
  induction valid with
  | @leaf margins word _ _ =>
      cases word with
      | primitive base => rfl
      | tagged base format => rfl
      | named name =>
          rw [Layout.fill, render_leaf, Word.render]
          cases chosen : choose name with
          | none => rfl
          | some inner =>
              have before := fits.before name inner chosen
              have after := fits.after name inner chosen
              change (inner.within _).text = margins.around inner.text
              rw [text_eq, text_eq, margins_within, core_within, Margins.around, Margins.around,
                Margins.around, before, after, arrayText_append, List.nil_append,
                List.append_nil]
  | @applied margins name args _ _ _ _ ih =>
      cases heads with
      | applied _ head free =>
          rw [Layout.fill, fillAll_eq_map, text, render_applied, render_applied, List.map_map, head]
          congr 2
          exact List.map_congr_left fun arg given => ih arg given (free arg given)

/-- The tree of a filled layout has the trees put in in the places of their names. -/
theorem Valid.type_fill {trees : Text → Option TypeExpr}
    (agree : ∀ name, (choose name).map (fun layout => layout.type.unsourced) =
      (trees name).map unsourced)
    {layout : Layout} (valid : layout.Valid) :
    (layout.fill choose).type.unsourced = (layout.type.replaceNames trees).unsourced := by
  induction valid with
  | @leaf margins word _ _ =>
      cases word with
      | primitive base =>
          change (Layout.leaf margins (.primitive base)).type.unsourced = _
          rw [replaceNames_type, unsourced_type]
          rfl
      | tagged base format =>
          change (Layout.leaf margins (.tagged base format)).type.unsourced = _
          rw [replaceNames_type, unsourced_type]
          rfl
      | named name =>
          have same := agree name
          rw [Layout.fill, replaceNames_type]
          cases chosen : choose name with
          | none =>
              rw [chosen] at same
              have no_tree : trees name = none := by simpa using same.symm
              rw [unsourced_type, item, Word.type, replaceNames, no_tree]
              rfl
          | some inner =>
              rw [chosen] at same
              obtain ⟨tree, found, trees_agree⟩ := Option.map_eq_some_iff.mp same.symm
              change tree.unsourced = inner.type.unsourced at trees_agree
              change (inner.within _).type.unsourced = _
              rw [unsourced_type, margins_within, item_within, item, Word.type, replaceNames,
                found, Option.getD_some, trees_agree, unsourced_type, List.length_append,
                Function.iterate_add_apply]
              rfl
  | @applied margins name args _ _ some_arg _ ih =>
      have same : args.map (fun arg => (arg.fill choose).type.unsourced) =
          args.map fun arg => (arg.type.replaceNames trees).unsourced := List.map_congr_left ih
      rw [Layout.fill, fillAll_eq_map, unsourced_type, replaceNames_type, item, item,
        replaceNames_object trees _ _ (by simpa using some_arg)]
      simp [Layout.margins, unsourced, Function.comp_def, same]

end Fill

end Layout

end TypeExpr

end ApiSchema
