import ApiSchema.Proofs.Generic.Sweep
import ApiSchema.Proofs.Generic.Spacing

set_option autoImplicit false

namespace ApiSchema.TypeExpr

open Text (Blank Tight)
open Generic (mark markAtOnce Closing endsLeft endsRight)

theorem closing_outside {rest : Text} (closing : Closing rest) :
    ∀ c ∈ rest.head?, isIdentifierPart c = false := by
  intro c first
  cases part : isIdentifierPart c with
  | false => rfl
  | true =>
      rw [Closing, Option.mem_def.mp first, Option.all_some,
        Generic.identifierPart_endsRight part] at closing
      cases closing

theorem closing_blank {blank rest : Text} (is_blank : Blank blank) (closing : Closing rest) :
    Closing (blank ++ rest) := by
  cases blank with
  | nil => exact closing
  | cons c more =>
      have white := is_blank c (by simp)
      simp [Closing, endsRight, white]

section Parameter

variable {param : Text}

/-- Behind a token a boundary is passed over whether or not a token might begin there. -/
theorem markAtOnce_closing (word : isIdentifier param = true) (free : Bool) {rest : Text}
    (closing : Closing rest) : markAtOnce param free rest = markAtOnce param false rest := by
  cases rest with
  | nil => simp
  | cons c tail =>
      have outside := closing_outside closing c (by simp)
      rw [Generic.scans_markAtOnce.keep_outside word free outside,
        Generic.scans_markAtOnce.keep_false]

theorem blank_outside {c : Char} (white : Text.isBlank c = true) :
    isIdentifierPart c = false ∧ endsLeft c = true := by
  constructor
  · cases part : isIdentifierPart c with
    | false => rfl
    | true => rw [identifierPart_solid part] at white; cases white
  · simp [endsLeft, white]

theorem markAtOnce_blank (word : isIdentifier param = true) {blank : Text}
    (is_blank : Blank blank) (rest : Text) :
    markAtOnce param true (blank ++ rest) = blank ++ markAtOnce param true rest := by
  induction blank with
  | nil => rfl
  | cons c more ih =>
      obtain ⟨outside, left⟩ := blank_outside (is_blank c (by simp))
      rw [List.cons_append, Generic.scans_markAtOnce.keep_outside word true outside, left,
        ih fun d member => is_blank d (by simp [member]), List.cons_append]

theorem markAtOnce_blank_closing (word : isIdentifier param = true) {blank : Text}
    (is_blank : Blank blank) {rest : Text} (closing : Closing rest) :
    markAtOnce param false (blank ++ rest) = blank ++ markAtOnce param false rest := by
  have whole := markAtOnce_blank word is_blank rest
  rwa [markAtOnce_closing word true (closing_blank is_blank closing),
    markAtOnce_closing word true closing] at whole

/-- Another word is passed over. -/
theorem markAtOnce_other (word : isIdentifier param = true) {other : Text}
    (another : isIdentifier other = true) (apart : other ≠ param) {rest : Text}
    (stop : ∀ c ∈ rest.head?, isIdentifierPart c = false) :
    markAtOnce param true (other ++ rest) = other ++ markAtOnce param false rest := by
  obtain ⟨c, more, rfl, part⟩ := Generic.exists_cons_of_word another
  have absent : Generic.tokenTail? param (c :: (more ++ rest)) = none := by
    cases found : Generic.tokenTail? param (c :: (more ++ rest)) with
    | none => rfl
    | some behind =>
        obtain ⟨whole, closing⟩ := Generic.tokenTail?_eq_some_iff.mp found
        have letters := takeWhile_identifier another stop
        rw [List.cons_append, whole, takeWhile_identifier word (closing_outside closing)] at letters
        exact absurd letters.symm apart
  have letters : ∀ d ∈ more, endsLeft d = false := fun d member =>
    Generic.identifierPart_endsLeft (isIdentifier_part another d (by simp [member]))
  rw [List.cons_append, Generic.markAtOnce_cons_of_none (by simpa using absent),
    Generic.identifierPart_endsLeft part, Generic.scans_markAtOnce.pass letters, List.cons_append]

theorem formatPart_endsLeft {c : Char} (part : isFormatPart c = true) : endsLeft c = false := by
  have solid := formatPart_solid part
  rw [endsLeft, solid, Bool.or_false, Bool.or_eq_false_iff]
  constructor <;> simp only [decide_eq_false_iff_not] <;> rintro rfl <;> revert part <;> decide

theorem primitive_ne_param (word : isTypeName param = true) (base : Primitive) :
    base.name ≠ param := by
  intro same
  have absent := (isTypeName_iff.mp word).2.2
  rw [← same, Primitive.ofName?_name] at absent
  cases absent

end Parameter

/-- A spelling that sets some names between marks and leaves the others as they are. -/
def Markup (spell : Text → Text) : Prop :=
  ∀ name, isTypeName name = true → spell name = name ∨ spell name = mark name

def markName (param : Text) (spell : Text → Text) (name : Text) : Text :=
  if name = param then mark name else spell name

theorem Markup.markName {spell : Text → Text} (markup : Markup spell) (param : Text) :
    Markup (markName param spell) := by
  intro name word
  by_cases same : name = param
  · exact Or.inr (if_pos same)
  · rw [TypeExpr.markName, if_neg same]
    exact markup name word

section Spelled

variable {param : Text} {spell : Text → Text}

theorem markAtOnce_name (word : isTypeName param = true) (markup : Markup spell) {name : Text}
    (type_name : isTypeName name = true) {rest : Text} (closing : Closing rest) :
    markAtOnce param true (spell name ++ rest) =
      markName param spell name ++ markAtOnce param false rest := by
  have param_word := (isTypeName_iff.mp word).1
  have name_word := (isTypeName_iff.mp type_name).1
  by_cases same : name = param
  · rw [markName, if_pos same]
    rcases markup name type_name with plain | marked
    · rw [plain, same, Generic.markAtOnce_token param_word closing]
    · rw [marked, Generic.scans_markAtOnce.marked param_word name_word]
  · rw [markName, if_neg same]
    rcases markup name type_name with plain | marked
    · rw [plain, markAtOnce_other param_word name_word same (closing_outside closing)]
    · rw [marked, Generic.scans_markAtOnce.marked param_word name_word]

theorem markAtOnce_word (word : isTypeName param = true) (markup : Markup spell) {leaf : Word}
    (valid : leaf.Valid) {rest : Text} (closing : Closing rest) :
    markAtOnce param true (leaf.render spell ++ rest) =
      leaf.render (markName param spell) ++ markAtOnce param false rest := by
  have param_word := (isTypeName_iff.mp word).1
  cases leaf with
  | named name => exact markAtOnce_name word markup valid closing
  | primitive base =>
      exact markAtOnce_other param_word (name_isIdentifier base) (primitive_ne_param word base)
        (closing_outside closing)
  | tagged base format =>
      have inner : ∀ c ∈ '#' :: format, endsLeft c = false := by
        intro c member
        rcases List.mem_cons.mp member with rfl | member
        · decide
        · exact formatPart_endsLeft (isFormat_part valid member)
      have stop : ∀ c ∈ ('#' :: format ++ rest).head?, isIdentifierPart c = false := by
        intro c first
        cases first
        decide
      change markAtOnce param true (base.name ++ '#' :: format ++ rest) =
        base.name ++ '#' :: format ++ _
      rw [List.append_assoc, markAtOnce_other param_word (name_isIdentifier base)
        (primitive_ne_param word base) stop, Generic.scans_markAtOnce.pass inner, List.append_assoc]

theorem markAtOnce_array (word : isIdentifier param = true) {core marked : Text}
    (done : ∀ rest, Closing rest →
      markAtOnce param true (core ++ rest) = marked ++ markAtOnce param false rest)
    {gaps : List Text} (blank : ∀ gap ∈ gaps, Blank gap) {rest : Text} (closing : Closing rest) :
    markAtOnce param true (arrayText core gaps ++ rest) =
      arrayText marked gaps ++ markAtOnce param false rest := by
  induction gaps generalizing rest with
  | nil => exact done rest closing
  | cons gap gaps ih =>
      have white := blank gap (by simp)
      have bracket : Closing ('[' :: ']' :: rest) := by simp [Closing, endsRight]
      have brackets : ∀ c ∈ ['[', ']'], endsLeft c = false := by
        intro c member
        rcases List.mem_cons.mp member with rfl | member
        · decide
        · rw [List.mem_singleton.mp member]
          decide
      have passed : markAtOnce param false (['[', ']'] ++ rest) = _ :=
        Generic.scans_markAtOnce.pass brackets rest
      have inner := ih (fun other member => blank other (by simp [member]))
        (closing_blank white bracket)
      simp only [arrayText, List.append_assoc]
      rw [show ['[', ']'] ++ rest = '[' :: ']' :: rest from rfl] at passed ⊢
      rw [inner, markAtOnce_blank_closing word white bracket, passed]

theorem markAtOnce_margins (word : isIdentifier param = true) {core marked : Text}
    (done : ∀ rest, Closing rest →
      markAtOnce param true (core ++ rest) = marked ++ markAtOnce param false rest)
    {margins : Margins} (valid : margins.Valid) {rest : Text} (closing : Closing rest) :
    markAtOnce param true (margins.around core ++ rest) =
      margins.around marked ++ markAtOnce param false rest := by
  have inner := markAtOnce_array word done valid.gaps (closing_blank valid.after closing)
  simp only [Margins.around, List.append_assoc]
  rw [markAtOnce_blank word valid.before, inner, markAtOnce_blank_closing word valid.after closing]

theorem markAtOnce_args {args : List Layout} (some_arg : args ≠ [])
    (each : ∀ arg ∈ args, ∀ rest, Closing rest → markAtOnce param true (arg.render spell ++ rest) =
      arg.render (markName param spell) ++ markAtOnce param false rest)
    {rest : Text} (closing : Closing rest) :
    markAtOnce param true (Text.joinWith [','] (args.map (Layout.render spell)) ++ rest) =
      Text.joinWith [','] (args.map (Layout.render (markName param spell))) ++
        markAtOnce param false rest := by
  induction args with
  | nil => exact absurd rfl some_arg
  | cons arg args ih =>
      have own := each arg (by simp)
      cases args with
      | nil => exact own rest closing
      | cons next more =>
          have tail := ih (by simp) fun other member => each other (by simp [member])
          have comma : Closing (',' ::
              (Text.joinWith [','] ((next :: more).map (Layout.render spell)) ++ rest)) := by
            simp [Closing, endsRight]
          have left : endsLeft ',' = true := by decide
          simp only [List.map_cons, Text.joinWith_cons_cons, List.append_assoc,
            List.cons_append, List.nil_append] at comma tail ⊢
          rw [own _ comma, Generic.scans_markAtOnce.keep_false, left, tail]

/-- Marking a parameter in the text of a layout marks that name in it. -/
theorem Layout.Valid.markAtOnce_render (word : isTypeName param = true) (markup : Markup spell)
    {layout : Layout} (valid : layout.Valid) {rest : Text} (closing : Closing rest) :
    markAtOnce param true (layout.render spell ++ rest) =
      layout.render (markName param spell) ++ markAtOnce param false rest := by
  have param_word := (isTypeName_iff.mp word).1
  induction valid generalizing rest with
  | leaf blank leaf_valid =>
      rw [render_leaf, render_leaf]
      exact markAtOnce_margins param_word
        (fun rest closing => markAtOnce_word word markup leaf_valid closing) blank closing
  | @applied margins name args blank type_name some_arg valid ih =>
      rw [render_applied, render_applied]
      refine markAtOnce_margins param_word ?_ blank closing
      intro rest closing
      have opening : ∀ text : Text, Closing ('<' :: text) := by
        intro text
        simp [Closing, endsRight]
      have left : endsLeft '<' = true := by decide
      have closed : Closing ('>' :: rest) := by simp [Closing, endsRight]
      have right : endsLeft '>' = false := by decide
      have inner := markAtOnce_args some_arg
        (fun arg inside rest closing => ih arg inside closing) closed
      simp only [appliedText, List.append_assoc, List.cons_append, List.nil_append]
      rw [markAtOnce_name word markup type_name (opening _),
        Generic.scans_markAtOnce.keep_false, left, inner, Generic.scans_markAtOnce.keep_false, right]

theorem Layout.Valid.markTokens_render (word : isTypeName param = true) (markup : Markup spell)
    {layout : Layout} (valid : layout.Valid) :
    Generic.markTokens param (layout.render spell) = layout.render (markName param spell) := by
  have marked := valid.markAtOnce_render word markup (show Closing [] from rfl)
  rw [List.append_nil, Generic.markAtOnce_nil, List.append_nil] at marked
  rw [Generic.markTokens_eq (isTypeName_iff.mp word).1, marked]

end Spelled

def markNames (params : List Text) (name : Text) : Text :=
  if name ∈ params then mark name else name

theorem markup_markNames (params : List Text) : Markup (markNames params) := by
  intro name _
  by_cases member : name ∈ params
  · exact Or.inr (if_pos member)
  · exact Or.inl (if_neg member)

theorem mark_legible {name : Text} (word : isIdentifier name = true) :
    Tight (mark name) ∧ ',' ∉ mark name := by
  constructor
  · exact Tight.of_ends Generic.markOpen name Generic.markClose rfl (by decide) (by decide)
  · have free := isIdentifier_not_mem word (show isIdentifierPart ',' = false by decide)
    simp [mark, Generic.markOpen, Generic.markClose, free]

theorem legible_markNames (params : List Text) : Legible (markNames params) := by
  intro name word
  rcases markup_markNames params name word with plain | marked
  · rw [plain]
    exact legible_id name word
  · rw [marked]
    exact mark_legible (isTypeName_iff.mp word).1

theorem foldl_markTokens {params : List Text} (words : ∀ param ∈ params, isTypeName param = true)
    {spell : Text → Text} (markup : Markup spell) {layout : Layout} (valid : layout.Valid) :
    params.foldl (fun text param => Generic.markTokens param text) (layout.render spell) =
      layout.render fun name => if name ∈ params then mark name else spell name := by
  induction params generalizing spell with
  | nil => simp
  | cons param rest ih =>
      have first := valid.markTokens_render (words param (by simp)) markup
      have tail := ih (fun other member => words other (by simp [member])) (markup.markName param)
      rw [List.foldl_cons, first, tail]
      congr 1
      funext name
      by_cases same : name = param
      · simp [same, markName]
      · simp [same, markName]

/-- A marked type text is the text of the layout with spaced commas and marked parameters. -/
theorem Layout.Valid.markedType_render {params : List Text}
    (words : ∀ param ∈ params, isTypeName param = true) {layout : Layout} (valid : layout.Valid) :
    Generic.markedType params layout.text = layout.spaced.render (markNames params) := by
  have plain : Markup id := fun name _ => Or.inl rfl
  rw [Generic.markedType, text, foldl_markTokens words plain valid]
  exact valid.spaceCommas_render (legible_markNames params)

end ApiSchema.TypeExpr
