import ApiSchema.Proofs.Generic.EverySpan
import ApiSchema.Proofs.Generic.OpenPairs

set_option autoImplicit false

namespace ApiSchema

open TypeExpr (isFormat isFormatPart isIdentifier isTypeName Word FitsWords Readable)

namespace Generic

/-- The text ends within the format tag of a primitive. -/
def InTag (front : Text) : Prop :=
  ∃ before, ∃ base : Primitive, ∃ tag, Opening before ∧ isFormat tag = true ∧
    front = before ++ (base.name ++ '#' :: tag)

instance (front : Text) : Decidable (InTag front) :=
  decidable_of_iff
    (∃ base ∈ Primitive.all, ∃ i ≤ front.length, (front.take i).getLast?.all endsLeft = true ∧
      base.name ++ ['#'] <+: front.drop i ∧
      isFormat (front.drop (i + (base.name.length + 1))) = true) <| by
    constructor
    · rintro ⟨base, -, i, -, opening, ⟨tag, starts⟩, fit⟩
      refine ⟨front.take i, base, tag, opening, ?_, ?_⟩
      · rw [← List.drop_drop, ← starts, List.drop_left' (by simp)] at fit
        exact fit
      · have whole := List.take_append_drop i front
        rw [← starts] at whole
        simpa using whole.symm
    · rintro ⟨before, base, tag, opening, fit, rfl⟩
      refine ⟨base, Primitive.mem_all base, before.length, by simp, ?_, ?_, ?_⟩
      · simpa [Opening] using opening
      · exact ⟨tag, by simp⟩
      · rw [← List.drop_drop, List.drop_left, ← List.singleton_append, ← List.append_assoc,
          List.drop_left' (by simp)]
        exact fit

/-- Every marked token of a parameter is a whole token or stands in a format tag. -/
def MarkedWhole (params : List Text) (type : Text) : Prop :=
  ∀ param ∈ params, ∀ front back, type = front ++ mark param ++ back →
    Bounded front back ∨ InTag front

instance (params : List Text) (type : Text) : Decidable (MarkedWhole params type) :=
  decidable_of_iff
    (∀ param ∈ params, ∀ i ≤ type.length, mark param <+: type.drop i →
      Bounded (type.take i) (type.drop (i + (mark param).length)) ∨ InTag (type.take i))
    (forall₂_congr fun _ _ =>
      Text.forall_places_iff (P := fun front back => Bounded front back ∨ InTag front))

/-- The character between the two texts belongs to the marked token of a parameter, and that is a
whole token. -/
def InToken (params : List Text) (front : Text) (c : Char) (back : Text) : Prop :=
  ∃ param ∈ params, ∃ before left right after, mark param = left ++ c :: right ∧
    front = before ++ left ∧ back = right ++ after ∧ Bounded before after

/-- Every guillemet stands in a format tag or belongs to a whole marked token of a parameter. -/
def Hygienic (params : List Text) (type : Text) : Prop :=
  ∀ front c back, type = front ++ c :: back → c = markOpen ∨ c = markClose →
    InTag front ∨ InToken params front c back

theorem MarkedWhole.mono {params others : List Text} (inside : others ⊆ params) {type : Text}
    (whole : MarkedWhole params type) : MarkedWhole others type :=
  fun param declared => whole param (inside declared)

theorem Hygienic.mono {params others : List Text} (inside : params ⊆ others) {type : Text}
    (hygienic : Hygienic params type) : Hygienic others type := by
  intro front c back same guillemet
  rcases hygienic front c back same guillemet with tag | ⟨param, declared, token⟩
  · exact Or.inl tag
  · exact Or.inr ⟨param, inside declared, token⟩

/-- Of a hygienic type no marked token of a parameter is replaced but whole ones and those in format
tags. -/
theorem Hygienic.markedWhole {params : List Text}
    (words : ∀ param ∈ params, isIdentifier param = true) {type : Text}
    (hygienic : Hygienic params type) : MarkedWhole params type := by
  rintro param declared front back rfl
  have opening := hygienic front markOpen (param ++ markClose :: back) (by simp [mark]) (Or.inl rfl)
  rcases opening with tag | ⟨name, also, before, left, right, after, token, rfl, behind, bounded⟩
  · exact Or.inr tag
  · left
    have plain : markOpen ∉ name := TypeExpr.isIdentifier_not_mem (words name also) (by decide)
    obtain rfl : left = [] := eq_nil_of_mark plain token
    have rest : name ++ [markClose] = right := (List.cons.inj token).2
    rw [← rest] at behind
    have whole : mark param ++ back = mark name ++ after := by
      simpa [mark] using behind
    have same : param = name :=
      eq_of_mark_starts (words param declared) (words name also) ⟨back, whole⟩
    subst same
    rw [List.append_cancel_left whole, List.append_nil]
    exact bounded

def Tagged (span : Text) : Prop :=
  ∃ base : Primitive, ∃ tag, isFormat tag = true ∧ span = base.name ++ '#' :: tag

/-- A span without guillemets and tags, or a primitive with a format tag where a token may begin. -/
def PlainOrTagged (free : Bool) (span : Text) : Prop :=
  (markOpen ∉ span ∧ markClose ∉ span ∧ '#' ∉ span) ∨ (free = true ∧ Tagged span)

/-- A span that holds guillemets as a whole marked token or in a format tag only. -/
def CleanSpan (params : List Text) (free : Bool) (span : Text) : Prop :=
  (markOpen ∉ span ∧ markClose ∉ span) ∨ (free = true ∧ ∃ param ∈ params, span = mark param) ∨
    (free = true ∧ Tagged span)

/-- A span in which marked tokens of parameters are the whole span or stand behind a tag's mark. -/
def WholeSpan (params : List Text) (free : Bool) (span : Text) : Prop :=
  ∀ param ∈ params, ∀ left right, span = left ++ mark param ++ right →
    free = true ∧ ((left = [] ∧ right = []) ∨ Tagged left)

theorem fitsWords_plainOrTagged : FitsWords PlainOrTagged where
  empty free := Or.inl (by simp)
  bracket := Or.inl (by decide)
  word leaf valid := by
    have plain : ∀ name, isIdentifier name = true → PlainOrTagged true name := by
      intro name word
      exact Or.inl ⟨TypeExpr.isIdentifier_not_mem word (by decide),
        TypeExpr.isIdentifier_not_mem word (by decide),
        TypeExpr.isIdentifier_not_mem word (by decide)⟩
    cases leaf with
    | named name => exact plain name (TypeExpr.isTypeName_iff.mp valid).1
    | primitive base => exact plain base.name (TypeExpr.name_isIdentifier base)
    | tagged base tag => exact Or.inr ⟨rfl, base, tag, valid, rfl⟩

/-- Whole tokens in a text are whole spans. -/
theorem everySpan_whole {params : List Text} {type : Text} (whole : MarkedWhole params type) :
    EverySpan (WholeSpan params) true type := by
  rintro front span back rfl unbroken edge closing param declared left right rfl
  have lefts : Unbroken left := unbroken.subset fun c member => by simp [member]
  have rights : Unbroken right := unbroken.subset fun c member => by simp [member]
  rcases whole param declared (front ++ left) (right ++ back) (by simp) with bounded | tag
  · have first : left = [] := lefts.eq_nil_of_edge bounded.left.edge
    have last : right = [] := rights.eq_nil_of_closing bounded.right
    subst first last
    refine ⟨freeBehind_eq_true.mpr ?_, Or.inl ⟨rfl, rfl⟩⟩
    simpa using bounded.left
  · obtain ⟨before, base, tag, opening, fit, same⟩ := tag
    have tagged := TypeExpr.tagged_unbroken base fit
    obtain ⟨rfl, rfl⟩ := lefts.last_unique tagged edge opening.edge same
    exact ⟨freeBehind_eq_true.mpr opening, Or.inr ⟨base, tag, fit, rfl⟩⟩

section Bare

variable {params : List Text}

/-- A text without marked tokens of parameters stays as it is. -/
theorem bareType_absent {text : Text} (absent : ∀ param ∈ params, ¬ mark param <:+: text) :
    bareType params text = text := by
  induction params with
  | nil => rfl
  | cons param params ih =>
      have some_pattern : mark param ≠ [] := by simp [mark]
      have same : Text.replace (mark param) param text = text := by
        rw [replace_mark]
        rcases Text.replaceFound_cases some_pattern param text with same | ⟨front, back, whole, -⟩
        · exact same
        · exact absurd ⟨front, back, whole.symm⟩ (absent param (by simp))
      change bareType params (Text.replace (mark param) param text) = text
      rw [same]
      exact ih fun other member => absent other (by simp [member])

/-- No letter but guillemets is lost with the marks. -/
theorem mem_bareType {text : Text} {c : Char} (member : c ∈ text)
    (letter : c ≠ markOpen ∧ c ≠ markClose) : c ∈ bareType params text := by
  induction params generalizing text with
  | nil => exact member
  | cons param params ih =>
      change c ∈ bareType params (Text.replace (mark param) param text)
      refine ih ?_
      rw [replace_mark]
      refine Text.mem_replaceFound_of_mem (fun inside => ?_) member
      simpa [mark, letter.1, letter.2] using inside

theorem unbroken_bareType (words : ∀ param ∈ params, isIdentifier param = true) {span : Text}
    (unbroken : Unbroken span) : Unbroken (bareType params span) := by
  rw [TypeExpr.bareType_eq]
  refine substitute_keeps ?_ unbroken
  intro param _ arg given text inner c member
  rcases Text.mem_replaceFound member with put | old
  · exact Unbroken.word (words arg given) c put
  · exact inner c old

/-- Marks behind a tag's mark are taken away by themselves. -/
theorem bareType_tag (base : Primitive) (tag : Text) :
    bareType params (base.name ++ '#' :: tag) = base.name ++ '#' :: bareType params tag := by
  have front : markOpen ∉ base.name ++ ['#'] := by
    rw [List.mem_append, not_or]
    exact ⟨TypeExpr.isIdentifier_not_mem (TypeExpr.name_isIdentifier base) (by decide), by decide⟩
  have split : substitute (params.map mark) params (base.name ++ ['#'] ++ tag) = _ :=
    substitute_front front tag
  rw [← TypeExpr.bareType_eq, ← TypeExpr.bareType_eq] at split
  simpa using split

end Bare

section Clean

variable {params : List Text} (words : ∀ param ∈ params, isIdentifier param = true)

theorem format_of_bareType {tag : Text} (fit : isFormat (bareType params tag) = true) :
    isFormat tag = true := by
  rw [isFormat, List.all_eq_true]
  intro c member
  by_cases guillemet : c = markOpen ∨ c = markClose
  · rcases guillemet with rfl | rfl <;> decide
  · rw [not_or] at guillemet
    exact TypeExpr.isFormat_part fit (mem_bareType member guillemet)

/-- A span is clean if it is fit without the marks of parameters, and these are whole tokens. -/
theorem cleanSpan {free : Bool} {span : Text} (fit : PlainOrTagged free (bareType params span))
    (whole : WholeSpan params free span) : CleanSpan params free span := by
  by_cases found : ∃ param ∈ params, mark param <:+: span
  · obtain ⟨param, declared, left, right, rfl⟩ := found
    obtain ⟨may, ⟨rfl, rfl⟩ | ⟨base, tag, -, rfl⟩⟩ := whole param declared left right rfl
    · exact Or.inr (Or.inl ⟨may, param, declared, by simp⟩)
    · -- behind the tag's mark everything is the tag, as it is without marks
      have same : base.name ++ '#' :: tag ++ mark param ++ right =
          base.name ++ '#' :: (tag ++ mark param ++ right) := by simp
      rw [same, bareType_tag] at fit
      rcases fit with ⟨-, -, absent⟩ | ⟨-, other, format, format_fit, spelled⟩
      · simp at absent
      · have hash : ∀ primitive : Primitive, '#' ∉ primitive.name := fun primitive =>
          TypeExpr.isIdentifier_not_mem (TypeExpr.name_isIdentifier primitive) (by decide)
        have cut := Text.cutAt?_append (hash base) (bareType params (tag ++ mark param ++ right))
        rw [spelled, Text.cutAt?_append (hash other), Option.some.injEq, Prod.mk.injEq] at cut
        rw [cut.2] at format_fit
        exact Or.inr (Or.inr ⟨may, base, _, format_of_bareType format_fit, same⟩)
  · have absent : ∀ param ∈ params, ¬ mark param <:+: span :=
      fun param declared inside => found ⟨param, declared, inside⟩
    rw [bareType_absent absent] at fit
    rcases fit with ⟨no_open, no_close, -⟩ | tagged
    · exact Or.inl ⟨no_open, no_close⟩
    · exact Or.inr (Or.inr tagged)

include words in
theorem everySpan_clean {type : Text} (readable : Readable (bareType params type))
    (whole : MarkedWhole params type) : EverySpan (CleanSpan params) true type := by
  have fit := TypeExpr.everySpan_of_readable fitsWords_plainOrTagged readable
  rw [bareType_eq_mapSpans words,
    everySpan_mapSpans fun _ _ unbroken => unbroken_bareType words unbroken] at fit
  exact (fit.and (everySpan_whole whole)).imp fun _ _ _ both => cleanSpan both.1 both.2

include words in
/-- Marking parameters keeps spans clean. -/
theorem everySpan_markedType {type : Text} (clean : EverySpan (CleanSpan params) true type) :
    EverySpan (CleanSpan params) true (markedType params type) := by
  have empty : ∀ free, CleanSpan params free [] := fun _ => Or.inl (by simp)
  rw [markedType_eq words, everySpan_spaceCommas empty,
    everySpan_mapSpans (keepsSpans_markSpan words).unbroken]
  refine clean.imp fun free span _ holds => ?_
  by_cases token : free = true ∧ span ∈ params
  · rw [markSpan, if_pos token]
    exact Or.inr (Or.inl ⟨token.1, span, token.2, rfl⟩)
  · rwa [markSpan, if_neg token]

/-- A guillemet of a tagged primitive stands in its tag. -/
theorem exists_tag {base : Primitive} {tag left right : Text} {c : Char}
    (same : left ++ c :: right = base.name ++ '#' :: tag)
    (guillemet : c = markOpen ∨ c = markClose) :
    ∃ front behind, left = base.name ++ '#' :: front ∧ tag = front ++ c :: behind := by
  have outside : c ∉ base.name ++ ['#'] := by
    have word := TypeExpr.name_isIdentifier base
    rw [List.mem_append, not_or]
    rcases guillemet with rfl | rfl
    · exact ⟨TypeExpr.isIdentifier_not_mem word (by decide), by decide⟩
    · exact ⟨TypeExpr.isIdentifier_not_mem word (by decide), by decide⟩
  have apart : left ++ c :: right = base.name ++ ['#'] ++ tag := by simpa using same
  rcases List.append_eq_append_iff.mp apart with ⟨middle, first, last⟩ | ⟨middle, rfl, last⟩
  · cases middle with
    | nil =>
        rw [List.append_nil] at first
        exact ⟨[], right, by simp [← first], last.symm⟩
    | cons d middle =>
        cases last
        exact absurd (by rw [first]; simp) outside
  · exact ⟨middle, right, by simp, last⟩

theorem hygienic_of_clean {type : Text} (clean : EverySpan (CleanSpan params) true type) :
    Hygienic params type := by
  rintro front c back rfl guillemet
  have inner : endsRight c = false := by
    rcases guillemet with rfl | rfl <;> decide
  obtain ⟨before, left, right, after, rfl, rfl, -, -, closing, holds⟩ := clean.around inner
  rcases holds with ⟨no_open, no_close⟩ | ⟨may, param, declared, same⟩ | ⟨may, base, tag, fit, same⟩
  · rcases guillemet with rfl | rfl
    · simp at no_open
    · simp at no_close
  · exact Or.inr ⟨param, declared, before, left, right, after, same.symm, rfl, rfl,
      freeBehind_eq_true.mp may, closing⟩
  · obtain ⟨inside, behind, rfl, rfl⟩ := exists_tag same guillemet
    refine Or.inl ⟨before, base, inside, freeBehind_eq_true.mp may, ?_, rfl⟩
    rw [isFormat, List.all_append, Bool.and_eq_true] at fit
    exact fit.1

end Clean

end Generic

namespace Definition

open Generic

/-- If a definition is accepted in whose types every marked token of a parameter is a whole token or
stands in a format tag, then every other guillemet stands in a format tag as well, before and after
preparation; so a type with a guillemet anywhere else is rejected. Putting in arguments finds marked
tokens only where they are whole or in format tags. -/
theorem prepare_hygienic {definition prepared : Definition}
    (done : definition.prepare = .ok prepared)
    (whole : ∀ property ∈ definition.properties,
      MarkedWhole (definition.params.map bareName) property.type) :
    (∀ property ∈ definition.properties,
        Hygienic (definition.params.map bareName) property.type) ∧
      ∀ property ∈ prepared.properties,
        Hygienic (definition.params.map bareName) property.type ∧
          MarkedWhole (definition.params.map bareName) property.type := by
  obtain ⟨params, same, type_names, checked, -, rfl⟩ := prepareWith_eq_ok done
  have identifiers : ∀ param ∈ params, isIdentifier param = true :=
    fun param declared => (TypeExpr.isTypeName_iff.mp (type_names param declared)).1
  have listed : params ⊆ definition.params.map bareName := by
    intro param declared
    rw [same] at declared
    exact List.mem_eraseDups.mp declared
  have back : definition.params.map bareName ⊆ params := by
    intro param declared
    rw [same]
    exact List.mem_eraseDups.mpr declared
  have clean : ∀ property ∈ definition.properties,
      EverySpan (CleanSpan params) true property.type := by
    intro property field
    have readable := TypeExpr.readable_iff.mpr (checked property field)
    exact everySpan_clean identifiers readable ((whole property field).mono listed)
  constructor
  · intro property field
    exact (hygienic_of_clean (clean property field)).mono listed
  · intro property field
    obtain ⟨authored, inside, rfl⟩ := List.mem_map.mp field
    have marked := hygienic_of_clean (everySpan_markedType identifiers (clean authored inside))
    exact ⟨marked.mono listed, (marked.markedWhole identifiers).mono back⟩

/-- Marks of whole tokens and in a format tag. -/
def recordDefinition : Definition :=
  { name := "Record", params := ["K", "V"],
    properties := [{ name := "all", type := "Map<«K» ,Box<V>[]>[]" },
      { name := "tag", type := "string#a«K»»" }] }

def preparedRecord : Definition :=
  { name := "Record", params := ["«K»", "«V»"],
    properties := [{ name := "all", type := "Map<«K», Box<«V»>[]>[]" },
      { name := "tag", type := "string#a«K»»" }] }

theorem prepare_hygienic_record :
    recordDefinition.prepare = .ok preparedRecord ∧
      Hygienic ["K", "V"] "Map<«K», Box<«V»>[]>[]" ∧ MarkedWhole ["K", "V"] "string#a«K»»" := by
  have done : recordDefinition.prepare = .ok preparedRecord := by decide +kernel
  have whole : ∀ property ∈ recordDefinition.properties,
      MarkedWhole (recordDefinition.params.map bareName) property.type := by decide +kernel
  have bare : recordDefinition.params.map bareName = ["K", "V"] := by decide +kernel
  obtain ⟨-, hygienic⟩ := prepare_hygienic done whole
  rw [bare] at hygienic
  have first := hygienic { name := "all", type := "Map<«K», Box<«V»>[]>[]" }
    (by simp [preparedRecord])
  have second := hygienic { name := "tag", type := "string#a«K»»" } (by simp [preparedRecord])
  exact ⟨done, first.1, second.2⟩

def taggedDefinition : Definition :=
  { name := "Tagged", params := ["T"], properties := [{ name := "tag", type := "string#«T»" }] }

def preparedTagged : Definition :=
  { name := "Tagged", params := ["«T»"], properties := [{ name := "tag", type := "string#«T»" }] }

/-- A format tag is no whole token, and still it may hold guillemets, and putting in an argument
rewrites it. -/
theorem prepare_marked_tag :
    taggedDefinition.prepare = .ok preparedTagged ∧
      ¬ (∀ property ∈ preparedTagged.properties, ∀ front c back,
          property.type = front ++ c :: back → c = markOpen ∨ c = markClose →
            InToken (taggedDefinition.params.map bareName) front c back) ∧
      substitute preparedTagged.params ["User"] "string#«T»" = "string#User".toList := by
  refine ⟨by decide +kernel, fun every => ?_, by decide +kernel⟩
  have field : { name := "tag", type := "string#«T»" } ∈ preparedTagged.properties := by
    simp [preparedTagged]
  obtain ⟨param, declared, before, left, right, after, token, front, -, bounded⟩ :=
    every _ field "string#" markOpen "T»" (by decide) (Or.inl rfl)
  have plain : ∀ name ∈ taggedDefinition.params.map bareName, markOpen ∉ name := by
    decide +kernel
  obtain rfl : left = [] := eq_nil_of_mark (plain param declared) token
  rw [List.append_nil] at front
  have opening : Opening "string#" := front ▸ bounded.left
  exact absurd opening (by unfold Opening; decide)

end Definition

end ApiSchema
