import ApiSchema.Proofs.Document.References
import ApiSchema.Proofs.Generic.Rewriting
import ApiSchema.Proofs.Generic.Spans
import Mathlib.Logic.Relation

set_option autoImplicit false

namespace ApiSchema

open TypeExpr (isIdentifier isTypeName Readable)

namespace Generic

/-- Marks a span that is one of the names, where a token may begin. -/
def markSpan (names : List Text) (free : Bool) (span : Text) : Text :=
  if free = true ∧ span ∈ names then mark span else span

section Names

variable {names : List Text} (words : ∀ name ∈ names, isIdentifier name = true)
include words

theorem mark_not_mem_words (span : Text) : mark span ∉ names := by
  intro member
  have opening : markOpen ∉ mark span :=
    TypeExpr.isIdentifier_not_mem (words _ member) (by decide)
  simp [mark] at opening

theorem markSpan_mark (free : Bool) (span : Text) : markSpan names free (mark span) = mark span :=
  if_neg fun both => mark_not_mem_words words span both.2

theorem markSpan_markSpan (free : Bool) (span : Text) :
    markSpan names free (markSpan names free span) = markSpan names free span := by
  by_cases token : free = true ∧ span ∈ names
  · rw [markSpan.eq_def names free span, if_pos token, markSpan_mark words]
  · rw [markSpan.eq_def names free span, if_neg token, markSpan, if_neg token]

theorem keepsSpans_markSpan : KeepsSpans (markSpan names) where
  unbroken free span unbroken := by
    rw [markSpan]
    split
    · exact unbroken.mark
    · exact unbroken
  empty free := by
    refine if_neg fun both => ?_
    have word := words [] both.2
    cases word
  filled free span some_span := by
    rw [markSpan]
    split
    · simp [mark]
    · exact some_span

end Names

theorem markAtOnce_span {name : Text} (word : isIdentifier name = true) (free : Bool)
    {span rest : Text} (unbroken : Unbroken span) (closing : Closing rest) :
    markAtOnce name free (span ++ rest) =
      markSpan [name] free span ++ markAtOnce name false rest := by
  by_cases token : free = true ∧ span ∈ [name]
  · obtain ⟨rfl, member⟩ := token
    rw [List.mem_singleton.mp member, markAtOnce_token word closing, markSpan, if_pos (by simp)]
  · rw [markSpan, if_neg token]
    cases span with
    | nil => exact TypeExpr.markAtOnce_closing word free closing
    | cons c more =>
        have absent : (if free then tokenTail? name (c :: (more ++ rest)) else none) = none := by
          cases found : (if free then tokenTail? name (c :: (more ++ rest)) else none) with
          | none => rfl
          | some behind =>
              -- a token found here ends where the span does, so it is the span
              obtain ⟨begins, whole, ends, -⟩ := token_found word found
              have same := congrArg (List.takeWhile fun c => !endsRight c) whole
              rw [← List.cons_append, unbroken.takeWhile_append closing,
                (Unbroken.word word).takeWhile_append ends] at same
              exact absurd ⟨begins, List.mem_singleton.mpr same⟩ token
        rw [List.cons_append, markAtOnce_cons_of_none absent, unbroken.endsLeft (by simp),
          scans_markAtOnce.pass fun d member => unbroken.endsLeft (by simp [member])]
        rfl

theorem markAtOnce_eq_mapSpans {name : Text} (word : isIdentifier name = true) (free : Bool)
    (text : Text) : markAtOnce name free text = mapSpans (markSpan [name]) free text := by
  induction text using span_induction generalizing free with
  | span text unbroken =>
      have whole := markAtOnce_span word free unbroken (show Closing [] from rfl)
      rw [mapSpans_span unbroken]
      rwa [List.append_nil, markAtOnce_nil, List.append_nil] at whole
  | boundary span c rest unbroken broken ih =>
      have closing : Closing (c :: rest) := by simp [Closing, broken]
      rw [markAtOnce_span word free unbroken closing, scans_markAtOnce.keep_false, ih,
        mapSpans_boundary unbroken free broken]

/-- Marking parameters one after another marks every span that is one of them. -/
theorem foldl_markTokens_eq {params : List Text}
    (words : ∀ param ∈ params, isIdentifier param = true) (text : Text) :
    params.foldl (fun text param => markTokens param text) text =
      mapSpans (markSpan params) true text := by
  induction params generalizing text with
  | nil =>
      have same : ∀ free span, Unbroken span → markSpan [] free span = span :=
        fun free span _ => if_neg (by simp)
      rw [mapSpans_congr same, mapSpans_id]
      rfl
  | cons param params ih =>
      have word := words param (by simp)
      have others : ∀ other ∈ params, isIdentifier other = true :=
        fun other member => words other (by simp [member])
      have only : ∀ name ∈ [param], isIdentifier name = true := by simpa using word
      have both : ∀ free span, Unbroken span →
          markSpan params free (markSpan [param] free span) =
            markSpan (param :: params) free span := by
        intro free span _
        by_cases token : free = true ∧ span = param
        · obtain ⟨rfl, rfl⟩ := token
          have first : markSpan [span] true span = mark span := if_pos (by simp)
          rw [first, markSpan_mark others, markSpan, if_pos (by simp)]
        · have first : markSpan [param] free span = span := if_neg (by simpa using token)
          have same : (free = true ∧ span ∈ param :: params) ↔ (free = true ∧ span ∈ params) := by
            simp only [List.mem_cons]
            tauto
          rw [first, markSpan, markSpan, if_congr same rfl rfl]
      rw [List.foldl_cons, ih others, markTokens_eq word, markAtOnce_eq_mapSpans word,
        mapSpans_mapSpans (keepsSpans_markSpan only).unbroken, mapSpans_congr both]

/-- The two sides of a boundary are filled apart from each other. -/
theorem substitute_boundary {params : List Text}
    (words : ∀ param ∈ params, isIdentifier param = true) (args : List Text) (front : Text)
    {c : Char} (broken : endsRight c = true) (rest : Text) :
    substitute (params.map mark) args (front ++ c :: rest) =
      substitute (params.map mark) args front ++ c :: substitute (params.map mark) args rest := by
  have separates : Text.isBlank c = true ∨ c ∈ ['<', '>', ',', '[', ']'] := by
    simp only [endsRight, Bool.or_eq_true, decide_eq_true_eq] at broken
    rcases broken with (((rfl | rfl) | rfl) | rfl) | white
    · exact Or.inr (by simp)
    · exact Or.inr (by simp)
    · exact Or.inr (by simp)
    · exact Or.inr (by simp)
    · exact Or.inl white
  induction params generalizing args front rest with
  | nil => rfl
  | cons param params ih =>
      cases args with
      | nil => rfl
      | cons arg args =>
          have apart : c ∉ mark param := separator_not_mem (words param (by simp)) separates
          have first : Text.replace (mark param) arg (front ++ c :: rest) =
              Text.replace (mark param) arg front ++ c :: Text.replace (mark param) arg rest := by
            simp only [replace_mark]
            exact Text.replaceFound_apart (by simp [mark]) apart arg front rest
          have tail := ih (fun other member => words other (by simp [member])) args
            (Text.replace (mark param) arg front) (Text.replace (mark param) arg rest)
          rw [← first] at tail
          exact tail

/-- Putting in arguments is doing so in every span. -/
theorem substitute_eq_mapSpans {params : List Text}
    (words : ∀ param ∈ params, isIdentifier param = true) (args : List Text) (free : Bool)
    (text : Text) : substitute (params.map mark) args text =
      mapSpans (fun _ => substitute (params.map mark) args) free text := by
  induction text using span_induction generalizing free with
  | span text unbroken => rw [mapSpans_span unbroken]
  | boundary span c rest unbroken broken ih =>
      rw [substitute_boundary words args span broken, mapSpans_boundary unbroken free broken,
        ← ih (endsLeft c)]

theorem bareType_word (params : List Text) {name : Text} (word : isIdentifier name = true) :
    bareType params name = name := by
  rw [TypeExpr.bareType_eq]
  exact substitute_unmarked (TypeExpr.isIdentifier_not_mem word (by decide))

/-- The marked token of a parameter becomes bare. -/
theorem bareType_mark {params : List Text} (words : ∀ param ∈ params, isIdentifier param = true)
    {name : Text} (declared : name ∈ params) : bareType params (mark name) = name := by
  induction params with
  | nil => cases declared
  | cons param params ih =>
      have name_word := words name declared
      by_cases same : name = param
      · have put : Text.replace (mark param) param (mark param ++ []) = param := by
          rw [replace_mark, Text.replaceFound_pattern (by simp [mark]), Text.replaceFound,
            List.append_nil]
        rw [List.append_nil] at put
        change bareType params (Text.replace (mark param) param (mark name)) = name
        rw [same, put, ← same, bareType_word params name_word]
      · have passed : Text.replace (mark param) param (mark name ++ []) = mark name := by
          rw [replace_mark, replaceFound_other (words param (by simp)) name_word same,
            Text.replaceFound, List.append_nil]
        rw [List.append_nil] at passed
        change bareType params (Text.replace (mark param) param (mark name)) = name
        rw [passed]
        exact ih (fun other member => words other (by simp [member]))
          ((List.mem_cons.mp declared).resolve_left same)

section Params

variable {params : List Text} (words : ∀ param ∈ params, isIdentifier param = true)
include words

theorem bareType_eq_mapSpans (text : Text) :
    bareType params text = mapSpans (fun _ => bareType params) true text := by
  have same : bareType params = substitute (params.map mark) params :=
    funext (TypeExpr.bareType_eq params)
  rw [same]
  exact substitute_eq_mapSpans words params true text

/-- Marks that are put to the parameters make no difference once all marks are taken away. -/
theorem bareType_marked (text : Text) :
    bareType params (mapSpans (markSpan params) true text) = bareType params text := by
  rw [bareType_eq_mapSpans words, mapSpans_mapSpans (keepsSpans_markSpan words).unbroken,
    bareType_eq_mapSpans words text]
  refine mapSpans_congr (fun free span _ => ?_) true text
  by_cases token : free = true ∧ span ∈ params
  · rw [markSpan, if_pos token, bareType_mark words token.2,
      bareType_word params (words span token.2)]
  · rw [markSpan, if_neg token]

theorem markedType_eq (type : Text) :
    markedType params type = spaceCommas (mapSpans (markSpan params) true type) := by
  rw [markedType, foldl_markTokens_eq words]

/-- A type is marked and spaced once only. -/
theorem markedType_markedType (type : Text) :
    markedType params (markedType params type) = markedType params type := by
  have keeps := keepsSpans_markSpan words
  have again : ∀ free span, Unbroken span →
      markSpan params free (markSpan params free span) = markSpan params free span :=
    fun free span _ => markSpan_markSpan words free span
  rw [markedType_eq words, markedType_eq words, ← keeps.spaceCommas_mapSpans,
    mapSpans_mapSpans keeps.unbroken, mapSpans_congr again]
  exact spaced_spaceCommas _

end Params

/-- A prepared type is a type expression without its marks, if the authored type is. -/
theorem readable_markedType {params : List Text}
    (words : ∀ param ∈ params, isTypeName param = true) {type : Text}
    (readable : Readable (bareType params type)) :
    Readable (bareType params (markedType params type)) := by
  have identifiers : ∀ param ∈ params, isIdentifier param = true :=
    fun param declared => (TypeExpr.isTypeName_iff.mp (words param declared)).1
  have firm : ∀ param ∈ params, Spaced param ∧ Firm param := by
    intro param declared
    obtain ⟨tight, free⟩ := TypeExpr.legible_id param (words param declared)
    refine ⟨?_, Firm.of_free tight free⟩
    exact (spaceCommas_of_free free).trans tight.trim
  have bare : bareType params (markedType params type) = spaceCommas (bareType params type) := by
    rw [markedType_eq identifiers, TypeExpr.bareType_eq,
      ← spaceCommas_substitute identifiers firm, ← TypeExpr.bareType_eq,
      bareType_marked identifiers]
  obtain ⟨expr, read⟩ := readable
  obtain ⟨again, reread, -⟩ := TypeExpr.spaceCommas_read (TypeExpr.parse_eq_ok_iff.mp read)
  rw [bare]
  exact ⟨again, TypeExpr.parse_eq_ok_iff.mpr reread⟩

theorem bareName_mark (name : Text) : bareName (mark name) = name := by
  rw [bareName, unmark?_mark]
  rfl

theorem map_bareName_mark (names : List Text) : (names.map mark).map bareName = names := by
  rw [List.map_map]
  exact List.map_id'' bareName_mark names

/-- One more whole token of a name is marked. -/
def MarksToken (names : List Text) (type written : Text) : Prop :=
  ∃ front name back, name ∈ names ∧ Bounded front back ∧ type = front ++ name ++ back ∧
    written = front ++ mark name ++ back

theorem MarksToken.mono {names others : List Text} (inside : names ⊆ others) {type written : Text}
    (step : MarksToken names type written) : MarksToken others type written := by
  obtain ⟨front, name, back, declared, bounded, before, after⟩ := step
  exact ⟨front, name, back, inside declared, bounded, before, after⟩

section Marks

variable {params : List Text} (words : ∀ param ∈ params, isIdentifier param = true)
include words

/-- A token that is marked already is marked alike, and made bare alike. -/
theorem MarksToken.same {type written : Text} (step : MarksToken params type written) :
    markedType params written = markedType params type ∧
      bareType params written = bareType params type := by
  obtain ⟨front, name, back, declared, bounded, rfl, rfl⟩ := step
  have word := words name declared
  have unbroken := Unbroken.word word
  constructor
  · have marked : markSpan params true name = mark name := if_pos ⟨rfl, declared⟩
    have same : markSpan params true (mark name) = markSpan params true name := by
      rw [markSpan_mark words, marked]
    rw [markedType_eq words, markedType_eq words,
      mapSpans_exchange bounded unbroken.mark unbroken same]
  · have same : bareType params (mark name) = bareType params name := by
      rw [bareType_mark words declared, bareType_word params word]
    rw [bareType_eq_mapSpans words, bareType_eq_mapSpans words (front ++ name ++ back)]
    exact mapSpans_exchange bounded unbroken.mark unbroken same

theorem same_of_marksTokens {type written : Text}
    (steps : Relation.ReflTransGen (MarksToken params) type written) :
    markedType params written = markedType params type ∧
      bareType params written = bareType params type := by
  induction steps with
  | refl => exact ⟨rfl, rfl⟩
  | tail _ step ih =>
      obtain ⟨marked, bare⟩ := step.same words
      exact ⟨marked.trans ih.1, bare.trans ih.2⟩

end Marks

end Generic

open Generic

/-- A definition with marks put in by its author: some declared parameters are written as marked
tokens, and so are some whole tokens of parameters in the property types. -/
structure Definition.Premarked (definition premarked : Definition) : Prop where
  rest : { premarked with params := definition.params, properties := definition.properties } =
    definition
  params : List.Forall₂ (fun declared written => written = declared ∨
    written = mark (bareName declared)) definition.params premarked.params
  properties : List.Forall₂ (fun authored written =>
    { written with type := authored.type } = authored ∧
      Relation.ReflTransGen (MarksToken (definition.params.map bareName)) authored.type
        written.type) definition.properties premarked.properties

namespace Definition

theorem Premarked.bareNames {definition premarked : Definition}
    (marks : definition.Premarked premarked) :
    premarked.params.map bareName = definition.params.map bareName := by
  rw [← List.forall₂_eq_eq_eq, List.forall₂_map_left_iff, List.forall₂_map_right_iff]
  refine marks.params.flip.imp ?_
  rintro written declared (rfl | rfl)
  · rfl
  · exact bareName_mark _

theorem Premarked.exists_authored {definition premarked : Definition}
    (marks : definition.Premarked premarked) {property : Property}
    (field : property ∈ premarked.properties) :
    ∃ authored ∈ definition.properties, Relation.ReflTransGen
      (MarksToken (definition.params.map bareName)) authored.type property.type := by
  have pairs := marks.properties
  generalize definition.properties = sources, premarked.properties = fields at pairs field
  induction pairs with
  | nil => cases field
  | @cons source target sources fields first _ ih =>
      rcases List.mem_cons.mp field with rfl | behind
      · exact ⟨source, by simp, first.2⟩
      · obtain ⟨authored, member, steps⟩ := ih behind
        exact ⟨authored, by simp [member], steps⟩

/-- A rewriting that treats the types alike makes the same definition of both. -/
theorem Premarked.mapTypes {definition premarked : Definition}
    (marks : definition.Premarked premarked) {rewrite : Text → Text}
    (same : ∀ {type written}, Relation.ReflTransGen
      (MarksToken (definition.params.map bareName)) type written → rewrite written = rewrite type)
    (params : List Text) :
    { premarked.mapTypes rewrite with params } = { definition.mapTypes rewrite with params } := by
  have fields : premarked.properties.map (fun property =>
      { property with type := rewrite property.type }) = definition.properties.map fun property =>
      { property with type := rewrite property.type } := by
    rw [← List.forall₂_eq_eq_eq, List.forall₂_map_left_iff, List.forall₂_map_right_iff]
    refine marks.properties.flip.imp ?_
    rintro written authored ⟨rest, steps⟩
    rw [same steps, ← rest]
  have name := congrArg Definition.name marks.rest
  have description := congrArg Definition.description marks.rest
  simp only [Definition.mapTypes, Definition.mk.injEq] at name description ⊢
  exact ⟨name, description, trivial, fields⟩

/-- A prepared definition is prepared already, and preparation makes the same of a definition whose
author has put some of the marks in. -/
theorem prepare_premarked {definition prepared : Definition}
    (done : definition.prepare = .ok prepared) :
    prepared.prepare = .ok prepared ∧
      ∀ premarked, definition.Premarked premarked → premarked.prepare = .ok prepared := by
  obtain ⟨params, distinct, words, checked, findable, rfl⟩ := prepareWith_eq_ok done
  have identifiers : ∀ param ∈ params, isIdentifier param = true :=
    fun param declared => (TypeExpr.isTypeName_iff.mp (words param declared)).1
  constructor
  · have nodup : params.Nodup := by
      rw [distinct]
      exact nodup_eraseDups _
    have again : params = ((params.map mark).map bareName).eraseDups := by
      rw [map_bareName_mark, eraseDups_of_nodup nodup]
    rw [prepare, prepareWith_ok again words]
    · congr 1
      simp only [Definition.mapTypes, List.map_map, Definition.mk.injEq, true_and]
      refine List.map_congr_left fun property _ => ?_
      simp only [Function.comp_apply, markedType_markedType identifiers]
    · intro property field
      obtain ⟨source, authored, rfl⟩ := List.mem_map.mp field
      have readable := TypeExpr.readable_iff.mpr (checked source authored)
      exact TypeExpr.readable_iff.mp (readable_markedType words readable)
    · exact findable
  · intro premarked marks
    have same : ∀ {type written}, Relation.ReflTransGen
        (MarksToken (definition.params.map bareName)) type written →
          markedType params written = markedType params type ∧
            bareType params written = bareType params type := by
      intro type written steps
      have inside : definition.params.map bareName ⊆ params := by
        rw [distinct]
        exact fun name member => List.mem_eraseDups.mpr member
      exact same_of_marksTokens identifiers
        (Relation.ReflTransGen.mono (fun _ _ step => step.mono inside) _ _ steps)
    have declared := distinct.trans (congrArg List.eraseDups marks.bareNames.symm)
    rw [prepare, prepareWith_ok declared words, marks.mapTypes fun steps => (same steps).1]
    · intro property field
      obtain ⟨source, authored, steps⟩ := marks.exists_authored field
      rw [(same steps).2]
      exact checked source authored
    · exact findable

/-- Marks of all kinds that an author may put in: in declarations, next to each other, and in a type
with a mark in a format tag. -/
def mapDefinition : Definition :=
  { name := "Map", params := ["K", "V", "K"],
    properties := [{ name := "all", type := "Map<K,K ,Entry< V[],string#«V»> >" },
      { name := "key", type := "K" }] }

def markedMap : Definition :=
  { name := "Map", params := ["K", "«V»", "«K»"],
    properties := [{ name := "all", type := "Map<«K»,«K» ,Entry< V[],string#«V»> >" },
      { name := "key", type := "«K»" }] }

def preparedMap : Definition :=
  { name := "Map", params := ["«K»", "«V»"],
    properties := [{ name := "all", type := "Map<«K», «K», Entry< «V»[], string#«V»> >" },
      { name := "key", type := "«K»" }] }

theorem prepare_premarked_map :
    mapDefinition.prepare = .ok preparedMap ∧ mapDefinition.Premarked markedMap ∧
      preparedMap.prepare = .ok preparedMap ∧ markedMap.prepare = .ok preparedMap := by
  have done : mapDefinition.prepare = .ok preparedMap := by decide +kernel
  have marks : mapDefinition.Premarked markedMap := by
    refine ⟨rfl, ?_, ?_⟩
    · exact .cons (Or.inl rfl) (.cons (Or.inr rfl) (.cons (Or.inr rfl) .nil))
    · have first : MarksToken ["K", "V", "K"] "Map<K,K ,Entry< V[],string#«V»> >"
          "Map<«K»,K ,Entry< V[],string#«V»> >" :=
        ⟨"Map<", "K", ",K ,Entry< V[],string#«V»> >", by decide, by decide, by decide, by decide⟩
      have second : MarksToken ["K", "V", "K"] "Map<«K»,K ,Entry< V[],string#«V»> >"
          "Map<«K»,«K» ,Entry< V[],string#«V»> >" :=
        ⟨"Map<«K»,", "K", " ,Entry< V[],string#«V»> >", by decide, by decide, by decide, by decide⟩
      have key : MarksToken ["K", "V", "K"] "K" "«K»" :=
        ⟨[], "K", [], by decide, by decide, by decide, by decide⟩
      exact .cons ⟨rfl, .tail (.single first) second⟩ (.cons ⟨rfl, .single key⟩ .nil)
  obtain ⟨again, premarked⟩ := prepare_premarked done
  exact ⟨done, marks, again, premarked markedMap marks⟩

end Definition

end ApiSchema
