import ApiSchema.Proofs.Generic.Respacing
import ApiSchema.Proofs.TypeExpr.Squeezed

set_option autoImplicit false

namespace ApiSchema

open Text (Blank Tight squeeze)
open TypeExpr (isIdentifier isTypeName Uncut Layout Word Readable Respaced canonical
  parseFragment)

namespace Generic

section Replace

variable {param arg : Text} (word : isIdentifier param = true)
include word

theorem replaceFound_arrayText (core : Text) {gaps : List Text} (blank : ∀ gap ∈ gaps, Blank gap) :
    Text.replaceFound (mark param) arg (TypeExpr.arrayText core gaps) =
      TypeExpr.arrayText (Text.replaceFound (mark param) arg core) gaps := by
  induction gaps with
  | nil => rfl
  | cons gap gaps ih =>
      have suffix : ∀ c ∈ gap ++ ['[', ']'], c ∉ mark param := by
        intro c member
        refine separator_not_mem word ?_
        rcases List.mem_append.mp member with member | member
        · exact Or.inl (blank gap (by simp) c member)
        · exact Or.inr (by simp_all)
      rw [TypeExpr.arrayText, List.append_assoc, Text.replaceFound_back (by simp [mark]) suffix,
        ih fun other member => blank other (by simp [member]), TypeExpr.arrayText,
        List.append_assoc]

theorem replaceFound_margins {margins : TypeExpr.Margins} (valid : margins.Valid) (core : Text) :
    Text.replaceFound (mark param) arg (margins.around core) =
      margins.around (Text.replaceFound (mark param) arg core) := by
  have outside : ∀ blank : Text, Blank blank → ∀ c ∈ blank, c ∉ mark param :=
    fun blank white c member => separator_not_mem word (Or.inl (white c member))
  rw [TypeExpr.Margins.around, Text.replaceFound_back (by simp [mark]) (outside _ valid.after),
    Text.replaceFound_front (by simp [mark]) (outside _ valid.before),
    replaceFound_arrayText word core valid.gaps, TypeExpr.Margins.around]

theorem replaceFound_joinWith (texts : List Text) :
    Text.replaceFound (mark param) arg (Text.joinWith [','] texts) =
      Text.joinWith [','] (texts.map (Text.replaceFound (mark param) arg)) := by
  have comma : ',' ∉ mark param := separator_not_mem word (Or.inr (by simp))
  induction texts with
  | nil => rw [List.map_nil, Text.joinWith, Text.replaceFound]
  | cons text rest ih =>
      cases rest with
      | nil => rfl
      | cons next more =>
          rw [Text.joinWith_cons_cons, List.append_assoc, List.singleton_append,
            Text.replaceFound_apart (by simp [mark]) comma, ih]
          simp

theorem replaceFound_appliedText (head : Text) (args : List Text) :
    Text.replaceFound (mark param) arg (TypeExpr.appliedText head args) =
      TypeExpr.appliedText (Text.replaceFound (mark param) arg head)
        (args.map (Text.replaceFound (mark param) arg)) := by
  have opening : '<' ∉ mark param := separator_not_mem word (Or.inr (by simp))
  have closing : ∀ c ∈ ['>'], c ∉ mark param := by
    intro c member
    exact separator_not_mem word (Or.inr (by simp_all))
  rw [TypeExpr.appliedText, Text.replaceFound_back (by simp [mark]) closing,
    Text.replaceFound_apart (by simp [mark]) opening, replaceFound_joinWith word]
  rfl

/-- Replacing in what is written is writing what is replaced. -/
theorem replace_write {words : Word → Text} {heads : Text → Text} {layout : Layout}
    (valid : layout.Valid) : Text.replace (mark param) arg (layout.write words heads) =
      layout.write (fun leaf => Text.replace (mark param) arg (words leaf))
        fun name => Text.replace (mark param) arg (heads name) := by
  simp only [replace_mark]
  induction valid with
  | leaf blank => rw [Layout.write, Layout.write, replaceFound_margins word blank]
  | applied blank _ _ _ ih =>
      rw [Layout.write, Layout.write, replaceFound_margins word blank,
        replaceFound_appliedText word, Layout.writeAll_eq_map, Layout.writeAll_eq_map,
        List.map_map]
      exact congrArg (fun texts => TypeExpr.Margins.around _ (TypeExpr.appliedText _ texts))
        (List.map_congr_left ih)

end Replace

/-- Putting in arguments for all parameters is putting them into the words and applied names. -/
theorem substitute_write {params args : List Text}
    (identifiers : ∀ param ∈ params, isIdentifier param = true) {words : Word → Text}
    {heads : Text → Text} {layout : Layout} (valid : layout.Valid) :
    substitute (params.map mark) args (layout.write words heads) =
      layout.write (fun leaf => substitute (params.map mark) args (words leaf))
        fun name => substitute (params.map mark) args (heads name) := by
  induction params generalizing args words heads with
  | nil => rfl
  | cons param params ih =>
      cases args with
      | nil => rfl
      | cons arg args =>
          have first : Text.replace (mark param) arg (layout.write words heads) = _ :=
            replace_write (identifiers param (by simp)) valid
          have tail := @ih args (fun other member => identifiers other (by simp [member]))
            (fun leaf => Text.replace (mark param) arg (words leaf))
            fun name => Text.replace (mark param) arg (heads name)
          change substitute (params.map mark) args (Text.replace (mark param) arg _) = _
          rw [first, tail]
          rfl

section Keep

variable {pattern arg : Text} (some_pattern : pattern ≠ [])
include some_pattern

theorem last_replaceFound (finish : ∃ c ∈ arg.getLast?, Text.isBlank c = false) {text : Text}
    (text_finish : ∃ c ∈ text.getLast?, Text.isBlank c = false) :
    ∃ c ∈ (Text.replaceFound pattern arg text).getLast?, Text.isBlank c = false := by
  induction size : text.length using Nat.strongRecOn generalizing text with
  | ind size ih =>
      rcases Text.replaceFound_cases some_pattern arg text with same | ⟨front, back, rfl, replaced⟩
      · rwa [same]
      · rw [replaced]
        cases ends : back.getLast? with
        | none =>
            rw [List.getLast?_eq_none_iff.mp ends, Text.replaceFound, List.append_nil]
            exact Text.last_append finish front
        | some c =>
            obtain ⟨d, last, solid⟩ := text_finish
            rw [List.getLast?_append, ends] at last
            cases last
            have positive := List.length_pos_iff.mpr some_pattern
            simp only [List.length_append] at size
            exact Text.last_append (ih back.length (by omega) ⟨c, ends, solid⟩ rfl) _

theorem tight_replaceFound (arg_tight : Tight arg) {text : Text} (tight : Tight text) :
    Tight (Text.replaceFound pattern arg text) := by
  refine ⟨?_, last_replaceFound some_pattern arg_tight.last tight.last⟩
  rcases Text.replaceFound_cases some_pattern arg text with same | ⟨front, back, rfl, replaced⟩
  · rw [same]
    exact tight.first
  · rw [replaced, List.append_assoc]
    cases front with
    | nil => exact Text.head_append arg_tight.first _
    | cons c front =>
        obtain ⟨d, first, solid⟩ := tight.first
        exact ⟨d, first, solid⟩

variable (plain : ∀ c ∈ pattern, c ≠ '<' ∧ c ≠ '>' ∧ c ≠ ',') (uncut : Uncut 0 arg)
include plain uncut

/-- A text that is cut in one part still is when texts that no cut goes through are put in. -/
theorem single_replaceFound {depth : Nat} {text piece : Text}
    (single : TypeExpr.splitAtDepth depth text = some [piece]) :
    ∃ other, TypeExpr.splitAtDepth depth (Text.replaceFound pattern arg text) = some [other] := by
  induction size : text.length using Nat.strongRecOn generalizing depth text piece with
  | ind size ih =>
      by_cases found : pattern <+: text
      · obtain ⟨back, rfl⟩ := found
        have positive := List.length_pos_iff.mpr some_pattern
        simp only [List.length_append] at size
        rw [Uncut.plain 0 plain depth back (Nat.zero_le depth)] at single
        -- the pattern lengthens the first part only, so what is behind it is cut in one part too
        obtain ⟨pieces, behind, same⟩ := Option.map_eq_some_iff.mp single
        obtain ⟨inner, rfl⟩ : ∃ inner, pieces = [inner] := by
          cases pieces with
          | nil => exact absurd rfl (TypeExpr.splitAtDepth_ne_nil behind)
          | cons inner more =>
              simp only [TypeExpr.prependFirst, List.cons.injEq] at same
              exact ⟨inner, by rw [same.2]⟩
        obtain ⟨other, again⟩ := ih back.length (by omega) behind rfl
        refine ⟨arg ++ other, ?_⟩
        rw [Text.replaceFound_pattern some_pattern, uncut depth _ (Nat.zero_le depth), again]
        rfl
      · cases text with
        | nil => exact ⟨piece, by rwa [Text.replaceFound]⟩
        | cons c text =>
            obtain ⟨next, inner, goesOn, behind⟩ := TypeExpr.single_cons single
            obtain ⟨other, again⟩ := ih text.length (by simp at size; omega) behind rfl
            refine ⟨c :: other, ?_⟩
            rw [Text.replaceFound_cons _ _ found, goesOn.cut_self, again]
            rfl

theorem uncut_replaceFound {text : Text} (text_uncut : Uncut 0 text) :
    Uncut 0 (Text.replaceFound pattern arg text) := by
  obtain ⟨piece, single⟩ := TypeExpr.uncut_iff.mp text_uncut
  exact TypeExpr.uncut_iff.mpr (single_replaceFound some_pattern plain uncut single)

end Keep

/-- No cut goes through a marked token. -/
theorem mark_plain {param : Text} (word : isIdentifier param = true) :
    ∀ c ∈ mark param, c ≠ '<' ∧ c ≠ '>' ∧ c ≠ ',' := by
  intro c member
  refine ⟨?_, ?_, ?_⟩ <;> rintro rfl <;> exact separator_not_mem word (Or.inr (by simp)) member

section Substitute

variable {params args : List Text}

/-- A text without marks stays as it is. -/
theorem substitute_front {front : Text} (free : markOpen ∉ front) (rest : Text) :
    substitute (params.map mark) args (front ++ rest) =
      front ++ substitute (params.map mark) args rest := by
  induction params generalizing args rest with
  | nil => rfl
  | cons param params ih =>
      cases args with
      | nil => rfl
      | cons arg args =>
          have first : Text.replace (mark param) arg (front ++ rest) =
              front ++ Text.replace (mark param) arg rest := by
            rw [replace_mark, replace_mark, replaceFound_unmarked free]
          have tail := @ih args (Text.replace (mark param) arg rest)
          rw [← first] at tail
          exact tail

theorem substitute_unmarked {text : Text} (free : markOpen ∉ text) :
    substitute (params.map mark) args text = text := by
  induction params generalizing args with
  | nil => rfl
  | cons param params ih =>
      cases args with
      | nil => rfl
      | cons arg args =>
          have first : Text.replace (mark param) arg text = text := replace_of_unmarked free
          have tail := @ih args
          rw [← first] at tail
          exact tail.trans first

/-- Putting in arguments keeps what each replacement keeps. -/
theorem substitute_keeps {P : Text → Prop}
    (keeps : ∀ param ∈ params, ∀ arg ∈ args, ∀ text, P text →
      P (Text.replaceFound (mark param) arg text)) {text : Text} (holds : P text) :
    P (substitute (params.map mark) args text) := by
  induction params generalizing args text with
  | nil => exact holds
  | cons param params ih =>
      cases args with
      | nil => exact holds
      | cons arg args =>
          have first := keeps param (by simp) arg (by simp) text holds
          rw [← replace_mark] at first
          exact @ih args (fun other member next given =>
            keeps other (by simp [member]) next (by simp [given])) _ first

/-- Arguments that a cut leaves whole may be put in wherever such a text stands. -/
theorem apt_substitute (identifiers : ∀ param ∈ params, isIdentifier param = true)
    (whole : ∀ arg ∈ args, Tight arg ∧ Uncut 0 arg) {words : Word → Text} {heads : Text → Text}
    (apt : TypeExpr.Apt words heads) :
    TypeExpr.Apt (fun leaf => substitute (params.map mark) args (words leaf))
      fun name => substitute (params.map mark) args (heads name) := by
  have keeps : ∀ text, Tight text ∧ Uncut 0 text →
      Tight (substitute (params.map mark) args text) ∧
        Uncut 0 (substitute (params.map mark) args text) := by
    intro text holds
    refine substitute_keeps (P := fun text => Tight text ∧ Uncut 0 text) ?_ holds
    rintro param declared arg given text ⟨tight, uncut⟩
    have plain := mark_plain (identifiers param declared)
    obtain ⟨arg_tight, arg_uncut⟩ := whole arg given
    exact ⟨tight_replaceFound (by simp [mark]) arg_tight tight,
      uncut_replaceFound (by simp [mark]) plain arg_uncut uncut⟩
  exact ⟨fun leaf valid => keeps _ (apt.word leaf valid),
    fun name word => keeps _ (apt.head name word)⟩

end Substitute

end Generic

namespace TypeExpr

open Generic (mark substitute markedType bareType)

variable {params : List Text}

theorem apt_render {spell : Text → Text} (legible : Legible spell)
    (uncut : ∀ name, isTypeName name = true → Uncut 0 (spell name)) :
    Apt (Word.render spell) spell where
  word leaf valid := by
    refine ⟨(legible.word valid).1, ?_⟩
    cases leaf with
    | named name => exact uncut name valid
    | primitive base => exact Word.uncut valid
    | tagged base format => exact Word.uncut valid
  head name word := ⟨(legible name word).1, uncut name word⟩

theorem apt_markNames (params : List Text) :
    Apt (Word.render (markNames params)) (markNames params) := by
  refine apt_render (legible_markNames params) fun name word => ?_
  have identifier := (isTypeName_iff.mp word).1
  rcases markup_markNames params name word with plain | marked
  · rw [plain]
    exact isIdentifier_uncut identifier
  · rw [marked]
    exact Uncut.plain 0 (Generic.mark_plain identifier)

/-- A normal spelling has no blanks at its ends and no cut goes through it. -/
theorem canonical_whole {fragment : Text} {type : TypeExpr}
    (read : parseFragment fragment = .ok type) : Tight type.canonical ∧ Uncut 0 type.canonical := by
  refine ⟨(canonical_spaced read).2.tight, ?_⟩
  obtain ⟨layout, valid, -, rfl⟩ := exists_layout read
  have text := valid.text_plainAfter []
  rw [List.nil_append] at text
  rw [← text]
  exact (valid.plainAfter Text.Blank.nil).uncut

/-- Marking parameters and putting in arguments treats types alike that differ in blanks. -/
theorem respaced_substitute (words : ∀ param ∈ params, isTypeName param = true) {args : List Text}
    (whole : ∀ arg ∈ args, Tight arg ∧ Uncut 0 arg) {first second : Text}
    (same : squeeze first = squeeze second) (readable : Readable first) (also : Readable second) :
    Respaced (substitute (params.map mark) args (markedType params first))
      (substitute (params.map mark) args (markedType params second)) := by
  have identifiers : ∀ param ∈ params, isIdentifier param = true :=
    fun param declared => (isTypeName_iff.mp (words param declared)).1
  obtain ⟨type, read⟩ := readable
  obtain ⟨layout, valid, rfl, -⟩ := exists_layout (parse_eq_ok_iff.mp read)
  obtain ⟨type, read⟩ := also
  obtain ⟨another, also_valid, rfl, -⟩ := exists_layout (parse_eq_ok_iff.mp read)
  rw [valid.markedType_render words, also_valid.markedType_render words,
    ← valid.spaced.write_render, ← also_valid.spaced.write_render,
    Generic.substitute_write identifiers valid.spaced,
    Generic.substitute_write identifiers also_valid.spaced]
  refine Layout.Valid.respaced_write (Generic.apt_substitute identifiers whole
    (apt_markNames params)) valid.spaced also_valid.spaced ?_
  rw [Layout.solid_spaced valid, Layout.solid_spaced also_valid,
    Layout.solid_eq_of_squeeze valid also_valid same]

theorem bareType_eq (params : List Text) (type : Text) :
    bareType params type = substitute (params.map mark) params type := by
  rw [bareType, substitute, List.zip_map_left, List.foldl_map]
  induction params generalizing type with
  | nil => rfl
  | cons param params ih => exact ih _

theorem identifierPart_format {c : Char} (part : isIdentifierPart c = true) :
    isFormatPart c = true := by
  have apart : c ∉ ['#', '<', '>', ',', '[', ']'] := by
    intro member
    have outside : (['#', '<', '>', ',', '[', ']'].all fun d => !isIdentifierPart d) = true := by
      decide
    simpa [part] using List.all_eq_true.mp outside c member
  simp [isFormatPart, identifierPart_solid part, List.contains_eq_mem, apart]

theorem isFormat_substitute (identifiers : ∀ param ∈ params, isIdentifier param = true)
    {format : Text} (fit : isFormat format = true) :
    isFormat (substitute (params.map mark) params format) = true := by
  refine Generic.substitute_keeps (P := fun text => isFormat text = true) ?_ fit
  intro param _ arg given text text_fit
  rw [isFormat, List.all_eq_true] at text_fit ⊢
  intro c member
  rcases Text.mem_replaceFound member with put | old
  · exact identifierPart_format (isIdentifier_part (identifiers arg given) c put)
  · exact text_fit c old

/-- A type expression is still one once its marks are taken away: they stand in formats only. -/
theorem readable_bareType (words : ∀ param ∈ params, isTypeName param = true) {type : Text}
    (readable : Readable type) : Readable (bareType params type) := by
  have identifiers : ∀ param ∈ params, isIdentifier param = true :=
    fun param declared => (isTypeName_iff.mp (words param declared)).1
  obtain ⟨expr, read⟩ := readable
  obtain ⟨layout, valid, rfl, -⟩ := exists_layout (parse_eq_ok_iff.mp read)
  have free : ∀ name, isIdentifier name = true → Generic.markOpen ∉ name :=
    fun name word => isIdentifier_not_mem word (by decide)
  have bare : ∀ name, isIdentifier name = true →
      substitute (params.map mark) params name = name :=
    fun name word => Generic.substitute_unmarked (free name word)
  have apt := apt_render legible_id fun name word => isIdentifier_uncut (isTypeName_iff.mp word).1
  rw [bareType_eq, Layout.text, ← valid.write_render, Generic.substitute_write identifiers valid,
    valid.readable_write (Generic.apt_substitute identifiers ?whole apt)]
  · refine valid.fit (fun leaf leaf_valid => ?_) fun name word => ?_
    · cases leaf with
      | named name =>
          rw [Word.render, id, bare name (isTypeName_iff.mp leaf_valid).1]
          exact Word.readable leaf_valid
      | primitive base =>
          rw [Word.render, bare base.name (name_isIdentifier base)]
          exact Word.readable leaf_valid
      | tagged base format =>
          have front : Generic.markOpen ∉ base.name ++ ['#'] := by
            rw [List.mem_append, not_or]
            exact ⟨free base.name (name_isIdentifier base), by decide⟩
          have spelled : substitute (params.map mark) params (Word.tagged base format).text =
              (Word.tagged base (substitute (params.map mark) params format)).text := by
            have kept : substitute (params.map mark) params (base.name ++ ['#'] ++ format) = _ :=
              Generic.substitute_front front format
            simpa [Word.text] using kept
          change Readable (substitute (params.map mark) params (Word.tagged base format).text)
          rw [spelled]
          exact Word.readable (isFormat_substitute identifiers leaf_valid)
    · rw [id, bare name (isTypeName_iff.mp word).1]
      exact word
  · intro param declared
    have word := words param declared
    exact ⟨(legible_id param word).1, isIdentifier_uncut (identifiers param declared)⟩

end TypeExpr

end ApiSchema
