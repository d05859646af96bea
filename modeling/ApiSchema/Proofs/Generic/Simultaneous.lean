import ApiSchema.Proofs.Document.Substitution
import ApiSchema.Proofs.Generic.OpenPairs
import ApiSchema.Proofs.Generic.Remarking
import ApiSchema.Proofs.Text.Lookup

set_option autoImplicit false

namespace ApiSchema.Generic

open TypeExpr (isIdentifier argumentFor?)

/-- The argument and the rest, if the text begins with a marked token for which there is one. -/
def argumentAt? (argOf : Text → Option Text) : Text → Option (Text × Text)
  | [] => none
  | c :: rest =>
    if c = markOpen then
      (Text.cutAt? markClose rest).bind fun (name, behind) =>
        (argOf name).map fun arg => (arg, behind)
    else none

theorem argumentAt?_eq_some_iff {argOf : Text → Option Text} {text arg behind : Text} :
    argumentAt? argOf text = some (arg, behind) ↔
      ∃ name, argOf name = some arg ∧ markClose ∉ name ∧ text = mark name ++ behind := by
  constructor
  · intro found
    cases text with
    | nil => cases found
    | cons c rest =>
        rw [argumentAt?] at found
        split at found
        · next opening =>
          obtain ⟨⟨name, tail⟩, cut, taken⟩ := Option.bind_eq_some_iff.mp found
          obtain ⟨given, here, same⟩ := Option.map_eq_some_iff.mp taken
          cases same
          refine ⟨name, here, Text.not_mem_of_cutAt? cut, ?_⟩
          rw [mark_append, opening, Text.eq_append_of_cutAt? cut]
        · cases found
  · rintro ⟨name, here, plain, rfl⟩
    rw [mark_append, argumentAt?, if_pos rfl, Text.cutAt?_append plain]
    simp [here]

/-- Replaces every marked token for which there is an argument, from left to right; an argument that
has been put in is not looked at again. -/
def fillTokens (argOf : Text → Option Text) (text : Text) : Text :=
  match text with
  | [] => []
  | c :: rest =>
    match _token : argumentAt? argOf (c :: rest) with
    | some (arg, behind) => arg ++ fillTokens argOf behind
    | none => c :: fillTokens argOf rest
termination_by text.length
decreasing_by
  · obtain ⟨name, -, -, same⟩ := argumentAt?_eq_some_iff.mp _token
    rw [same, mark_append]
    simp only [List.length_cons, List.length_append]
    omega
  · simp

section Fill

variable {argOf : Text → Option Text}

@[simp] theorem fillTokens_nil : fillTokens argOf [] = [] := by
  rw [fillTokens]

theorem fillTokens_token {name arg : Text} (plain : markClose ∉ name)
    (given : argOf name = some arg) (rest : Text) :
    fillTokens argOf (mark name ++ rest) = arg ++ fillTokens argOf rest := by
  have found : argumentAt? argOf (mark name ++ rest) = some (arg, rest) :=
    argumentAt?_eq_some_iff.mpr ⟨name, given, plain, rfl⟩
  rw [mark_append] at found ⊢
  rw [fillTokens]
  split
  · next again =>
    rw [found] at again
    cases again
    rfl
  · next again =>
    rw [found] at again
    cases again

theorem fillTokens_cons {c : Char} {rest : Text}
    (absent : ∀ name arg, argOf name = some arg → markClose ∉ name → ¬ mark name <+: c :: rest) :
    fillTokens argOf (c :: rest) = c :: fillTokens argOf rest := by
  rw [fillTokens]
  split
  · next found =>
    obtain ⟨name, given, plain, same⟩ := argumentAt?_eq_some_iff.mp found
    exact absurd ⟨_, same.symm⟩ (absent name _ given plain)
  · rfl

theorem fillTokens_plain {c : Char} (other : c ≠ markOpen) (rest : Text) :
    fillTokens argOf (c :: rest) = c :: fillTokens argOf rest :=
  fillTokens_cons fun name _ _ _ => not_mark_starts other name rest

/-- An inert text stays as it is, whatever follows. -/
theorem fillTokens_inert {names : List Text}
    (only : ∀ name arg, argOf name = some arg → name ∈ names) {opened : Bool} {text : Text}
    (closed : leftOpen opened text = false) (free : ∀ name ∈ names, ¬ mark name <:+: text)
    (rest : Text) : fillTokens argOf (text ++ rest) = text ++ fillTokens argOf rest := by
  induction text generalizing opened with
  | nil => rfl
  | cons c more ih =>
      have absent : ∀ name arg, argOf name = some arg → markClose ∉ name →
          ¬ mark name <+: c :: (more ++ rest) := fun name arg given plain starts =>
        free name (only name arg given)
          (starts_of_closed (List.cons_ne_nil c more) closed plain starts).isInfix
      rw [List.cons_append, fillTokens_cons absent, List.cons_append]
      have tail : leftOpen (leftOpen opened [c]) more = false := by
        rwa [← leftOpen_append]
      rw [ih tail fun name declared inside =>
        free name declared (inside.trans (List.infix_cons List.infix_rfl))]

end Fill

section Step

variable {param arg : Text} {params args : List Text}

/-- Behind an open guillemet a replacement completes no marked token: the first closing guillemet
stands before the first token replaced. -/
theorem mark_starts_of_replaceFound {names : List Text} (declared : param ∈ names) {rest : Text}
    (unnested : Unnested names true rest) {name : Text} (plain : markClose ∉ name)
    (starts : mark name <+: markOpen :: Text.replaceFound (mark param) arg rest) :
    mark name <+: markOpen :: rest := by
  have some_pattern : mark param ≠ [] := by simp [mark]
  rcases Text.replaceFound_cases some_pattern arg rest with same | ⟨front, back, whole, replaced⟩
  · rwa [same] at starts
  · have closed : leftOpen true front = false := unnested param declared front back whole
    obtain ⟨before, after, rfl, apart⟩ :=
      List.eq_append_cons_of_mem (close_mem_of_leftOpen closed)
    obtain ⟨behind, same⟩ := starts
    rw [mark_append, replaced, List.cons.injEq] at same
    simp only [List.append_assoc, List.cons_append, true_and] at same
    rw [eq_of_close plain apart same, whole]
    exact ⟨after ++ mark param ++ back, by simp [mark]⟩

variable (words : ∀ name ∈ param :: params, isIdentifier name = true)
  (inert : Inert (param :: params) arg)
include words inert

/-- Replacing one parameter makes no marked token of another and puts none into an open pair. -/
theorem unnested_replaceFound {opened : Bool} {text : Text}
    (unnested : Unnested (param :: params) opened text) :
    Unnested params opened (Text.replaceFound (mark param) arg text) := by
  have others : ∀ name ∈ params, isIdentifier name = true :=
    fun name member => words name (by simp [member])
  refine unnested_induction (motive := fun opened text =>
    Unnested params opened (Text.replaceFound (mark param) arg text))
    ?nil ?plain ?token ?stray unnested
  case nil =>
      intro opened
      rw [Text.replaceFound]
      exact unnested_nil
  case plain =>
      intro opened c rest other ih
      rw [Text.replaceFound_cons _ _ (not_mark_starts other param rest), unnested_cons_iff]
      exact ⟨fun name _ starts => absurd starts (not_mark_starts other name _), ih⟩
  case token =>
      intro name rest declared ih
      by_cases same : name = param
      · subst same
        rw [Text.replaceFound_pattern (by simp [mark])]
        exact unnested_append others inert.closed
          (unnested_free fun other member => inert.free other (by simp [member])) ih
      · have word := words name declared
        rw [replaceFound_other (words param (by simp)) word same]
        exact unnested_append others (leftOpen_mark false name)
          (unnested_mark (TypeExpr.isIdentifier_not_mem word (by decide))) ih
  case stray =>
      intro opened rest absent unnested ih
      rw [Text.replaceFound_cons _ _ (absent param (by simp)), unnested_cons_iff]
      refine ⟨fun name declared starts => ?_, ih⟩
      have plain : markClose ∉ name :=
        TypeExpr.isIdentifier_not_mem (others name declared) (by decide)
      exact absurd (mark_starts_of_replaceFound (by simp) unnested plain starts)
        (absent name (by simp [declared]))

/-- Putting in the first argument and then the others at once is putting in all of them at once. -/
theorem fillTokens_replaceFound (arity : args.length = params.length) {opened : Bool} {text : Text}
    (unnested : Unnested (param :: params) opened text) :
    fillTokens (argumentFor? params args) (Text.replaceFound (mark param) arg text) =
      fillTokens (argumentFor? (param :: params) (arg :: args)) text := by
  have plainNames : ∀ name ∈ param :: params, markClose ∉ name :=
    fun name declared => TypeExpr.isIdentifier_not_mem (words name declared) (by decide)
  have first : argumentFor? (param :: params) (arg :: args) param = some arg := by
    simp [argumentFor?]
  have other : ∀ name, name ≠ param →
      argumentFor? (param :: params) (arg :: args) name = argumentFor? params args name := by
    intro name apart
    have differs : (name == param) = false := by simpa using apart
    simp [argumentFor?, List.lookup_cons, differs]
  have only : ∀ name given, argumentFor? params args name = some given → name ∈ params := by
    intro name given found
    by_contra absent
    rw [TypeExpr.argumentFor?_of_not_mem args absent] at found
    cases found
  refine unnested_induction (motive := fun _ text =>
    fillTokens (argumentFor? params args) (Text.replaceFound (mark param) arg text) =
      fillTokens (argumentFor? (param :: params) (arg :: args)) text)
    ?nil ?plain ?token ?stray unnested
  case nil =>
      intro opened
      rw [Text.replaceFound, fillTokens_nil, fillTokens_nil]
  case plain =>
      intro opened c rest apart ih
      rw [Text.replaceFound_cons _ _ (not_mark_starts apart param rest), fillTokens_plain apart,
        fillTokens_plain apart, ih]
  case token =>
      intro name rest declared ih
      have plain := plainNames name declared
      by_cases same : name = param
      · subst same
        rw [Text.replaceFound_pattern (by simp [mark]), fillTokens_token plain first,
          fillTokens_inert only inert.closed
            (fun other member => inert.free other (by simp [member])), ih]
      · have inside : name ∈ params := (List.mem_cons.mp declared).resolve_left same
        obtain ⟨given, -, found⟩ := TypeExpr.argumentFor?_of_mem arity inside
        rw [replaceFound_other (words param (by simp)) (words name declared) same,
          fillTokens_token plain found, fillTokens_token plain ((other name same).trans found), ih]
  case stray =>
      intro opened rest absent unnested ih
      have still : ∀ name given, argumentFor? params args name = some given → markClose ∉ name →
          ¬ mark name <+: markOpen :: Text.replaceFound (mark param) arg rest := by
        intro name given found plain starts
        exact absent name (by simp [only name given found])
          (mark_starts_of_replaceFound (by simp) unnested plain starts)
      have none : ∀ name given, argumentFor? (param :: params) (arg :: args) name = some given →
          markClose ∉ name → ¬ mark name <+: markOpen :: rest := by
        intro name given found plain
        refine absent name ?_
        by_cases same : name = param
        · simp [same]
        · rw [other name same] at found
          simp [only name given found]
      rw [Text.replaceFound_cons _ _ (absent param (by simp)), fillTokens_cons still,
        fillTokens_cons none, ih]

end Step

theorem fillTokens_none (text : Text) : fillTokens (fun _ => none) text = text := by
  induction text with
  | nil => rw [fillTokens_nil]
  | cons c rest ih => rw [fillTokens_cons (fun _ _ given => by cases given), ih]

/-- Putting in inert arguments one parameter after another puts in all of them at once. -/
theorem substitute_eq_fillTokens {params args : List Text}
    (words : ∀ param ∈ params, isIdentifier param = true) (arity : args.length = params.length)
    (inert : ∀ arg ∈ args, Inert params arg) {opened : Bool} {text : Text}
    (unnested : Unnested params opened text) :
    substitute (params.map mark) args text = fillTokens (argumentFor? params args) text := by
  induction params generalizing args text with
  | nil => exact (fillTokens_none text).symm
  | cons param params ih =>
      cases args with
      | nil => cases arity
      | cons arg args =>
          have arg_inert : Inert (param :: params) arg := inert arg (by simp)
          have tail := unnested_replaceFound words arg_inert unnested
          have rest := ih (fun name declared => words name (by simp [declared]))
            (Nat.succ.inj arity)
            (fun given member => (inert given (by simp [member])).mono (List.subset_cons_self _ _))
            tail
          change substitute (params.map mark) args (Text.replace (mark param) arg text) = _
          rw [replace_mark, rest,
            fillTokens_replaceFound words arg_inert (Nat.succ.inj arity) unnested]

section Order

variable {params args others : List Text}

/-- What is a permutation of pairs with marked names has marked names itself. -/
theorem exists_marked_of_perm {tokens : List Text} (arity : args.length = params.length)
    (also : others.length = tokens.length)
    (perm : (tokens.zip others).Perm ((params.map mark).zip args)) :
    ∃ names : List Text, tokens = names.map mark ∧ (names.zip others).Perm (params.zip args) := by
  refine ⟨tokens.map bareName, ?_, ?_⟩
  · rw [List.map_map]
    refine (List.map_id tokens).symm.trans (List.map_congr_left fun token member => ?_)
    have keys := perm.map Prod.fst
    rw [List.map_fst_zip (by omega), List.map_fst_zip (by simp [arity])] at keys
    obtain ⟨param, -, rfl⟩ := List.mem_map.mp (keys.subset member)
    simp [bareName_mark]
  · have bare := perm.map (Prod.map bareName id)
    rw [← List.zip_map_left, ← List.zip_map_left, List.map_map] at bare
    have same : bareName ∘ mark = id := funext bareName_mark
    rwa [same, List.map_id] at bare

/-- Inert arguments may be put in with their parameters in any order. -/
theorem substitute_eq_of_perm {names : List Text}
    (words : ∀ param ∈ params, isIdentifier param = true) (distinct : params.Nodup)
    (arity : args.length = params.length) (inert : ∀ arg ∈ args, Inert params arg)
    {opened : Bool} {text : Text} (unnested : Unnested params opened text)
    (also : others.length = names.length) (perm : (names.zip others).Perm (params.zip args)) :
    substitute (names.map mark) others text = fillTokens (argumentFor? params args) text := by
  have keys := perm.map Prod.fst
  rw [List.map_fst_zip (by omega), List.map_fst_zip (by omega)] at keys
  have values := perm.map Prod.snd
  rw [List.map_snd_zip (by omega), List.map_snd_zip (by omega)] at values
  have same : argumentFor? names others = argumentFor? params args := by
    funext name
    have once : names.Nodup := keys.nodup_iff.mpr distinct
    refine lookup_perm_of_once perm ?_
    rw [List.map_fst_zip (by omega)]
    exact List.nodup_iff_count_le_one.mp once name
  rw [← same]
  exact substitute_eq_fillTokens (fun name member => words name (keys.subset member)) also
    (fun arg member => (inert arg (values.subset member)).mono keys.subset)
    (unnested.mono keys.subset)

end Order

end ApiSchema.Generic

namespace ApiSchema

open Generic
open TypeExpr (argumentFor?)

/-- In a property of a prepared definition whose marked tokens stand in no open pair, arguments that
hold no marked token and leave no pair open are put in for every marked token of a parameter at
once. The pairs of parameters and arguments may be taken in any order, and no text that came in is
rewritten. -/
theorem Definition.substitute_perm {definition prepared : Definition}
    (done : definition.prepare = .ok prepared) {property : Property}
    (field : property ∈ prepared.properties)
    (unnested : Unnested (prepared.params.map bareName) false property.type) {args : List Text}
    (arity : args.length = prepared.params.length)
    (inert : ∀ arg ∈ args, Inert (prepared.params.map bareName) arg) {params others : List Text}
    (also : others.length = params.length)
    (perm : (params.zip others).Perm (prepared.params.zip args)) :
    substitute params others property.type =
        fillTokens (argumentFor? (prepared.params.map bareName) args) property.type ∧
      substitute prepared.params args property.type =
        fillTokens (argumentFor? (prepared.params.map bareName) args) property.type := by
  obtain ⟨names, same, type_names, -, -, rfl⟩ := prepareWith_eq_ok done
  simp only [map_bareName_mark] at unnested inert ⊢
  rw [List.length_map] at arity
  have identifiers : ∀ name ∈ names, TypeExpr.isIdentifier name = true :=
    fun name member => (TypeExpr.isTypeName_iff.mp (type_names name member)).1
  have distinct : names.Nodup := same ▸ nodup_eraseDups _
  obtain ⟨bare_params, rfl, pairs⟩ := exists_marked_of_perm arity also perm
  rw [List.length_map] at also
  exact ⟨substitute_eq_of_perm identifiers distinct arity inert unnested also pairs,
    substitute_eq_fillTokens identifiers arity inert unnested⟩

/-- Pairs, with a parameter in a format tag as well. -/
def pairDefinition : Definition :=
  { name := "Pair", params := ["L", "R"],
    properties := [{ name := "both", type := "Map<L,R[]>" },
      { name := "swapped", type := "Pair<R,string#«L»>" }] }

def preparedPair : Definition :=
  { name := "Pair", params := ["«L»", "«R»"],
    properties := [{ name := "both", type := "Map<«L», «R»[]>" },
      { name := "swapped", type := "Pair<«R», string#«L»>" }] }

theorem Definition.substitute_perm_pair :
    pairDefinition.prepare = .ok preparedPair ∧
      substitute ["«R»", "«L»"] ["User", "integer"] "Pair<«R», string#«L»>" =
        "Pair<User, string#integer>".toList ∧
      fillTokens (argumentFor? ["L", "R"] ["integer", "User"]) "Pair<«R», string#«L»>" =
        "Pair<User, string#integer>".toList := by
  have done : pairDefinition.prepare = .ok preparedPair := by decide +kernel
  have field :
      { name := "swapped", type := "Pair<«R», string#«L»>" } ∈ preparedPair.properties := by
    simp [preparedPair]
  have unnested : Unnested (preparedPair.params.map bareName) false "Pair<«R», string#«L»>" := by
    decide +kernel
  have inert : ∀ arg ∈ (["integer", "User"] : List Text),
      Inert (preparedPair.params.map bareName) arg := by decide +kernel
  have perm : ((["«R»", "«L»"] : List Text).zip (["User", "integer"] : List Text)).Perm
      (preparedPair.params.zip (["integer", "User"] : List Text)) := by decide +kernel
  have bare : preparedPair.params.map bareName = ["L", "R"] := by decide +kernel
  have put : substitute ["«R»", "«L»"] ["User", "integer"] "Pair<«R», string#«L»>" =
      "Pair<User, string#integer>".toList := by decide +kernel
  have arity : (["integer", "User"] : List Text).length = preparedPair.params.length := rfl
  have also : (["User", "integer"] : List Text).length = (["«R»", "«L»"] : List Text).length := rfl
  obtain ⟨swapped, -⟩ := substitute_perm done field unnested arity inert also perm
  rw [bare] at swapped
  exact ⟨done, put, swapped.symm.trans put⟩

/-- The format tag of an argument is spelled like the marked token of the other parameter. It is
rewritten if that parameter comes later. -/
theorem Definition.substitute_order :
    pairDefinition.prepare = .ok preparedPair ∧
      (TypeExpr.parse "string#«R»").map TypeExpr.canonical = .ok "string#«R»".toList ∧
      (TypeExpr.parse "User").map TypeExpr.canonical = .ok "User".toList ∧
      substitute ["«L»", "«R»"] ["string#«R»", "User"] "Map<«L», «R»[]>" =
        "Map<string#User, User[]>".toList ∧
      substitute ["«R»", "«L»"] ["User", "string#«R»"] "Map<«L», «R»[]>" =
        "Map<string#«R», User[]>".toList := by
  decide +kernel

end ApiSchema
