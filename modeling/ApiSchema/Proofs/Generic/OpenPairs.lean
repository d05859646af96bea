import ApiSchema.Proofs.Generic.Filling

set_option autoImplicit false

namespace ApiSchema.Generic

open TypeExpr (isIdentifier)

/-- The last guillemet of the text is an opening one, or there is none and `opened` says so of what
stands before. -/
def leftOpen (opened : Bool) (text : Text) : Bool :=
  text.foldl (fun opened c =>
    if c = markOpen then true else if c = markClose then false else opened) opened

@[simp] theorem leftOpen_nil (opened : Bool) : leftOpen opened [] = opened := rfl

theorem leftOpen_append (opened : Bool) (front back : Text) :
    leftOpen opened (front ++ back) = leftOpen (leftOpen opened front) back :=
  List.foldl_append

theorem leftOpen_open (opened : Bool) (rest : Text) :
    leftOpen opened (markOpen :: rest) = leftOpen true rest := rfl

theorem leftOpen_mark (opened : Bool) (name : Text) : leftOpen opened (mark name) = false := by
  change leftOpen opened (markOpen :: name ++ [markClose]) = false
  rw [leftOpen_append]
  rfl

/-- A pair that was open is closed by a closing guillemet only. -/
theorem close_mem_of_leftOpen {text : Text} (closed : leftOpen true text = false) :
    markClose ∈ text := by
  induction text with
  | nil => cases closed
  | cons c rest ih =>
      by_cases close : c = markClose
      · simp [close]
      · have tail : leftOpen true rest = false := by
          by_cases opening : c = markOpen <;>
            simpa [leftOpen, opening, close] using closed
        exact List.mem_cons_of_mem c (ih tail)

theorem leftOpen_plain {opened : Bool} {text : Text} (no_open : markOpen ∉ text)
    (no_close : markClose ∉ text) : leftOpen opened text = opened := by
  induction text with
  | nil => rfl
  | cons c rest ih =>
      simp only [List.mem_cons, not_or] at no_open no_close
      have tail := ih no_open.2 no_close.2
      simpa [leftOpen, Ne.symm no_open.1, Ne.symm no_close.1] using tail

/-- No marked token of one of the names stands in an open pair: the guillemet before it, if there is
one, is a closing one. -/
def Unnested (names : List Text) (opened : Bool) (text : Text) : Prop :=
  ∀ name ∈ names, ∀ front back, text = front ++ mark name ++ back → leftOpen opened front = false

instance (names : List Text) (opened : Bool) (text : Text) :
    Decidable (Unnested names opened text) :=
  decidable_of_iff
    (∀ name ∈ names, ∀ i ≤ text.length,
      mark name <+: text.drop i → leftOpen opened (text.take i) = false)
    (forall₂_congr fun _ _ =>
      Text.forall_places_iff (P := fun front _ => leftOpen opened front = false))

theorem Unnested.mono {names others : List Text} (inside : others ⊆ names) {opened : Bool}
    {text : Text} (unnested : Unnested names opened text) : Unnested others opened text :=
  fun name member => unnested name (inside member)

/-- No marked token of one of the names, and no pair left open. -/
structure Inert (names : List Text) (text : Text) : Prop where
  free : ∀ name ∈ names, ¬ mark name <:+: text
  closed : leftOpen false text = false

instance (names : List Text) (text : Text) : Decidable (Inert names text) :=
  decidable_of_iff
    ((∀ name ∈ names, ∀ i ≤ text.length, ¬ mark name <+: text.drop i) ∧
      leftOpen false text = false) <| by
    constructor
    · rintro ⟨free, closed⟩
      refine ⟨?_, closed⟩
      rintro name declared ⟨front, back, same⟩
      exact (Text.forall_places_iff (P := fun _ _ => False)).mp (free name declared) front back
        same.symm
    · rintro ⟨free, closed⟩
      refine ⟨fun name declared => (Text.forall_places_iff (P := fun _ _ => False)).mpr ?_,
        closed⟩
      intro front back same
      exact free name declared ⟨front, back, same.symm⟩

theorem Inert.mono {names others : List Text} (inside : others ⊆ names) {text : Text}
    (inert : Inert names text) : Inert others text :=
  ⟨fun name member => inert.free name (inside member), inert.closed⟩

theorem Inert.of_plain {names : List Text} {text : Text} (no_open : markOpen ∉ text)
    (no_close : markClose ∉ text) : Inert names text := by
  refine ⟨fun name _ inside => no_open (inside.subset ?_), leftOpen_plain no_open no_close⟩
  simp [mark]

/-- The first closing guillemet ends what stands before it. -/
theorem eq_of_close {name other rest behind : Text} (free : markClose ∉ name)
    (also : markClose ∉ other) (same : name ++ markClose :: rest = other ++ markClose :: behind) :
    name = other := by
  have first := Text.cutAt?_append free rest
  rw [same, Text.cutAt?_append also, Option.some.injEq, Prod.mk.injEq] at first
  exact first.1.symm

theorem mark_append (name rest : Text) :
    mark name ++ rest = markOpen :: (name ++ markClose :: rest) := by
  simp [mark]

/-- The opening guillemet of a marked token is its first character. -/
theorem eq_nil_of_mark {name left right : Text} (plain : markOpen ∉ name)
    (token : mark name = left ++ markOpen :: right) : left = [] := by
  have inner : markOpen ∉ name ++ [markClose] := by
    simp only [List.mem_append, List.mem_singleton, not_or]
    exact ⟨plain, by decide⟩
  cases left with
  | nil => rfl
  | cons d left =>
      have tail : name ++ [markClose] = left ++ markOpen :: right := (List.cons.inj token).2
      exact absurd (by rw [tail]; simp) inner

/-- A marked token that begins in a text which leaves no pair open ends there, whatever follows. -/
theorem starts_of_closed {opened : Bool} {text rest name : Text} (some_text : text ≠ [])
    (closed : leftOpen opened text = false) (plain : markClose ∉ name)
    (starts : mark name <+: text ++ rest) : mark name <+: text := by
  obtain ⟨c, more, rfl⟩ := List.exists_cons_of_ne_nil some_text
  obtain ⟨behind, same⟩ := starts
  rw [mark_append, List.cons_append, List.cons.injEq] at same
  obtain ⟨rfl, same⟩ := same
  rw [leftOpen_open] at closed
  obtain ⟨before, after, rfl, apart⟩ := List.eq_append_cons_of_mem (close_mem_of_leftOpen closed)
  rw [List.append_assoc, List.cons_append] at same
  rw [eq_of_close plain apart same]
  exact ⟨after, by simp [mark]⟩

section Cons

variable {names : List Text} {opened : Bool}

theorem unnested_cons_iff {c : Char} {rest : Text} :
    Unnested names opened (c :: rest) ↔
      (∀ name ∈ names, mark name <+: c :: rest → opened = false) ∧
        Unnested names (leftOpen opened [c]) rest := by
  constructor
  · intro unnested
    constructor
    · rintro name declared ⟨back, same⟩
      exact unnested name declared [] back same.symm
    · rintro name declared front back rfl
      have place := unnested name declared (c :: front) back rfl
      rwa [← List.singleton_append, leftOpen_append] at place
  · rintro ⟨first, tail⟩ name declared front back same
    cases front with
    | nil => exact first name declared ⟨back, same.symm⟩
    | cons d front =>
        simp only [List.cons_append, List.cons.injEq] at same
        obtain ⟨rfl, rfl⟩ := same
        have place := tail name declared front back rfl
        rwa [← leftOpen_append] at place

theorem not_mark_starts {c : Char} (plain : c ≠ markOpen) (name rest : Text) :
    ¬ mark name <+: c :: rest := by
  rintro ⟨behind, same⟩
  rw [mark_append, List.cons.injEq] at same
  exact plain same.1.symm

theorem unnested_free {text : Text} (free : ∀ name ∈ names, ¬ mark name <:+: text) :
    Unnested names opened text :=
  fun name declared front back same => absurd ⟨front, back, same.symm⟩ (free name declared)

theorem unnested_nil : Unnested names opened [] :=
  unnested_free fun name _ inside => by simpa [mark] using inside.length_le

theorem unnested_mark {name : Text} (plain : markOpen ∉ name) :
    Unnested names false (mark name) := by
  intro other _ front back same
  rw [List.append_assoc, mark_append] at same
  rw [eq_nil_of_mark plain same]
  rfl

/-- Behind a text that leaves no pair open everything is as if nothing stood before it. -/
theorem unnested_append (words : ∀ name ∈ names, isIdentifier name = true) {text rest : Text}
    (closed : leftOpen opened text = false) (unnested : Unnested names opened text)
    (tail : Unnested names false rest) : Unnested names opened (text ++ rest) := by
  intro name declared front back same
  have plain : markClose ∉ name := TypeExpr.isIdentifier_not_mem (words name declared) (by decide)
  rw [List.append_assoc] at same
  rcases List.append_eq_append_iff.mp same with ⟨middle, rfl, whole⟩ | ⟨middle, rfl, whole⟩
  · rw [leftOpen_append, closed]
    exact tail name declared middle back (by rw [whole, List.append_assoc])
  · by_cases empty : middle = []
    · subst empty
      rwa [List.append_nil] at closed
    · rw [leftOpen_append] at closed
      obtain ⟨behind, rfl⟩ := starts_of_closed empty closed plain ⟨back, whole⟩
      exact unnested name declared front behind (by simp)

end Cons

/-- What holds of texts without open pairs around marked tokens, step by step from the end: behind
another character, behind a marked token of a name, and behind an opening guillemet at which no such
token begins. -/
theorem unnested_induction {names : List Text} {motive : Bool → Text → Prop}
    (nil : ∀ opened, motive opened [])
    (plain : ∀ opened c rest, c ≠ markOpen → motive (leftOpen opened [c]) rest →
      motive opened (c :: rest))
    (token : ∀ name rest, name ∈ names → motive false rest → motive false (mark name ++ rest))
    (stray : ∀ opened rest, (∀ name ∈ names, ¬ mark name <+: markOpen :: rest) →
      Unnested names true rest → motive true rest → motive opened (markOpen :: rest))
    {opened : Bool} {text : Text} (unnested : Unnested names opened text) : motive opened text := by
  induction size : text.length using Nat.strongRecOn generalizing opened text with
  | ind size ih =>
      cases text with
      | nil => exact nil opened
      | cons c rest =>
          have tail := (unnested_cons_iff.mp unnested).2
          by_cases starts : ∃ name ∈ names, mark name <+: c :: rest
          · obtain ⟨name, declared, behind, same⟩ := starts
            have closed : opened = false := unnested name declared [] behind same.symm
            have behind_unnested : Unnested names false behind := by
              rintro other also front back rfl
              have place := unnested other also (mark name ++ front) back (by rw [← same]; simp)
              rwa [leftOpen_append, leftOpen_mark] at place
            subst closed
            rw [← same]
            refine token name behind declared (ih behind.length ?_ behind_unnested rfl)
            rw [← size, ← same]
            simp only [mark_append, List.length_cons, List.length_append]
            omega
          · by_cases opening : c = markOpen
            · subst opening
              refine stray opened rest (fun name declared first => starts ⟨name, declared, first⟩)
                tail (ih rest.length ?_ tail rfl)
              rw [← size]
              simp
            · refine plain opened c rest opening (ih rest.length ?_ tail rfl)
              rw [← size]
              simp

end ApiSchema.Generic
