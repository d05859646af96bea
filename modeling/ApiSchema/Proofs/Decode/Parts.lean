import ApiSchema.Proofs.Decode.Tables

set_option autoImplicit false

namespace ApiSchema.Member

section Parts

variable {V W Part Record : Type} {convert : V → Except Fault W} {part : Record → Part}
  {own : Text → Bool} {members : List (Text × V)} {data : List (Text × W)} {record : Record}

/-- The members of the part, which are those that are not the record's own, with their values
converted. -/
def partMembers (convert : V → Except Fault W) (own : Text → Bool) (members : List (Text × V)) :
    Except Fault (List (Text × W)) :=
  (members.filter fun member => !own member.1).mapM fun member =>
    (convert member.2).map (member.1, ·)

theorem partMembers_nil : partMembers convert own [] = .ok [] := rfl

theorem partMembers_cons_own {name : Text} {value : V} (mine : own name = true) :
    partMembers convert own ((name, value) :: members) = partMembers convert own members := by
  rw [partMembers, List.filter_cons_of_neg (by simp [mine])]
  rfl

theorem partMembers_cons {name : Text} {value : V} (foreign : own name = false) :
    partMembers convert own ((name, value) :: members) = .ok data ↔
      ∃ datum rest, convert value = .ok datum ∧ partMembers convert own members = .ok rest ∧
        data = (name, datum) :: rest := by
  rw [partMembers, List.filter_cons_of_pos (by simp [foreign]), List.mapM_cons]
  change ((convert value).map (name, ·) >>= fun first =>
    partMembers convert own members >>= fun rest => Except.ok (first :: rest)) = _ ↔ _
  rw [bind_eq_ok]
  constructor
  · rintro ⟨first, converts, found⟩
    obtain ⟨rest, found_rest, same⟩ := bind_eq_ok.mp found
    cases same
    cases here : convert value with
    | error fault =>
        rw [here] at converts
        cases converts
    | ok datum =>
        rw [here] at converts
        cases converts
        exact ⟨datum, rest, rfl, found_rest, rfl⟩
  · rintro ⟨datum, rest, converts, found, rfl⟩
    refine ⟨(name, datum), ?_, ?_⟩
    · rw [converts]
      rfl
    · rw [found]
      rfl

/-- The part has its members if every value is converted. -/
theorem exists_partMembers :
    (∃ data, partMembers convert own members = .ok data) ↔
      ∀ member ∈ members, own member.1 = false →
        FieldShape.checkOf convert member.2 = .ok () := by
  induction members with
  | nil => exact ⟨fun _ _ absent => (nomatch absent), fun _ => ⟨[], rfl⟩⟩
  | cons member rest ih =>
      obtain ⟨name, value⟩ := member
      rw [List.forall_mem_cons, ← ih]
      cases mine : own name with
      | true =>
          simp only [partMembers_cons_own mine, Bool.true_eq_false, false_implies, true_and]
      | false =>
          simp only [partMembers_cons mine, true_implies, FieldShape.checkOf]
          constructor
          · rintro ⟨_, datum, data, converts, found, -⟩
            rw [converts]
            exact ⟨rfl, data, found⟩
          · rintro ⟨passes, data, found⟩
            cases here : convert value with
            | error fault =>
                rw [here] at passes
                cases passes
            | ok datum => exact ⟨_, datum, data, rfl, found, rfl⟩

theorem mem_names_partMembers {name : Text} (foreign : own name = false)
    (found : partMembers convert own members = .ok data) :
    name ∈ data.map (·.1) ↔ name ∈ members.map (·.1) := by
  induction members generalizing data with
  | nil =>
      cases found
      rfl
  | cons member rest ih =>
      obtain ⟨front, value⟩ := member
      rw [List.map_cons, List.mem_cons]
      cases mine : own front with
      | true =>
          have apart : name ≠ front := by
            intro same
            rw [same, mine] at foreign
            cases foreign
          rw [partMembers_cons_own mine] at found
          simp only [apart, false_or]
          exact ih found
      | false =>
          obtain ⟨datum, behind, -, found_behind, rfl⟩ := (partMembers_cons mine).mp found
          rw [List.map_cons, List.mem_cons, ih found_behind]

/-- A field of the part is found among all members just as among those of the part. -/
theorem found_within {field : Field W Part} (foreign : own field.name = false)
    (found : partMembers convert own members = .ok data) :
    (field.within convert part).Found members record ↔ field.Found data (part record) := by
  induction members generalizing data with
  | nil =>
      rw [partMembers_nil] at found
      cases found
      have absent : field.name ∉ ([] : List (Text × W)).map (·.1) := List.not_mem_nil
      have absent_too : (field.within convert part).name ∉ ([] : List (Text × V)).map (·.1) :=
        List.not_mem_nil
      rw [Field.found_absent absent_too, Field.found_absent absent]
      rfl
  | cons member rest ih =>
      obtain ⟨front, value⟩ := member
      cases mine : own front with
      | true =>
          have apart : (field.within convert part).name ≠ front := by
            intro same
            rw [← same] at mine
            exact Bool.false_ne_true (foreign.symm.trans mine)
          rw [partMembers_cons_own mine] at found
          rw [Field.found_cons_of_ne apart]
          exact ih found
      | false =>
          obtain ⟨datum, behind, converts, found_behind, rfl⟩ := (partMembers_cons mine).mp found
          by_cases same : field.name = front
          · subst same
            have here : (field.within convert part).read value = field.read datum := by
              change (convert value >>= field.read) = _
              rw [converts]
              rfl
            have whole : (field.within convert part).Found ((field.name, value) :: rest) record ↔
                field.name ∉ rest.map (·.1) ∧ (field.within convert part).read value =
                  .ok (field.content (part record)) := Field.found_cons_self
            rw [whole, here, Field.found_cons_self, mem_names_partMembers mine found_behind]
            exact Iff.rfl
          · have apart : (field.within convert part).name ≠ front := same
            rw [Field.found_cons_of_ne apart, Field.found_cons_of_ne same]
            exact ih found_behind

section Whole

variable {fields : List (Field V Record)} {inner : List (Field W Part)}

theorem names_within : (fields ++ inner.map (Field.within convert part)).map (·.name) =
    fields.map (·.name) ++ inner.map (·.name) := by
  rw [List.map_append, List.map_map]
  rfl

/-- A value that is not the record's own was converted when it was read for the part, and else it
passed the check. -/
theorem Decodes.converted
    (decodes : Decodes (fields ++ inner.map (Field.within convert part))
      (FieldShape.checkOf convert) members record)
    {member : Text × V} (inside : member ∈ members) (foreign : member.1 ∉ fields.map (·.name)) :
    FieldShape.checkOf convert member.2 = .ok () := by
  by_cases known : member.1 ∈ inner.map (·.name)
  · obtain ⟨field, here, named⟩ := List.mem_map.mp known
    have found := decodes.found (field.within convert part)
      (List.mem_append_right _ (List.mem_map_of_mem here))
    have written : (field.name, member.2) ∈ members := by
      rw [named]
      exact inside
    have reads := found.holds.present member.2 (lookup_of_mem found.once written)
    obtain ⟨datum, converts, -⟩ := bind_eq_ok.mp reads
    rw [FieldShape.checkOf, converts]
    rfl
  · apply decodes.others member inside
    rw [names_within, List.mem_append, not_or]
    exact ⟨foreign, known⟩

/-- A record with a part whose fields stand among its own: it has its own fields, and the part has
its fields in the other members. -/
theorem decodes_within (mine : ∀ name, own name = true ↔ name ∈ fields.map (·.name))
    (apart : ∀ field ∈ inner, own field.name = false) :
    Decodes (fields ++ inner.map (Field.within convert part)) (FieldShape.checkOf convert) members
        record ↔
      Decodes fields (FieldShape.checkOf convert) members record ∧
        ∃ data, partMembers convert own members = .ok data ∧
          Decodes inner (fun _ => .ok ()) data (part record) := by
  have foreign : ∀ name, name ∉ fields.map (·.name) ↔ own name = false := by
    intro name
    rw [← mine, Bool.not_eq_true]
  constructor
  · intro decodes
    have all_converted : ∃ data, partMembers convert own members = .ok data := by
      apply exists_partMembers.mpr
      intro member inside other
      exact decodes.converted inside ((foreign member.1).mpr other)
    obtain ⟨data, found⟩ := all_converted
    refine ⟨⟨?_, ?_⟩, data, found, ?_, fun _ _ _ => rfl⟩
    · intro field here
      exact decodes.found field (List.mem_append_left _ here)
    · intro member inside other
      exact decodes.converted inside other
    · intro field here
      exact (found_within (apart field here) found).mp (decodes.found (field.within convert part)
        (List.mem_append_right _ (List.mem_map_of_mem here)))
  · rintro ⟨decodes, data, found, rest⟩
    refine ⟨?_, ?_⟩
    · intro field here
      rcases List.mem_append.mp here with own_field | part_field
      · exact decodes.found field own_field
      · obtain ⟨field, known, rfl⟩ := List.mem_map.mp part_field
        exact (found_within (apart field known) found).mpr (rest.found field known)
    · intro member inside other
      apply decodes.others member inside
      intro known
      apply other
      rw [names_within]
      exact List.mem_append_left _ known

end Whole

end Parts

end ApiSchema.Member
