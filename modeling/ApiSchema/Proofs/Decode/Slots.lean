import ApiSchema.Decode.Source

set_option autoImplicit false

namespace ApiSchema.Member

theorem ok_bind {ε α β : Type} (x : α) (f : α → Except ε β) : (Except.ok x >>= f) = f x := rfl

theorem bind_eq_ok {ε α β : Type} {x : Except ε α} {f : α → Except ε β} {y : β} :
    (x >>= f) = .ok y ↔ ∃ z, x = .ok z ∧ f z = .ok y := by
  cases x with
  | error error => simp [bind, Except.bind]
  | ok z => simp [ok_bind]

section Written

variable {V : Type} {slots : List (Text × Option V)}

/-- The members for the slots that have a value. -/
def ofSlots (slots : List (Text × Option V)) : List (Text × V) :=
  slots.filterMap fun (name, value) => value.map (name, ·)

theorem ofSlots_cons (name : Text) (value : Option V) (slots : List (Text × Option V)) :
    ofSlots ((name, value) :: slots) = (value.map (name, ·)).toList ++ ofSlots slots := by
  cases value <;> rfl

theorem ofSlots_append (first second : List (Text × Option V)) :
    ofSlots (first ++ second) = ofSlots first ++ ofSlots second :=
  List.filterMap_append

theorem mem_ofSlots {name : Text} {value : V} :
    (name, value) ∈ ofSlots slots ↔ (name, some value) ∈ slots := by
  simp only [ofSlots, List.mem_filterMap, Option.map_eq_some_iff, Prod.mk.injEq, Prod.exists]
  constructor
  · rintro ⟨_, _, slot, _, rfl, rfl, rfl⟩
    exact slot
  · intro slot
    exact ⟨name, some value, slot, value, rfl, rfl, rfl⟩

theorem names_ofSlots : ((ofSlots slots).map (·.1)).Sublist (slots.map (·.1)) := by
  induction slots with
  | nil => exact List.Sublist.slnil
  | cons slot slots ih =>
      obtain ⟨name, value⟩ := slot
      cases value with
      | none => exact ih.cons name
      | some value => exact ih.cons_cons name

theorem lookup_ofSlots (distinct : (slots.map (·.1)).Nodup) {name : Text} {value : Option V}
    (slot : (name, value) ∈ slots) : (ofSlots slots).lookup name = value := by
  induction slots with
  | nil => cases slot
  | cons first rest ih =>
      rw [List.map_cons, List.nodup_cons] at distinct
      obtain ⟨front, held⟩ := first
      rcases List.mem_cons.mp slot with same | behind
      · obtain ⟨rfl, rfl⟩ := Prod.mk.inj same
        cases value with
        | some value => exact List.lookup_cons_self
        | none =>
            refine List.lookup_eq_none_iff.mpr fun member inside => ?_
            have named : member.1 ∈ rest.map (·.1) :=
              names_ofSlots.subset (List.mem_map_of_mem inside)
            exact bne_iff_ne.mpr fun same => distinct.1 (same ▸ named)
      · have other : (name == front) = false := by
          rw [beq_eq_false_iff_ne]
          rintro rfl
          exact distinct.1 (List.mem_map_of_mem (f := (·.1)) behind)
        cases held with
        | none => exact ih distinct.2 behind
        | some held =>
            rw [ofSlots_cons]
            simp only [Option.map_some, Option.toList_some, List.singleton_append,
              List.lookup_cons, other]
            exact ih distinct.2 behind

end Written

/-- The slot is for `x`: its value is read as `x`, and without a value `x` is what a reader falls
back on. -/
structure Holds {V α : Type} (read : V → Except Fault α) (fallback : Option α) (slot : Option V)
    (x : α) : Prop where
  present : ∀ value, slot = some value → read value = .ok x
  absent : slot = none → fallback = some x

section Reading

variable {V α : Type} {slots : List (Text × Option V)} {name : Text} {slot : Option V}
  {read : V → Except Fault α} {x : α}

theorem Holds.of_read {fallback : Option α} {value : V} (reads : read value = .ok x) :
    Holds read fallback (some value) x :=
  ⟨fun other same => by rwa [← Option.some.inj same], fun absent => nomatch absent⟩

/-- A field that has to be there is read from what is found under its name. -/
theorem get_eq_ok_iff {members : List (Text × V)} :
    get members name read = .ok x ↔ Holds read none (members.lookup name) x := by
  rw [get]
  cases members.lookup name with
  | none =>
      constructor
      · intro failed
        cases failed
      · intro holds
        cases holds.absent rfl
  | some value =>
      constructor
      · intro reads
        exact Holds.of_read reads
      · intro holds
        exact holds.present value rfl

/-- A field that may be left out is then what the reader falls back on. -/
theorem getD_eq_ok_iff {members : List (Text × V)} {fallback : α} :
    getD members name read fallback = .ok x ↔
      Holds read (some fallback) (members.lookup name) x := by
  rw [getD]
  cases members.lookup name with
  | none =>
      constructor
      · intro same
        cases same
        refine ⟨?_, fun _ => rfl⟩
        intro value here
        cases here
      · intro holds
        exact congrArg Except.ok (Option.some.inj (holds.absent rfl))
  | some value =>
      constructor
      · intro reads
        exact Holds.of_read reads
      · intro holds
        exact holds.present value rfl

theorem Holds.get (holds : Holds read none slot x) (distinct : (slots.map (·.1)).Nodup) (i : Nat)
    (here : slots[i]? = some (name, slot)) : Member.get (ofSlots slots) name read = .ok x := by
  rw [get_eq_ok_iff, lookup_ofSlots distinct (List.mem_of_getElem? here)]
  exact holds

theorem Holds.getD {fallback : α} (holds : Holds read (some fallback) slot x)
    (distinct : (slots.map (·.1)).Nodup) (i : Nat) (here : slots[i]? = some (name, slot)) :
    Member.getD (ofSlots slots) name read fallback = .ok x := by
  rw [getD_eq_ok_iff, lookup_ofSlots distinct (List.mem_of_getElem? here)]
  exact holds

theorem Holds.check {fallback : Option α} (holds : Holds read fallback slot x) :
    ∀ value, slot = some value → FieldShape.checkOf read value = .ok () := by
  intro value same
  rw [FieldShape.checkOf, holds.present value same]
  rfl

end Reading

/-- The slots are for the fields, in their order, and the values in them pass the fields' checks. -/
def Fits {V : Type} : List (FieldShape V) → List (Text × Option V) → Prop
  | [], [] => True
  | field :: fields, slot :: slots =>
    field.name = slot.1 ∧ (∀ value, slot.2 = some value → field.check value = .ok ()) ∧
      Fits fields slots
  | _, _ => False

section Scan

variable {V : Type} {shape : Shape V} {fields : List (FieldShape V)}
  {slots : List (Text × Option V)}

theorem Fits.names (fits : Fits fields slots) : slots.map (·.1) = fields.map (·.name) := by
  induction fields generalizing slots with
  | nil =>
      cases slots with
      | nil => rfl
      | cons => exact fits.elim
  | cons field fields ih =>
      cases slots with
      | nil => exact fits.elim
      | cons slot slots => rw [List.map_cons, List.map_cons, fits.1, ih fits.2.2]

theorem Fits.field (fits : Fits fields slots) {name : Text} {value : V}
    (member : (name, value) ∈ ofSlots slots) :
    ∃ field ∈ fields, field.name = name ∧ field.check value = .ok () := by
  induction fields generalizing slots with
  | nil =>
      cases slots with
      | nil => cases member
      | cons => exact fits.elim
  | cons field fields ih =>
      cases slots with
      | nil => exact fits.elim
      | cons slot slots =>
          rcases List.mem_cons.mp (mem_ofSlots.mp member) with here | behind
          · rw [← here] at fits
            exact ⟨field, by simp, fits.1, fits.2.1 value rfl⟩
          · obtain ⟨found, inside, same⟩ := ih fits.2.2 (mem_ofSlots.mpr behind)
            exact ⟨found, by simp [inside], same⟩

/-- The member is one that the shape takes: a field whose check it passes, or a member that passes
the check for all others. -/
def Takes (shape : Shape V) (name : Text) (value : V) : Prop :=
  match shape.fields.find? fun field => field.name = name with
  | none => shape.other value = .ok ()
  | some field => field.check value = .ok ()

theorem find?_field {name : Text} (distinct : (fields.map (·.name)).Nodup)
    {field : FieldShape V} (member : field ∈ fields) (named : field.name = name) :
    (fields.find? fun field => field.name = name) = some field := by
  induction fields with
  | nil => cases member
  | cons first rest ih =>
      rw [List.map_cons, List.nodup_cons] at distinct
      rcases List.mem_cons.mp member with rfl | member
      · simp [named]
      · have other : ¬ first.name = name := by
          rintro same
          exact distinct.1 (same ▸ named ▸ List.mem_map_of_mem (f := (·.name)) member)
        simp [other, ih distinct.2 member]

theorem Fits.takes (fits : Fits shape.fields slots) (distinct : (shape.fields.map (·.name)).Nodup)
    {name : Text} {value : V} (member : (name, value) ∈ ofSlots slots) :
    Takes shape name value := by
  obtain ⟨field, inside, named, passes⟩ := fits.field member
  rw [Takes, find?_field distinct inside named]
  exact passes

theorem takes_other {name : Text} {value : V} (other : name ∉ shape.fields.map (·.name))
    (passes : shape.other value = .ok ()) : Takes shape name value := by
  have none_found : (shape.fields.find? fun field => field.name = name) = none := by
    refine List.find?_eq_none.mpr fun field member named => other ?_
    exact List.mem_map.mpr ⟨field, member, by simpa using named⟩
  rw [Takes, none_found]
  exact passes

theorem scan_other {seen : List Text} {name : Text} {value : V} {rest : List (Text × V)}
    (found : (shape.fields.find? fun field => field.name = name) = none) :
    shape.scan seen ((name, value) :: rest) = .ok () ↔
      Takes shape name value ∧ shape.scan seen rest = .ok () := by
  rw [Shape.scan, Takes, found]
  cases shape.other value with
  | error fault => simp
  | ok done => simp

theorem scan_field {seen : List Text} {name : Text} {value : V} {rest : List (Text × V)}
    {field : FieldShape V}
    (found : (shape.fields.find? fun field => field.name = name) = some field) :
    shape.scan seen ((name, value) :: rest) = .ok () ↔
      name ∉ seen ∧ Takes shape name value ∧ shape.scan (name :: seen) rest = .ok () := by
  rw [Shape.scan, Takes, found]
  by_cases old : name ∈ seen
  · simp [old]
  · cases passes : field.check value with
    | error fault => simp [old, passes]
    | ok done => simp [old, passes]

/-- A name in front counts the same as one that was seen before. -/
theorem count_cons_seen {name : Text} {seen : List Text} (fresh : name ∉ seen) (field : Text)
    (rest : List Text) :
    (name :: rest).count field + (if field ∈ seen then 1 else 0) =
      rest.count field + if field ∈ name :: seen then 1 else 0 := by
  by_cases same : field = name
  · rw [same, List.count_cons_self, if_neg fresh, if_pos List.mem_cons_self]
  · rw [List.count_cons_of_ne (Ne.symm same)]
    simp only [List.mem_cons, same, false_or]

/-- The scan passes if each field stands once at most, counting those that were seen before, and
each member is taken. -/
theorem scan_eq_ok_iff {seen : List Text} {members : List (Text × V)} :
    shape.scan seen members = .ok () ↔
      (∀ field ∈ shape.fields, (members.map (·.1)).count field.name +
        (if field.name ∈ seen then 1 else 0) ≤ 1) ∧
        ∀ member ∈ members, Takes shape member.1 member.2 := by
  -- a member that is a field goes over from what is to come to what was seen, and the sum stays
  induction members generalizing seen with
  | nil =>
      rw [Shape.scan]
      simp only [List.map_nil, List.count_nil, List.not_mem_nil, false_implies, implies_true,
        and_true, true_iff]
      intro field _
      split <;> omega
  | cons member rest ih =>
      obtain ⟨name, value⟩ := member
      rw [List.map_cons, List.forall_mem_cons]
      cases found : shape.fields.find? fun field => field.name = name with
      | none =>
          have apart : ∀ field ∈ shape.fields, name ≠ field.name := by
            intro field member same
            exact List.find?_eq_none.mp found field member (by simp [same])
          rw [scan_other found, ih]
          constructor
          · intro passes
            refine ⟨?_, passes.1, passes.2.2⟩
            intro field member
            rw [List.count_cons_of_ne (apart field member)]
            exact passes.2.1 field member
          · intro passes
            refine ⟨passes.2.1, ?_, passes.2.2⟩
            intro field member
            rw [← List.count_cons_of_ne (apart field member)]
            exact passes.1 field member
      | some known =>
          rw [scan_field found, ih]
          constructor
          · intro passes
            refine ⟨?_, passes.2.1, passes.2.2.2⟩
            intro field member
            rw [count_cons_seen passes.1]
            exact passes.2.2.1 field member
          · intro passes
            have fresh : name ∉ seen := by
              intro old
              have named : known.name = name := by simpa using List.find?_some found
              have once := passes.1 known (List.mem_of_find?_eq_some found)
              rw [named, List.count_cons_self, if_pos old] at once
              omega
            refine ⟨fresh, passes.2.1, ?_, passes.2.2⟩
            intro field member
            rw [← count_cons_seen fresh]
            exact passes.1 field member

/-- Members with distinct names that the shape takes pass its scan. -/
theorem scan_ok {members : List (Text × V)} (distinct : (members.map (·.1)).Nodup)
    (takes : ∀ member ∈ members, Takes shape member.1 member.2) :
    shape.scan [] members = .ok () := by
  refine scan_eq_ok_iff.mpr ⟨?_, takes⟩
  intro field _
  rw [if_neg List.not_mem_nil]
  exact List.nodup_iff_count.mp distinct field.name

theorem Fits.scan (fits : Fits shape.fields slots)
    (distinct : (shape.fields.map (·.name)).Nodup) : shape.scan [] (ofSlots slots) = .ok () := by
  refine scan_ok ?_ fun member inside => fits.takes distinct inside
  have slots_distinct := fits.names ▸ distinct
  exact slots_distinct.sublist names_ofSlots

end Scan

end ApiSchema.Member
