import ApiSchema.Text.Basic
import Mathlib.Data.List.Nodup

set_option autoImplicit false

namespace ApiSchema

variable {V : Type} {members : List (Text × V)} {name : Text} {value : V}

theorem lookup_cons_of_ne {other : Text} (apart : other ≠ name) :
    ((name, value) :: members).lookup other = members.lookup other := by
  rw [List.lookup_cons, beq_eq_false_iff_ne.mpr apart]

theorem lookup_eq_none (absent : name ∉ members.map (·.1)) : members.lookup name = none := by
  apply List.lookup_eq_none_iff.mpr
  intro member inside
  rw [bne_iff_ne]
  intro same
  apply absent
  rw [same]
  exact List.mem_map_of_mem inside

/-- A member whose name stands once is the one that is found. -/
theorem lookup_of_mem (once : (members.map (·.1)).count name ≤ 1)
    (member : (name, value) ∈ members) : members.lookup name = some value := by
  induction members with
  | nil => cases member
  | cons first rest ih =>
      obtain ⟨front, held⟩ := first
      rw [List.map_cons, List.count_cons] at once
      rcases List.mem_cons.mp member with same | behind
      · cases same
        exact List.lookup_cons_self
      · have named : 0 < (rest.map (·.1)).count name :=
          List.count_pos_iff.mpr (List.mem_map_of_mem (f := (·.1)) behind)
        have apart : name ≠ front := by
          intro same
          rw [same] at once named
          simp only [BEq.rfl, ↓reduceIte] at once
          omega
        rw [lookup_cons_of_ne apart]
        exact ih (by omega) behind

/-- The order of members does not matter for a name that stands once. -/
theorem lookup_perm_of_once {others : List (Text × V)} (perm : members.Perm others)
    (once : (members.map (·.1)).count name ≤ 1) : members.lookup name = others.lookup name := by
  have once_too : (others.map (·.1)).count name ≤ 1 := by
    rw [← (perm.map (·.1)).count_eq name]
    exact once
  by_cases absent : name ∈ members.map (·.1)
  · obtain ⟨⟨_, value⟩, member, rfl⟩ := List.mem_map.mp absent
    rw [lookup_of_mem once member, lookup_of_mem once_too (perm.mem_iff.mp member)]
  · have absent_too : name ∉ others.map (·.1) := by
      rw [← (perm.map (·.1)).mem_iff]
      exact absent
    rw [lookup_eq_none absent, lookup_eq_none absent_too]

end ApiSchema
