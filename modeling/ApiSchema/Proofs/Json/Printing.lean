import ApiSchema.Proofs.Json.Reading

set_option autoImplicit false

namespace ApiSchema.Json

/-- A value that is printed as it is: its containers are closed, with a text for every name, and its
numerals have no needless zeros. -/
inductive Proper : Json → Prop
  | null : Proper .null
  | flag (value : Bool) : Proper (.flag value)
  | string (value : Text) : Proper (.string value)
  | number {numeral : Numeral} (proper : numeral.Proper) : Proper (.number numeral)
  | list {items : List Json} (each : ∀ item ∈ items, Proper item) : Proper (list items)
  | record {members : List (Text × Json)} (each : ∀ member ∈ members, Proper member.2) :
    Proper (record members)

theorem compactItems_cons (item : Json) (rest : List Json) :
    compactItems (item :: rest) = item.compact ++ moreParts [] (rest.map compact) := by
  induction rest generalizing item with
  | nil => rw [compactItems.eq_def]; rfl
  | cons next more ih =>
      rw [compactItems.eq_def]
      simp only [ih]
      rfl

theorem compact_list (items : List Json) :
    (list items).compact = enclosed '[' ']' [] [] (items.map compact) := by
  rw [list, compact]
  cases items with
  | nil => rfl
  | cons item rest => simp [compactItems_cons, enclosed]

theorem compactMembers_cons (member : Text × Json) (rest : List (Text × Json)) :
    compactMembers ((member :: rest).map fun (name, value) => (some name, value)) =
      memberText [':'] compact member ++ moreParts [] (rest.map (memberText [':'] compact)) := by
  induction rest generalizing member with
  | nil => rw [compactMembers.eq_def]; simp [memberText, writeName, moreParts]
  | cons next more ih =>
      have tail := ih next
      rw [List.map_cons] at tail
      rw [compactMembers.eq_def]
      simp only [List.map_cons, tail]
      simp [memberText, writeName, moreParts]

theorem compact_record (members : List (Text × Json)) :
    (record members).compact =
      enclosed '{' '}' [] [] (members.map (memberText [':'] compact)) := by
  rw [record, compact]
  cases members with
  | nil => rfl
  | cons member rest => rw [compactMembers_cons]; simp [enclosed]

theorem prettyItems_eq (depth : Nat) (items : List Json) :
    prettyItems depth items = moreParts (newLine depth) (items.map (pretty depth)) := by
  induction items with
  | nil => rfl
  | cons item rest ih => simp [prettyItems, ih, moreParts]

theorem pretty_list (depth : Nat) (items : List Json) :
    (list items).pretty depth =
      enclosed '[' ']' (newLine (depth + 1)) (newLine depth)
        (items.map (pretty (depth + 1))) := by
  rw [list, pretty.eq_def]
  cases items with
  | nil => rfl
  | cons item rest => simp [prettyItems_eq, enclosed]

theorem prettyMembers_eq (depth : Nat) (members : List (Text × Json)) :
    prettyMembers depth (members.map fun (name, value) => (some name, value)) =
      moreParts (newLine depth) (members.map (memberText [':', ' '] (pretty depth))) := by
  induction members with
  | nil => rfl
  | cons member rest ih => simp [prettyMembers, ih, moreParts, memberText, writeName]

theorem pretty_record (depth : Nat) (members : List (Text × Json)) :
    (record members).pretty depth =
      enclosed '{' '}' (newLine (depth + 1)) (newLine depth)
        (members.map (memberText [':', ' '] (pretty (depth + 1)))) := by
  rw [record, pretty.eq_def]
  cases members with
  | nil => rfl
  | cons member rest => simp [prettyMembers_eq, enclosed, memberText, writeName]

section Printed

variable {value : Json}

theorem Proper.reads_compact (proper : value.Proper) : Reads value.compact value := by
  induction proper with
  | null => exact reads_null
  | flag value => exact reads_flag value
  | string value => exact reads_string value
  | number proper => exact reads_number proper
  | @list items each ih =>
      rw [compact_list]
      exact reads_list (by simp [Gap]) (by simp [Gap]) ih
  | @record members each ih =>
      rw [compact_record]
      exact reads_record (by simp [Gap]) (by simp [Gap]) (by simp [Gap]) ih

theorem gap_newLine (depth : Nat) : Gap (newLine depth) := by
  intro c member
  rcases List.mem_cons.mp member with rfl | blank
  · decide
  · rw [List.eq_of_mem_replicate blank]
    decide

theorem Proper.reads_pretty (proper : value.Proper) (depth : Nat) :
    Reads (value.pretty depth) value := by
  induction proper generalizing depth with
  | null => exact reads_null
  | flag value => exact reads_flag value
  | string value => exact reads_string value
  | number proper => exact reads_number proper
  | @list items each ih =>
      rw [pretty_list]
      exact reads_list (gap_newLine _) (gap_newLine _) fun item member => ih item member _
  | @record members each ih =>
      rw [pretty_record]
      exact reads_record (gap_newLine _) (gap_newLine _) (by simp [Gap, isGap])
        fun member inside => ih member inside _

/-- A text that places a value, with gaps behind it, is read as that value and nothing else. -/
theorem Reads.read {text gap : Text} (reads : Reads text value) (blank : Gap gap) :
    Json.read (text ++ gap) = ⟨value, true⟩ := by
  have ends : NumberEnds (gap ++ []) := numberEnds_gap blank (by simp [NumberEnds])
  rw [List.append_nil] at ends
  have placed := reads .value [] gap (Or.inl rfl) ends
  change (after (.expecting .value []) (text ++ gap)).reading = _
  rw [placed, after_gaps blank]
  rfl

theorem Proper.read_compact (proper : value.Proper) : Json.read value.compact = ⟨value, true⟩ := by
  have whole : Json.read (value.compact ++ []) = ⟨value, true⟩ :=
    proper.reads_compact.read (by simp [Gap])
  rwa [List.append_nil] at whole

variable {α : Type} (decode : Json → Except Fault α)

theorem Reads.decodeText {text gap : Text} (reads : Reads text value) (blank : Gap gap) :
    Json.decodeText decode (text ++ gap) = decode value := by
  rw [Json.decodeText, reads.read blank]
  cases decode value <;> rfl

theorem Proper.decodeText_compact (proper : value.Proper) :
    decodeText decode value.compact = decode value := by
  have whole : decodeText decode (value.compact ++ []) = decode value :=
    proper.reads_compact.decodeText decode (by simp [Gap])
  rwa [List.append_nil] at whole

/-- What is decoded from a text is decoded from the value that was read. -/
theorem decode_of_decodeText {text : Text} {value : α}
    (found : decodeText decode text = .ok value) : decode (Json.read text).value = .ok value := by
  simp only [decodeText] at found
  split at found
  · cases found
  · next here =>
      split at found
      · cases found
        exact here
      · cases found

end Printed

end ApiSchema.Json
