import Mathlib.Data.List.Nodup
import FeatureAtlas.Model.Diagnostic
import FeatureAtlas.Proofs.Json.Reading

/-!
Records that are decoded from what they are written as. Their members stand in the order of the
fields, and a field that need not be there may be left out.
-/

namespace FeatureAtlas

namespace Decoder

variable {α : Type}

/-- The decoder gives back what was written, where so many levels of nesting are left or more. -/
def ReadsBack (decoder : Decoder α) (levels : Nat) (write : α → Json) : Prop :=
  ∀ source more value, decoder source (more + levels) (write value) = .ok value

theorem readsBack_text : Decoder.text.ReadsBack 0 Json.text := fun _ _ _ => rfl

theorem readsBack_narrow : Decoder.narrow.ReadsBack 0 fun value => .natural value.toNat := by
  intro source more value
  have bound : value.toNat < UInt32.size := value.toNat_lt
  have read : Decoder.natural UInt32.size source more (.natural value.toNat) = .ok value.toNat :=
    if_pos bound
  rw [Nat.add_zero, narrow, read, Except.map, UInt32.ofNat_toNat]

theorem readsBack_variant {cases : List (String × α)} {name : α → String}
    (known : ∀ value, cases.lookup (name value) = some value) :
    (variant cases).ReadsBack 0 fun value => .text (name value) := by
  intro source more value
  simp only [variant, Json.text, caseNamed, known]

theorem mapM_readsBack {decode : Json → Except DecodeError α} {write : α → Json}
    {values : List α} (each : ∀ value ∈ values, decode (write value) = .ok value) :
    (values.map write).mapM decode = .ok values := by
  induction values with
  | nil => rfl
  | cons value values ih =>
      rw [List.map_cons, List.mapM_cons, each value (by simp),
        ih fun other member => each other (by simp [member])]
      rfl

theorem ReadsBack.list {decoder : Decoder α} {levels : Nat} {write : α → Json}
    (back : decoder.ReadsBack levels write) :
    (Decoder.list decoder).ReadsBack (levels + 1) fun values => .array (values.map write) :=
  fun source more _ => mapM_readsBack fun value _ => back source more value

end Decoder

theorem decodeText_compact_texts (texts : List String) :
    decodeText (Decoder.list Decoder.text) (Json.array (texts.map Json.text)).compact =
      .ok texts := by
  have read := decodeText_of_reads (Json.plain_map Json.Plain.text texts).reads_compact
    Json.margin_nil (Decoder.list Decoder.text)
  rw [List.append_nil] at read
  exact read.trans (Decoder.readsBack_text.list .text 126 texts)

/-! Fields. -/

namespace Decoder.ReadsBack

variable {α β : Type} {decoder : Decoder β} {levels : Nat} {write : β → Json} {set : β → α → α}

theorem required (back : decoder.ReadsBack levels write) (name : String) (source : ValueSource)
    (more : Nat) (value : β) (record : α) :
    (Field.requiredField name decoder set).store source (more + levels) (write value) record =
      .ok (set value record) := by
  simp only [Field.requiredField, back source more value, Except.map]

theorem optional (back : decoder.ReadsBack levels write) (name : String) (source : ValueSource)
    (more : Nat) (value : β) (record : α) :
    (Field.optionalField name decoder set).store source (more + levels) (write value) record =
      .ok (set value record) := by
  simp only [Field.optionalField, back source more value, Except.map]

end Decoder.ReadsBack

namespace RecordFormat

variable {α : Type} {source : ValueSource} {levels : Nat}

/-- What comes of storing members that stand in the order of the fields, up to the first problem. -/
inductive Stores (source : ValueSource) (levels : Nat) :
    List (Field α) → List (String × Json) → α → Except DecodeError α → Prop
  | done {record : α} : Stores source levels [] [] record (.ok record)
  | given {field : Field α} {fields : List (Field α)} {members : List (String × Json)}
      {value : Json} {record changed : α} {result : Except DecodeError α} :
      field.store source levels value record = .ok changed →
      Stores source levels fields members changed result →
      Stores source levels (field :: fields) ((field.name, value) :: members) record result
  | left {field : Field α} {fields : List (Field α)} {members : List (String × Json)}
      {record : α} {result : Except DecodeError α} :
      field.required = false → Stores source levels fields members record result →
      Stores source levels (field :: fields) members record result
  | failed {field : Field α} {fields : List (Field α)} {members : List (String × Json)}
      {value : Json} {record : α} {problem : DecodeError} :
      field.store source levels value record = .error problem →
      Stores source levels (field :: fields) ((field.name, value) :: members) record
        (.error problem)

theorem find?_field {front fields : List (Field α)} {field : Field α}
    (distinct : ((front ++ field :: fields).map Field.name).Nodup) :
    (front ++ field :: fields).find? (fun other => other.name == field.name) = some field := by
  rw [List.find?_append, List.find?_cons, beq_self_eq_true]
  have none : front.find? (fun other => other.name == field.name) = .none := by
    rw [List.find?_eq_none]
    intro other member same
    rw [List.map_append, List.map_cons] at distinct
    exact (List.nodup_append.mp distinct).2.2 _ (List.mem_map_of_mem member) _ (by simp)
      (beq_iff_eq.mp same)
  rw [none]
  rfl

def completed (fields : List (Field α)) (stored : List String × α) : Except DecodeError α :=
  match fields.find? fun field => field.required && !stored.1.contains field.name with
  | some field => .error (.missingField field.name)
  | none => .ok stored.2

theorem ofMembers_eq (format : RecordFormat α) (source : ValueSource) (levels : Nat)
    (members : List (Option String × Json)) :
    format.ofMembers source levels members =
      storeMembers format.fields source levels members [] format.blank >>=
        completed format.fields :=
  rfl

/-- Only fields behind the walk have been given, and all those that have to be there. -/
structure Behind (front : List (Field α)) (given : List String) : Prop where
  known : ∀ name ∈ given, name ∈ front.map Field.name
  complete : ∀ field ∈ front, field.required = true → field.name ∈ given

theorem behind_nil : Behind ([] : List (Field α)) [] := ⟨by simp, by simp⟩

theorem Behind.given {front : List (Field α)} {given : List String} (behind : Behind front given)
    (field : Field α) : Behind (front ++ [field]) (field.name :: given) := by
  refine ⟨?_, ?_⟩
  · intro name member
    rcases List.mem_cons.mp member with rfl | old
    · simp
    · rw [List.map_append]
      exact List.mem_append_left _ (behind.known name old)
  · intro other member required
    rcases List.mem_append.mp member with old | new
    · exact List.mem_cons_of_mem _ (behind.complete other old required)
    · simp [List.mem_singleton.mp new]

theorem Behind.left {front : List (Field α)} {given : List String} (behind : Behind front given)
    {field : Field α} (optional : field.required = false) : Behind (front ++ [field]) given := by
  refine ⟨?_, ?_⟩
  · intro name member
    rw [List.map_append]
    exact List.mem_append_left _ (behind.known name member)
  · intro other member required
    rcases List.mem_append.mp member with old | new
    · exact behind.complete other old required
    · rw [List.mem_singleton.mp new, optional] at required
      contradiction

theorem Behind.fresh {front fields : List (Field α)} {field : Field α} {given : List String}
    (behind : Behind front given)
    (distinct : ((front ++ field :: fields).map Field.name).Nodup) :
    given.contains field.name = false := by
  rw [Bool.eq_false_iff, ne_eq, List.contains_iff_mem]
  intro again
  rw [List.map_append, List.map_cons] at distinct
  exact (List.nodup_append.mp distinct).2.2 _ (behind.known _ again) _ (by simp) rfl

theorem Stores.run {front fields : List (Field α)} {members : List (String × Json)} {record : α}
    {result : Except DecodeError α} (stores : Stores source levels fields members record result)
    {given : List String} (behind : Behind front given)
    (distinct : ((front ++ fields).map Field.name).Nodup) :
    (storeMembers (front ++ fields) source levels (Json.named members) given record >>=
      completed (front ++ fields)) = result := by
  -- Fields move from the walk to the front one at a time, so the fields as a whole stay the same.
  induction stores generalizing front given with
  | @done record =>
      have none : (front ++ []).find? (fun field : Field α =>
          field.required && !given.contains field.name) = .none := by
        rw [List.append_nil, List.find?_eq_none]
        intro field member
        simpa using behind.complete field member
      change completed (front ++ []) (given, record) = _
      rw [completed, none]
  | @given field fields members value record changed result stored _ ih =>
      have here : front ++ field :: fields = (front ++ [field]) ++ fields := by simp
      rw [Json.named_cons, storeMembers, find?_field distinct]
      simp only [behind.fresh distinct, stored]
      rw [here] at distinct ⊢
      exact ih (behind.given field) distinct
  | @left field fields members record result optional _ ih =>
      have here : front ++ field :: fields = (front ++ [field]) ++ fields := by simp
      rw [here] at distinct ⊢
      exact ih (behind.left optional) distinct
  | @failed field fields members value record problem stored =>
      rw [Json.named_cons, storeMembers, find?_field distinct]
      simp only [behind.fresh distinct, stored]
      rfl

theorem ofMembers_stores {format : RecordFormat α} {members : List (String × Json)}
    {result : Except DecodeError α} (distinct : (format.fields.map Field.name).Nodup)
    (stores : Stores source levels format.fields members format.blank result) :
    format.ofMembers source levels (Json.named members) = result := by
  rw [ofMembers_eq]
  exact stores.run behind_nil distinct

theorem decoder_record {format : RecordFormat α} {members : List (String × Json)}
    {result : Except DecodeError α} (distinct : (format.fields.map Field.name).Nodup)
    (stores : Stores source levels format.fields members format.blank result) :
    format.decoder source (levels + 1) (.record members) = result :=
  ofMembers_stores distinct stores

theorem Stores.optional {β : Type} {decoder : Decoder β} {needed more : Nat} {write : β → Json}
    (back : decoder.ReadsBack needed write) (written : ∀ value, write value ≠ .null)
    {name : String} {set : Option β → α → α} {value : Option β} {fields : List (Field α)}
    {members : List (String × Json)} {record : α} {result : Except DecodeError α}
    (unset : set none record = record)
    (rest : Stores source (more + needed) fields members (set value record) result) :
    Stores source (more + needed) (.optionalField name decoder.optional set :: fields)
      (optionalMember name write value ++ members) record result := by
  cases value with
  | none =>
      rw [unset] at rest
      exact .left rfl rest
  | some given =>
      have read : decoder.optional source (more + needed) (write given) = .ok (some given) := by
        unfold Decoder.optional
        split
        · exact absurd ‹_› (written given)
        · rw [back, Except.map]
      have stored : (Field.optionalField name decoder.optional set).store source (more + needed)
          (write given) record = .ok (set (some given) record) := by
        simp only [Field.optionalField, read, Except.map]
      exact .given stored rest

end RecordFormat

/-! Cases that have a name. -/

theorem FeatureType.readsBack :
    FeatureType.decoder.ReadsBack 0 fun value => .text value.name :=
  Decoder.readsBack_variant (by intro value; cases value <;> rfl)

theorem Granularity.readsBack :
    Granularity.decoder.ReadsBack 0 fun value => .text value.name :=
  Decoder.readsBack_variant (by intro value; cases value <;> rfl)

theorem ElementKind.readsBack :
    ElementKind.decoder.ReadsBack 0 fun value => .text value.name :=
  Decoder.readsBack_variant (by intro value; cases value <;> rfl)

theorem Severity.readsBack : Severity.decoder.ReadsBack 0 fun value => .text value.name :=
  Decoder.readsBack_variant (by intro value; cases value <;> rfl)

theorem DiagnosticKind.readsBack :
    DiagnosticKind.decoder.ReadsBack 0 fun value => .text value.name :=
  Decoder.readsBack_variant (by intro value; cases value <;> rfl)

end FeatureAtlas
