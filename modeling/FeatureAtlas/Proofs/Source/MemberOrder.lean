import FeatureAtlas.Proofs.Source.Rearrangement

/-!
The order of members does not matter to those who decode a document, nor do members that they do not
know. A record is stored member by member; two members that stand next to each other store the same
in either order, and from that the whole is stored the same in any order.
-/

namespace FeatureAtlas

theorem toOption_map {ε α β : Type} (result : Except ε α) (change : α → β) :
    (result.map change).toOption = result.toOption.map change := by
  cases result <;> rfl

theorem toOption_bind {ε α β : Type} (result : Except ε α) (next : α → Except ε β) :
    (result >>= next).toOption = result.toOption.bind fun value => (next value).toOption := by
  cases result <;> rfl

theorem ok_of_toOption {ε α : Type} {result : Except ε α} {value : α}
    (found : result.toOption = some value) : result = .ok value := by
  cases result with
  | error => cases found
  | ok _ => exact congrArg Except.ok (Option.some.inj found)

namespace Decoder

variable {α : Type} {role : Role}

/-- What is decoded does not depend on how the value is written, but for the problem that is found
first. -/
def Orderless (decoder : Decoder α) (role : Role) : Prop :=
  ∀ source levels value other, Rearranged role value other →
    (decoder source levels value).toOption = (decoder source levels other).toOption

theorem orderless_text (role : Role) : Decoder.text.Orderless role := by
  intro source levels value other rearranged
  cases rearranged <;> rfl

theorem orderless_narrow (role : Role) : Decoder.narrow.Orderless role := by
  intro source levels value other rearranged
  cases rearranged <;> rfl

theorem Orderless.optional {decoder : Decoder α} (orderless : decoder.Orderless role) :
    (Decoder.optional decoder).Orderless role := by
  intro source levels value other rearranged
  have here := orderless source levels value other rearranged
  cases rearranged with
  | same => rfl
  | array => simp only [Decoder.optional, toOption_map, here]
  | object => simp only [Decoder.optional, toOption_map, here]

theorem toOption_mapM {decode : Json → Except DecodeError α}
    (each : ∀ index value other, Rearranged (role.item index) value other →
      (decode value).toOption = (decode other).toOption) :
    {index : Nat} → {items others : List Json} → RearrangedItems role index items others →
      (items.mapM decode).toOption = (others.mapM decode).toOption
  | _, _, _, .nil _ _ => rfl
  | _, _, _, .cons item items => by
      simp only [List.mapM_cons, toOption_bind, each _ _ _ item, toOption_mapM each items]

theorem Orderless.list {decoder : Decoder α}
    (orderless : ∀ index, decoder.Orderless (role.item index)) :
    (Decoder.list decoder).Orderless role := by
  intro source levels value other rearranged
  cases levels with
  | zero => rfl
  | succ levels =>
      cases rearranged with
      | same => rfl
      | array items => exact toOption_mapM (fun index => orderless index source levels) items
      | object => rfl

/-! Named cases. -/

theorem toOption_variant_of_length {cases : List (String × α)} {source : ValueSource}
    {levels : Nat} {members : List (Option String × Json)} (several : members.length ≠ 1) :
    (variant cases source levels (.object members)).toOption = none := by
  rcases members with _ | ⟨⟨name, value⟩, more⟩
  · rfl
  · have notEmpty : more.isEmpty = false := by
      cases more with
      | nil => exact absurd rfl several
      | cons _ _ => rfl
    cases name with
    | none => rfl
    | some name =>
        rw [variant]
        split
        · simp only [notEmpty, Bool.false_and, Bool.false_eq_true, if_false, toOption_bind]
          cases caseNamed cases name <;> rfl
        · rfl

theorem isNothing_eq {value other : Json} (rearranged : Rearranged .value value other)
    (source : ValueSource) : isNothing source value = isNothing source other := by
  cases rearranged with
  | same => rfl
  | array => rfl
  | object inner =>
      rename_i members others
      have length := inner.length_eq fun _ => id
      cases members with
      | nil => rw [List.length_eq_zero_iff.mp length.symm]
      | cons _ _ =>
          cases others with
          | nil => cases length
          | cons _ _ => rfl

theorem toOption_variant_members {cases : List (String × α)} {source : ValueSource} {levels : Nat} :
    {role : Role} → {ignored : String → Prop} → {members others : List (Option String × Json)} →
      RearrangedMembers role ignored members others → role = .value →
        (∀ name, ¬ignored name) →
          (variant cases source levels (.object members)).toOption =
            (variant cases source levels (.object others)).toOption
  | _, _, _, _, .nil _ _, _, _ => rfl
  | _, _, (_, value) :: members, (_, other) :: others, .cons name here rest, isValue, nothing => by
      have length := rest.length_eq nothing
      by_cases single : members.length = 0
      · have none : members = [] := List.length_eq_zero_iff.mp single
        have otherNone : others = [] := List.length_eq_zero_iff.mp (length ▸ single)
        rw [none, otherNone]
        cases name with
        | none => rfl
        | some name =>
            rw [isValue] at here
            simp only [variant, isNothing_eq here source]
      · rw [toOption_variant_of_length (by simpa using single),
          toOption_variant_of_length (by simpa [← length] using single)]
  | _, _, _, _, .swap _ _ _, _, _ => by
      rw [toOption_variant_of_length (by simp), toOption_variant_of_length (by simp)]
  | _, _, _, _, .insert _ here _, _, nothing => absurd here (nothing _)
  | _, _, _, _, .trans first second, isValue, nothing =>
      (toOption_variant_members first isValue nothing).trans
        (toOption_variant_members second isValue nothing)

theorem orderless_variant (cases : List (String × α)) : (variant cases).Orderless .value := by
  intro source levels value other rearranged
  cases rearranged with
  | same => rfl
  | array => rfl
  | object inner => exact toOption_variant_members inner rfl fun _ => id

end Decoder

/-! Records that are stored member by member. -/

abbrev Store (α : Type) := ValueSource → Nat → Json → α → Except DecodeError α

namespace Store

variable {α β γ : Type} {role : Role}

def put (decoder : Decoder β) (set : β → α → α) : Store α :=
  fun source levels value record => (decoder source levels value).map fun read => set read record

def Orderless (store : Store α) (role : Role) : Prop :=
  ∀ source levels value other record, Rearranged role value other →
    (store source levels value record).toOption = (store source levels other record).toOption

def Commute (store other : Store α) : Prop :=
  ∀ source levels value otherValue record,
    (store source levels value record >>= other source levels otherValue).toOption =
      (other source levels otherValue record >>= store source levels value).toOption

theorem orderless_put {decoder : Decoder β} {set : β → α → α}
    (orderless : decoder.Orderless role) : Orderless (put decoder set) role := by
  intro source levels value other record rearranged
  rw [put, put, toOption_map, toOption_map, orderless source levels value other rearranged]

theorem commute_put {decoder : Decoder β} {set : β → α → α} {otherDecoder : Decoder γ}
    {otherSet : γ → α → α}
    (apart : ∀ value otherValue record,
      otherSet otherValue (set value record) = set value (otherSet otherValue record)) :
    Commute (put decoder set) (put otherDecoder otherSet) := by
  intro source levels value otherValue record
  simp only [toOption_bind, put, toOption_map]
  cases (decoder source levels value).toOption with
  | none => cases (otherDecoder source levels otherValue).toOption <;> rfl
  | some read =>
      cases (otherDecoder source levels otherValue).toOption with
      | none => rfl
      | some otherRead => exact congrArg some (apart read otherRead record)

end Store

namespace Field

variable {α : Type}

def Orderless (field : Field α) (role : Role) : Prop := Store.Orderless field.store role

def Commute (field other : Field α) : Prop := Store.Commute field.store other.store

instance : Std.Symm (Commute : Field α → Field α → Prop) where
  symm _ _ commute source levels value otherValue record :=
    (commute source levels otherValue value record).symm

end Field

namespace RecordFormat

variable {α : Type} {role : Role} {fields : List (Field α)} {source : ValueSource} {levels : Nat}

def storeMember (fields : List (Field α)) (source : ValueSource) (levels : Nat) :
    Option String × Json → List String × α → Except DecodeError (List String × α)
  | (none, _), _ => .error .malformed
  | (some name, value), (given, record) =>
      match fields.find? fun field => field.name == name with
      | none => if value.readable then .ok (given, record) else .error .malformed
      | some field =>
          if given.contains name then .error (.duplicateField name)
          else (field.store source levels value record).map fun record => (name :: given, record)

theorem storeMembers_cons (member : Option String × Json) (rest : List (Option String × Json))
    (state : List String × α) :
    storeMembers fields source levels (member :: rest) state.1 state.2 =
      storeMember fields source levels member state >>= fun changed =>
        storeMembers fields source levels rest changed.1 changed.2 := by
  obtain ⟨name, value⟩ := member
  obtain ⟨given, record⟩ := state
  cases name with
  | none => rfl
  | some name =>
      rw [storeMembers, storeMember]
      cases fields.find? fun field => field.name == name with
      | none =>
          simp only
          split
          · rfl
          · rfl
      | some field =>
          simp only
          split
          · rfl
          · cases field.store source levels value record <;> rfl

def outline (state : List String × α) : (String → Bool) × α := (state.1.contains, state.2)

/-- What comes of storing, but for the order in which the fields were given and for the problem that
is found first. -/
def outcome (result : Except DecodeError (List String × α)) : Option ((String → Bool) × α) :=
  result.toOption.map outline

section

variable {state other : List String × α}

theorem outline_cons (name : String) (record : α) {given others : List String}
    (same : given.contains = others.contains) :
    outline (name :: given, record) = outline (name :: others, record) := by
  refine Prod.ext (funext fun known => ?_) rfl
  simp only [outline, List.contains_cons, congrFun same known]

theorem outcome_bind {result changed : Except DecodeError (List String × α)}
    {next after : List String × α → Except DecodeError (List String × α)}
    (same : outcome result = outcome changed)
    (each : ∀ state other, outline state = outline other →
      outcome (next state) = outcome (after other)) :
    outcome (result >>= next) = outcome (changed >>= after) := by
  cases result with
  | error =>
      cases changed with
      | error => rfl
      | ok _ => cases same
  | ok state =>
      cases changed with
      | error => cases same
      | ok other => exact each state other (Option.some.inj same)

theorem outcome_storeMember (member : Option String × Json) (same : outline state = outline other) :
    outcome (storeMember fields source levels member state) =
      outcome (storeMember fields source levels member other) := by
  obtain ⟨given, record⟩ := state
  obtain ⟨others, otherRecord⟩ := other
  obtain ⟨known, rfl⟩ : given.contains = others.contains ∧ record = otherRecord :=
    Prod.mk.injEq _ _ _ _ ▸ same
  obtain ⟨_ | name, value⟩ := member
  · rfl
  · rw [storeMember, storeMember]
    cases fields.find? fun field => field.name == name with
    | none =>
        simp only
        split
        · exact congrArg some same
        · rfl
    | some field =>
        simp only
        rw [congrFun known name]
        split
        · rfl
        · simp only [outcome, toOption_map, Option.map_map]
          exact congrArg (fun change => Option.map change _)
            (funext fun record => outline_cons name record known)

theorem outcome_eq_none {result : Except DecodeError (List String × α)}
    {next : List String × α → Except DecodeError (List String × α)}
    (fails : ∀ state, (next state).toOption = none) : outcome (result >>= next) = none := by
  cases result with
  | error => rfl
  | ok state => exact congrArg (Option.map outline) (fails state)

theorem storeMember_unknown {name : String}
    (unknown : fields.find? (fun field => field.name == name) = none) (value : Json)
    (state : List String × α) :
    storeMember fields source levels (some name, value) state =
      if value.readable then .ok state else .error .malformed := by
  obtain ⟨given, record⟩ := state
  rw [storeMember, unknown]

theorem outcome_skip {name : String}
    (unknown : fields.find? (fun field => field.name == name) = none) (value : Json)
    (member : Option String × Json) (state : List String × α) :
    outcome (storeMember fields source levels (some name, value) state >>=
        storeMember fields source levels member) =
      outcome (storeMember fields source levels member state >>=
        storeMember fields source levels (some name, value)) := by
  by_cases readable : value.readable = true
  · have kept (state : List String × α) :
        storeMember fields source levels (some name, value) state = .ok state := by
      rw [storeMember_unknown unknown, if_pos readable]
    have unchanged : (storeMember fields source levels member state >>=
        storeMember fields source levels (some name, value)) =
          storeMember fields source levels member state := by
      cases storeMember fields source levels member state with
      | error => rfl
      | ok changed => exact kept changed
    rw [kept, unchanged]
    rfl
  · have refused (state : List String × α) :
        storeMember fields source levels (some name, value) state = .error .malformed := by
      rw [storeMember_unknown unknown, if_neg readable]
    have refusedLater : outcome (storeMember fields source levels member state >>=
        storeMember fields source levels (some name, value)) = none :=
      outcome_eq_none fun changed => by rw [refused changed]; rfl
    rw [refused, refusedLater]
    rfl

theorem storeMember_known {name : String} {field : Field α}
    (found : fields.find? (fun field => field.name == name) = some field) (value : Json)
    (given : List String) (record : α) :
    storeMember fields source levels (some name, value) (given, record) =
      if given.contains name then .error (.duplicateField name)
      else (field.store source levels value record).map fun record => (name :: given, record) := by
  rw [storeMember, found]

theorem outcome_stored {name otherName : String} {field otherField : Field α}
    (found : fields.find? (fun field => field.name == name) = some field)
    (otherFound : fields.find? (fun field => field.name == otherName) = some otherField)
    (value otherValue : Json) (given : List String) (record : α) :
    outcome (storeMember fields source levels (some name, value) (given, record) >>=
        storeMember fields source levels (some otherName, otherValue)) =
      if given.contains name ∨ given.contains otherName ∨ name = otherName then none
      else (field.store source levels value record >>=
        otherField.store source levels otherValue).toOption.map fun record =>
          outline (otherName :: name :: given, record) := by
  have later (record : α) :
      storeMember fields source levels (some otherName, otherValue) (name :: given, record) =
        if given.contains otherName ∨ name = otherName then .error (.duplicateField otherName)
        else (otherField.store source levels otherValue record).map fun record =>
          (otherName :: name :: given, record) := by
    have known : (name :: given).contains otherName = true ↔
        given.contains otherName ∨ name = otherName := by
      rw [List.contains_cons, Bool.or_eq_true, beq_iff_eq, or_comm, @eq_comm _ otherName]
    simp only [storeMember_known otherFound, known]
  rw [storeMember_known found]
  by_cases repeated : given.contains name
  · rw [if_pos repeated, if_pos (.inl repeated)]
    rfl
  · rw [if_neg repeated]
    by_cases taken : given.contains otherName ∨ name = otherName
    · rw [if_pos (.inr taken)]
      cases field.store source levels value record with
      | error => rfl
      | ok changed =>
          have refused := later changed
          rw [if_pos taken] at refused
          exact congrArg outcome refused
    · rw [if_neg fun either => either.elim repeated taken]
      cases field.store source levels value record with
      | error => rfl
      | ok changed =>
          have stored := later changed
          rw [if_neg taken] at stored
          refine (congrArg outcome stored).trans ?_
          rw [outcome, toOption_map, Option.map_map]
          rfl

theorem outcome_swap_known {name otherName : String} {field otherField : Field α}
    (commuting : fields.Pairwise Field.Commute)
    (found : fields.find? (fun field => field.name == name) = some field)
    (otherFound : fields.find? (fun field => field.name == otherName) = some otherField)
    (value otherValue : Json) (given : List String) (record : α) :
    outcome (storeMember fields source levels (some name, value) (given, record) >>=
        storeMember fields source levels (some otherName, otherValue)) =
      outcome (storeMember fields source levels (some otherName, otherValue) (given, record) >>=
        storeMember fields source levels (some name, value)) := by
  have turned : (given.contains name ∨ given.contains otherName ∨ name = otherName) ↔
      (given.contains otherName ∨ given.contains name ∨ otherName = name) := by
    rw [or_left_comm, @eq_comm _ name]
  rw [outcome_stored found otherFound, outcome_stored otherFound found, if_congr turned rfl rfl]
  split
  · rfl
  · rename_i apart
    have different : field ≠ otherField := by
      rintro rfl
      have same := List.find?_some found
      have otherSame := List.find?_some otherFound
      rw [beq_iff_eq] at same otherSame
      exact apart (.inr (.inr (otherSame.symm.trans same)))
    rw [commuting.forall (List.mem_of_find?_eq_some found)
      (List.mem_of_find?_eq_some otherFound) different]
    refine congrArg (fun change => Option.map change _) (funext fun record => ?_)
    refine Prod.ext (funext fun known => ?_) rfl
    simp only [outline, List.contains_cons, Bool.or_left_comm]

theorem outcome_swap (commuting : fields.Pairwise Field.Commute)
    (first second : Option String × Json) (state : List String × α) :
    outcome (storeMember fields source levels first state >>=
        storeMember fields source levels second) =
      outcome (storeMember fields source levels second state >>=
        storeMember fields source levels first) := by
  obtain ⟨given, record⟩ := state
  obtain ⟨_ | name, value⟩ := first
  · exact (outcome_eq_none fun _ => rfl).symm
  · obtain ⟨_ | otherName, otherValue⟩ := second
    · exact outcome_eq_none fun _ => rfl
    · cases found : fields.find? fun field => field.name == name with
      | none => exact outcome_skip found value _ _
      | some field =>
          cases otherFound : fields.find? fun field => field.name == otherName with
          | none => exact (outcome_skip otherFound otherValue _ _).symm
          | some otherField =>
              exact outcome_swap_known commuting found otherFound value otherValue given record

end

theorem outcome_storeMembers (members : List (Option String × Json)) {state other : List String × α}
    (same : outline state = outline other) :
    outcome (storeMembers fields source levels members state.1 state.2) =
      outcome (storeMembers fields source levels members other.1 other.2) := by
  induction members generalizing state other with
  | nil => exact congrArg some same
  | cons member rest ih =>
      rw [storeMembers_cons, storeMembers_cons]
      exact outcome_bind (outcome_storeMember member same) fun _ _ => ih

theorem outcome_storeMember_rearranged {name : Option String} {value other : Json}
    (orderless : ∀ field ∈ fields, field.Orderless (role.member field.name))
    (rearranged : Rearranged (name.elim .value role.member) value other)
    (state : List String × α) :
    outcome (storeMember fields source levels (name, value) state) =
      outcome (storeMember fields source levels (name, other) state) := by
  obtain ⟨given, record⟩ := state
  cases name with
  | none => rfl
  | some name =>
      cases found : fields.find? fun field => field.name == name with
      | none =>
          rw [storeMember_unknown found, storeMember_unknown found, rearranged.readable_eq]
      | some field =>
          have named : field.name = name := by simpa using List.find?_some found
          have stored := orderless field (List.mem_of_find?_eq_some found) source levels value other
            record (named ▸ rearranged)
          rw [storeMember_known found, storeMember_known found]
          split
          · rfl
          · rw [outcome, outcome, toOption_map, toOption_map, stored]

/-- Members that are rearranged are stored alike. Two that change places store the same, and from
there on it does not matter in which order they were given. -/
theorem outcome_rearranged (commuting : fields.Pairwise Field.Commute)
    (orderless : ∀ field ∈ fields, field.Orderless (role.member field.name)) :
    {ignored : String → Prop} → {members others : List (Option String × Json)} →
      RearrangedMembers role ignored members others →
        (∀ name, ignored name → name ∉ fields.map Field.name) → ∀ state : List String × α,
          outcome (storeMembers fields source levels members state.1 state.2) =
            outcome (storeMembers fields source levels others state.1 state.2)
  | _, _, _, .nil _ _, _, _ => rfl
  | _, _, _, .cons _ here rest, unknown, state => by
      rw [storeMembers_cons, storeMembers_cons]
      refine outcome_bind (outcome_storeMember_rearranged orderless here state) ?_
      intro changed other same
      exact (outcome_rearranged commuting orderless rest unknown changed).trans
        (outcome_storeMembers _ same)
  | _, _, _, .swap first second members, _, state => by
      simp only [storeMembers_cons, ← bind_assoc]
      exact outcome_bind (outcome_swap commuting first second state) fun _ _ same =>
        outcome_storeMembers members same
  | _, members, (some name, value) :: _, .insert _ here leaf, unknown, state => by
      have ignored : fields.find? (fun field => field.name == name) = none := by
        rw [List.find?_eq_none]
        intro field isField named
        exact unknown name here (List.mem_map.mpr ⟨field, isField, eq_of_beq named⟩)
      rw [storeMembers_cons, storeMember_unknown ignored, if_pos (Json.readable_of_isLeaf leaf)]
      rfl
  | _, _, _, .trans first second, unknown, state =>
      (outcome_rearranged commuting orderless first unknown state).trans
        (outcome_rearranged commuting orderless second unknown state)

theorem toOption_storeItems :
    {index : Nat} → {items others : List Json} → RearrangedItems role index items others →
      (fields : List (Field α)) →
        (∀ position (field : Field α), fields[position]? = some field →
          field.Orderless (role.item (index + position))) → ∀ record : α,
            (storeItems source levels fields items record).toOption =
              (storeItems source levels fields others record).toOption
  | _, _, _, .nil _ _, _, _, _ => rfl
  | _, _, _, .cons _ _, [], _, _ => rfl
  | index, _, _, .cons here rest, field :: fields, orderless, record => by
      have first := orderless 0 field rfl source levels _ _ record here
      have later (position : Nat) (other : Field α) (found : fields[position]? = some other) :
          other.Orderless (role.item (index + 1 + position)) := by
        have behind := orderless (position + 1) other (by simpa using found)
        rwa [Nat.add_right_comm]
      simp only [storeItems, toOption_bind, first, toOption_storeItems rest fields later]

theorem toOption_ofMembers (format : RecordFormat α) (members : List (Option String × Json)) :
    (format.ofMembers source levels members).toOption =
      (outcome (storeMembers format.fields source levels members [] format.blank)).bind
        fun stored =>
          if format.fields.any fun field => field.required && !stored.1 field.name then none
          else some stored.2 := by
  rw [ofMembers, toOption_bind]
  cases storeMembers format.fields source levels members [] format.blank with
  | error => rfl
  | ok state =>
      obtain ⟨given, record⟩ := state
      simp only [Except.toOption, outcome, Option.map_some, Option.bind_some, outline]
      cases missing : format.fields.find? fun field =>
          field.required && !given.contains field.name with
      | none =>
          rw [List.find?_eq_none] at missing
          rw [if_neg (by simpa using missing)]
          rfl
      | some field =>
          have lacks := List.find?_some missing
          rw [if_pos (List.any_eq_true.mpr ⟨field, List.mem_of_find?_eq_some missing, lacks⟩)]

structure Orderless (format : RecordFormat α) (role : Role) : Prop where
  commuting : format.fields.Pairwise Field.Commute
  fields : ∀ field ∈ format.fields, field.Orderless (role.member field.name)

namespace Orderless

variable {format : RecordFormat α}

theorem ofMembers (orderless : format.Orderless role) {ignored : String → Prop}
    (unknown : ∀ name, ignored name → name ∉ format.fields.map Field.name)
    {members others : List (Option String × Json)}
    (rearranged : RearrangedMembers role ignored members others) :
    (format.ofMembers source levels members).toOption =
      (format.ofMembers source levels others).toOption := by
  have stored : outcome (storeMembers format.fields source levels members [] format.blank) =
      outcome (storeMembers format.fields source levels others [] format.blank) :=
    outcome_rearranged orderless.commuting orderless.fields rearranged unknown ([], format.blank)
  rw [toOption_ofMembers, toOption_ofMembers, stored]

theorem decoder (orderless : format.Orderless role)
    (named : format.fields.map Field.name = role.fields)
    (items : ∀ index, role.item index = ((role.fields[index]?).map role.member).getD .value)
    (unknown : ∀ members name, role.Ignores members name → name ∉ role.fields) :
    format.decoder.Orderless role := by
  intro source levels value other rearranged
  cases levels with
  | zero => rfl
  | succ levels =>
      cases rearranged with
      | same => rfl
      | object rearranged =>
          refine orderless.ofMembers (fun name here => ?_) rearranged
          exact named ▸ unknown _ name here
      | array rearranged =>
          refine toOption_storeItems rearranged format.fields (fun position field found => ?_) _
          have here : role.item (0 + position) = role.member field.name := by
            rw [items, Nat.zero_add, ← named, List.getElem?_map, found]
            rfl
          rw [here]
          exact orderless.fields field (List.mem_of_getElem? found)

end Orderless

end RecordFormat

end FeatureAtlas
